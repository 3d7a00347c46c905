import Mathlib.Data.List.Basic
import Mathlib.Data.List.Infix

/-!
# Lossless queues

The purpose of a buffer between a producer and a consumer, without its
representation: what was accepted is what was delivered followed by what still
waits.  The law is a field, so a `Fifo` that lost, repeated or reordered an
entry cannot be built.
-/

namespace EmbBoard

/-- A queue with its history. -/
structure Fifo (α : Type*) where
  accepted : List α
  delivered : List α
  queue : List α
  conserved : accepted = delivered ++ queue

namespace Fifo

variable {α : Type*}

/-- Nothing accepted, nothing waiting. -/
def empty : Fifo α where
  accepted := []
  delivered := []
  queue := []
  conserved := rfl

/-- Accept the entries `xs` behind those that wait. -/
def accept (f : Fifo α) (xs : List α) : Fifo α where
  accepted := f.accepted ++ xs
  delivered := f.delivered
  queue := f.queue ++ xs
  conserved := by rw [f.conserved, List.append_assoc]

/-- Deliver the entries `moved` from the front. -/
def deliver (f : Fifo α) (moved rest : List α)
    (hsplit : f.queue = moved ++ rest) : Fifo α where
  accepted := f.accepted
  delivered := f.delivered ++ moved
  queue := rest
  conserved := by rw [f.conserved, hsplit, List.append_assoc]

theorem delivered_prefix (f : Fifo α) : f.delivered <+: f.accepted := by
  rw [f.conserved]
  exact List.prefix_append _ _

end Fifo

end EmbBoard
