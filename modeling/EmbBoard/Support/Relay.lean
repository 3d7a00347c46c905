import Mathlib.Data.List.Basic
import Mathlib.Data.List.Infix

/-!
# Relays

A chain of buffers between a sender and a receiver, without the buffers: what
was sent, what was delivered, and what is under way, oldest first.  How much
the chain may lose is a relation `R` between what is left and what there was:
`Eq` for a chain that loses nothing, `List.Sublist` for one that may lose any
part but keeps the order of the rest and repeats nothing.
-/

namespace EmbBoard

/-- A relation between what is left of a list and the list, for lists that are
handed on piece by piece. -/
structure LossRel {α : Type*} (R : List α → List α → Prop) : Prop where
  refl : ∀ xs, R xs xs
  trans : ∀ {xs ys zs}, R xs ys → R ys zs → R xs zs
  append : ∀ {xs ys xs' ys'}, R xs ys → R xs' ys' → R (xs ++ xs') (ys ++ ys')

theorem lossRel_eq {α : Type*} : LossRel (@Eq (List α)) where
  refl := fun _ => rfl
  trans := Eq.trans
  append := fun h h' => by rw [h, h']

theorem lossRel_sublist {α : Type*} : LossRel (@List.Sublist α) where
  refl := List.Sublist.refl
  trans := List.Sublist.trans
  append := List.Sublist.append

section LossRel

variable {α : Type*} {R : List α → List α → Prop}

theorem LossRel.append_left (hR : LossRel R) (zs : List α) {xs ys : List α}
    (h : R xs ys) : R (zs ++ xs) (zs ++ ys) :=
  hR.append (hR.refl zs) h

theorem LossRel.append_right (hR : LossRel R) (zs : List α) {xs ys : List α}
    (h : R xs ys) : R (xs ++ zs) (ys ++ zs) :=
  hR.append h (hR.refl zs)

end LossRel

/-- A chain of buffers, from its two ends. -/
structure Relay {α : Type*} (R : List α → List α → Prop) where
  sent : List α
  delivered : List α
  underway : List α
  law : R (delivered ++ underway) sent

namespace Relay

variable {α : Type*} {R : List α → List α → Prop}

/-- Nothing sent yet. -/
def empty (hR : LossRel R) : Relay R where
  sent := []
  delivered := []
  underway := []
  law := hR.refl []

/-- Send `xs`; `rest` is what is then under way. -/
def send (hR : LossRel R) (r : Relay R) (xs rest : List α)
    (hrest : R rest (r.underway ++ xs)) : Relay R where
  sent := r.sent ++ xs
  delivered := r.delivered
  underway := rest
  law := by
    have hlaw := hR.append_right xs r.law
    rw [List.append_assoc] at hlaw
    exact hR.trans (hR.append_left r.delivered hrest) hlaw

/-- Deliver `moved`; `rest` is what is then under way. -/
def deliver (hR : LossRel R) (r : Relay R) (moved rest : List α)
    (hrest : R (moved ++ rest) r.underway) : Relay R where
  sent := r.sent
  delivered := r.delivered ++ moved
  underway := rest
  law := by
    rw [List.append_assoc]
    exact hR.trans (hR.append_left r.delivered hrest) r.law

end Relay

end EmbBoard
