import EmbBoard.Joystick.Keys
import EmbBoard.Support.Runs
import Mathlib.Algebra.Group.Prod

/-!
# The shell application

The main loop of the Wishbone shell application.  Its switch sets a command for
UP and DOWN only: after LEFT or RIGHT the loop evaluates the command of an
earlier key, or what was in the variable at the start.
-/

namespace EmbBoard.Joystick

open EmbBoard.Runs

/-! ## The loop -/

/-- The key of a result of `readKeys`, if it is one of the four. -/
def Key.ofCode (keys : BitVec 32) : Option Key :=
  [Key.up, .down, .left, .right].find? fun k => k.code = keys

namespace Loop

/-- The switch over the keys. -/
def shellDispatch (keys : BitVec 32) (s : Loop) : Loop :=
  if keys = Key.up.code then
    { s with wboReg1 := s.count, cmd := some .cntUp, pressed := true }
  else if keys = Key.down.code then
    { s with wboReg1 := s.count, cmd := some .cntDwn, pressed := true }
  else if keys = Key.left.code then
    { s with wboReg2 := s.pwm, pressed := true }
  else if keys = Key.right.code then
    { s with wboReg2 := s.pwm, pressed := true }
  else if keys = center then
    { s with wboReg1 := 0x0000, wboReg2 := 0x8000 }
  else { s with released := true }

/-- One pass of the loop. -/
def shellIterate (s : Loop) (keys : BitVec 32) : Loop :=
  s.evaluate.shellDispatch keys

/-- The next pass evaluates a command. -/
def Evaluates (s : Loop) : Prop := s.pressed = true ∧ s.released = true

end Loop

/-! ## Triggers -/

/-- The four keys among the results of `readKeys`, in order. -/
def keysRead (readings : List (BitVec 32)) : List Key :=
  readings.filterMap Key.ofCode

/-- The last of them. -/
def trigger (readings : List (BitVec 32)) : Option Key :=
  (keysRead readings).getLast?

/-- A key for the duty cycle. -/
def Key.Horizontal (k : Key) : Prop := k = .left ∨ k = .right

/-- An evaluation does what its trigger stands for. -/
def FollowsTrigger (s : Loop) (trigger : Option Key) : Prop :=
  s.Evaluates → ∀ k, trigger = some k →
    s.evaluate.position = s.position + k.cmd.move

/-- The command that the switch sets on a key. -/
def Key.shellCmd : Key → Option Cmd
  | .up => some .cntUp
  | .down => some .cntDwn
  | .left => none
  | .right => none

theorem Key.shellCmd_eq_none_iff (k : Key) :
    k.shellCmd = none ↔ k.Horizontal := by
  cases k <;> simp [Key.shellCmd, Key.Horizontal]

theorem Key.shellCmd_of_not_horizontal {k : Key} (h : ¬k.Horizontal) :
    k.shellCmd = some k.cmd := by
  cases k with
  | up => rfl
  | down => rfl
  | left => exact absurd (Or.inl rfl) h
  | right => exact absurd (Or.inr rfl) h

/-- The command of a key for the duty cycle is never set. -/
theorem Key.shellCmd_ne_of_horizontal {k : Key} (h : k.Horizontal) (k' : Key) :
    k'.shellCmd ≠ some k.cmd := by
  rcases h with rfl | rfl
  · cases k' <;> decide
  · cases k' <;> decide

/-! ## The remembered command -/

theorem Loop.evaluate_cmd (s : Loop) : s.evaluate.cmd = s.cmd := by
  unfold Loop.evaluate
  split
  · unfold Loop.apply
    split <;> rfl
  · rfl

theorem Loop.shellDispatch_cmd (keys : BitVec 32) (s : Loop) :
    (s.shellDispatch keys).cmd =
      ((Key.ofCode keys).bind Key.shellCmd).or s.cmd := by
  unfold Loop.shellDispatch
  by_cases hup : keys = Key.up.code
  · rw [if_pos hup, hup]
    rfl
  by_cases hdown : keys = Key.down.code
  · rw [if_neg hup, if_pos hdown, hdown]
    rfl
  by_cases hleft : keys = Key.left.code
  · rw [if_neg hup, if_neg hdown, if_pos hleft, hleft]
    rfl
  by_cases hright : keys = Key.right.code
  · rw [if_neg hup, if_neg hdown, if_neg hleft, if_pos hright, hright]
    rfl
  have hnone : Key.ofCode keys = none := by
    simp [Key.ofCode, Ne.symm hup, Ne.symm hdown, Ne.symm hleft,
      Ne.symm hright]
  rw [if_neg hup, if_neg hdown, if_neg hleft, if_neg hright, hnone]
  split <;> rfl

/-- The loop remembers the command of the last key that sets one. -/
theorem run_shellIterate_cmd (s₀ : Loop) (p : List (BitVec 32)) :
    (run Loop.shellIterate s₀ p).cmd =
      ((keysRead p).filterMap Key.shellCmd).getLast?.or s₀.cmd := by
  induction p using List.reverseRecOn with
  | nil => rfl
  | append_singleton p keys ih =>
      have hkeys : keysRead (p ++ [keys]) =
          keysRead p ++ (Key.ofCode keys).toList := by
        rw [keysRead, List.filterMap_append]
        cases hcode : Key.ofCode keys <;> simp [keysRead, hcode]
      rw [run_append, run_cons, run_nil, Loop.shellIterate,
        Loop.shellDispatch_cmd, Loop.evaluate_cmd, ih, hkeys,
        List.filterMap_append, List.getLast?_append, Option.or_assoc]
      congr 1
      cases Key.ofCode keys with
      | none => rfl
      | some k => cases hcmd : k.shellCmd <;> simp [hcmd]

/-- The command of a key for the duty cycle is only remembered from the
start. -/
theorem lastCmd_eq_iff_of_horizontal {k : Key} (hk : k.Horizontal)
    (keys : List Key) (cmd : Option Cmd) :
    (keys.filterMap Key.shellCmd).getLast?.or cmd = some k.cmd ↔
      cmd = some k.cmd ∧ ∀ k' ∈ keys, k'.Horizontal := by
  cases hset : (keys.filterMap Key.shellCmd).getLast? with
  | none =>
      have hall : ∀ k' ∈ keys, k'.Horizontal := by
        intro k' hk'
        rw [List.getLast?_eq_none_iff, List.filterMap_eq_nil_iff] at hset
        exact k'.shellCmd_eq_none_iff.mp (hset k' hk')
      rw [Option.none_or]
      exact (and_iff_left hall).symm
  | some c =>
      obtain ⟨k', hk', hc⟩ :=
        List.mem_filterMap.mp (List.mem_of_getLast? hset)
      rw [Option.some_or, ← hc]
      refine iff_of_false (Key.shellCmd_ne_of_horizontal hk k') ?_
      rintro ⟨-, hall⟩
      rw [k'.shellCmd_eq_none_iff.mpr (hall k' hk')] at hc
      cases hc

/-- The command remembered is that of the trigger, except for the keys that
set none, where it depends on everything before. -/
theorem run_shellIterate_cmd_iff (s₀ : Loop) {p : List (BitVec 32)} {k : Key}
    (hk : trigger p = some k) :
    (run Loop.shellIterate s₀ p).cmd = some k.cmd ↔
      (k.Horizontal → s₀.cmd = some k.cmd ∧ ∀ k' ∈ keysRead p, k'.Horizontal) := by
  rw [run_shellIterate_cmd]
  by_cases hhor : k.Horizontal
  · rw [lastCmd_eq_iff_of_horizontal hhor]
    exact ⟨fun h _ => h, fun h => h hhor⟩
  · obtain ⟨earlier, hlast⟩ := List.getLast?_eq_some_iff.mp hk
    have hset := Key.shellCmd_of_not_horizontal hhor
    simp [hlast, hset, hhor]

/-! ## Evaluations -/

theorem Cmd.move_injective : Function.Injective Cmd.move := by
  intro c c' h
  cases c <;> cases c' <;>
    first
    | rfl
    | exact absurd h (by decide)

theorem Cmd.move_ne_zero (c : Cmd) : c.move ≠ 0 := by
  cases c <;> decide

/-- An evaluation moves as the remembered command says. -/
theorem Loop.evaluate_position_iff {s : Loop} (h : s.Evaluates) (c : Cmd) :
    s.evaluate.position = s.position + c.move ↔ s.cmd = some c := by
  have hstate : s.evaluate.position = (s.apply s.cmd).position := by
    rw [Loop.evaluate, h.1, h.2]
    rfl
  rw [hstate]
  cases hcmd : s.cmd with
  | none =>
      have hstay : (s.apply none).position = s.position := rfl
      rw [hstay, left_eq_add]
      exact iff_of_false c.move_ne_zero (Option.some_ne_none c).symm
  | some c' =>
      rw [Loop.position_apply, add_right_inj, Option.some_inj]
      exact Cmd.move_injective.eq_iff

/-- From the start of the loop, all evaluations in a sequence of readings do
what their triggers stand for exactly when every evaluation that LEFT or RIGHT
triggers finds only keys for the duty cycle read so far, and its own command in
the variable at the start. -/
theorem followsTrigger_iff (cmd : Option Cmd) (wboReg1 wboReg2 : BitVec 16)
    (readings : List (BitVec 32)) :
    (∀ p, p <+: readings →
      FollowsTrigger
        (run Loop.shellIterate (.start cmd wboReg1 wboReg2) p) (trigger p)) ↔
    ∀ p, p <+: readings →
      (run Loop.shellIterate (.start cmd wboReg1 wboReg2) p).Evaluates →
        ∀ k, trigger p = some k → k.Horizontal →
          cmd = some k.cmd ∧ ∀ k' ∈ keysRead p, k'.Horizontal := by
  apply forall_congr'
  intro p
  apply imp_congr_right
  intro _
  apply imp_congr_right
  intro heval
  apply forall_congr'
  intro k
  apply imp_congr_right
  intro hk
  rw [Loop.evaluate_position_iff heval]
  exact run_shellIterate_cmd_iff _ hk

/-- UP, then LEFT: the evaluation that LEFT triggers counts. -/
theorem left_counts :
    let p : List (BitVec 32) := [Key.up.code, 0, Key.left.code, 0]
    let s := run Loop.shellIterate (.start none 0 0) p
    trigger p = some .left ∧ s.Evaluates ∧ s.count = 1 ∧
      s.evaluate.count = 2 ∧ s.evaluate.pwm = s.pwm ∧
      ¬FollowsTrigger s (trigger p) := by
  intro p s
  have htrigger : trigger p = some .left := by decide
  have heval : s.Evaluates := ⟨by decide, by decide⟩
  have hcount : s.evaluate.position ≠ s.position + Key.left.cmd.move := by
    decide
  refine ⟨htrigger, heval, by decide, by decide, by decide, ?_⟩
  intro h
  exact hcount (h heval .left htrigger)

end EmbBoard.Joystick
