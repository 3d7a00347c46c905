import EmbBoard.Joystick.Keys
import EmbBoard.Support.RunLength
import Mathlib.Algebra.BigOperators.Group.List.Basic
import Mathlib.Algebra.Group.Prod
import Mathlib.Data.BitVec
import Mathlib.Tactic.Abel
import Mathlib.Tactic.Ring

/-!
# Counting presses

The main loop of the program with the FPGA peripherals.  A press is a maximal
run of readings of one key.  The loop evaluates a command once it has seen a
key and no key, in either order: a press that lasts longer than one reading
is counted at its second reading, where the idle readings before it are still
remembered, and again when the key is released.
-/

namespace EmbBoard.Joystick

open RunLength

/-! ## The loop -/

namespace Loop

/-- The switch over the keys. -/
def dispatch (keys : BitVec 32) (s : Loop) : Loop :=
  if keys = Key.up.code then
    { s with wboReg1 := s.count, cmd := some .cntUp, pressed := true }
  else if keys = Key.down.code then
    { s with wboReg1 := s.count, cmd := some .cntDwn, pressed := true }
  else if keys = Key.left.code then
    { s with wboReg2 := s.pwm, cmd := some .pwmUp, pressed := true }
  else if keys = Key.right.code then
    { s with wboReg2 := s.pwm, cmd := some .pwmDwn, pressed := true }
  else if keys = center then
    { s with wboReg1 := 0x0000, wboReg2 := 0x8000 }
  else { s with released := true }

/-- One pass of the loop. -/
def iterate (s : Loop) (keys : BitVec 32) : Loop :=
  s.evaluate.dispatch keys

/-- The loop over a finite sequence of results of `readKeys`. -/
def main (s : Loop) (readings : List (Option Key)) : Loop :=
  (readings.map code).foldl iterate s

end Loop

/-! ## Presses -/

/-- A sequence of presses: no key for at least two readings at both ends, and
for at least one between presses. -/
structure Separated (readings : List (Option Key)) : Prop where
  first : ∃ n, 2 ≤ n ∧ (runs readings).head? = some (none, n)
  last : ∃ n, 2 ≤ n ∧ (runs readings).getLast? = some (none, n)
  between : (runs readings).IsChain fun a b => a.1 = none ∨ b.1 = none

/-- The keys of the presses, in order. -/
def presses (readings : List (Option Key)) : List Key :=
  (runs readings).filterMap Prod.fst

/-- Whether a press that follows now is armed: no command waits and an idle
reading has been seen since the last one was evaluated. -/
def armedAfter (armed : Bool) : Option Key × ℕ → Bool
  | (none, n) => armed || 1 < n
  | (some _, n) => armed && n = 1

/-- The key of a run that is an armed press longer than one reading. -/
def doubledKey (armed : Bool) : Option Key × ℕ → Option Key
  | (none, _) => none
  | (some k, n) => if armed && 1 < n then some k else none

/-- The keys of the armed presses longer than one reading. -/
def doubled : Bool → List (Option Key × ℕ) → List Key
  | _, [] => []
  | armed, r :: rest =>
      (doubledKey armed r).toList ++ doubled (armedAfter armed r) rest

/-- What a list of keys adds to counter and duty cycle. -/
def moves (keys : List Key) : BitVec 16 × BitVec 16 :=
  (keys.map fun k => k.cmd.move).sum

/-! ## One reading -/

theorem Loop.dispatch_none (s : Loop) :
    s.dispatch (code none) = { s with released := true } := rfl

/-- A key only changes the command, its flag and the registers. -/
theorem Loop.dispatch_some (k : Key) (s : Loop) :
    (s.dispatch (code (some k))).position = s.position ∧
      (s.dispatch (code (some k))).pressed = true ∧
      (s.dispatch (code (some k))).released = s.released ∧
      (s.dispatch (code (some k))).cmd = some k.cmd := by
  cases k <;> exact ⟨rfl, rfl, rfl, rfl⟩

/-- A loop state between the evaluation and the next reading: flags and
position, and the command when a press waits for its release. -/
inductive Phase
  | fresh | released | held (cmd : Cmd)

/-- The state is in a phase, at a position. -/
def Loop.In (s : Loop) (phase : Phase) (p : BitVec 16 × BitVec 16) : Prop :=
  s.position = p ∧
    match phase with
    | .fresh => s.pressed = false ∧ s.released = false
    | .released => s.pressed = false ∧ s.released = true
    | .held cmd => s.pressed = true ∧ s.released = false ∧ s.cmd = some cmd

/-- One reading and the evaluation that follows it. -/
def Loop.settle (s : Loop) (r : Option Key) : Loop :=
  (s.dispatch (code r)).evaluate

variable {s : Loop} {p : BitVec 16 × BitVec 16}

theorem Loop.evaluate_of_both {cmd : Cmd} (hpressed : s.pressed = true)
    (hreleased : s.released = true) (hcmd : s.cmd = some cmd)
    (hpos : s.position = p) : s.evaluate.In .fresh (p + cmd.move) := by
  have hstate : s.evaluate =
      { s.apply (some cmd) with pressed := false, released := false } := by
    rw [Loop.evaluate, hpressed, hreleased, hcmd]
    rfl
  rw [hstate]
  refine ⟨?_, rfl, rfl⟩
  rw [← hpos]
  exact Loop.position_apply cmd s

theorem Loop.evaluate_of_not_both
    (h : (s.pressed && s.released) = false) : s.evaluate = s := by
  simp [Loop.evaluate, h]

/-- An idle reading while no key waits for its release. -/
theorem Loop.settle_none_of_not_pressed (hpos : s.position = p)
    (h : s.pressed = false) : (s.settle none).In .released p := by
  rw [Loop.settle, Loop.dispatch_none,
    Loop.evaluate_of_not_both (by simp [h])]
  exact ⟨hpos, h, rfl⟩

/-- A key while no idle reading is remembered. -/
theorem Loop.settle_some_of_not_released (hpos : s.position = p)
    (h : s.released = false) (k : Key) :
    (s.settle (some k)).In (.held k.cmd) p := by
  obtain ⟨hpos', hpressed', hreleased', hcmd'⟩ := Loop.dispatch_some k s
  rw [h] at hreleased'
  rw [Loop.settle, Loop.evaluate_of_not_both (by simp [hreleased'])]
  exact ⟨hpos'.trans hpos, hpressed', hreleased', hcmd'⟩

theorem Loop.In.idle_fresh (h : s.In .fresh p) :
    (s.settle none).In .released p :=
  Loop.settle_none_of_not_pressed h.1 h.2.1

theorem Loop.In.idle_released (h : s.In .released p) :
    (s.settle none).In .released p :=
  Loop.settle_none_of_not_pressed h.1 h.2.1

theorem Loop.In.idle_held {cmd : Cmd} (h : s.In (.held cmd) p) :
    (s.settle none).In .fresh (p + cmd.move) := by
  obtain ⟨hpos, hpressed, -, hcmd⟩ := h
  exact Loop.evaluate_of_both hpressed rfl hcmd hpos

theorem Loop.In.key_fresh (h : s.In .fresh p) (k : Key) :
    (s.settle (some k)).In (.held k.cmd) p :=
  Loop.settle_some_of_not_released h.1 h.2.2 k

theorem Loop.In.key_held {cmd : Cmd} (h : s.In (.held cmd) p) (k : Key) :
    (s.settle (some k)).In (.held k.cmd) p :=
  Loop.settle_some_of_not_released h.1 h.2.2.1 k

theorem Loop.In.key_released (h : s.In .released p) (k : Key) :
    (s.settle (some k)).In .fresh (p + k.cmd.move) := by
  obtain ⟨hpos, -, hreleased⟩ := h
  obtain ⟨hpos', hpressed', hreleased', hcmd'⟩ := Loop.dispatch_some k s
  exact Loop.evaluate_of_both hpressed' (hreleased'.trans hreleased) hcmd'
    (hpos'.trans hpos)

/-! ## One run of readings -/

/-- Readings, each followed by its evaluation. -/
def Loop.settleAll (s : Loop) (readings : List (Option Key)) : Loop :=
  readings.foldl Loop.settle s

theorem Loop.In.gap_released (h : s.In .released p) (n : ℕ) :
    (s.settleAll (List.replicate n none)).In .released p := by
  induction n generalizing s with
  | zero => exact h
  | succ n ih => exact ih h.idle_released

theorem Loop.In.gap_fresh (h : s.In .fresh p) (n : ℕ) :
    (s.settleAll (List.replicate (n + 1) none)).In .released p :=
  h.idle_fresh.gap_released n

theorem Loop.In.gap_held {cmd : Cmd} (h : s.In (.held cmd) p) (n : ℕ) :
    (s.settleAll (List.replicate (n + 2) none)).In .released (p + cmd.move) :=
  h.idle_held.gap_fresh n

theorem Loop.In.press_held {k : Key} (h : s.In (.held k.cmd) p) (n : ℕ) :
    (s.settleAll (List.replicate n (some k))).In (.held k.cmd) p := by
  induction n generalizing s with
  | zero => exact h
  | succ n ih => exact ih (h.key_held k)

theorem Loop.In.press_fresh (h : s.In .fresh p) (k : Key) (n : ℕ) :
    (s.settleAll (List.replicate (n + 1) (some k))).In (.held k.cmd) p :=
  (h.key_fresh k).press_held n

theorem Loop.In.press_released (h : s.In .released p) (k : Key) (n : ℕ) :
    (s.settleAll (List.replicate (n + 2) (some k))).In (.held k.cmd)
      (p + k.cmd.move) :=
  (h.key_released k).press_fresh k n

/-- The state before a run with this reading.  `owed` is the position once a
command that waits has been evaluated. -/
def Ready (armed : Bool) (r : Option Key) (owed : BitVec 16 × BitVec 16)
    (s : Loop) : Prop :=
  match r, armed with
  | none, true => s.In .fresh owed
  | none, false => ∃ cmd p, s.In (.held cmd) p ∧ owed = p + cmd.move
  | some _, true => s.In .released owed
  | some _, false => s.In .fresh owed

/-- What a run adds to the position owed. -/
def runMoves (armed : Bool) (r : Option Key × ℕ) :
    BitVec 16 × BitVec 16 :=
  moves r.1.toList + moves (doubledKey armed r).toList

theorem ready_gap {armed : Bool} {n : ℕ} (hn : 0 < n)
    (h : Ready armed none p s) (k : Key) :
    Ready (armedAfter armed (none, n)) (some k) p
      (s.settleAll (List.replicate n none)) := by
  obtain ⟨m, rfl⟩ := Nat.exists_eq_succ_of_ne_zero hn.ne'
  cases armed with
  | true => exact h.gap_fresh m
  | false =>
      obtain ⟨cmd, q, hheld, rfl⟩ := h
      cases m with
      | zero => exact hheld.idle_held
      | succ m => simpa [armedAfter, Ready] using hheld.gap_held m

theorem ready_press {armed : Bool} {k : Key} {n : ℕ} (hn : 0 < n)
    (h : Ready armed (some k) p s) :
    Ready (armedAfter armed (some k, n)) none
      (p + runMoves armed (some k, n))
      (s.settleAll (List.replicate n (some k))) := by
  obtain ⟨m, rfl⟩ := Nat.exists_eq_succ_of_ne_zero hn.ne'
  cases armed with
  | false =>
      refine ⟨k.cmd, p, h.press_fresh k m, ?_⟩
      simp [runMoves, doubledKey, moves]
  | true =>
      cases m with
      | zero =>
          have hfired := Loop.In.key_released h k
          simpa [armedAfter, Ready, runMoves, doubledKey, moves, Loop.settleAll]
            using hfired
      | succ m =>
          refine ⟨k.cmd, p + k.cmd.move, Loop.In.press_released h k m, ?_⟩
          simp [runMoves, doubledKey, moves, add_assoc]

/-! ## Whole sequences -/

theorem moves_append (ks ks' : List Key) :
    moves (ks ++ ks') = moves ks + moves ks' := by
  simp [moves]

theorem moves_toList_cons (r : Option Key × ℕ) (rs : List (Option Key × ℕ)) :
    moves ((r :: rs).filterMap Prod.fst) =
      moves r.1.toList + moves (rs.filterMap Prod.fst) := by
  rw [← moves_append]
  cases hr : r.1 with
  | none => simp [hr]
  | some k => simp [hr]

theorem Loop.settleAll_flatMap_cons (s : Loop) (r : Option Key × ℕ)
    (rs : List (Option Key × ℕ)) :
    s.settleAll ((r :: rs).flatMap expand) =
      (s.settleAll (expand r)).settleAll (rs.flatMap expand) := by
  simp [Loop.settleAll, List.foldl_append]

/-- One run, up to the next one. -/
theorem ready_run {armed : Bool} {r : Option Key × ℕ} (hn : 0 < r.2)
    (h : Ready armed r.1 p s) {r' : Option Key} (halt : r.1 = none ↔ r' ≠ none) :
    Ready (armedAfter armed r) r' (p + runMoves armed r)
      (s.settleAll (expand r)) := by
  obtain ⟨reading, n⟩ := r
  cases reading with
  | none =>
      obtain ⟨k, rfl⟩ := Option.ne_none_iff_exists'.mp (halt.mp rfl)
      simpa [runMoves, doubledKey, moves, expand] using ready_gap hn h k
  | some k =>
      have hnone : r' = none := by simpa using halt
      rw [hnone]
      exact ready_press hn h

/-- Idle runs and presses alternate. -/
theorem none_iff_of_ne {r r' : Option Key} (hne : r ≠ r')
    (hidle : r = none ∨ r' = none) : r = none ↔ r' ≠ none := by
  rcases hidle with rfl | rfl
  · exact iff_of_true rfl hne.symm
  · exact iff_of_false hne (not_not_intro rfl)

/-- Over alternating runs the loop moves by the presses, and once more by the
doubled ones. -/
theorem ready_runs {rs : List (Option Key × ℕ)} {r : Option Key × ℕ}
    (hpos : ∀ x ∈ r :: rs, 0 < x.2)
    (hdiff : (r :: rs).IsChain fun a b => a.1 ≠ b.1)
    (hbetween : (r :: rs).IsChain fun a b => a.1 = none ∨ b.1 = none)
    (hlast : ∃ n, 2 ≤ n ∧ (r :: rs).getLast? = some (none, n))
    {armed : Bool} (h : Ready armed r.1 p s) :
    (s.settleAll ((r :: rs).flatMap expand)).In .released
      (p + moves ((r :: rs).filterMap Prod.fst) +
        moves (doubled armed (r :: rs))) := by
  induction rs generalizing r armed s p with
  | nil =>
      obtain ⟨n, hn, hr⟩ := hlast
      obtain rfl : r = (none, n) := by simpa using hr
      have hgap := ready_gap (n := n) (by omega) h .up
      have harmed : armedAfter armed (none, n) = true := by
        simp [armedAfter, show 1 < n from hn]
      rw [harmed] at hgap
      have hend : (s.settleAll (List.replicate n none)).In .released p := hgap
      simpa [moves, doubled, doubledKey, expand] using hend
  | cons r' rs ih =>
      rw [List.isChain_cons_cons] at hdiff hbetween
      have halt := none_iff_of_ne hdiff.1 hbetween.1
      have hrun := ready_run (hpos r List.mem_cons_self) h halt
      have hrest := ih (fun x hx => hpos x (List.mem_cons_of_mem r hx)) hdiff.2
        hbetween.2 (by simpa using hlast) hrun
      rw [Loop.settleAll_flatMap_cons, moves_toList_cons, doubled, moves_append]
      have hsum : p + (moves r.1.toList + moves ((r' :: rs).filterMap Prod.fst)) +
          (moves (doubledKey armed r).toList +
            moves (doubled (armedAfter armed r) (r' :: rs))) =
          p + runMoves armed r + moves ((r' :: rs).filterMap Prod.fst) +
            moves (doubled (armedAfter armed r) (r' :: rs)) := by
        unfold runMoves
        abel
      rw [hsum]
      exact hrest

/-- The evaluation that follows each reading is the one the next pass starts
with. -/
theorem Loop.evaluate_main (s : Loop) (readings : List (Option Key)) :
    (s.main readings).evaluate = s.evaluate.settleAll readings := by
  induction readings generalizing s with
  | nil => rfl
  | cons r rest ih =>
      have hstep := ih (s.iterate (code r))
      simpa [Loop.main, Loop.settleAll, Loop.iterate, Loop.settle] using hstep

/-- A state that would be `released` after an evaluation has none to come. -/
theorem Loop.position_of_evaluate (h : s.evaluate.In .released p) :
    s.position = p := by
  cases hboth : s.pressed && s.released with
  | false =>
      rw [Loop.evaluate_of_not_both hboth] at h
      exact h.1
  | true =>
      have hreleased := h.2.2
      simp [Loop.evaluate, hboth] at hreleased

/-- At the end of a sequence of presses the loop has moved once for each
press, and once more for each doubled one. -/
theorem position_main {readings : List (Option Key)} (h : Separated readings)
    (cmd : Option Cmd) (wboReg1 wboReg2 : BitVec 16) :
    ((Loop.start cmd wboReg1 wboReg2).main readings).position =
      (0, 0x8000) + moves (presses readings) +
        moves (doubled true (runs readings)) := by
  apply Loop.position_of_evaluate
  obtain ⟨n, _, hfirst⟩ := h.first
  obtain ⟨rs, hruns⟩ := List.head?_eq_some_iff.mp hfirst
  have hready : Ready true none (0, 0x8000)
      (Loop.start cmd wboReg1 wboReg2).evaluate := ⟨rfl, rfl, rfl⟩
  have hpos : ∀ x ∈ (none, n) :: rs, 0 < x.2 := by
    rw [← hruns]
    exact fun x hx => pos_of_mem_runs hx
  have hend := ready_runs hpos (hruns ▸ isChain_runs readings)
    (hruns ▸ h.between) (hruns ▸ h.last) hready
  rw [← hruns, flatMap_expand_runs, ← Loop.evaluate_main] at hend
  exact hend

/-! ## Counts -/

/-- The number of presses of a key. -/
def number (k : Key) (keys : List Key) : ℕ := keys.count k

/-- A number as a 16-bit word. -/
def word (n : ℕ) : BitVec 16 := BitVec.ofNat 16 n

/-- Counter and duty cycle have moved once for each press. -/
def CountsEachPress (s : Loop) (keys : List Key) : Prop :=
  s.count = word (number .up keys) - word (number .down keys) ∧
    s.pwm = 0x8000 +
      0x1000 * (word (number .left keys) - word (number .right keys))

theorem number_cons (k k' : Key) (keys : List Key) :
    number k (k' :: keys) = number k keys + if k' = k then 1 else 0 := by
  simp [number, List.count_cons]

theorem word_add_one (n : ℕ) : word (n + 1) = word n + 1 :=
  BitVec.ofNat_add n 1

theorem moves_eq (keys : List Key) :
    moves keys =
      (word (number .up keys) - word (number .down keys),
        0x1000 * (word (number .left keys) - word (number .right keys))) := by
  induction keys with
  | nil => rfl
  | cons k keys ih =>
      have hcons : moves (k :: keys) = k.cmd.move + moves keys := by
        simp [moves]
      rw [hcons, ih]
      cases k with
      | up | down | left | right =>
          simp only [number_cons, Key.cmd, Cmd.move, Prod.mk_add_mk,
            reduceCtorEq, if_true, if_false, add_zero, word_add_one,
            Prod.mk.injEq]
          constructor <;> ring

theorem word_sub_eq_zero_iff (m n : ℕ) :
    word m - word n = 0 ↔ m ≡ n [MOD 2 ^ 16] := by
  rw [sub_eq_zero, word, word, BitVec.toNat_eq, BitVec.toNat_ofNat,
    BitVec.toNat_ofNat]
  exact Iff.rfl

theorem pwm_step_mul_eq_zero_iff (m n : ℕ) :
    0x1000 * (word m - word n) = 0 ↔ m ≡ n [MOD 16] := by
  have hmul : 0x1000 * (word m - word n) =
      word (0x1000 * m) - word (0x1000 * n) := by
    rw [word, word, word, word, BitVec.ofNat_mul, BitVec.ofNat_mul,
      show BitVec.ofNat 16 0x1000 = 0x1000 from rfl]
    ring
  rw [hmul, word_sub_eq_zero_iff]
  simp only [Nat.ModEq]
  omega

/-- The loop counts each press once exactly when the presses it counts twice,
those that begin armed and last longer than one reading, cancel out. -/
theorem countsEachPress_iff {readings : List (Option Key)}
    (h : Separated readings) (cmd : Option Cmd)
    (wboReg1 wboReg2 : BitVec 16) :
    CountsEachPress ((Loop.start cmd wboReg1 wboReg2).main readings)
        (presses readings) ↔
      number .up (doubled true (runs readings)) ≡
          number .down (doubled true (runs readings)) [MOD 2 ^ 16] ∧
        number .left (doubled true (runs readings)) ≡
          number .right (doubled true (runs readings)) [MOD 16] := by
  have hend := position_main h cmd wboReg1 wboReg2
  rw [moves_eq (presses readings),
    moves_eq (doubled true (runs readings))] at hend
  obtain ⟨hcount, hpwm⟩ := Prod.mk.inj hend
  rw [← word_sub_eq_zero_iff, ← pwm_step_mul_eq_zero_iff, CountsEachPress,
    hcount, hpwm]
  simp

/-- UP is held for two readings: the count is two. -/
theorem held_key_counts_twice :
    let readings : List (Option Key) :=
      [none, none, some .up, some .up, none, none]
    Separated readings ∧ presses readings = [.up] ∧
      ((Loop.start none 0 0).main readings).count = 2 ∧
      ¬CountsEachPress ((Loop.start none 0 0).main readings)
        (presses readings) := by
  intro readings
  have hpresses : presses readings = [.up] := by decide
  have hcount : ((Loop.start none 0 0).main readings).count = 2 := by decide
  refine ⟨⟨⟨2, le_rfl, by decide⟩, ⟨2, le_rfl, by decide⟩, by decide⟩,
    hpresses, hcount, ?_⟩
  rintro ⟨hone, _⟩
  rw [hpresses, hcount] at hone
  exact absurd hone (by decide)

/-- Two presses of UP, each of one reading. -/
theorem countsEachPress_iff_short_presses :
    let readings : List (Option Key) :=
      [none, none, some .up, none, some .up, none, none]
    CountsEachPress ((Loop.start none 0 0).main readings)
      (presses readings) := by
  intro readings
  have hseparated : Separated readings :=
    ⟨⟨2, le_rfl, by decide⟩, ⟨2, le_rfl, by decide⟩, by decide⟩
  exact (countsEachPress_iff hseparated none 0 0).mpr (by decide)

end EmbBoard.Joystick
