import EmbBoard.Support.Clocked
import EmbBoard.Touch.CalibApp
import Mathlib.Order.Bounds.Defs

/-!
# Three separate touches

The loop of `calibrateStart` over an arbitrary stream of samples, with the
calls of `touch_calibrate` in a log.  Which samples it takes is decided by a
counter and two flags, one of which is still as the run before left it.
-/

namespace EmbBoard.Touch

open Clocked

/-! ## The loop over samples -/

/-- The arguments of a call of `touch_calibrate`. -/
structure CalibrateCall where
  ref1 : TouchPoint
  ref2 : TouchPoint
  ref3 : TouchPoint
  scr1 : TouchPoint
  scr2 : TouchPoint
  scr3 : TouchPoint
deriving DecidableEq, Repr

def CalibrateCall.perform (t : Driver) (call : CalibrateCall) :
    Option Driver :=
  touchCalibrate call.ref1 call.ref2 call.ref3 call.scr1 call.scr2 call.scr3 t

/-- What a pass of the loop leaves: the static variables, the local flag that
ends the loop, and the calls of `touch_calibrate` it makes. -/
structure Pass where
  app : CalibApp
  calibrated : Bool
  calls : List CalibrateCall
deriving DecidableEq, Repr

/-- The `switch` of the loop, with its call logged. -/
def captureLogged (app : CalibApp) (s : Sample) : Pass :=
  let next :=
    { app with touchReleased := false, calibPoint := app.calibPoint + 1 }
  match app.calibPoint with
  | 0 =>
      { app := { next with scr1 := s.touchPoint, releaseNeeded := true }
        calibrated := false
        calls := [] }
  | 1 =>
      { app := { next with scr2 := s.touchPoint, releaseNeeded := true }
        calibrated := false
        calls := [] }
  | 2 =>
      { app := { next with scr3 := s.touchPoint, releaseNeeded := true }
        calibrated := true
        calls := [⟨refPoint1, refPoint2, refPoint3, app.scr1, app.scr2,
          s.touchPoint⟩] }
  | _ => { app := next, calibrated := false, calls := [] }

/-- One pass of the loop on a sample. -/
def passLogged (app : CalibApp) (s : Sample) : Pass :=
  if s.z = 0 then
    { app := { app with touchReleased := true }, calibrated := false
      calls := [] }
  else if app.releaseNeeded && !app.touchReleased then
    { app := app, calibrated := false, calls := [] }
  else captureLogged app s

/-- The pass with its calls made, from the driver on. -/
def Pass.perform (p : Pass) (t : Driver) : Option (CalibApp × Bool) :=
  (p.calls.foldlM CalibrateCall.perform t).map fun touch =>
    ({ p.app with touch := touch }, p.calibrated)

/-- The log is the one of the loop over the driver's own samples. -/
theorem pollTouch_eq_perform {app : CalibApp} {r : Reading} {s : Sample}
    (hs : touchXyz app.touch r = some s) :
    pollTouch app r = (passLogged app s).perform app.touch := by
  have hcapture : captureTouch app s =
      (captureLogged app s).perform app.touch := by
    unfold captureTouch captureLogged
    match happ : app.calibPoint with
    | 0 => rfl
    | 1 => rfl
    | 2 =>
        simp only [Pass.perform, List.foldlM_cons, List.foldlM_nil,
          CalibrateCall.perform]
        cases touchCalibrate refPoint1 refPoint2 refPoint3 app.scr1 app.scr2
          s.touchPoint app.touch <;> rfl
    | n + 3 => rfl
  unfold pollTouch passLogged
  rw [hs, Option.bind_eq_bind, Option.bind_some, hcapture]
  split
  · rfl
  · split
    · rfl
    · rfl

/-- The loop before its first pass. -/
def Pass.start (app : CalibApp) : Pass where
  app := app.restart
  calibrated := false
  calls := []

/-- The next pass, unless the loop has ended. -/
def captureStep (s : Sample) (p : Pass) : Pass :=
  if p.calibrated then p
  else { passLogged p.app s with calls := p.calls ++ (passLogged p.app s).calls }

/-! ## Touches of a stream -/

section Stream

variable (stream : ℕ → Sample)

/-- The samples with pressure. -/
def pressedAt : Set ℕ := {m | (stream m).z ≠ 0}

/-- The samples with pressure after a release that follows sample `i`. -/
def touchesAfter (i : ℕ) : Set ℕ :=
  {m | (stream m).z ≠ 0 ∧ ∃ r, i < r ∧ r < m ∧ (stream r).z = 0}

/-- The first sample with pressure, and twice the first one after a release
that follows the one before. -/
structure ThreeTouches (i j k : ℕ) : Prop where
  first : IsLeast (pressedAt stream) i
  second : IsLeast (touchesAfter stream i) j
  third : IsLeast (touchesAfter stream j) k

/-- A sample with pressure would be taken at `m` when `last` is the sample
taken last. -/
def ArmedAt (m : ℕ) : Option ℕ → Prop
  | none => True
  | some i => ∃ r, i < r ∧ r < m ∧ (stream r).z = 0

/-- The samples that may be taken after `last`. -/
def candidates (last : Option ℕ) : Set ℕ :=
  {m | (stream m).z ≠ 0 ∧ ArmedAt stream m last}

/-- What the loop has stored so far, with the sample taken last. -/
inductive Stored (app : CalibApp) : Option ℕ → Prop
  | nothing : app.calibPoint = 0 → Stored app none
  | one {i : ℕ} : IsLeast (pressedAt stream) i → app.calibPoint = 1 →
      app.scr1 = (stream i).touchPoint → Stored app (some i)
  | two {i j : ℕ} : IsLeast (pressedAt stream) i →
      IsLeast (touchesAfter stream i) j → app.calibPoint = 2 →
      app.scr1 = (stream i).touchPoint → app.scr2 = (stream j).touchPoint →
      Stored app (some j)

/-- The loop waits for its next sample after `n` passes. -/
structure Waiting (n : ℕ) (p : Pass) (last : Option ℕ) : Prop where
  running : p.calibrated = false
  uncalled : p.calls = []
  stored : Stored stream p.app last
  before : ∀ i, last = some i → i < n
  armed : p.app.armed = true ↔ ArmedAt stream n last
  passed : ∀ m < n, m ∉ candidates stream last

/-- The loop has ended with one call. -/
def Ended (n : ℕ) (p : Pass) : Prop :=
  p.calibrated = true ∧ ∃ i j k, ThreeTouches stream i j k ∧ k < n ∧
    p.calls = [⟨refPoint1, refPoint2, refPoint3, (stream i).touchPoint,
      (stream j).touchPoint, (stream k).touchPoint⟩]

end Stream

/-! ## One pass -/

section Step

variable {stream : ℕ → Sample} {n : ℕ} {p : Pass} {last : Option ℕ}

theorem captureStep_of_running (h : p.calibrated = false)
    (hcalls : p.calls = []) (s : Sample) :
    captureStep s p = passLogged p.app s := by
  simp [captureStep, h, hcalls]

theorem not_armedAt_succ_self (i : ℕ) : ¬ArmedAt stream (i + 1) (some i) := by
  rintro ⟨r, hir, hri, _⟩
  omega

/-- A sample without pressure only sets a flag. -/
theorem Waiting.release (h : Waiting stream n p last)
    (hz : (stream n).z = 0) :
    Waiting stream (n + 1) (captureStep (stream n) p) last := by
  rw [captureStep_of_running h.running h.uncalled, passLogged, if_pos hz]
  refine ⟨rfl, rfl, ?_, ?_, ?_, ?_⟩
  · cases h.stored with
    | nothing hpoint => exact .nothing hpoint
    | one hi hpoint hscr1 => exact .one hi hpoint hscr1
    | two hi hj hpoint hscr1 hscr2 => exact .two hi hj hpoint hscr1 hscr2
  · exact fun i hi => (h.before i hi).trans (Nat.lt_succ_self n)
  · refine iff_of_true (by simp [CalibApp.armed]) ?_
    cases last with
    | none => trivial
    | some i => exact ⟨n, h.before i rfl, Nat.lt_succ_self n, hz⟩
  · intro m hm hcand
    rcases Nat.lt_succ_iff_lt_or_eq.mp hm with hlt | rfl
    · exact h.passed m hlt hcand
    · exact hcand.1 hz

/-- A sample with pressure is passed over until there was a release. -/
theorem Waiting.hold (h : Waiting stream n p last)
    (hz : (stream n).z ≠ 0) (harmed : ¬ArmedAt stream n last) :
    Waiting stream (n + 1) (captureStep (stream n) p) last := by
  have hnot : p.app.armed = false := by
    rw [← Bool.not_eq_true, h.armed]
    exact harmed
  have hflags : (p.app.releaseNeeded && !p.app.touchReleased) = true := by
    simpa [CalibApp.armed] using hnot
  rw [captureStep_of_running h.running h.uncalled, passLogged, if_neg hz,
    if_pos hflags]
  have hlater : ¬ArmedAt stream (n + 1) last := by
    cases last with
    | none => exact absurd trivial harmed
    | some i =>
        rintro ⟨r, hir, hrn, hr⟩
        rcases Nat.lt_succ_iff_lt_or_eq.mp hrn with hlt | rfl
        · exact harmed ⟨r, hir, hlt, hr⟩
        · exact hz hr
  refine ⟨rfl, rfl, h.stored, ?_, ?_, ?_⟩
  · exact fun i hi => (h.before i hi).trans (Nat.lt_succ_self n)
  · rw [hnot]
    exact iff_of_false Bool.false_ne_true hlater
  · intro m hm hcand
    rcases Nat.lt_succ_iff_lt_or_eq.mp hm with hlt | rfl
    · exact h.passed m hlt hcand
    · exact harmed hcand.2

/-- The sample that is taken is the first candidate. -/
theorem Waiting.isLeast (h : Waiting stream n p last)
    (hz : (stream n).z ≠ 0) (harmed : ArmedAt stream n last) :
    IsLeast (candidates stream last) n := by
  refine ⟨⟨hz, harmed⟩, ?_⟩
  intro m hm
  by_contra hlt
  exact h.passed m (not_le.mp hlt) hm

theorem candidates_none : candidates stream none = pressedAt stream := by
  ext m
  simp [candidates, ArmedAt, pressedAt]

theorem candidates_some (i : ℕ) :
    candidates stream (some i) = touchesAfter stream i := rfl

/-- Taking a sample stores it, and the third one ends the loop. -/
theorem Waiting.capture (h : Waiting stream n p last)
    (hz : (stream n).z ≠ 0) (harmed : ArmedAt stream n last) :
    Waiting stream (n + 1) (captureStep (stream n) p) (some n) ∨
      Ended stream (n + 1) (captureStep (stream n) p) := by
  have hleast := h.isLeast hz harmed
  have hflags : ¬(p.app.releaseNeeded && !p.app.touchReleased) = true := by
    have htrue := h.armed.mpr harmed
    simpa [CalibApp.armed, imp_iff_not_or] using htrue
  rw [captureStep_of_running h.running h.uncalled, passLogged, if_neg hz,
    if_neg hflags]
  have hpassed : ∀ m < n + 1, m ∉ candidates stream (some n) := by
    rintro m hm ⟨_, r, hnr, hrm, _⟩
    omega
  cases h.stored with
  | nothing hpoint =>
      rw [candidates_none] at hleast
      left
      simp only [captureLogged, hpoint]
      exact ⟨rfl, rfl, .one hleast rfl rfl, by simp,
        iff_of_false Bool.false_ne_true (not_armedAt_succ_self n), hpassed⟩
  | @one i hi hpoint hscr1 =>
      rw [candidates_some] at hleast
      left
      simp only [captureLogged, hpoint]
      exact ⟨rfl, rfl, .two hi hleast rfl hscr1 rfl, by simp,
        iff_of_false Bool.false_ne_true (not_armedAt_succ_self n), hpassed⟩
  | @two i j hi hj hpoint hscr1 hscr2 =>
      rw [candidates_some] at hleast
      right
      simp only [captureLogged, hpoint]
      refine ⟨rfl, i, j, n, ⟨hi, hj, hleast⟩, Nat.lt_succ_self n, ?_⟩
      rw [hscr1, hscr2]

theorem Ended.step (h : Ended stream n p) (s : Sample) :
    Ended stream (n + 1) (captureStep s p) := by
  obtain ⟨hcal, i, j, k, htouches, hk, hcalls⟩ := h
  rw [captureStep, if_pos hcal]
  exact ⟨hcal, i, j, k, htouches, hk.trans (Nat.lt_succ_self n), hcalls⟩

theorem Waiting.step (h : Waiting stream n p last) :
    (∃ last', Waiting stream (n + 1) (captureStep (stream n) p) last') ∨
      Ended stream (n + 1) (captureStep (stream n) p) := by
  by_cases hz : (stream n).z = 0
  · exact Or.inl ⟨last, h.release hz⟩
  · by_cases harmed : ArmedAt stream n last
    · rcases h.capture hz harmed with hwait | hended
      · exact Or.inl ⟨some n, hwait⟩
      · exact Or.inr hended
    · exact Or.inl ⟨last, h.hold hz harmed⟩

end Step

/-! ## Whole runs -/

theorem waiting_start (stream : ℕ → Sample) (app : CalibApp) :
    Waiting stream 0 (.start app) none where
  running := rfl
  uncalled := rfl
  stored := .nothing rfl
  before := by simp
  armed := iff_of_true rfl trivial
  passed := by simp

theorem waiting_or_ended (stream : ℕ → Sample) (app : CalibApp) (n : ℕ) :
    (∃ last,
      Waiting stream n (trace captureStep (.start app) stream n) last) ∨
      Ended stream n (trace captureStep (.start app) stream n) := by
  induction n with
  | zero => exact Or.inl ⟨none, waiting_start stream app⟩
  | succ n ih =>
      rw [trace_succ]
      rcases ih with ⟨last, hwait⟩ | hended
      · exact hwait.step
      · exact Or.inr (hended.step _)

/-- There is one way to take three touches from a stream. -/
theorem ThreeTouches.unique {stream : ℕ → Sample} {i j k i' j' k' : ℕ}
    (h : ThreeTouches stream i j k) (h' : ThreeTouches stream i' j' k') :
    i = i' ∧ j = j' ∧ k = k' := by
  obtain rfl := h.first.unique h'.first
  obtain rfl := h.second.unique h'.second
  exact ⟨rfl, rfl, h.third.unique h'.third⟩

theorem ThreeTouches.lt {stream : ℕ → Sample} {i j k : ℕ}
    (h : ThreeTouches stream i j k) : i < j ∧ j < k := by
  obtain ⟨-, r, hir, hrj, -⟩ := h.second.1
  obtain ⟨-, r', hjr, hrk, -⟩ := h.third.1
  exact ⟨hir.trans hrj, hjr.trans hrk⟩

/-- A loop that waits has not come to the third touch yet. -/
theorem Waiting.le {stream : ℕ → Sample} {n : ℕ} {p : Pass}
    {last : Option ℕ} (h : Waiting stream n p last) {i j k : ℕ}
    (htouches : ThreeTouches stream i j k) : n ≤ k := by
  obtain ⟨hij, hjk⟩ := htouches.lt
  by_contra hlt
  rw [not_le] at hlt
  have hpassed := h.passed
  cases h.stored with
  | nothing _ =>
      rw [candidates_none] at hpassed
      exact hpassed i (by omega) htouches.first.1
  | one hi _ _ =>
      obtain rfl := hi.unique htouches.first
      exact hpassed j (by omega) htouches.second.1
  | two hi hj _ _ _ =>
      obtain rfl := hi.unique htouches.first
      obtain rfl := hj.unique htouches.second
      exact hpassed k hlt htouches.third.1

/-- Whatever the run before left behind, a loop that ends has captured three
touches with releases between them and calls `touch_calibrate` once, with the
points in order; a loop that has not ended has not called it; and on a stream
with three such touches the loop ends at the third. -/
theorem calibrateStart_captures_three_touches (app : CalibApp)
    (stream : ℕ → Sample) :
    let p := trace captureStep (.start app) stream
    (∀ n, (p n).calibrated = true →
      ∃ i j k, ThreeTouches stream i j k ∧ i < j ∧ j < k ∧ k < n ∧
        (p n).calls = [⟨refPoint1, refPoint2, refPoint3,
          (stream i).touchPoint, (stream j).touchPoint,
          (stream k).touchPoint⟩]) ∧
    (∀ n, (p n).calibrated = false → (p n).calls = []) ∧
    ∀ i j k, ThreeTouches stream i j k →
      ∀ n, (p n).calibrated = true ↔ k < n := by
  intro p
  refine ⟨?_, ?_, ?_⟩
  · intro n hcal
    rcases waiting_or_ended stream app n with ⟨last, hwait⟩ | hended
    · exact absurd (hcal.symm.trans hwait.running) Bool.noConfusion
    · obtain ⟨-, i, j, k, htouches, hk, hcalls⟩ := hended
      exact ⟨i, j, k, htouches, htouches.lt.1, htouches.lt.2, hk, hcalls⟩
  · intro n hcal
    rcases waiting_or_ended stream app n with ⟨last, hwait⟩ | hended
    · exact hwait.uncalled
    · exact absurd (hended.1.symm.trans hcal) Bool.noConfusion
  · intro i j k htouches n
    rcases waiting_or_ended stream app n with ⟨last, hwait⟩ | hended
    · refine iff_of_false ?_ (not_lt.mpr (hwait.le htouches))
      rw [hwait.running]
      exact Bool.false_ne_true
    · obtain ⟨hcal, i', j', k', htouches', hk, -⟩ := hended
      refine iff_of_true hcal ?_
      rw [(htouches.unique htouches').2.2]
      exact hk

/-! ## The driver's own samples -/

theorem passLogged_running {app : CalibApp} {s : Sample}
    (h : (passLogged app s).calibrated = false) :
    (passLogged app s).calls = [] ∧
      (passLogged app s).app.touch = app.touch := by
  unfold passLogged at h ⊢
  split
  · exact ⟨rfl, rfl⟩
  · split
    · exact ⟨rfl, rfl⟩
    · rename_i hz hflags
      rw [if_neg hz, if_neg hflags] at h
      unfold captureLogged at h ⊢
      split at h
      · exact ⟨rfl, rfl⟩
      · exact ⟨rfl, rfl⟩
      · cases h
      · exact ⟨rfl, rfl⟩

/-- A pass that does not end the loop has nothing to perform. -/
theorem passLogged_perform_of_running {app : CalibApp} {s : Sample}
    (h : (passLogged app s).calibrated = false) :
    (passLogged app s).perform app.touch =
      some ((passLogged app s).app, false) := by
  obtain ⟨hnone, htouch⟩ := passLogged_running h
  rw [Pass.perform, hnone, h, ← htouch]
  rfl

theorem trace_captureStep_ended {p : Pass} (h : p.calibrated = true)
    (stream : ℕ → Sample) (n : ℕ) : trace captureStep p stream n = p := by
  induction n with
  | zero => rfl
  | succ n ih => rw [trace_succ, ih, captureStep, if_pos h]

/-- The loop over readings is the loop over the samples that the driver makes
of them, with the logged calls made in the end. -/
theorem calibrateLoop_eq_perform {p : Pass} {rs : List Reading}
    {stream : ℕ → Sample} (hrunning : p.calibrated = false)
    (hcalls : p.calls = [])
    (hs : ∀ m r, rs[m]? = some r →
      touchXyz p.app.touch r = some (stream m)) :
    let q := trace captureStep p stream rs.length
    calibrateLoop p.app rs =
      if q.calibrated then (q.perform p.app.touch).map Prod.fst else none := by
  intro q
  induction rs generalizing p stream with
  | nil =>
      have hq : q.calibrated = false := hrunning
      rw [hq]
      rfl
  | cons r rs ih =>
      have hpoll := pollTouch_eq_perform (hs 0 r rfl)
      have hq : q = trace captureStep (passLogged p.app (stream 0))
          (fun m => stream (m + 1)) rs.length := by
        rw [← captureStep_of_running hrunning hcalls, ← trace_succ_left]
        rfl
      rw [calibrateLoop, hpoll]
      cases hpass : (passLogged p.app (stream 0)).calibrated with
      | true =>
          rw [hq, trace_captureStep_ended hpass, if_pos hpass, Pass.perform]
          simp only [hpass]
          cases (passLogged p.app (stream 0)).calls.foldlM
            CalibrateCall.perform p.app.touch <;> rfl
      | false =>
          obtain ⟨hnone, htouch⟩ := passLogged_running hpass
          rw [hq]
          have hrest := ih hpass hnone fun m r' hr' => by
            rw [htouch]
            exact hs (m + 1) r' hr'
          rw [htouch] at hrest
          rw [passLogged_perform_of_running hpass]
          exact hrest

end EmbBoard.Touch
