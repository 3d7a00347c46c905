import EmbBoard.Support.Runs
import EmbBoard.Touch.Driver
import Mathlib.Data.Int.ModEq

/-!
# The calibration application

`calibrateStart` asks for three touches and calibrates the driver from them.
It reads the touches through the driver it is about to calibrate, so what it
stores depends on the calibration left by the run before: a run that finds
the driver calibrated pairs the reference points with reported positions, and
the new matrix is then applied to raw ones.
-/

namespace EmbBoard.Touch

open AffineFit Runs

/-! ## The calibration loop -/

/-- The static variables of the application, and the touch driver. -/
structure CalibApp where
  touch : Driver
  calibPoint : ℕ
  scr1 : TouchPoint
  scr2 : TouchPoint
  scr3 : TouchPoint
  releaseNeeded : Bool
  touchReleased : Bool
deriving DecidableEq, Repr

def refPoint1 : TouchPoint := ⟨15, 300 - 18⟩

def refPoint2 : TouchPoint := ⟨120, 80 - 18⟩

def refPoint3 : TouchPoint := ⟨220, 280 - 18⟩

/-- Static storage before the first run. -/
def CalibApp.powerOn : CalibApp where
  touch := Driver.powerOn
  calibPoint := 0
  scr1 := ⟨0, 0⟩
  scr2 := ⟨0, 0⟩
  scr3 := ⟨0, 0⟩
  releaseNeeded := false
  touchReleased := false

/-- Assignment of a sample to a point of two unsigned 16-bit words. -/
def Sample.touchPoint (s : Sample) : TouchPoint :=
  ⟨BitVec.ofInt 16 s.x, BitVec.ofInt 16 s.y⟩

/-- The `switch` of the loop on an accepted sample.  The second component is
the local flag that ends the loop. -/
def captureTouch (app : CalibApp) (s : Sample) : Option (CalibApp × Bool) :=
  let next :=
    { app with touchReleased := false, calibPoint := app.calibPoint + 1 }
  match app.calibPoint with
  | 0 => some ({ next with scr1 := s.touchPoint, releaseNeeded := true }, false)
  | 1 => some ({ next with scr2 := s.touchPoint, releaseNeeded := true }, false)
  | 2 => do
      let touch ← touchCalibrate refPoint1 refPoint2 refPoint3 app.scr1
        app.scr2 s.touchPoint app.touch
      return ({ next with
        scr3 := s.touchPoint, releaseNeeded := true, touch := touch }, true)
  | _ => some (next, false)

/-- One pass of the loop. -/
def pollTouch (app : CalibApp) (r : Reading) : Option (CalibApp × Bool) := do
  let s ← touchXyz app.touch r
  if s.z = 0 then
    return ({ app with touchReleased := true }, false)
  else if app.releaseNeeded && !app.touchReleased then
    return (app, false)
  else
    captureTouch app s

/-- The loop, on the readings still to come.  It has no result when they run
out before it ends. -/
def calibrateLoop (app : CalibApp) : List Reading → Option CalibApp
  | [] => none
  | r :: rs => do
      let (next, calibrated) ← pollTouch app r
      if calibrated then return next else calibrateLoop next rs

/-- A run of the application.  The sample taken before the loop is
discarded. -/
def calibrateStart (app : CalibApp) : List Reading → Option CalibApp
  | [] => none
  | r :: rs => do
      let _ ← touchXyz app.touch r
      calibrateLoop { app with releaseNeeded := false, calibPoint := 0 } rs

/-! ## The touches of a run -/

/-- The readings that count as touches: after a capture, the first reading
with pressure that follows one without. -/
def touches : Bool → List Reading → List Reading
  | _, [] => []
  | armed, r :: rs =>
      if r.z = 0 then touches true rs
      else if armed then r :: touches false rs
      else touches false rs

/-- The three touches of a run on the given readings, if it gets that far. -/
def captured (rs : List Reading) : Option (Fin 3 → Reading) :=
  match touches true rs.tail with
  | r1 :: r2 :: r3 :: _ => some ![r1, r2, r3]
  | _ => none

/-- The loop takes the next reading with pressure. -/
def CalibApp.armed (app : CalibApp) : Bool :=
  !app.releaseNeeded || app.touchReleased

/-- The driver's matrix is one on which no reading overflows. -/
def Driver.Bounded (t : Driver) : Prop := t.storedMatrix.Bounded

theorem touchXyz_of_bounded {t : Driver} (ht : t.Bounded) (r : Reading) :
    ∃ s, touchXyz t r = some s ∧ s.z = r.z := by
  by_cases hcal : t.calibrated = true
  · by_cases hzero : t.storedMatrix.divider = 0
    · simp [touchXyz, hcal, getDisplayPoint, hzero]
    · have hpoint := getDisplayPoint_eq ht hzero r.stack r.raw_fits13
      simp [touchXyz, hcal, hpoint]
  · simp [touchXyz, hcal]

/-- What one pass of the loop does with a reading. -/
theorem pollTouch_eq {app : CalibApp} (hb : app.touch.Bounded)
    (r : Reading) :
    ∃ s, touchXyz app.touch r = some s ∧
      pollTouch app r =
        if r.z = 0 then some ({ app with touchReleased := true }, false)
        else if app.armed then captureTouch app s
        else some (app, false) := by
  obtain ⟨s, hs, hz⟩ := touchXyz_of_bounded hb r
  refine ⟨s, hs, ?_⟩
  by_cases hrelease : r.z = 0
  · simp [pollTouch, hs, hz, hrelease]
  · by_cases harmed : app.armed = true
    · have hflags : ¬ (app.releaseNeeded = true ∧
          app.touchReleased = false) := by
        simpa [CalibApp.armed, imp_iff_not_or] using harmed
      simp [pollTouch, hs, hz, hrelease, harmed, hflags]
    · have hflags : app.releaseNeeded = true ∧
          app.touchReleased = false := by
        simpa [CalibApp.armed] using harmed
      simp [pollTouch, hs, hz, hrelease, harmed, hflags]

/-- Up to the next touch the loop changes one flag only; there it captures
the driver's sample of it. -/
theorem calibrateLoop_until {app : CalibApp} {rs cs : List Reading}
    {r : Reading} (hb : app.touch.Bounded)
    (hnext : touches app.armed rs = r :: cs) :
    ∃ s rest, touchXyz app.touch r = some s ∧ touches false rest = cs ∧
      calibrateLoop app rs =
        (captureTouch app s).bind fun (next, calibrated) =>
          if calibrated then some next else calibrateLoop next rest := by
  induction rs generalizing app with
  | nil => simp [touches] at hnext
  | cons head rs ih =>
      obtain ⟨s, hs, hpoll⟩ := pollTouch_eq hb head
      by_cases hrelease : head.z = 0
      · rw [touches, if_pos hrelease] at hnext
        rw [if_pos hrelease] at hpoll
        obtain ⟨s', rest, hs', hrest, hloop⟩ :=
          @ih { app with touchReleased := true } hb
            (by simpa [CalibApp.armed] using hnext)
        refine ⟨s', rest, hs', hrest, ?_⟩
        rw [calibrateLoop, hpoll]
        exact hloop
      · rw [touches, if_neg hrelease] at hnext
        rw [if_neg hrelease] at hpoll
        by_cases harmed : app.armed = true
        · rw [if_pos harmed] at hnext hpoll
          obtain ⟨rfl, hrest⟩ := List.cons.inj hnext
          refine ⟨s, rs, hs, hrest, ?_⟩
          rw [calibrateLoop, hpoll]
          rfl
        · rw [if_neg harmed] at hnext hpoll
          obtain ⟨s', rest, hs', hrest, hloop⟩ :=
            ih hb (by simpa [harmed] using hnext)
          refine ⟨s', rest, hs', hrest, ?_⟩
          rw [calibrateLoop, hpoll]
          exact hloop

/-- Without another touch the loop does not end. -/
theorem calibrateLoop_starved {app : CalibApp} {rs : List Reading}
    (hb : app.touch.Bounded) (hnone : touches app.armed rs = []) :
    calibrateLoop app rs = none := by
  induction rs generalizing app with
  | nil => rfl
  | cons head rs ih =>
      obtain ⟨s, hs, hpoll⟩ := pollTouch_eq hb head
      by_cases hrelease : head.z = 0
      · rw [touches, if_pos hrelease] at hnone
        rw [if_pos hrelease] at hpoll
        rw [calibrateLoop, hpoll]
        exact @ih { app with touchReleased := true } hb
          (by simpa [CalibApp.armed] using hnone)
      · rw [touches, if_neg hrelease] at hnone
        rw [if_neg hrelease] at hpoll
        by_cases harmed : app.armed = true
        · rw [if_pos harmed] at hnone
          exact absurd hnone (List.cons_ne_nil _ _)
        · rw [if_neg harmed] at hnone hpoll
          rw [calibrateLoop, hpoll]
          exact ih hb (by simpa [harmed] using hnone)

theorem captured_eq_some_iff {rs : List Reading}
    {touched : Fin 3 → Reading} :
    captured rs = some touched ↔
      ∃ cs, touches true rs.tail =
        touched 0 :: touched 1 :: touched 2 :: cs := by
  unfold captured
  constructor
  · intro h
    split at h
    · rename_i r1 r2 r3 cs htouches
      obtain rfl := Option.some.inj h
      exact ⟨cs, htouches⟩
    · cases h
  · rintro ⟨cs, htouches⟩
    rw [htouches]
    exact congrArg some (vec_three touched)

/-- The loop's first state of a run. -/
def CalibApp.restart (app : CalibApp) : CalibApp :=
  { app with releaseNeeded := false, calibPoint := 0 }

theorem calibrateStart_cons {app : CalibApp} (hb : app.touch.Bounded)
    (r : Reading) (rs : List Reading) :
    calibrateStart app (r :: rs) = calibrateLoop app.restart rs := by
  obtain ⟨s, hs, -⟩ := touchXyz_of_bounded hb r
  rw [calibrateStart, hs]
  rfl

theorem calibrateLoop_first {app : CalibApp} {rs cs : List Reading}
    {r : Reading} (hb : app.touch.Bounded) (hpoint : app.calibPoint = 0)
    (hnext : touches app.armed rs = r :: cs) :
    ∃ s next rest, touchXyz app.touch r = some s ∧
      next.touch = app.touch ∧ next.calibPoint = 1 ∧
      next.scr1 = s.touchPoint ∧ touches next.armed rest = cs ∧
      calibrateLoop app rs = calibrateLoop next rest := by
  obtain ⟨s, rest, hs, hrest, hloop⟩ := calibrateLoop_until hb hnext
  unfold captureTouch at hloop
  rw [hpoint] at hloop
  refine ⟨s, _, rest, hs, ?_, ?_, ?_, ?_, hloop⟩
  · rfl
  · rfl
  · rfl
  · exact hrest

theorem calibrateLoop_second {app : CalibApp} {rs cs : List Reading}
    {r : Reading} (hb : app.touch.Bounded) (hpoint : app.calibPoint = 1)
    (hnext : touches app.armed rs = r :: cs) :
    ∃ s next rest, touchXyz app.touch r = some s ∧
      next.touch = app.touch ∧ next.calibPoint = 2 ∧
      next.scr1 = app.scr1 ∧ next.scr2 = s.touchPoint ∧
      touches next.armed rest = cs ∧
      calibrateLoop app rs = calibrateLoop next rest := by
  obtain ⟨s, rest, hs, hrest, hloop⟩ := calibrateLoop_until hb hnext
  unfold captureTouch at hloop
  rw [hpoint] at hloop
  refine ⟨s, _, rest, hs, ?_, ?_, ?_, ?_, ?_, hloop⟩
  · rfl
  · rfl
  · rfl
  · rfl
  · exact hrest

theorem calibrateLoop_third {app : CalibApp} {rs cs : List Reading}
    {r : Reading} (hb : app.touch.Bounded) (hpoint : app.calibPoint = 2)
    (hnext : touches app.armed rs = r :: cs) :
    ∃ s next, touchXyz app.touch r = some s ∧
      touchCalibrate refPoint1 refPoint2 refPoint3 app.scr1 app.scr2
        s.touchPoint app.touch = some next.touch ∧
      calibrateLoop app rs = some next := by
  obtain ⟨s, rest, hs, -, hloop⟩ := calibrateLoop_until hb hnext
  obtain ⟨t', hcal⟩ : ∃ t', touchCalibrate refPoint1 refPoint2 refPoint3
      app.scr1 app.scr2 s.touchPoint app.touch = some t' :=
    ⟨_, touchCalibrate_eq ![refPoint1, refPoint2, refPoint3]
      ![app.scr1, app.scr2, s.touchPoint] app.touch⟩
  unfold captureTouch at hloop
  rw [hpoint, hcal] at hloop
  exact ⟨s, _, hs, hcal, hloop⟩

/-- A run that captures three touches ends; it calibrates the driver once,
from the driver's own samples of the touches. -/
theorem calibrateStart_of_captured {app : CalibApp} {rs : List Reading}
    {touched : Fin 3 → Reading} (hb : app.touch.Bounded)
    (hcap : captured rs = some touched) :
    ∃ (sample : Fin 3 → Sample) (next : CalibApp),
      (∀ i, touchXyz app.touch (touched i) = some (sample i)) ∧
      calibrateStart app rs = some next ∧
      touchCalibrate refPoint1 refPoint2 refPoint3 (sample 0).touchPoint
        (sample 1).touchPoint (sample 2).touchPoint app.touch =
          some next.touch := by
  obtain ⟨cs, htouches⟩ := captured_eq_some_iff.mp hcap
  cases rs with
  | nil => cases htouches
  | cons r rs =>
      rw [List.tail_cons] at htouches
      have hrestart : app.restart.touch.Bounded := hb
      obtain ⟨s1, app1, rest1, hs1, htouch1, hpoint1, hscr1, hrest1, hloop1⟩ :=
        calibrateLoop_first hrestart rfl htouches
      obtain ⟨s2, app2, rest2, hs2, htouch2, hpoint2, hkeep, hscr2, hrest2,
        hloop2⟩ := calibrateLoop_second (by rwa [htouch1]) hpoint1 hrest1
      obtain ⟨s3, app3, hs3, hcal, hloop3⟩ :=
        calibrateLoop_third (by rwa [htouch2, htouch1]) hpoint2 hrest2
      rw [hkeep, hscr1, hscr2, htouch2, htouch1] at hcal
      rw [htouch1] at hs2
      rw [htouch2, htouch1] at hs3
      refine ⟨![s1, s2, s3], app3, ?_, ?_, hcal⟩
      · intro i
        fin_cases i
        · exact hs1
        · exact hs2
        · exact hs3
      · rw [calibrateStart_cons hb, hloop1, hloop2, hloop3]

/-- A run on readings without three touches does not end. -/
theorem calibrateStart_of_not_captured {app : CalibApp} {rs : List Reading}
    (hb : app.touch.Bounded) (hcap : captured rs = none) :
    calibrateStart app rs = none := by
  cases rs with
  | nil => rfl
  | cons r rs =>
      have hrestart : app.restart.touch.Bounded := hb
      rw [calibrateStart_cons hb]
      match htouches : touches true rs with
      | [] => exact calibrateLoop_starved hrestart htouches
      | [r1] =>
          obtain ⟨s1, app1, rest1, -, htouch1, -, -, hrest1, hloop1⟩ :=
            calibrateLoop_first hrestart rfl htouches
          rw [hloop1]
          exact calibrateLoop_starved (by rwa [htouch1]) hrest1
      | [r1, r2] =>
          obtain ⟨s1, app1, rest1, -, htouch1, hpoint1, -, hrest1, hloop1⟩ :=
            calibrateLoop_first hrestart rfl htouches
          obtain ⟨s2, app2, rest2, -, htouch2, -, -, -, hrest2, hloop2⟩ :=
            calibrateLoop_second (by rwa [htouch1]) hpoint1 hrest1
          rw [hloop1, hloop2]
          exact calibrateLoop_starved (by rwa [htouch2, htouch1]) hrest2
      | r1 :: r2 :: r3 :: cs =>
          simp [captured, htouches] at hcap

/-- The runs that end are the runs that capture three touches. -/
theorem calibrateStart_ends_iff {app : CalibApp} (hb : app.touch.Bounded)
    (rs : List Reading) :
    (∃ next, calibrateStart app rs = some next) ↔
      ∃ touched, captured rs = some touched := by
  constructor
  · rintro ⟨next, hrun⟩
    by_contra hno
    rw [calibrateStart_of_not_captured hb
      (Option.eq_none_iff_forall_ne_some.mpr (not_exists.mp hno))] at hrun
    cases hrun
  · rintro ⟨touched, hcap⟩
    obtain ⟨sample, next, -, hrun, -⟩ := calibrateStart_of_captured hb hcap
    exact ⟨next, hrun⟩

/-! ## Calibrating again -/

/-- The reference points, in the order of the touches. -/
def refPoint : Fin 3 → TouchPoint := ![refPoint1, refPoint2, refPoint3]

/-- The driver reports a touch at one of these positions at the reference
point of its place. -/
def CalibApp.Recalibrated (app : CalibApp) (touched : Fin 3 → Reading) :
    Prop :=
  ∀ i r, r.raw = (touched i).raw →
    touchXyz app.touch r =
      some ⟨(refPoint i).point.x, (refPoint i).point.y, r.z⟩

/-- The matrix maps the position to itself, in the 16 bits the application
stores. -/
def Matrix.Fixes (m : Matrix) (p : Point) : Prop :=
  ∃ q, (∀ stack, getDisplayPoint stack p m = some (ok, q)) ∧
    q.x ≡ p.x [ZMOD 2 ^ 16] ∧ q.y ≡ p.y [ZMOD 2 ^ 16]

/-- The run captures three touches that are not on one line, and the driver
it finds is uncalibrated or maps each touched position to itself. -/
def CalibApp.SeesRaw (app : CalibApp) (rs : List Reading) : Prop :=
  ∃ touched, captured rs = some touched ∧
    ¬ Collinear ℚ (Set.range fun i => (touched i).raw.plane) ∧
    (app.touch.calibrated = true →
      ∀ i, app.touch.storedMatrix.Fixes (touched i).raw)

/-- A run of the application as an event; one that does not end is not
counted. -/
def recalibrate (app : CalibApp) (rs : List Reading) : CalibApp :=
  (calibrateStart app rs).getD app

theorem toS32_modEq (v : ℤ) : toS32 v ≡ v [ZMOD 2 ^ 16] := by
  have hwrap : toS32 v ≡ v [ZMOD 2 ^ 32] := Int.bmod_emod
  exact hwrap.of_dvd (by norm_num)

theorem toNat_ofInt_of_modEq {v : ℤ} {n : ℕ} (hn : n < 65536)
    (h : v ≡ n [ZMOD 2 ^ 16]) : ((BitVec.ofInt 16 v).toNat : ℤ) = n := by
  have hmod : v % 65536 = n % 65536 := h
  rw [BitVec.toNat_ofInt]
  push_cast
  omega

/-- What is stored for a touch the driver does not move is the touch. -/
theorem touchPoint_eq_raw {t : Driver} {r : Reading} {s : Sample}
    (hs : touchXyz t r = some s)
    (hfix : t.calibrated = true → t.storedMatrix.Fixes r.raw) :
    s.touchPoint.point = r.raw := by
  have hix := toNat_shiftRight_three_le r.wordX
  have hiy := toNat_shiftRight_three_le r.wordY
  have hstored : s.x ≡ r.ix [ZMOD 2 ^ 16] ∧ s.y ≡ r.iy [ZMOD 2 ^ 16] := by
    by_cases hcal : t.calibrated = true
    · obtain ⟨q, hq, hx, hy⟩ := hfix hcal
      have hsample : s = ⟨toS32 q.x, toS32 q.y, r.z⟩ := by
        simpa [touchXyz, hcal, hq, eq_comm] using hs
      rw [hsample]
      exact ⟨(toS32_modEq q.x).trans hx, (toS32_modEq q.y).trans hy⟩
    · have hsample : s = ⟨r.ix, r.iy, r.z⟩ := by
        simpa [touchXyz, hcal, eq_comm] using hs
      rw [hsample]
      exact ⟨Int.ModEq.refl _, Int.ModEq.refl _⟩
  have hx := toNat_ofInt_of_modEq (by omega) hstored.1
  have hy := toNat_ofInt_of_modEq (by omega) hstored.2
  rw [TouchPoint.point, Sample.touchPoint, hx, hy]
  rfl

/-- One run that sees raw positions calibrates the driver exactly. -/
theorem calibrateStart_of_seesRaw {app : CalibApp} {rs : List Reading}
    (hb : app.touch.Bounded) (hraw : app.SeesRaw rs) :
    ∃ touched next, captured rs = some touched ∧
      calibrateStart app rs = some next ∧ next.Recalibrated touched := by
  obtain ⟨touched, hcap, hcol, hfix⟩ := hraw
  obtain ⟨sample, next, hsample, hrun, hcal⟩ :=
    calibrateStart_of_captured hb hcap
  have hpoint : ∀ i, ((sample i).touchPoint).point = (touched i).raw :=
    fun i => touchPoint_eq_raw (hsample i) fun h => hfix h i
  have hcol' : ¬ Collinear ℚ
      (Set.range fun i => ((sample i).touchPoint).point.plane) := by
    simpa only [hpoint] using hcol
  have hexact := @touchCalibrate_exactDriver refPoint
    (fun i => (sample i).touchPoint) app.touch hcol'
  have htouch : next.touch =
      exactDriver refPoint fun i => (sample i).touchPoint :=
    Option.some.inj (hcal.symm.trans hexact)
  refine ⟨touched, next, hcap, hrun, ?_⟩
  intro i r hr
  rw [htouch]
  apply touchXyz_exactDriver_sample hcol'
  rw [hr, hpoint i]

/-- A calibration leaves a matrix on which no reading overflows, whatever the
samples are. -/
theorem touchCalibrate_bounded (ref scr : Fin 3 → TouchPoint) {t t' : Driver}
    (hb : t.Bounded) (h : touchCalibrate (ref 0) (ref 1) (ref 2) (scr 0)
      (scr 1) (scr 2) t = some t') : t'.Bounded := by
  rw [touchCalibrate_eq] at h
  obtain rfl := Option.some.inj h
  unfold Driver.Bounded
  by_cases hzero : cross (fun i => (scr i).point.pair) = 0
  · simp only [if_pos hzero]
    exact { hb with divider_le := (abs_nonneg _).trans hb.divider_le }
  · simp only [if_neg hzero]
    exact exactMatrix_bounded (fun i => (ref i).point_fits16)
      fun i => (scr i).point_fits16

/-- So does every run of the application. -/
theorem recalibrate_bounded {app : CalibApp} (hb : app.touch.Bounded)
    (rs : List Reading) : (recalibrate app rs).touch.Bounded := by
  cases hcap : captured rs with
  | none =>
      rw [recalibrate, calibrateStart_of_not_captured hb hcap]
      exact hb
  | some touched =>
      obtain ⟨sample, next, -, hrun, hcal⟩ := calibrateStart_of_captured hb hcap
      rw [recalibrate, hrun]
      exact touchCalibrate_bounded refPoint (fun i => (sample i).touchPoint)
        hb hcal

theorem powerOn_bounded : CalibApp.powerOn.touch.Bounded where
  an_le := by decide
  bn_le := by decide
  cn_le := by decide
  dn_le := by decide
  en_le := by decide
  fn_le := by decide
  divider_le := by decide

/-- Recalibration works after any sequence of runs: a last run that sees raw
positions ends, and leaves a driver that reports the three positions touched in
it at the reference points. -/
theorem calibrateStart_recalibrates (earlier : List (List Reading))
    {last : List Reading}
    (hlast : (run recalibrate CalibApp.powerOn earlier).SeesRaw last) :
    ∃ touched, captured last = some touched ∧
      calibrateStart (run recalibrate CalibApp.powerOn earlier) last =
        some (run recalibrate CalibApp.powerOn (earlier ++ [last])) ∧
      (run recalibrate CalibApp.powerOn (earlier ++ [last])).Recalibrated
        touched := by
  have hb : (run recalibrate CalibApp.powerOn earlier).touch.Bounded :=
    invariant_run (I := fun app : CalibApp => app.touch.Bounded)
      (fun _ rs hb => recalibrate_bounded hb rs) powerOn_bounded earlier
  obtain ⟨touched, next, hcap, hrun, hrecal⟩ :=
    calibrateStart_of_seesRaw hb hlast
  have hnext : run recalibrate CalibApp.powerOn (earlier ++ [last]) =
      next := by
    rw [run_append, run_cons, run_nil, recalibrate, hrun]
    rfl
  rw [hnext]
  exact ⟨touched, hcap, hrun, hrecal⟩

/-- A reading with contact at a raw position. -/
def pressed (x y : ℕ) : Reading :=
  ⟨BitVec.ofNat 16 (8 * x), BitVec.ofNat 16 (8 * y), 8000, 8000, 0, ⟨0, 0⟩⟩

/-- A reading without contact. -/
def released : Reading := ⟨800, 800, 8, 64000, 0, ⟨0, 0⟩⟩

/-- A run with one touch at each of three raw positions. -/
def touchRun (p1 p2 p3 : ℕ × ℕ) : List Reading :=
  [released, pressed p1.1 p1.2, released, pressed p2.1 p2.2, released,
    pressed p3.1 p3.2]

/-- A panel whose raw positions are display positions, calibrated twice. -/
theorem calibrateStart_recalibrates_identity_panel :
    ∃ touched,
      captured (touchRun (800, 7000) (4000, 1500) (7200, 6500)) =
        some touched ∧
      (run recalibrate CalibApp.powerOn
        [touchRun (15, 282) (120, 62) (220, 262),
          touchRun (800, 7000) (4000, 1500) (7200, 6500)]).Recalibrated
            touched := by
  have hsees : (run recalibrate CalibApp.powerOn
      [touchRun (15, 282) (120, 62) (220, 262)]).SeesRaw
        (touchRun (800, 7000) (4000, 1500) (7200, 6500)) := by
    refine ⟨![pressed 800 7000, pressed 4000 1500, pressed 7200 6500],
      ?_, ?_, ?_⟩
    · decide +kernel
    · intro hline
      exact absurd ((collinear_toRat_iff _).mp hline) (by decide +kernel)
    · intro _ i
      have hmatrix : (run recalibrate CalibApp.powerOn
          [touchRun (15, 282) (120, 62) (220, 262)]).touch.storedMatrix =
            ⟨43000, 0, 0, 0, 43000, 0, 43000⟩ := by decide +kernel
      rw [hmatrix]
      fin_cases i
      · exact ⟨⟨800, 7000⟩, fun stack => rfl, rfl, rfl⟩
      · exact ⟨⟨4000, 1500⟩, fun stack => rfl, rfl, rfl⟩
      · exact ⟨⟨7200, 6500⟩, fun stack => rfl, rfl, rfl⟩
  obtain ⟨touched, hcap, -, hrecal⟩ :=
    calibrateStart_recalibrates [touchRun (15, 282) (120, 62) (220, 262)] hsees
  exact ⟨touched, hcap, hrecal⟩

/-- The same three touches in two runs.  The second run calibrates from the
display positions that the first made of them, and the driver then reports
the raw positions. -/
theorem calibrateStart_twice_reports_raw :
    ¬ ∀ (earlier : List (List Reading)) (last : List Reading)
        (touched : Fin 3 → Reading),
      (∀ rs ∈ earlier ++ [last], ∃ touched, captured rs = some touched ∧
        ¬ Collinear ℚ (Set.range fun i => (touched i).raw.plane)) →
      captured last = some touched →
      (run recalibrate CalibApp.powerOn (earlier ++ [last])).Recalibrated
        touched := by
  intro hclaim
  have hcap : captured (touchRun (800, 7000) (4000, 1500) (7200, 6500)) =
      some ![pressed 800 7000, pressed 4000 1500, pressed 7200 6500] := by
    decide +kernel
  have hcol : ¬ Collinear ℚ (Set.range fun i =>
      ((![pressed 800 7000, pressed 4000 1500, pressed 7200 6500] :
        Fin 3 → Reading) i).raw.plane) := by
    intro hline
    exact absurd ((collinear_toRat_iff _).mp hline) (by decide +kernel)
  have hrecal := hclaim [touchRun (800, 7000) (4000, 1500) (7200, 6500)]
    (touchRun (800, 7000) (4000, 1500) (7200, 6500)) _
    (by
      intro rs hrs
      have hsame : rs = touchRun (800, 7000) (4000, 1500) (7200, 6500) := by
        simpa using hrs
      rw [hsame]
      exact ⟨_, hcap, hcol⟩) hcap
  have hraw : touchXyz (run recalibrate CalibApp.powerOn
      [touchRun (800, 7000) (4000, 1500) (7200, 6500),
        touchRun (800, 7000) (4000, 1500) (7200, 6500)]).touch
          (pressed 800 7000) = some ⟨800, 7000, 799⟩ := by decide +kernel
  have hreported := (hrecal 0 (pressed 800 7000) rfl).symm.trans hraw
  exact absurd hreported (by decide +kernel)

end EmbBoard.Touch
