import EmbBoard.Support.Runs
import Mathlib.Data.BitVec
import Mathlib.Logic.Function.Basic
import Mathlib.Tactic.Ring

/-!
# Soft timers

The timer module counts the ticks of a hardware timer and derives ten soft
timers from them.  A soft timer stores the time of its last reset, and the
time is the resolution in force now times all ticks: a change of the
resolution changes the past.

An `int` is a 32-bit word and its arithmetic wraps around.
-/

namespace EmbBoard.Timer

open EmbBoard.Runs

/-! ## The module -/

/-- The two hardware timers, index 0 and 1 of the module's arrays. -/
inductive HwTimer
  | tmr0 | tmr1
deriving DecidableEq, Repr

def HwTimer.ofInt : ℤ → Option HwTimer
  | 0 => some .tmr0
  | 1 => some .tmr1
  | _ => none

/-- The registers of a hardware timer that the module writes. -/
structure TimerRegs where
  tcr : BitVec 32
  pr : BitVec 32
  mr0 : BitVec 32
  ir : BitVec 32
  mcr : BitVec 32
deriving DecidableEq, Repr

/-- Size of `timers`. -/
def timersSize : ℤ := 10

/-- The static variables of the module, the registers, and whether the
interrupt of a hardware timer has its handler.  The cells of `timers` from
`timersSize` on, and those below zero, are not the module's. -/
structure TimerModule where
  tmrTicks : HwTimer → BitVec 32
  tmrResolutionMs : HwTimer → BitVec 32
  timers : ℤ → BitVec 32
  regs : HwTimer → TimerRegs
  irqInstalled : HwTimer → Bool

/-- `Fpclk`. -/
def fpclk : ℕ := 57600000 / 2

namespace TimerModule

/-- `TMR0_Handler` and `TMR1_Handler`; a cause is cleared by writing it. -/
def handler (n : HwTimer) (m : TimerModule) : TimerModule :=
  { m with
    tmrTicks := Function.update m.tmrTicks n (m.tmrTicks n + 1)
    regs := Function.update m.regs n
      { m.regs n with ir := (m.regs n).ir &&& ~~~0xff#32 } }

/-- `initTimer`; `install_irq` succeeds for the interrupts of both timers. -/
def initTimer (timerNum : ℤ) (intervalMs : BitVec 32) (m : TimerModule) :
    ℤ × TimerModule :=
  match HwTimer.ofInt timerNum with
  | some n =>
      (0,
        { m with
          tmrResolutionMs := Function.update m.tmrResolutionMs n intervalMs
          irqInstalled := Function.update m.irqInstalled n true
          regs := Function.update m.regs n
            { tcr := 0x02
              pr := 0x00
              mr0 := intervalMs * BitVec.ofNat 32 (fpclk / (1000 - 1))
              ir := (m.regs n).ir &&& ~~~0xff#32
              mcr := 0x03 } })
  | none => (-1, m)

/-- There is no return value for another number. -/
def getTimerTicks (timerNum : ℤ) (m : TimerModule) : Option (BitVec 32) :=
  (HwTimer.ofInt timerNum).map m.tmrTicks

def getTimerResolution (timerNum : ℤ) (m : TimerModule) :
    Option (BitVec 32) :=
  (HwTimer.ofInt timerNum).map m.tmrResolutionMs

/-- `RUN`. -/
def run : ℤ := 0

/-- `RESET`. -/
def reset : ℤ := 1

/-- `timer`.  The guard lets more indices through than the array has; for
those the language defines no result, and there is no return value for the
indices it refuses. -/
def timer (timerNum clear : ℤ) (m : TimerModule) :
    Option (BitVec 32 × TimerModule) :=
  if timerNum < 11 then do
    let resolution ← getTimerResolution 0 m
    let ticks ← getTimerTicks 0 m
    if 0 ≤ timerNum ∧ timerNum < timersSize then
      if clear ≠ 0 then
        return (0, { m with
          timers := Function.update m.timers timerNum (resolution * ticks) })
      else
        return (resolution * ticks - m.timers timerNum, m)
    else none
  else none

/-- Static storage is zero until the first call, the hardware in any state. -/
def powerOn (regs : HwTimer → TimerRegs) (irqInstalled : HwTimer → Bool) :
    TimerModule where
  tmrTicks := fun _ => 0
  tmrResolutionMs := fun _ => 0
  timers := fun _ => 0
  regs := regs
  irqInstalled := irqInstalled

end TimerModule

/-! ## Runs -/

/-- A positive `int`. -/
structure Interval where
  ms : ℕ
  pos : 0 < ms
  lt : ms < 2 ^ 31

inductive TimerCall
  | initTimer (interval : Interval)
  | interrupt
  | reset (timerNum : ℤ)

/-- The module with the interval in force and the time each soft timer should
have measured. -/
structure Measured where
  sys : TimerModule
  interval : ℕ
  elapsed : ℤ → ℕ

def Measured.start (m : TimerModule) : Measured :=
  { sys := m, interval := 0, elapsed := fun _ => 0 }

/-- One step on hardware timer 0.  Every tick adds the interval in force. -/
def timerStep (s : Measured) : TimerCall → Measured
  | .initTimer interval =>
      { s with
        sys := (s.sys.initTimer 0 (BitVec.ofNat 32 interval.ms)).2
        interval := interval.ms }
  | .interrupt =>
      { s with
        sys := s.sys.handler .tmr0
        elapsed := fun i => s.elapsed i + s.interval }
  | .reset timerNum =>
      { s with
        sys := ((s.sys.timer timerNum TimerModule.reset).map Prod.snd).getD s.sys
        elapsed := Function.update s.elapsed timerNum 0 }

/-- While it fits, the timer reports the time elapsed. -/
def Reports (i : ℤ) (s : Measured) : Prop :=
  s.elapsed i < 2 ^ 31 →
    ∃ v, s.sys.timer i TimerModule.run = some (v, s.sys) ∧
      v.toInt = s.elapsed i

/-- A reset that the guard lets through changes its own timer only. -/
def ResetAlone (s : Measured) : TimerCall → Prop
  | .reset timerNum => timerNum < 11 →
      ∃ v sys, s.sys.timer timerNum TimerModule.reset = some (v, sys) ∧
        (∀ j, j ≠ timerNum →
          (sys.timer j TimerModule.run).map Prod.fst =
            (s.sys.timer j TimerModule.run).map Prod.fst) ∧
        (∀ j, j ≠ timerNum → sys.timers j = s.sys.timers j) ∧
        sys.tmrTicks = s.sys.tmrTicks ∧
        sys.tmrResolutionMs = s.sys.tmrResolutionMs
  | _ => True

/-- The index is one of the array. -/
def InArray (i : ℤ) : Prop := 0 ≤ i ∧ i < timersSize

/-- A reset is of a timer there is. -/
def ResetInArray (_ : Measured) : TimerCall → Prop
  | .reset timerNum => timerNum < 11 → InArray timerNum
  | _ => True

/-- A new interval finds the timer out of range already, or makes no
difference to the ticks so far. -/
def HarmlessInterval (i : ℤ) (s : Measured) : TimerCall → Prop
  | .initTimer interval =>
      2 ^ 31 ≤ s.elapsed i ∨
        (BitVec.ofNat 32 interval.ms - BitVec.ofNat 32 s.interval) *
          s.sys.tmrTicks .tmr0 = 0
  | _ => True

/-! ## One call -/

/-- The time since power-on as the module computes it. -/
def TimerModule.now (m : TimerModule) : BitVec 32 :=
  m.tmrResolutionMs .tmr0 * m.tmrTicks .tmr0

/-- The guard lets every index of the array through. -/
theorem InArray.lt_guard {i : ℤ} (hi : InArray i) : i < 11 :=
  hi.2.trans (by decide)

theorem timer_run {i : ℤ} (hi : InArray i) (m : TimerModule) :
    m.timer i TimerModule.run = some (m.now - m.timers i, m) := by
  have hguard := hi.lt_guard
  simp [TimerModule.timer, TimerModule.getTimerResolution,
    TimerModule.getTimerTicks, HwTimer.ofInt, TimerModule.run, hguard, hi.1,
    hi.2, TimerModule.now]

theorem timer_reset {i : ℤ} (hi : InArray i) (m : TimerModule) :
    m.timer i TimerModule.reset =
      some (0, { m with timers := Function.update m.timers i m.now }) := by
  have hguard := hi.lt_guard
  simp [TimerModule.timer, TimerModule.getTimerResolution,
    TimerModule.getTimerTicks, HwTimer.ofInt, TimerModule.reset, hguard, hi.1,
    hi.2, TimerModule.now]

/-- Outside the array a call has no result. -/
theorem timer_outside {i : ℤ} (hi : ¬InArray i) (clear : ℤ)
    (m : TimerModule) : m.timer i clear = none := by
  unfold TimerModule.timer
  split
  · simp only [TimerModule.getTimerResolution, TimerModule.getTimerTicks,
      HwTimer.ofInt, Option.map_some, Option.bind_eq_bind, Option.bind_some]
    exact if_neg hi
  · rfl

theorem resetAlone_iff (s : Measured) (call : TimerCall) :
    ResetAlone s call ↔ ResetInArray s call := by
  cases call with
  | initTimer interval => exact Iff.rfl
  | interrupt => exact Iff.rfl
  | reset timerNum =>
      apply imp_congr_right
      intro _
      constructor
      · rintro ⟨v, sys, hreset, _⟩
        by_contra hout
        rw [timer_outside hout] at hreset
        cases hreset
      · intro hin
        refine ⟨_, _, timer_reset hin s.sys, ?_, ?_, rfl, rfl⟩
        · intro j hj
          by_cases hjin : InArray j
          · rw [timer_run hjin, timer_run hjin]
            simp [TimerModule.now, hj]
          · rw [timer_outside hjin, timer_outside hjin]
        · intro j hj
          exact Function.update_of_ne hj _ _

/-- The resolution is the interval in force. -/
def InForce (s : Measured) : Prop :=
  s.sys.tmrResolutionMs .tmr0 = BitVec.ofNat 32 s.interval

theorem inForce_step (s : Measured) (call : TimerCall) (h : InForce s) :
    InForce (timerStep s call) := by
  cases call with
  | initTimer interval =>
      simp [InForce, timerStep, TimerModule.initTimer, HwTimer.ofInt]
  | interrupt => exact h
  | reset timerNum =>
      by_cases hin : InArray timerNum
      · simpa [InForce, timerStep, timer_reset hin] using h
      · simpa [InForce, timerStep, timer_outside hin] using h

/-- A word below `2 ^ 31` is what it stands for. -/
theorem toInt_eq_natCast_iff {v : BitVec 32} {n : ℕ} (hn : n < 2 ^ 31) :
    v.toInt = n ↔ v = BitVec.ofNat 32 n := by
  have hword : (BitVec.ofNat 32 n).toInt = n := by
    have hnat : (BitVec.ofNat 32 n).toNat = n := by
      rw [BitVec.toNat_ofNat]
      exact Nat.mod_eq_of_lt (by omega)
    rw [BitVec.toInt_eq_toNat_of_lt (by omega), hnat]
  constructor
  · intro h
    exact BitVec.eq_of_toInt_eq (h.trans hword.symm)
  · rintro rfl
    exact hword

theorem reports_iff {i : ℤ} (hi : InArray i) (s : Measured) :
    Reports i s ↔
      (s.elapsed i < 2 ^ 31 →
        s.sys.now - s.sys.timers i = BitVec.ofNat 32 (s.elapsed i)) := by
  apply imp_congr_right
  intro hlt
  rw [timer_run hi, ← toInt_eq_natCast_iff hlt]
  simp

/-! ## One step -/

/-- The word a timer should report. -/
theorem now_handler (m : TimerModule) :
    (m.handler .tmr0).now = m.now + m.tmrResolutionMs .tmr0 := by
  simp only [TimerModule.now, TimerModule.handler, Function.update_self]
  ring

theorem now_initTimer (m : TimerModule) (ms : BitVec 32) :
    (m.initTimer 0 ms).2.now =
      m.now + (ms - m.tmrResolutionMs .tmr0) * m.tmrTicks .tmr0 := by
  simp only [TimerModule.now, TimerModule.initTimer, HwTimer.ofInt,
    Function.update_self]
  ring

/-- A tick is measured as it should be. -/
theorem reports_interrupt {i : ℤ} (hi : InArray i) {s : Measured}
    (hforce : InForce s) (h : Reports i s) :
    Reports i (timerStep s .interrupt) := by
  rw [reports_iff hi] at h ⊢
  intro hlt
  have hbefore : s.elapsed i < 2 ^ 31 := lt_of_le_of_lt (Nat.le_add_right _ _) hlt
  have hreport := h hbefore
  have hafter : (timerStep s .interrupt).sys.now =
      s.sys.now + BitVec.ofNat 32 s.interval := by
    rw [← show s.sys.tmrResolutionMs .tmr0 = _ from hforce]
    exact now_handler s.sys
  calc (timerStep s .interrupt).sys.now - s.sys.timers i
      = (s.sys.now - s.sys.timers i) + BitVec.ofNat 32 s.interval := by
        rw [hafter]
        ring
    _ = BitVec.ofNat 32 (s.elapsed i) + BitVec.ofNat 32 s.interval := by
        rw [hreport]
    _ = BitVec.ofNat 32 (s.elapsed i + s.interval) :=
        (BitVec.ofNat_add _ _).symm

theorem reports_reset {i : ℤ} (hi : InArray i) {s : Measured}
    (h : Reports i s) (timerNum : ℤ) :
    Reports i (timerStep s (.reset timerNum)) := by
  rw [reports_iff hi] at h ⊢
  by_cases hsame : i = timerNum
  · subst hsame
    simp [timerStep, timer_reset hi, TimerModule.now]
  · by_cases hin : InArray timerNum
    · simpa [timerStep, timer_reset hin, TimerModule.now, hsame] using h
    · simpa [timerStep, timer_outside hin, hsame] using h

/-- A new interval changes the time of the past. -/
theorem reports_initTimer_iff {i : ℤ} (hi : InArray i) {s : Measured}
    (hforce : InForce s) (h : Reports i s) (interval : Interval) :
    Reports i (timerStep s (.initTimer interval)) ↔
      HarmlessInterval i s (.initTimer interval) := by
  rw [reports_iff hi] at h ⊢
  have hafter : (timerStep s (.initTimer interval)).sys.now =
      s.sys.now + (BitVec.ofNat 32 interval.ms - BitVec.ofNat 32 s.interval) *
        s.sys.tmrTicks .tmr0 := by
    rw [← show s.sys.tmrResolutionMs .tmr0 = BitVec.ofNat 32 s.interval
      from hforce]
    exact now_initTimer s.sys _
  have helapsed : (timerStep s (.initTimer interval)).elapsed = s.elapsed := rfl
  have hstored : (timerStep s (.initTimer interval)).sys.timers =
      s.sys.timers := rfl
  rw [helapsed, hstored, hafter]
  unfold HarmlessInterval
  by_cases hlt : s.elapsed i < 2 ^ 31
  · have hreport := h hlt
    rw [← hreport]
    have hno : ¬2 ^ 31 ≤ s.elapsed i := not_le.mpr hlt
    simp only [hlt, hno, true_implies, false_or]
    constructor
    · intro heq
      rw [← sub_eq_zero] at heq
      rw [← heq]
      ring
    · intro hzero
      rw [hzero]
      ring
  · exact iff_of_true (fun hlt' => absurd hlt' hlt) (Or.inl (not_lt.mp hlt))

theorem reports_step_iff {i : ℤ} (hi : InArray i) {s : Measured}
    (hforce : InForce s) (h : Reports i s) (call : TimerCall) :
    Reports i (timerStep s call) ↔ HarmlessInterval i s call := by
  cases call with
  | initTimer interval => exact reports_initTimer_iff hi hforce h interval
  | interrupt => exact iff_of_true (reports_interrupt hi hforce h) trivial
  | reset timerNum => exact iff_of_true (reports_reset hi h timerNum) trivial

/-! ## Whole runs -/

/-- A soft timer measures the ticks since its last reset all along a run, and
every reset keeps to its own timer, exactly when the timer is one of the ten,
so is every timer that is reset, and no new interval changes the time of the
ticks so far while the timer is in range. -/
theorem softTimer_iff (regs : HwTimer → TimerRegs)
    (irqInstalled : HwTimer → Bool) (i : ℤ) (calls : List TimerCall) :
    let start := Measured.start (.powerOn regs irqInstalled)
    (Along timerStep (Reports i) start calls ∧
        Admissible timerStep ResetAlone start calls) ↔
      InArray i ∧ Admissible timerStep
        (fun s call => HarmlessInterval i s call ∧ ResetInArray s call)
        start calls := by
  intro start
  have hresets : Admissible timerStep ResetAlone start calls ↔
      Admissible timerStep ResetInArray start calls :=
    admissible_congr (I := fun _ => True) (fun _ _ _ => trivial)
      (fun s call _ => resetAlone_iff s call) trivial calls
  rw [hresets, admissible_and]
  by_cases hi : InArray i
  · have hforce : InForce start := rfl
    have hstart : Reports i start := by
      rw [reports_iff hi]
      intro _
      simp [start, Measured.start, TimerModule.powerOn, TimerModule.now]
    have hreports : Along timerStep (Reports i) start calls ↔
        Admissible timerStep (HarmlessInterval i) start calls :=
      along_iff_admissible inForce_step
        (fun s call hs h => reports_step_iff hi hs h call) hforce hstart calls
    rw [hreports]
    exact (and_iff_right hi).symm
  · constructor
    · rintro ⟨halong, _⟩
      have hfirst : Reports i start := halong [] List.nil_prefix
      obtain ⟨v, hrun, _⟩ := hfirst (show 0 < 2 ^ 31 by decide)
      rw [timer_outside hi] at hrun
      cases hrun
    · rintro ⟨hin, _⟩
      exact absurd hin hi

/-- The module with its registers at zero. -/
def TimerModule.zero : TimerModule :=
  .powerOn (fun _ => ⟨0, 0, 0, 0, 0⟩) fun _ => false

/-- One tick of ten milliseconds, then the interval is set to twenty: timer 0
reports twenty for the ten that have passed.  Index 10 passes the guard, and
its reset has no result. -/
theorem new_interval_changes_past :
    let calls : List TimerCall :=
      [.initTimer ⟨10, by decide, by decide⟩, .interrupt,
        .initTimer ⟨20, by decide, by decide⟩]
    let s := Runs.run timerStep (.start .zero) calls
    s.elapsed 0 = 10 ∧
      (s.sys.timer 0 TimerModule.run).map Prod.fst = some 20 ∧
      ¬Along timerStep (Reports 0) (.start .zero) calls ∧
      ¬ResetAlone s (.reset 10) := by
  intro calls s
  have helapsed : s.elapsed 0 = 10 := rfl
  have hreport : (s.sys.timer 0 TimerModule.run).map Prod.fst = some 20 := by
    decide
  refine ⟨helapsed, hreport, ?_, ?_⟩
  · intro h
    have hlast : Reports 0 s := h.last
    obtain ⟨v, hrun, hv⟩ := hlast (by rw [helapsed]; decide)
    rw [hrun, Option.map_some, Option.some_inj] at hreport
    have hvalue : v = 20 := hreport
    rw [helapsed, hvalue] at hv
    exact absurd hv (by decide)
  · rw [resetAlone_iff]
    intro h
    have hin : InArray 10 := h (by decide)
    exact absurd hin.2 (by decide)

end EmbBoard.Timer
