import EmbBoard.Timer.SoftTimer
import Mathlib.Algebra.Order.Field.Basic
import Mathlib.Algebra.Order.Ring.Rat
import Mathlib.Tactic.FieldSimp
import Mathlib.Tactic.Linarith

/-!
# Elapsed milliseconds

The timer module of the program with the FPGA peripherals.  Hardware timer 0
matches on its second register, and there is a second initialiser that takes
the interval in ticks of the peripheral clock.  Both keep the interval they
were given as the milliseconds of one interrupt; the real time of an interrupt
follows from the match register.
-/

namespace EmbBoard.Timer

/-! ## The module -/

/-- The registers of a hardware timer that this version writes. -/
structure TickRegs where
  tcr : BitVec 32
  pr : BitVec 32
  mr0 : BitVec 32
  mr1 : BitVec 32
  ir : BitVec 32
  mcr : BitVec 32
deriving DecidableEq, Repr

/-- The static variables of the module, the registers, and whether the
interrupt of a hardware timer has its handler.  A callback is known by its
address `γ`. -/
structure TickModule (γ : Type*) where
  tmrTicks : HwTimer → BitVec 32
  tmrResolutionMs : HwTimer → BitVec 32
  timers : ℤ → BitVec 32
  callbacks : HwTimer → Option γ
  regs : HwTimer → TickRegs
  irqInstalled : HwTimer → Bool

namespace TickModule

variable {γ : Type*}

/-- `TMR0_Handler` with the callback it runs, and `TMR1_Handler`, which runs
none. -/
def handler (n : HwTimer) (m : TickModule γ) : Option γ × TickModule γ :=
  (match n with
    | .tmr0 => m.callbacks .tmr0
    | .tmr1 => none,
    { m with
      tmrTicks := Function.update m.tmrTicks n (m.tmrTicks n + 1)
      regs := Function.update m.regs n
        { m.regs n with ir := (m.regs n).ir &&& ~~~0xff#32 } })

/-- What both initialisers do: the match value goes to the second match
register of timer 0 and to the first one of timer 1. -/
def setMatch (n : HwTimer) (value resolution : BitVec 32)
    (m : TickModule γ) : TickModule γ :=
  let r := { m.regs n with
    tcr := 0x02, pr := 0x00, ir := (m.regs n).ir &&& ~~~0xff#32 }
  { m with
    tmrResolutionMs := Function.update m.tmrResolutionMs n resolution
    irqInstalled := Function.update m.irqInstalled n true
    regs := Function.update m.regs n
      (match n with
        | .tmr0 => { r with mr1 := value, mcr := 0x18 }
        | .tmr1 => { r with mr0 := value, mcr := 0x03 }) }

/-- `initTimerTicks`; only timer 0 gets its callback. -/
def initTimerTicks (timerNum : ℤ) (ticks : BitVec 32) (cb : Option γ)
    (m : TickModule γ) : ℤ × TickModule γ :=
  match HwTimer.ofInt timerNum with
  | some .tmr0 =>
      (0, { m.setMatch .tmr0 ticks ticks with
        callbacks := Function.update m.callbacks .tmr0 cb })
  | some .tmr1 => (0, m.setMatch .tmr1 ticks ticks)
  | none => (-1, m)

/-- `initTimer`. -/
def initTimer (timerNum : ℤ) (intervalMs : BitVec 32) (m : TickModule γ) :
    ℤ × TickModule γ :=
  match HwTimer.ofInt timerNum with
  | some n =>
      (0, m.setMatch n (intervalMs * BitVec.ofNat 32 (fpclk / (1000 - 1)))
        intervalMs)
  | none => (-1, m)

/-- `getTimerResolution(0) * getTimerTicks(0)`. -/
def now (m : TickModule γ) : BitVec 32 :=
  m.tmrResolutionMs .tmr0 * m.tmrTicks .tmr0

/-- `timer`; an access outside the array has no result. -/
def timer (timerNum clear : ℤ) (m : TickModule γ) :
    Option (BitVec 32 × TickModule γ) :=
  if timerNum < 11 then
    if 0 ≤ timerNum ∧ timerNum < timersSize then
      if clear ≠ 0 then
        some (0, { m with
          timers := Function.update m.timers timerNum m.now })
      else some (m.now - m.timers timerNum, m)
    else none
  else some (-1, m)

end TickModule

/-! ## Setting up, and what happens then -/

/-- A call that sets up a hardware timer. -/
inductive TickSetup (γ : Type*)
  | initTimer (intervalMs : ℕ)
  | initTimerTicks (ticks : ℕ) (cb : Option γ)

namespace TickSetup

variable {γ : Type*}

def interval : TickSetup γ → ℕ
  | .initTimer intervalMs => intervalMs
  | .initTimerTicks ticks _ => ticks

def matchValue : TickSetup γ → ℕ
  | .initTimer intervalMs => intervalMs * (fpclk / (1000 - 1))
  | .initTimerTicks ticks _ => ticks

/-- The interval is a positive `int`, and its match value fits the
register. -/
structure Valid (s : TickSetup γ) : Prop where
  pos : 0 < s.interval
  lt : s.interval < 2 ^ 31
  fits : s.matchValue < 2 ^ 32

def apply (s : TickSetup γ) (timerNum : ℤ) (m : TickModule γ) :
    TickModule γ :=
  match s with
  | .initTimer intervalMs =>
      (m.initTimer timerNum (BitVec.ofNat 32 intervalMs)).2
  | .initTimerTicks ticks cb =>
      (m.initTimerTicks timerNum (BitVec.ofNat 32 ticks) cb).2

/-- After `n` interrupts the time that is rounded away is still below one
interrupt. -/
def NoDrift (s : TickSetup γ) (n : ℕ) : Prop :=
  match s with
  | .initTimer intervalMs =>
      n * (28 * intervalMs + 1) < 28828 * intervalMs + 1
  | .initTimerTicks _ _ => n = 0

end TickSetup

/-- An interrupt, a call of `timer`, or a call that sets up timer 1.  What a
callback does to the module is among the calls. -/
inductive TickEvent (γ : Type*)
  | interrupt (n : HwTimer)
  | timer (timerNum clear : ℤ)
  | setUp1 (setup : TickSetup γ)

variable {γ : Type*}

/-- There is no next state after an access outside the array. -/
def tickStep (m : TickModule γ) : TickEvent γ → Option (TickModule γ)
  | .interrupt n => some (m.handler n).2
  | .timer timerNum clear => (m.timer timerNum clear).map Prod.snd
  | .setUp1 setup => some (setup.apply 1 m)

def tickRun (m : TickModule γ) (es : List (TickEvent γ)) :
    Option (TickModule γ) :=
  es.foldlM tickStep m

def TickEvent.isTick : TickEvent γ → Bool
  | .interrupt .tmr0 => true
  | _ => false

/-- The interrupts of timer 0. -/
def ticksIn (es : List (TickEvent γ)) : ℕ := es.countP TickEvent.isTick

/-- No event resets the soft timer. -/
def NoReset (i : ℤ) (es : List (TickEvent γ)) : Prop :=
  ∀ clear, clear ≠ 0 → .timer i clear ∉ es

/-- The milliseconds between two interrupts of timer 0. -/
def TickModule.periodMs (m : TickModule γ) : ℚ :=
  ((m.regs .tmr0).mr1.toNat + 1) / (fpclk / 1000 : ℕ)

/-! ## What a run leaves alone -/

/-- Between two states the events took place and nothing else happened to
timer 0 and to one soft timer. -/
structure Between (i : ℤ) (es : List (TickEvent γ)) (m m' : TickModule γ) :
    Prop where
  resolution : m'.tmrResolutionMs .tmr0 = m.tmrResolutionMs .tmr0
  mr1 : (m'.regs .tmr0).mr1 = (m.regs .tmr0).mr1
  ticks : m'.tmrTicks .tmr0 = m.tmrTicks .tmr0 + BitVec.ofNat 32 (ticksIn es)
  stored : NoReset i es → m'.timers i = m.timers i

theorem Between.refl (i : ℤ) (m : TickModule γ) : Between i [] m m :=
  ⟨rfl, rfl, by simp [ticksIn], fun _ => rfl⟩

theorem Between.cons {i : ℤ} {e : TickEvent γ} {es : List (TickEvent γ)}
    {m m' m'' : TickModule γ} (h : Between i [e] m m')
    (h' : Between i es m' m'') : Between i (e :: es) m m'' := by
  refine ⟨h'.resolution.trans h.resolution, h'.mr1.trans h.mr1, ?_, ?_⟩
  · have hcount : ticksIn (e :: es) = ticksIn [e] + ticksIn es := by
      rw [ticksIn, ticksIn, ticksIn, ← List.countP_append]
      rfl
    rw [h'.ticks, h.ticks, hcount, BitVec.ofNat_add, BitVec.add_assoc]
  · intro hno
    have hhead : NoReset i [e] := by
      intro clear hclear hmem
      exact hno clear hclear (List.mem_cons.mpr
        (Or.inl (List.mem_singleton.mp hmem)))
    have htail : NoReset i es := fun clear hclear hmem =>
      hno clear hclear (List.mem_cons_of_mem e hmem)
    rw [h'.stored htail, h.stored hhead]

/-- The three things a call of `timer` can do. -/
theorem TickModule.timer_cases {timerNum clear : ℤ} {m m' : TickModule γ}
    {v : BitVec 32} (h : m.timer timerNum clear = some (v, m')) :
    (InArray timerNum ∧ clear ≠ 0 ∧ v = 0 ∧
        m' = { m with timers := Function.update m.timers timerNum m.now }) ∨
      (InArray timerNum ∧ clear = 0 ∧ v = m.now - m.timers timerNum ∧
        m' = m) ∨
      v = -1 ∧ m' = m := by
  unfold TickModule.timer at h
  split at h
  · split at h
    · rename_i hin
      split at h
      · rename_i hclear
        obtain ⟨rfl, rfl⟩ := Prod.mk.inj (Option.some_inj.mp h)
        exact Or.inl ⟨hin, hclear, rfl, rfl⟩
      · rename_i hclear
        obtain ⟨rfl, rfl⟩ := Prod.mk.inj (Option.some_inj.mp h)
        exact Or.inr (Or.inl ⟨hin, not_not.mp hclear, rfl, rfl⟩)
    · cases h
  · obtain ⟨rfl, rfl⟩ := Prod.mk.inj (Option.some_inj.mp h)
    exact Or.inr (Or.inr ⟨rfl, rfl⟩)

/-- An event that neither ticks timer 0 nor sets it up nor writes a soft
timer. -/
theorem Between.of_noTick {i : ℤ} {e : TickEvent γ} {m m' : TickModule γ}
    (hticks : ticksIn [e] = 0)
    (hresolution : m'.tmrResolutionMs .tmr0 = m.tmrResolutionMs .tmr0)
    (hmr1 : (m'.regs .tmr0).mr1 = (m.regs .tmr0).mr1)
    (hsame : m'.tmrTicks .tmr0 = m.tmrTicks .tmr0)
    (hstored : NoReset i [e] → m'.timers i = m.timers i) :
    Between i [e] m m' := by
  refine ⟨hresolution, hmr1, ?_, hstored⟩
  rw [hticks, hsame]
  exact (BitVec.add_zero _).symm

theorem between_step {e : TickEvent γ} {m m' : TickModule γ}
    (h : tickStep m e = some m') (i : ℤ) : Between i [e] m m' := by
  cases e with
  | interrupt n =>
      obtain rfl := Option.some_inj.mp h
      cases n with
      | tmr0 => exact ⟨rfl, rfl, rfl, fun _ => rfl⟩
      | tmr1 => exact .of_noTick rfl rfl rfl rfl fun _ => rfl
  | timer timerNum clear =>
      obtain ⟨⟨v, m₁⟩, hcall, rfl⟩ := Option.map_eq_some_iff.mp h
      rcases TickModule.timer_cases hcall with
        ⟨-, hclear, -, rfl⟩ | ⟨-, -, -, rfl⟩ | ⟨-, rfl⟩
      · refine .of_noTick rfl rfl rfl rfl fun hno => ?_
        have hne : i ≠ timerNum := by
          rintro rfl
          exact hno clear hclear (List.mem_singleton.mpr rfl)
        exact Function.update_of_ne hne _ _
      · exact .of_noTick rfl rfl rfl rfl fun _ => rfl
      · exact .of_noTick rfl rfl rfl rfl fun _ => rfl
  | setUp1 setup =>
      obtain rfl := Option.some_inj.mp h
      cases setup with
      | initTimer intervalMs =>
          exact .of_noTick rfl rfl rfl rfl fun _ => rfl
      | initTimerTicks ticks cb =>
          exact .of_noTick rfl rfl rfl rfl fun _ => rfl

theorem between_run {es : List (TickEvent γ)} {m m' : TickModule γ}
    (h : tickRun m es = some m') (i : ℤ) : Between i es m m' := by
  induction es generalizing m with
  | nil =>
      obtain rfl := Option.some_inj.mp h
      exact .refl i m
  | cons e es ih =>
      rw [tickRun, List.foldlM_cons] at h
      obtain ⟨m₁, hstep, hrest⟩ := Option.bind_eq_some_iff.mp h
      exact (between_step hstep i).cons (ih hrest)

/-! ## What is reported -/

theorem TickSetup.apply_zero (s : TickSetup γ) (m : TickModule γ) :
    (s.apply 0 m).tmrResolutionMs .tmr0 = BitVec.ofNat 32 s.interval ∧
      ((s.apply 0 m).regs .tmr0).mr1 = BitVec.ofNat 32 s.matchValue := by
  cases s with
  | initTimer intervalMs =>
      refine ⟨rfl, ?_⟩
      rw [TickSetup.matchValue, BitVec.ofNat_mul]
      rfl
  | initTimerTicks ticks cb => exact ⟨rfl, rfl⟩

theorem TickModule.timer_reset_eq {i : ℤ} {m m' : TickModule γ}
    (h : m.timer i TimerModule.reset = some (0, m')) :
    InArray i ∧ m' = { m with timers := Function.update m.timers i m.now } := by
  rcases TickModule.timer_cases h with
    ⟨hi, -, -, rfl⟩ | ⟨-, hclear, -⟩ | ⟨hvalue, -⟩
  · exact ⟨hi, rfl⟩
  · exact absurd hclear (by decide)
  · exact absurd hvalue (by decide)

theorem TickModule.timer_run_eq {i : ℤ} (hi : InArray i)
    (m : TickModule γ) :
    m.timer i TimerModule.run = some (m.now - m.timers i, m) := by
  rw [TickModule.timer, if_pos hi.lt_guard, if_pos ⟨hi.1, hi.2⟩]
  rfl

/-- A soft timer reports the interval once for every interrupt since its
reset. -/
theorem report_eq {m₁ m₂ m₃ m₄ : TickModule γ} {es : List (TickEvent γ)}
    {i : ℤ} {v : BitVec 32} {interval : ℕ}
    (hresolution : m₁.tmrResolutionMs .tmr0 = BitVec.ofNat 32 interval)
    (hreset : m₁.timer i TimerModule.reset = some (0, m₂))
    (hno : NoReset i es) (hrun : tickRun m₂ es = some m₃)
    (hv : m₃.timer i TimerModule.run = some (v, m₄)) :
    v = BitVec.ofNat 32 (interval * ticksIn es) := by
  obtain ⟨hi, rfl⟩ := TickModule.timer_reset_eq hreset
  have hbetween := between_run hrun i
  rw [TickModule.timer_run_eq hi] at hv
  obtain ⟨rfl, -⟩ := Prod.mk.inj (Option.some_inj.mp hv)
  have hstored : m₃.timers i = m₁.now := by
    rw [hbetween.stored hno]
    exact Function.update_self _ _ _
  have hticks : m₃.tmrTicks .tmr0 =
      m₁.tmrTicks .tmr0 + BitVec.ofNat 32 (ticksIn es) := hbetween.ticks
  have hsame : m₃.tmrResolutionMs .tmr0 = BitVec.ofNat 32 interval :=
    hbetween.resolution.trans hresolution
  rw [hstored, TickModule.now, TickModule.now, hsame, hticks, hresolution,
    BitVec.ofNat_mul]
  ring

/-! ## The error -/

/-- The clock cycles by which the interval of one interrupt is off. -/
def cyclesOff (interval matchValue : ℕ) : ℤ :=
  28800 * (interval : ℤ) - ((matchValue : ℤ) + 1)

/-- The error of `n` periods over the rationals, as a condition on
integers. -/
theorem abs_error_lt_iff (n interval matchValue : ℕ) :
    |((interval * n : ℕ) : ℚ) - n * (((matchValue : ℚ) + 1) / 28800)| <
        ((matchValue : ℚ) + 1) / 28800 ↔
      (n : ℤ) * |cyclesOff interval matchValue| < (matchValue : ℤ) + 1 := by
  have herror :
      ((interval * n : ℕ) : ℚ) - n * (((matchValue : ℚ) + 1) / 28800) =
        n * (cyclesOff interval matchValue : ℤ) / 28800 := by
    rw [cyclesOff]
    push_cast
    ring
  rw [herror, abs_div, abs_mul, Nat.abs_cast,
    show |(28800 : ℚ)| = 28800 by norm_num,
    div_lt_div_iff_of_pos_right (by norm_num)]
  exact_mod_cast Iff.rfl

/-- In milliseconds the error of one interrupt is small and adds up. -/
theorem error_ms_lt_iff (n ms : ℕ) :
    (n : ℤ) * |cyclesOff ms (ms * (fpclk / (1000 - 1)))| <
        ((ms * (fpclk / (1000 - 1)) : ℕ) : ℤ) + 1 ↔
      n * (28 * ms + 1) < 28828 * ms + 1 := by
  have hmatch : ((ms * (fpclk / (1000 - 1)) : ℕ) : ℤ) = 28828 * ms := by
    have hdivisor : fpclk / (1000 - 1) = 28828 := by decide
    rw [hdivisor]
    push_cast
    ring
  have herror : cyclesOff ms (ms * (fpclk / (1000 - 1))) =
      -(28 * ms + 1) := by
    rw [cyclesOff, hmatch]
    ring
  rw [herror, hmatch, abs_neg, abs_of_pos (by positivity)]
  exact_mod_cast Iff.rfl

/-- In ticks the error of one interrupt is more than its time. -/
theorem error_ticks_lt_iff {ticks : ℕ} (hpos : 0 < ticks) (n : ℕ) :
    (n : ℤ) * |cyclesOff ticks ticks| < (ticks : ℤ) + 1 ↔ n = 0 := by
  have hticks : (1 : ℤ) ≤ ticks := by exact_mod_cast hpos
  have herror : cyclesOff ticks ticks = 28799 * ticks - 1 := by
    rw [cyclesOff]
    ring
  rw [herror, abs_of_pos (by linarith)]
  constructor
  · intro h
    by_contra hne
    have hn : (1 : ℤ) ≤ n := by
      exact_mod_cast Nat.one_le_iff_ne_zero.mpr hne
    have hone : 1 * (28799 * (ticks : ℤ) - 1) ≤ n * (28799 * ticks - 1) :=
      mul_le_mul_of_nonneg_right hn (by linarith)
    linarith
  · rintro rfl
    rw [Nat.cast_zero, zero_mul]
    linarith

theorem TickSetup.error_lt_iff {s : TickSetup γ} (hs : s.Valid) (n : ℕ) :
    (n : ℤ) * |cyclesOff s.interval s.matchValue| < (s.matchValue : ℤ) + 1 ↔
      s.NoDrift n := by
  cases s with
  | initTimer intervalMs => exact error_ms_lt_iff n intervalMs
  | initTimerTicks ticks cb => exact error_ticks_lt_iff hs.pos n

/-- Timer 0 is set up once.  The milliseconds a soft timer reports after `n`
interrupts since its reset differ from the time of `n` periods by less than
one period exactly when, for an interval in milliseconds, what is rounded away
is still below one period, and for an interval in ticks, there was no
interrupt yet. -/
theorem drift_iff {setup : TickSetup γ} (hsetup : setup.Valid)
    {m₀ m₁ m₂ m₃ m₄ : TickModule γ} {before after : List (TickEvent γ)}
    {i : ℤ} {v : BitVec 32}
    (hbefore : tickRun (setup.apply 0 m₀) before = some m₁)
    (hreset : m₁.timer i TimerModule.reset = some (0, m₂))
    (hno : NoReset i after) (hafter : tickRun m₂ after = some m₃)
    (hrun : m₃.timer i TimerModule.run = some (v, m₄))
    (hfit : setup.interval * ticksIn after < 2 ^ 31) :
    |(v.toInt : ℚ) - ticksIn after * m₃.periodMs| < m₃.periodMs ↔
      setup.NoDrift (ticksIn after) := by
  obtain ⟨hinterval, hmatch⟩ := setup.apply_zero m₀
  have hset := between_run hbefore i
  have hv := report_eq (hset.resolution.trans hinterval) hreset hno hafter hrun
  have hms : v.toInt = (setup.interval * ticksIn after : ℕ) :=
    (toInt_eq_natCast_iff hfit).mpr hv
  have hmr1 : (m₃.regs .tmr0).mr1 = BitVec.ofNat 32 setup.matchValue := by
    obtain ⟨-, rfl⟩ := TickModule.timer_reset_eq hreset
    exact (between_run hafter i).mr1.trans (hset.mr1.trans hmatch)
  have hperiod : m₃.periodMs = ((setup.matchValue : ℚ) + 1) / 28800 := by
    rw [TickModule.periodMs, hmr1, BitVec.toNat_ofNat,
      Nat.mod_eq_of_lt hsetup.fits, show fpclk / 1000 = 28800 by decide]
    norm_num
  rw [hms, hperiod, Int.cast_natCast, abs_error_lt_iff, setup.error_lt_iff hsetup]

/-- The module with everything at zero. -/
def TickModule.zero : TickModule γ where
  tmrTicks := fun _ => 0
  tmrResolutionMs := fun _ => 0
  timers := fun _ => 0
  callbacks := fun _ => none
  regs := fun _ => ⟨0, 0, 0, 0, 0, 0⟩
  irqInstalled := fun _ => false

/-- An interval of 326 clock ticks, about 11 microseconds: after one interrupt
the timer reports 326 milliseconds. -/
theorem ticks_reported_as_milliseconds :
    ∃ m₁ m₂ m₃ : TickModule Unit,
      TickSetup.apply (.initTimerTicks 326 none) 0 .zero = m₁ ∧
      m₁.timer 0 TimerModule.reset = some (0, m₂) ∧
      tickRun m₂ [.interrupt .tmr0] = some m₃ ∧
      m₃.timer 0 TimerModule.run = some (326, m₃) ∧
      m₃.periodMs = 327 / 28800 ∧
      ¬|((326 : BitVec 32).toInt : ℚ) - 1 * m₃.periodMs| < m₃.periodMs := by
  let m₁ : TickModule Unit := TickSetup.apply (.initTimerTicks 326 none) 0 .zero
  let m₂ : TickModule Unit :=
    { m₁ with timers := Function.update m₁.timers 0 m₁.now }
  let m₃ : TickModule Unit := (m₂.handler .tmr0).2
  have hperiod : m₃.periodMs = 327 / 28800 := by
    change (((326#32).toNat : ℚ) + 1) / (28800 : ℕ) = 327 / 28800
    norm_num
  have hvalue : m₃.now - m₃.timers 0 = 326 := by decide
  have hrun : m₃.timer 0 TimerModule.run = some (326, m₃) := by
    rw [TickModule.timer_run_eq ⟨by decide, by decide⟩, hvalue]
  refine ⟨m₁, m₂, m₃, rfl, rfl, rfl, hrun, hperiod, ?_⟩
  rw [hperiod, show (326 : BitVec 32).toInt = 326 by decide]
  norm_num

/-- Ten milliseconds are reported after one interrupt of ten. -/
theorem drift_iff_ten_milliseconds :
    ∃ m : TickModule Unit,
      m.timer 0 TimerModule.run = some (10, m) ∧
        |((10 : BitVec 32).toInt : ℚ) - (1 : ℕ) * m.periodMs| < m.periodMs := by
  have hvalid : (TickSetup.initTimer 10 : TickSetup Unit).Valid :=
    ⟨by decide, by decide, by decide⟩
  let m₁ : TickModule Unit := TickSetup.apply (.initTimer 10) 0 .zero
  let m₂ : TickModule Unit :=
    { m₁ with timers := Function.update m₁.timers 0 m₁.now }
  let m₃ : TickModule Unit := (m₂.handler .tmr0).2
  have hbefore : tickRun m₁ ([] : List (TickEvent Unit)) = some m₁ := rfl
  have hreset : m₁.timer 0 TimerModule.reset = some (0, m₂) := rfl
  have hafter : tickRun m₂ [.interrupt .tmr0] = some m₃ := rfl
  have hvalue : m₃.now - m₃.timers 0 = 10 := by decide
  have hrun : m₃.timer 0 TimerModule.run = some (10, m₃) := by
    rw [TickModule.timer_run_eq ⟨by decide, by decide⟩, hvalue]
  have hno : NoReset 0 [(.interrupt .tmr0 : TickEvent Unit)] := by
    simp [NoReset]
  exact ⟨m₃, hrun,
    (drift_iff hvalid hbefore hreset hno hafter hrun (by decide)).mpr
      (show 1 * (28 * 10 + 1) < 28828 * 10 + 1 by decide)⟩

end EmbBoard.Timer
