import EmbBoard.Wishbone.Timeout

/-!
# No slave can hang the bus

The timer bounds every cycle of the master, also when a count carries over
from one cycle into the next: either the flag is already up, or the timer was
started with the cycle and keeps step with its age.
-/

namespace EmbBoard.Wishbone

open EmbBoard.Clocked

/-! ## The timer -/

/-- A running timer has not reached its end. -/
def TimerBounded (c : Intercon) : Prop :=
  c.timer ≤ timeout ∧ (c.timerEn = true → c.timer < timeout)

theorem TimerBounded.clock {c : Intercon} (h : TimerBounded c)
    (stbI ackI : Bool) : TimerBounded (c.clock false stbI ackI) := by
  obtain ⟨hle, hlt⟩ := h
  unfold TimerBounded
  rw [Intercon.clock_timer]
  split
  · rename_i hen
    have htimer := hlt hen
    refine ⟨htimer, ?_⟩
    intro hnext
    have hrun : c.timer ≠ timeout - 1 := by
      intro heq
      simp [heq] at hnext
    omega
  · exact ⟨Nat.zero_le _, fun _ => by decide⟩

/-- The timer in a clock in which the strobe has been high for `age`
clocks. -/
def CycleTimer (age : ℕ) (c : Intercon) : Prop :=
  match age with
  | 0 => True
  | 1 => c.timerEn = false
  | a + 2 => (c.errS = true ∧ a ≤ timeout) ∨
      (c = ⟨true, a, false⟩ ∧ a < timeout)

theorem CycleTimer.start (c : Intercon) (ackI : Bool) :
    CycleTimer 1 (c.clock false false ackI) := by
  simp [CycleTimer]

/-- In the second clock of a cycle a count left over is either at its end or
has been cleared. -/
theorem CycleTimer.second {c : Intercon} (h : CycleTimer 1 c)
    (herr : c.errS = false) :
    CycleTimer 2 (c.clock false true false) := by
  have hen : c.timerEn = false := h
  by_cases hend : c.timer = timeout - 1
  · left
    exact ⟨by simp [hend], Nat.zero_le _⟩
  · right
    exact ⟨by simp [Intercon.ext_iff, hend, herr, hen], by decide⟩

theorem CycleTimer.later {c : Intercon} {a : ℕ} (h : CycleTimer (a + 2) c)
    (herr : c.errS = false) :
    CycleTimer (a + 3) (c.clock false true false) := by
  rcases h with ⟨hup, _⟩ | ⟨rfl, hlt⟩
  · rw [herr] at hup
    cases hup
  · by_cases hend : a = timeout - 1
    · left
      exact ⟨by simp [hend], hlt⟩
    · right
      exact ⟨by simp [Intercon.ext_iff, hend], by omega⟩

/-- A cycle that nobody ends keeps the timer in step. -/
theorem CycleTimer.clock {c : Intercon} {a : ℕ} (h : CycleTimer (a + 1) c)
    (herr : c.errS = false) :
    CycleTimer (a + 2) (c.clock false true false) := by
  cases a with
  | zero => exact h.second herr
  | succ a => exact h.later herr

theorem CycleTimer.age_le {c : Intercon} {a : ℕ} (h : CycleTimer a c) :
    a ≤ timeout + 2 := by
  match a, h with
  | 0, _ => exact Nat.zero_le _
  | 1, _ => exact Nat.succ_le_succ (Nat.zero_le _)
  | a + 2, h =>
      rcases h with ⟨_, ha⟩ | ⟨_, ha⟩
      · omega
      · omega

/-! ## Every cycle ends -/

section Trace

variable {i : ℕ → BusIn} {n : ℕ}

theorem cycleTimer_busTrace (i : ℕ → BusIn) (n : ℕ) :
    CycleTimer (age i n) (busTrace i n).intercon := by
  induction n with
  | zero => exact trivial
  | succ n ih =>
      cases hnext : stbAt i (n + 1) with
      | false =>
          rw [age_eq_zero_iff.mpr hnext]
          exact trivial
      | true =>
          rw [age_succ_of_stb hnext, intercon_succ]
          cases hstb : stbAt i n with
          | false =>
              rw [age_eq_zero_iff.mpr hstb]
              exact .start _ _
          | true =>
              -- The strobe stays up, so nothing has ended the cycle.
              have hopen : ¬(answered i n = true ∨ errSAt i n = true) := by
                intro hend
                rw [stb_ends hstb hend] at hnext
                cases hnext
              rw [not_or, Bool.not_eq_true, Bool.not_eq_true, answered,
                Bool.or_eq_false_iff] at hopen
              obtain ⟨⟨hack, _⟩, herr⟩ := hopen
              obtain ⟨a, ha⟩ : ∃ a, age i n = a + 1 := by
                apply Nat.exists_eq_succ_of_ne_zero
                intro hzero
                rw [age_eq_zero_iff.mp hzero] at hstb
                cases hstb
              rw [ha] at ih ⊢
              rw [hack]
              exact ih.clock herr

/-- A strobe that stays up grows older. -/
theorem age_of_high {m : ℕ} (h : ∀ k ≤ m, stbAt i (n + k) = true) :
    m + 1 ≤ age i (n + m) := by
  induction m with
  | zero =>
      by_contra hlow
      have hzero : age i (n + 0) = 0 := by omega
      rw [age_eq_zero_iff, h 0 le_rfl] at hzero
      cases hzero
  | succ m ih =>
      have hold := ih fun k hk => h k (hk.trans (Nat.le_succ m))
      have hgrows : age i (n + m + 1) = age i (n + m) + 1 :=
        age_succ_of_stb (h (m + 1) le_rfl)
      rw [← Nat.add_assoc]
      omega

theorem timerBounded_busTrace (i : ℕ → BusIn) (n : ℕ) :
    TimerBounded (busTrace i n).intercon := by
  induction n with
  | zero => exact ⟨Nat.zero_le _, fun h => by cases h⟩
  | succ n ih =>
      rw [intercon_succ]
      exact ih.clock _ _

/-- A bus in any state, after `r + 1` clocks of reset. -/
def afterReset (b₀ : Bus) (j : ℕ → BusIn) (r : ℕ) : Bus :=
  trace (Bus.clock true) b₀ j (r + 1)

/-- After reset, whatever the CPU side asks for and the slaves answer, the
strobe is never high for more than `timeout + 2` clocks in a row, and the
timer never passes `timeout`. -/
theorem no_slave_hangs (b₀ : Bus) (j : ℕ → BusIn) (r : ℕ) (i : ℕ → BusIn) :
    (∀ n, ∃ k ≤ timeout + 2,
      (trace (Bus.clock false) (afterReset b₀ j r) i (n + k)).master.stbO =
        false) ∧
    ∀ n, (trace (Bus.clock false) (afterReset b₀ j r) i n).intercon.timer ≤
      timeout := by
  have hreset : afterReset b₀ j r = .initial := by
    rw [afterReset, trace_succ, Bus.clock_reset]
  rw [hreset]
  constructor
  · intro n
    by_contra hhigh
    have hall : ∀ k ≤ timeout + 2, stbAt i (n + k) = true := by
      intro k hk
      by_contra hlow
      exact hhigh ⟨k, hk, Bool.eq_false_of_not_eq_true hlow⟩
    have hold := age_of_high hall
    have hbound := (cycleTimer_busTrace i (n + (timeout + 2))).age_le
    omega
  · intro n
    exact (timerBounded_busTrace i n).1

end Trace

end EmbBoard.Wishbone
