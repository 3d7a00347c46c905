import EmbBoard.Support.Clocked
import EmbBoard.Wishbone.Intercon

/-!
# The timeout of the interconnect

The master driving the interconnect under arbitrary strobes and slave
responses.  The timer follows the age of the cycle: it is started in the first
clock, counts from the second, and raises the error flag for the sixth.  A
response that arrives in the last clocks before that does not stop it in time,
because the timer counts on for one clock after it is disabled.
-/

namespace EmbBoard.Wishbone

open EmbBoard.Clocked

section Trace

variable (i : ℕ → BusIn)

/-- Master and interconnect, clock by clock from reset. -/
def busTrace : ℕ → Bus :=
  trace (Bus.clock false) .initial i

def stbAt (n : ℕ) : Bool := (busTrace i n).master.stbO

/-- The addressed slave acknowledges. -/
def ackAt (n : ℕ) : Bool := (busTrace i n).ackO (i n)

/-- The addressed slave reports an error. -/
def slaveErrAt (n : ℕ) : Bool := (i n).errI (busTrace i n).sel

/-- The timeout flag. -/
def errSAt (n : ℕ) : Bool := (busTrace i n).intercon.errS

/-- The addressed slave responds. -/
def answered (n : ℕ) : Bool := ackAt i n || slaveErrAt i n

/-- The number of clocks the strobe has been high, this one included. -/
def age : ℕ → ℕ
  | 0 => if stbAt i 0 then 1 else 0
  | n + 1 => if stbAt i (n + 1) then age n + 1 else 0

/-- The current cycle has lasted `timeout` clocks, and nobody has responded in
any of its clocks. -/
def TimedOut (n : ℕ) : Prop :=
  ∃ m, m + timeout ≤ n + 1 ∧ (∀ j, j + 1 = m → stbAt i j = false) ∧
    ∀ k, m ≤ k → k ≤ n → stbAt i k = true ∧ answered i k = false

/-- The timeout flag tells the truth: the current cycle has timed out, or the
one that ended in the clock before had. -/
def TrueTimeout (n : ℕ) : Prop :=
  errSAt i n = true →
    TimedOut i n ∨ (stbAt i n = false ∧ ∃ j, j + 1 = n ∧ TimedOut i j)

/-- A response too late to stop the timer: an acknowledge from the fourth
clock of a cycle on, an error from the third. -/
def LateResponse (n : ℕ) : Prop :=
  (ackAt i n = true ∧ 4 ≤ age i n) ∨
    (slaveErrAt i n = true ∧ ackAt i n = false ∧ 3 ≤ age i n)

end Trace

/-! ## The cycle -/

section Cycle

variable {i : ℕ → BusIn} {n : ℕ}

theorem busTrace_succ (i : ℕ → BusIn) (n : ℕ) :
    busTrace i (n + 1) = (busTrace i n).clock false (i n) :=
  trace_succ _ _ i n

theorem registered_busTrace (i : ℕ → BusIn) (n : ℕ) :
    (busTrace i n).master.Registered := by
  cases n with
  | zero => exact ⟨rfl, rfl, rfl⟩
  | succ n => exact WbMaster.registered_clock _ _ _ _ _ _ _ _

theorem stbAt_zero (i : ℕ → BusIn) : stbAt i 0 = false := rfl

theorem stbAt_succ (i : ℕ → BusIn) (n : ℕ) :
    stbAt i (n + 1) =
      (nxWbCycle (busTrace i n).master.csWbCycle (i n).wrStrb (i n).rdStrb
        (ackAt i n) (slaveErrAt i n || errSAt i n)).nxStb := rfl

/-- A cycle nobody has ended goes on. -/
theorem stb_goes_on (hstb : stbAt i n = true) (hun : answered i n = false)
    (herr : errSAt i n = false) : stbAt i (n + 1) = true := by
  rw [answered, Bool.or_eq_false_iff] at hun
  rw [stbAt_succ, nxStb_of_stb ((registered_busTrace i n).stb ▸ hstb), hun.1,
    hun.2, herr]
  rfl

/-- A response or a timeout ends the cycle. -/
theorem stb_ends (hstb : stbAt i n = true)
    (hend : answered i n = true ∨ errSAt i n = true) :
    stbAt i (n + 1) = false := by
  rw [stbAt_succ, nxStb_of_stb ((registered_busTrace i n).stb ▸ hstb),
    ← Bool.or_assoc]
  change (!(answered i n || errSAt i n)) = false
  rcases hend with h | h
  · rw [h, Bool.true_or, Bool.not_true]
  · rw [h, Bool.or_true, Bool.not_true]

/-- No cycle starts while the timeout flag is up. -/
theorem stb_waits (hstb : stbAt i n = false) (herr : errSAt i n = true) :
    stbAt i (n + 1) = false := by
  rw [stbAt_succ, herr, Bool.or_true]
  exact nxStb_of_errI ((registered_busTrace i n).stb ▸ hstb) _ _ _

theorem age_eq_zero_iff : age i n = 0 ↔ stbAt i n = false := by
  cases n with
  | zero => simp [age, stbAt_zero]
  | succ n =>
      rw [age]
      split
      · next h => simp [h]
      · next h => simpa using h

theorem age_succ_of_stb (h : stbAt i (n + 1) = true) :
    age i (n + 1) = age i n + 1 := by
  rw [age, if_pos h]

/-- The last `age` clocks are one cycle, and only its last clock may have
been answered. -/
theorem cycle_of_age (i : ℕ → BusIn) (n : ℕ) :
    age i n ≤ n ∧ stbAt i (n - age i n) = false ∧
      ∀ k, n < k + age i n → k ≤ n →
        stbAt i k = true ∧ (k < n → answered i k = false) := by
  induction n with
  | zero =>
      refine ⟨by simp [age, stbAt_zero], stbAt_zero i, ?_⟩
      intro k hk hk0
      simp [age, stbAt_zero] at hk
      omega
  | succ n ih =>
      obtain ⟨hle, hstart, hcycle⟩ := ih
      cases hstb : stbAt i (n + 1) with
      | false =>
          have hzero : age i (n + 1) = 0 := age_eq_zero_iff.mpr hstb
          rw [hzero]
          exact ⟨Nat.zero_le _, hstb, fun k hk hkn => by omega⟩
      | true =>
          rw [age_succ_of_stb hstb]
          refine ⟨by omega, by rwa [Nat.add_sub_add_right], ?_⟩
          intro k hk hkn
          rcases Nat.lt_or_ge n k with hlt | hge
          · have heq : k = n + 1 := by omega
            subst heq
            exact ⟨hstb, fun h => absurd h (lt_irrefl _)⟩
          · obtain ⟨hk1, hk2⟩ := hcycle k (by omega) hge
            refine ⟨hk1, fun _ => ?_⟩
            rcases hge.eq_or_lt with rfl | hlt
            · -- An answered clock would have been the cycle's last one.
              by_contra hans
              rw [Bool.not_eq_false] at hans
              rw [stb_ends hk1 (Or.inl hans)] at hstb
              cases hstb
            · exact hk2 hlt

theorem timedOut_of_age (hage : timeout ≤ age i n)
    (hun : answered i n = false) : TimedOut i n := by
  obtain ⟨hle, hstart, hcycle⟩ := cycle_of_age i n
  unfold timeout at hage
  refine ⟨n + 1 - age i n, by unfold timeout; omega, ?_, ?_⟩
  · intro j hj
    rwa [show j = n - age i n by omega]
  · intro k hk hkn
    obtain ⟨hstb, hans⟩ := hcycle k (by omega) hkn
    refine ⟨hstb, ?_⟩
    rcases hkn.eq_or_lt with rfl | hlt
    · exact hun
    · exact hans hlt

/-- A timeout covers its clock and the three before. -/
theorem TimedOut.recent (h : TimedOut i n) {k : ℕ} (hk : k ≤ n)
    (hrecent : n ≤ k + 3) : answered i k = false := by
  obtain ⟨m, hm, -, hcycle⟩ := h
  unfold timeout at hm
  exact (hcycle k (by omega) hk).2

end Cycle

/-! ## The timer -/

/-- The timer in a clock in which the strobe has been high for `age` clocks. -/
def TimerAt (age : ℕ) (c : Intercon) : Prop :=
  match age with
  | 0 => c = ⟨false, 0, true⟩ ∨
      (c.errS = false ∧ c.timer ≤ 2 ∧ (c.timerEn = true → c.timer ≤ 1))
  | 1 => c.errS = false ∧ c.timer ≤ 2 ∧ c.timerEn = false
  | a + 2 => (a ≤ 3 ∧ c = ⟨true, a, false⟩) ∨ (a = 4 ∧ c = ⟨false, 4, true⟩)

/-- Between cycles the timer comes to rest. -/
theorem TimerAt.idle {c : Intercon} (h : TimerAt 0 c) (ackI : Bool) {a : ℕ}
    (ha : a = 0 ∨ (a = 1 ∧ c.errS = false)) :
    TimerAt a (c.clock false false ackI) := by
  rcases h with rfl | ⟨herr, htimer, hen⟩
  · rcases ha with rfl | ⟨-, herr⟩
    · right
      simp [timeout]
    · cases herr
  · have hrun : c.timer ≠ timeout - 1 := by
      unfold timeout
      omega
    have hnext : (c.clock false false ackI).timer ≤ 2 := by
      rw [Intercon.clock_timer]
      split
      · next h => exact Nat.succ_le_succ (hen h)
      · exact Nat.zero_le _
    rcases ha with rfl | ⟨rfl, -⟩
    · right
      refine ⟨by simp [hrun], hnext, ?_⟩
      simp
    · exact ⟨by simp [hrun], hnext, by simp⟩

/-- While nobody responds the timer keeps step with the age. -/
theorem TimerAt.wait {c : Intercon} {a : ℕ} (h : TimerAt (a + 1) c)
    (herr : c.errS = false) : TimerAt (a + 2) (c.clock false true false) := by
  cases a with
  | zero =>
      obtain ⟨-, htimer, hen⟩ := h
      have hrun : c.timer ≠ timeout - 1 := by
        unfold timeout
        omega
      left
      refine ⟨Nat.zero_le _, ?_⟩
      simp [Intercon.ext_iff, hrun, herr, hen]
  | succ a =>
      rcases h with ⟨ha, rfl⟩ | ⟨-, rfl⟩
      · rcases ha.lt_or_eq with hlt | rfl
        · have hrun : a ≠ timeout - 1 := by
            unfold timeout
            omega
          left
          exact ⟨hlt, by simp [Intercon.ext_iff, hrun]⟩
        · right
          exact ⟨rfl, by simp [Intercon.ext_iff, timeout]⟩
      · cases herr

/-- A response in time leaves the timer below its end. -/
theorem TimerAt.stop {c : Intercon} {a : ℕ} (h : TimerAt (a + 1) c)
    {ackI : Bool} (htime : a + 1 < 3 ∨ (a + 1 < 4 ∧ ackI = true)) :
    TimerAt 0 (c.clock false true ackI) := by
  right
  cases a with
  | zero =>
      obtain ⟨herr, htimer, hen⟩ := h
      have hrun : c.timer ≠ timeout - 1 := by
        unfold timeout
        omega
      simp [hrun, herr, hen]
  | succ a =>
      rcases h with ⟨-, rfl⟩ | ⟨rfl, -⟩
      · have hrun : a ≠ timeout - 1 := by
          unfold timeout
          omega
        refine ⟨by simp [hrun], ?_, ?_⟩
        · simp only [Intercon.clock_timer, if_true]
          omega
        · rcases htime with hlt | ⟨_, rfl⟩
          · intro _
            simp only [Intercon.clock_timer, if_true]
            omega
          · simp
      · omega

/-- The clock in which the flag ends the cycle. -/
theorem TimerAt.expire {c : Intercon} {a : ℕ} (h : TimerAt (a + 1) c)
    (herr : c.errS = true) (ackI : Bool) :
    a = 5 ∧ TimerAt 0 (c.clock false true ackI) := by
  cases a with
  | zero =>
      rw [h.1] at herr
      cases herr
  | succ a =>
      rcases h with ⟨-, rfl⟩ | ⟨rfl, rfl⟩
      · cases herr
      · exact ⟨rfl, Or.inl (by simp [Intercon.ext_iff, timeout])⟩

/-! ## False timeouts -/

section False

variable {i : ℕ → BusIn} {n : ℕ}

theorem intercon_succ (i : ℕ → BusIn) (n : ℕ) :
    (busTrace i (n + 1)).intercon =
      (busTrace i n).intercon.clock false (stbAt i n) (ackAt i n) := rfl

theorem stbAt_of_age {a : ℕ} (hage : age i n = a + 1) :
    stbAt i n = true := by
  by_contra hlow
  rw [Bool.not_eq_true, ← age_eq_zero_iff, hage] at hlow
  cases hlow

theorem timerAt_succ_of_idle (hstb : stbAt i n = false)
    (htimer : TimerAt 0 (busTrace i n).intercon) :
    TimerAt (age i (n + 1)) (busTrace i (n + 1)).intercon := by
  have hage : age i n = 0 := age_eq_zero_iff.mpr hstb
  rw [intercon_succ, hstb]
  apply htimer.idle
  cases herr : errSAt i n with
  | true =>
      left
      exact age_eq_zero_iff.mpr (stb_waits hstb herr)
  | false =>
      cases hnext : stbAt i (n + 1) with
      | true =>
          right
          rw [age_succ_of_stb hnext, hage]
          exact ⟨rfl, herr⟩
      | false =>
          left
          exact age_eq_zero_iff.mpr hnext

/-- A response that is not late is in time for the timer. -/
theorem inTime_of_answered (hnow : ¬LateResponse i n)
    (hans : answered i n = true) :
    age i n < 3 ∨ (age i n < 4 ∧ ackAt i n = true) := by
  cases hack : ackAt i n with
  | true =>
      right
      refine ⟨?_, rfl⟩
      by_contra hle
      exact hnow (Or.inl ⟨hack, not_lt.mp hle⟩)
  | false =>
      left
      rw [answered, hack, Bool.false_or] at hans
      by_contra hle
      exact hnow (Or.inr ⟨hans, hack, not_lt.mp hle⟩)

theorem timerAt_succ_of_cycle {a : ℕ} (hage : age i n = a + 1)
    (htimer : TimerAt (a + 1) (busTrace i n).intercon)
    (hnow : ¬LateResponse i n) :
    TimerAt (age i (n + 1)) (busTrace i (n + 1)).intercon := by
  have hstb := stbAt_of_age hage
  rw [intercon_succ, hstb]
  cases hans : answered i n with
  | true =>
      rw [age_eq_zero_iff.mpr (stb_ends hstb (Or.inl hans))]
      apply htimer.stop
      rw [← hage]
      exact inTime_of_answered hnow hans
  | false =>
      cases herr : errSAt i n with
      | true =>
          rw [age_eq_zero_iff.mpr (stb_ends hstb (Or.inr herr))]
          exact (htimer.expire herr _).2
      | false =>
          rw [age_succ_of_stb (stb_goes_on hstb hans herr), hage]
          rw [answered, Bool.or_eq_false_iff] at hans
          rw [hans.1]
          exact htimer.wait herr

/-- Without late responses the timer follows the age. -/
theorem timerAt_busTrace (hlate : ∀ k, k < n → ¬LateResponse i k) :
    TimerAt (age i n) (busTrace i n).intercon := by
  induction n with
  | zero => exact Or.inr ⟨rfl, Nat.zero_le _, fun h => by cases h⟩
  | succ n ih =>
      have htimer := ih fun k hk => hlate k (hk.trans (Nat.lt_succ_self n))
      have hnow := hlate n (Nat.lt_succ_self n)
      cases hage : age i n with
      | zero =>
          rw [hage] at htimer
          exact timerAt_succ_of_idle (age_eq_zero_iff.mp hage) htimer
      | succ a =>
          rw [hage] at htimer
          exact timerAt_succ_of_cycle hage htimer hnow

/-- A true timeout is not seen within three clocks of a response. -/
theorem TrueTimeout.recent (h : TrueTimeout i n) (herr : errSAt i n = true)
    {k : ℕ} (hstb : stbAt i k = true) (hk : k ≤ n) (hrecent : n ≤ k + 3) :
    answered i k = false := by
  rcases h herr with hnow | ⟨hlow, j, hj, hbefore⟩
  · exact hnow.recent hk hrecent
  · rcases hk.eq_or_lt with rfl | hlt
    · rw [hstb] at hlow
      cases hlow
    · exact hbefore.recent (by omega) (by omega)

theorem errSAt_succ (i : ℕ → BusIn) (n : ℕ) :
    errSAt i (n + 1) =
      (decide ((busTrace i n).intercon.timer = timeout - 1) ||
        (errSAt i n && stbAt i n)) := by
  rw [errSAt, intercon_succ, Intercon.clock_errS]
  rfl

/-- An old cycle without a late response has had none. -/
theorem timedOut_of_old (hintime : ¬LateResponse i n) (hold : 4 ≤ age i n) :
    TimedOut i n := by
  apply timedOut_of_age hold
  cases hack : ackAt i n with
  | true => exact absurd (Or.inl ⟨hack, hold⟩) hintime
  | false =>
      cases hslave : slaveErrAt i n with
      | true =>
          exact absurd (Or.inr ⟨hslave, hack, by omega⟩) hintime
      | false => rw [answered, hack, hslave, Bool.or_false]

/-- The flag is raised and kept by an old cycle only. -/
theorem old_of_flag (htimer : TimerAt (age i n) (busTrace i n).intercon)
    (herr : errSAt i (n + 1) = true) : 4 ≤ age i n := by
  rw [errSAt_succ, Bool.or_eq_true, decide_eq_true_eq, Bool.and_eq_true]
    at herr
  cases hage : age i n with
  | zero =>
      have hlow := age_eq_zero_iff.mp hage
      rw [hage] at htimer
      rcases herr with hend | ⟨-, hstb⟩
      · rcases htimer with hc | ⟨-, hsmall, -⟩
        · rw [hc] at hend
          cases hend
        · rw [hend] at hsmall
          exact absurd hsmall (by decide)
      · rw [hlow] at hstb
        cases hstb
  | succ a =>
      rw [hage] at htimer
      rcases herr with hend | ⟨herr, -⟩
      · cases a with
        | zero =>
            have hsmall := htimer.2.1
            rw [hend] at hsmall
            exact absurd hsmall (by decide)
        | succ a =>
            rcases htimer with ⟨-, hc⟩ | ⟨rfl, -⟩
            · rw [hc] at hend
              change a = 3 at hend
              omega
            · decide
      · rw [(htimer.expire herr false).1]
        decide

/-- The first late response is followed by the flag within three clocks. -/
theorem flag_after_late (htimer : TimerAt (age i n) (busTrace i n).intercon)
    (hlate : LateResponse i n) : ∃ m, n ≤ m ∧ m ≤ n + 3 ∧ errSAt i m = true := by
  have hthree : 3 ≤ age i n := by
    rcases hlate with ⟨-, h⟩ | ⟨-, -, h⟩ <;> omega
  obtain ⟨a, hage⟩ := Nat.exists_eq_add_of_le' hthree
  rw [hage] at htimer
  rcases htimer with ⟨ha, hc⟩ | ⟨-, hc⟩
  · have htimer₁ : (busTrace i (n + 1)).intercon.timer = a + 2 := by
      rw [intercon_succ, Intercon.clock_timer, hc]
      rfl
    rcases (show a = 0 ∨ a = 1 ∨ a = 2 by omega) with rfl | rfl | rfl
    · -- Only an error without acknowledge is late here: the timer stays on.
      have hack : ackAt i n = false := by
        rcases hlate with ⟨-, h⟩ | ⟨-, h, -⟩
        · omega
        · exact h
      have hstb : stbAt i n = true := by
        by_contra hlow
        rw [Bool.not_eq_true, ← age_eq_zero_iff] at hlow
        omega
      have hen : (busTrace i (n + 1)).intercon.timerEn = true := by
        rw [intercon_succ, Intercon.clock_timerEn, hc, hack, hstb]
        rfl
      have htimer₂ : (busTrace i (n + 2)).intercon.timer = 3 := by
        rw [intercon_succ, Intercon.clock_timer, if_pos hen, htimer₁]
      refine ⟨n + 3, by omega, by omega, ?_⟩
      rw [errSAt_succ, htimer₂]
      rfl
    · refine ⟨n + 2, by omega, by omega, ?_⟩
      rw [errSAt_succ, htimer₁]
      rfl
    · refine ⟨n + 1, by omega, by omega, ?_⟩
      rw [errSAt_succ, hc]
      rfl
  · refine ⟨n, by omega, by omega, ?_⟩
    rw [errSAt, hc]

/-- Up to a clock in which no response has been late, the flag tells the
truth. -/
theorem trueTimeout_of_inTime (hintime : ∀ k, k ≤ n → ¬LateResponse i k) :
    TrueTimeout i n := by
  intro herr
  have htimer := timerAt_busTrace fun k hk => hintime k hk.le
  cases hage : age i n with
  | succ a =>
      rw [hage] at htimer
      left
      apply timedOut_of_old (hintime n (le_refl n))
      rw [hage, (htimer.expire herr false).1]
      decide
  | zero =>
      right
      refine ⟨age_eq_zero_iff.mp hage, ?_⟩
      cases n with
      | zero => cases herr
      | succ j =>
          refine ⟨j, rfl, timedOut_of_old (hintime j (Nat.le_succ j)) ?_⟩
          refine old_of_flag (timerAt_busTrace fun k hk => ?_) herr
          exact hintime k (by omega)

/-- The timeout flag tells the truth in every clock exactly when no response
comes late. -/
theorem trueTimeout_iff (i : ℕ → BusIn) :
    (∀ n, TrueTimeout i n) ↔ ∀ n, ¬LateResponse i n := by
  constructor
  · intro htrue
    by_contra hsome
    rw [not_forall] at hsome
    have hex : ∃ n, LateResponse i n := by
      obtain ⟨n, hn⟩ := hsome
      exact ⟨n, not_not.mp hn⟩
    classical
    obtain ⟨n, hlate, hfirst⟩ :
        ∃ n, LateResponse i n ∧ ∀ k, k < n → ¬LateResponse i k :=
      ⟨Nat.find hex, Nat.find_spec hex, fun k hk => Nat.find_min hex hk⟩
    obtain ⟨m, hnm, hmn, herr⟩ :=
      flag_after_late (timerAt_busTrace hfirst) hlate
    have hstb : stbAt i n = true := by
      by_contra hlow
      rw [Bool.not_eq_true, ← age_eq_zero_iff] at hlow
      rcases hlate with ⟨-, h⟩ | ⟨-, -, h⟩ <;> omega
    have hun := (htrue m).recent herr hstb hnm hmn
    rw [answered, Bool.or_eq_false_iff] at hun
    rcases hlate with ⟨hack, -⟩ | ⟨hslave, -, -⟩
    · rw [hun.1] at hack
      cases hack
    · rw [hun.2] at hslave
      cases hslave
  · intro hintime n
    exact trueTimeout_of_inTime fun k _ => hintime k

/-- One write, acknowledged after three wait states. -/
def lateAck (n : ℕ) : BusIn where
  aI := 0x100
  wrD := 0
  wrStrb := n == 0
  rdStrb := false
  ackI := fun slave => n == 4 && slave == 1
  errI := fun _ => false

theorem lateAck_false_timeout : ¬∀ n, TrueTimeout lateAck n := by
  intro htrue
  have hun : answered lateAck 4 = false :=
    (htrue 6).recent (by decide) (k := 4) (by decide) (by omega) (by omega)
  revert hun
  decide

end False

end EmbBoard.Wishbone
