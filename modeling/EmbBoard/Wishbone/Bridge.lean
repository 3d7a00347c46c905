import EmbBoard.Wishbone.Wrapper

/-!
# The bridge performs the accesses of the CPU

With all addresses in the page of `WBO` every cycle is acknowledged in its
first clock, so the timeout flag stays down and every strobe meets the master
idle.  One cycle is performed for each access, in order.
-/

namespace EmbBoard.Wishbone

open EmbBoard.Clocked

/-- All accesses are to the page of `WBO`. -/
def InWboPage (b : ℕ → CpuBus) : Prop :=
  ∀ n, (b n).strobe = true → slaveSel (b n).a = 1

/-- The cycle acknowledged in clock `n`, if there is one. -/
def ackedAt (w : Wrapper) (b : ℕ → CpuBus) (n : ℕ) : Option Access :=
  let m := masterAt w b n
  let ack := (wrapperTrace w b n).bus.ackO (busInAt w b n)
  if m.stbO && m.cycOS && ack then
    some (if m.weOS then .write m.adrO m.datOS else .read m.adrO)
  else none

section Page

variable {w : Wrapper} {b : ℕ → CpuBus}

/-- Every cycle addresses `WBO`. -/
theorem sel_of_stb (hw : w.Fresh) (hpage : InWboPage b) (n : ℕ)
    (hstb : (csAt w b n).nxStb = true) :
    slaveSel (masterAt w b n).adrO = 1 := by
  induction n with
  | zero =>
      rw [csAt, masterAt_eq hw] at hstb
      cases hstb
  | succ n ih =>
      rw [adrO_succ]
      split
      · next h =>
          obtain ⟨p, rfl, hp⟩ := exists_sample hw h
          rw [aOAt_of_strobe hp]
          exact hpage p hp
      · next h =>
          -- Without a strobe the cycle was there already.
          apply ih
          rw [Bool.or_eq_true, not_or, Bool.not_eq_true, Bool.not_eq_true]
            at h
          rw [csAt_succ hw, h.1, h.2] at hstb
          by_contra hidle
          rw [Bool.not_eq_true] at hidle
          cases hcs : csAt w b n with
          | idle => simp [hcs, nxWbCycle, WbCycle.nxStb] at hstb
          | waitEnd => simp [hcs, nxWbCycle, WbCycle.nxStb] at hstb
          | wbWrite => rw [hcs] at hidle; cases hidle
          | wbRead => rw [hcs] at hidle; cases hidle

/-- Every clock of a cycle is acknowledged. -/
theorem ackAt_of_page (hw : w.Fresh) (hpage : InWboPage b) (n : ℕ) :
    ackAt (busInAt w b) n = (csAt w b n).nxStb := by
  rw [ackAt_eq hw]
  cases hstb : (csAt w b n).nxStb with
  | false => rfl
  | true => rw [decide_eq_true (sel_of_stb hw hpage n hstb), Bool.and_true]

theorem answered_of_stb (hw : w.Fresh) (hpage : InWboPage b) {n : ℕ}
    (hstb : stbAt (busInAt w b) n = true) :
    answered (busInAt w b) n = true := by
  rw [stbAt_eq hw] at hstb
  rw [answered, ackAt_of_page hw hpage, hstb, Bool.true_or]

/-- A cycle lasts one clock. -/
theorem age_le_one (hw : w.Fresh) (hpage : InWboPage b) (n : ℕ) :
    age (busInAt w b) n ≤ 1 := by
  by_contra hold
  obtain ⟨hle, -, hcycle⟩ := cycle_of_age (busInAt w b) n
  obtain ⟨hstb, hun⟩ := hcycle (n - 1) (by omega) (by omega)
  have hans := answered_of_stb hw hpage hstb
  rw [hun (by omega)] at hans
  cases hans

theorem errSAt_of_page (hw : w.Fresh) (hpage : InWboPage b) (n : ℕ) :
    errSAt (busInAt w b) n = false := by
  have hintime : ∀ k, k ≤ n → ¬LateResponse (busInAt w b) k := by
    rintro k - (⟨-, hage⟩ | ⟨-, -, hage⟩)
    all_goals
      have := age_le_one hw hpage k
      omega
  have hnot : ∀ k, ¬TimedOut (busInAt w b) k := by
    rintro k ⟨m, hm, -, hcycle⟩
    unfold timeout at hm
    obtain ⟨hstb, hun⟩ := hcycle k (by omega) (le_refl k)
    rw [answered_of_stb hw hpage hstb] at hun
    cases hun
  by_contra herr
  rw [Bool.not_eq_false] at herr
  rcases trueTimeout_of_inTime hintime herr with hnow | ⟨-, j, -, hbefore⟩
  · exact hnot n hnow
  · exact hnot j hbefore

/-! ## The master keeps step with the CPU -/

/-- Clock `n` is not the second or a later one of a read strobe. -/
def Rises (w : Wrapper) (b : ℕ → CpuBus) (n : ℕ) : Prop :=
  ∀ m, m + 1 = n → rdOAt w b m = false

/-- What the master's state says about the strobes. -/
def InStep (w : Wrapper) (b : ℕ → CpuBus) (n : ℕ) : Prop :=
  match csAt w b n with
  | .idle => rdOAt w b n = true → Rises w b n
  | .wbWrite => wrOAt w b n = false ∧ rdOAt w b n = false
  | .wbRead => wrOAt w b n = false ∧ ¬Rises w b n ∧ rdOAt w b n = true
  | .waitEnd => wrOAt w b n = false ∧ ¬Rises w b n

theorem not_rises_succ {n : ℕ} (h : rdOAt w b n = true) :
    ¬Rises w b (n + 1) := by
  intro hrise
  rw [hrise n rfl] at h
  cases h

theorem rises_succ {n : ℕ} (h : rdOAt w b n = false) :
    Rises w b (n + 1) := by
  intro m hm
  rwa [Nat.add_right_cancel hm]

theorem csAt_succ_of_page (hw : w.Fresh) (hpage : InWboPage b) (n : ℕ) :
    csAt w b (n + 1) =
      nxWbCycle (csAt w b n) (wrOAt w b n) (rdOAt w b n)
        (csAt w b n).nxStb false := by
  rw [csAt_succ hw, ackAt_of_page hw hpage, errSAt_of_page hw hpage]

theorem inStep (hw : w.Fresh) (hs : Schedule b) (hpage : InWboPage b)
    (n : ℕ) : InStep w b n := by
  induction n with
  | zero =>
      have hidle : csAt w b 0 = .idle := by
        rw [csAt, masterAt_eq hw]
        rfl
      rw [InStep, hidle]
      intro _ m hm
      cases hm
  | succ n ih =>
      have hnext := csAt_succ_of_page hw hpage n
      rw [InStep] at ih
      cases hcs : csAt w b n with
      | idle =>
          rw [hcs] at hnext ih
          cases hwr : wrOAt w b n with
          | true =>
              obtain ⟨-, hwr', hrd'⟩ := wrO_quiet hw hs hwr
              rw [InStep, hnext, hwr]
              exact ⟨hwr', hrd'⟩
          | false =>
              cases hrd : rdOAt w b n with
              | true =>
                  rw [InStep, hnext, hwr, hrd]
                  exact ⟨(rdO_quiet hw hs hrd).2, not_rises_succ hrd,
                    rdO_long hw hs hrd (ih hrd)⟩
              | false =>
                  rw [InStep, hnext, hwr, hrd]
                  exact fun _ => rises_succ hrd
      | wbWrite =>
          rw [hcs] at hnext ih
          rw [InStep, hnext]
          exact fun _ => rises_succ ih.2
      | wbRead =>
          rw [hcs] at hnext ih
          rw [InStep, hnext]
          exact ⟨(rdO_quiet hw hs ih.2.2).2, not_rises_succ ih.2.2⟩
      | waitEnd =>
          rw [hcs] at hnext ih
          cases hrd : rdOAt w b n with
          | true =>
              rw [InStep, hnext, hrd]
              exact ⟨(rdO_quiet hw hs hrd).2, not_rises_succ hrd⟩
          | false =>
              rw [InStep, hnext, hrd]
              exact fun _ => rises_succ hrd

/-- A write strobe starts a write cycle, the first clock of a read strobe a
read cycle, and nothing else starts a cycle. -/
theorem csAt_succ_cases (hw : w.Fresh) (hs : Schedule b)
    (hpage : InWboPage b) (n : ℕ) :
    (wrOAt w b n = true ∧ csAt w b (n + 1) = .wbWrite) ∨
    (wrOAt w b n = false ∧ rdOAt w b n = true ∧ Rises w b n ∧
      csAt w b (n + 1) = .wbRead) ∨
    (wrOAt w b n = false ∧ (rdOAt w b n = true → ¬Rises w b n) ∧
      (csAt w b (n + 1)).nxStb = false) := by
  have hstep := inStep hw hs hpage n
  rw [csAt_succ_of_page hw hpage]
  rw [InStep] at hstep
  cases hcs : csAt w b n with
  | idle =>
      rw [hcs] at hstep
      cases hwr : wrOAt w b n with
      | true => exact Or.inl ⟨rfl, rfl⟩
      | false =>
          right
          cases hrd : rdOAt w b n with
          | true => exact Or.inl ⟨rfl, rfl, hstep hrd, rfl⟩
          | false => exact Or.inr ⟨rfl, (fun h => by cases h), rfl⟩
  | wbWrite =>
      rw [hcs] at hstep
      refine Or.inr (Or.inr ⟨hstep.1, ?_, rfl⟩)
      intro hrd
      rw [hstep.2] at hrd
      cases hrd
  | wbRead =>
      rw [hcs] at hstep
      exact Or.inr (Or.inr ⟨hstep.1, fun _ => hstep.2.1, rfl⟩)
  | waitEnd =>
      rw [hcs] at hstep
      refine Or.inr (Or.inr ⟨hstep.1, fun _ => hstep.2, ?_⟩)
      cases rdOAt w b n <;> rfl

/-! ## One cycle for each access -/

theorem ackedAt_zero (hw : w.Fresh) : ackedAt w b 0 = none := by
  have hmaster := masterAt_eq (b := b) hw 0
  rw [ackedAt, hmaster]
  rfl

/-- What is acknowledged depends on the cycle state only. -/
theorem ackedAt_eq (hw : w.Fresh) (hpage : InWboPage b) (n : ℕ) :
    ackedAt w b n =
      match csAt w b n with
      | .wbWrite =>
          some (.write (masterAt w b n).adrO (masterAt w b n).datOS)
      | .wbRead => some (.read (masterAt w b n).adrO)
      | _ => none := by
  have hreg := registered_masterAt (b := b) hw n
  have hack := ackAt_of_page hw hpage n
  rw [ackAt, ← wrapperTrace_bus hw] at hack
  rw [ackedAt, hreg.stb, hreg.cyc, hreg.we, hack]
  change (if (csAt w b n).nxStb && (csAt w b n).nxCyc && (csAt w b n).nxStb
    then some (if (csAt w b n).nxWe then _ else _) else none) = _
  cases csAt w b n <;> rfl

/-- A due access is acknowledged in the clock it is due. -/
theorem ackedAt_of_due (hw : w.Fresh) (hs : Schedule b)
    (hpage : InWboPage b) {t k : ℕ} (hdue : DueAt b t k) :
    ackedAt w b k = some (b t).access := by
  obtain ⟨hstart, ⟨hread, rfl⟩ | ⟨hwrite, e, hidle, rfl⟩⟩ := hdue
  · have hrd : rdOAt w b (t + 2) = true := hread
    have hrise : Rises w b (t + 2) := by
      intro m hm
      obtain rfl : m = t + 1 := by omega
      cases t with
      | zero => exact rdOAt_one hw
      | succ p =>
          have hgap : (b p).strobe = false := by
            simpa using hstart.2
          rw [CpuBus.strobe, Bool.or_eq_false_iff] at hgap
          exact hgap.1
    rcases csAt_succ_cases hw hs hpage (t + 2) with
      ⟨hwr, -⟩ | ⟨-, -, -, hcs⟩ | ⟨-, hno, -⟩
    · rw [(rdO_quiet hw hs hrd).1] at hwr
      cases hwr
    · rw [ackedAt_eq hw hpage, hcs, adrO_succ, if_pos (by rw [hrd, Bool.or_true]),
        aOAt_of_strobe hstart.1, CpuBus.access, if_pos hread]
    · exact absurd hrise (hno hrd)
  · obtain ⟨hwr, hadr, hdat⟩ := wrO_of_due (w := w) hs hwrite hidle
    have hread : (b t).reads = false := by
      by_contra hr
      rw [Bool.not_eq_false] at hr
      rw [hs.oneWay t hr] at hwrite
      cases hwrite
    rcases csAt_succ_cases hw hs hpage (e + 1) with
      ⟨-, hcs⟩ | ⟨hlow, -⟩ | ⟨hlow, -⟩
    · rw [ackedAt_eq hw hpage, hcs, adrO_succ, datOS_succ, if_pos hwr,
        if_pos (by rw [hwr, Bool.true_or]), hadr, hdat, CpuBus.access,
        if_neg (ne_true_of_eq_false hread)]
    · rw [hwr] at hlow
      cases hlow
    · rw [hwr] at hlow
      cases hlow

/-- Nothing is acknowledged but what is due. -/
theorem due_of_ackedAt (hw : w.Fresh) (hs : Schedule b)
    (hpage : InWboPage b) {k : ℕ} (hnone : ∀ t, ¬DueAt b t k) :
    ackedAt w b k = none := by
  cases k with
  | zero => exact ackedAt_zero hw
  | succ n =>
      rcases csAt_succ_cases hw hs hpage n with
        ⟨hwr, -⟩ | ⟨-, hrd, hrise, -⟩ | ⟨-, -, hidle⟩
      · obtain ⟨t, -, hdue, -⟩ := due_of_wrO hw hs hwr
        exact absurd hdue (hnone t)
      · obtain ⟨t, rfl, hread, hstart⟩ := rdO_rises hw hs hrd hrise
        exact absurd ⟨hstart, Or.inl ⟨hread, rfl⟩⟩ (hnone t)
      · rw [ackedAt_eq hw hpage]
        cases hcs : csAt w b (n + 1) with
        | idle => rfl
        | waitEnd => rfl
        | wbWrite => rw [hcs] at hidle; cases hidle
        | wbRead => rw [hcs] at hidle; cases hidle

/-- From the third sample of a read on the address register holds its
address. -/
theorem adrO_of_read {t j : ℕ} (hs : Schedule b) (hread : (b t).reads = true)
    (hj : t + 2 ≤ j) (hup : ∀ k, t ≤ k → k ≤ j → (b k).strobe = true) :
    (masterAt w b (j + 1)).adrO = (b t).a := by
  obtain ⟨p, rfl⟩ := Nat.exists_eq_add_of_le' hj
  have hsame : (b t).SameAccess (b (p + t)) :=
    hs.same (by omega) fun k hk hkp => hup k hk (by omega)
  have hrd : rdOAt w b (p + t + 2) = true := by
    rw [rdOAt_add_two, hsame.reads, hread]
  rw [← Nat.add_assoc p t 2, adrO_succ, if_pos (by rw [hrd, Bool.or_true]),
    aOAt_of_strobe (hup (p + t) (by omega) (by omega)), hsame.a]

end Page

/-- The bridge performs exactly the accesses of the CPU: before every clock
the cycles acknowledged are the accesses whose cycle is due, in order; and
once a read has been sampled three times the CPU sees the data of the slave
until the read ends. -/
theorem bridge_performs_accesses (w₀ : Wrapper) {b₁ b₂ : CpuBus}
    (h₁ : b₁.strobe = false) (h₂ : b₂.strobe = false) {b : ℕ → CpuBus}
    (hs : Schedule b) (hpage : InWboPage b) :
    let w := (w₀.clock true b₁).clock true b₂
    (∀ n, log (ackedAt w b) n = accesses b n) ∧
    ∀ (t j : ℕ) (sDatI : Fin 3 → WbDat), Starts b t →
      (b t).reads = true → t + 2 ≤ j →
      (∀ k, t ≤ k → k ≤ j → (b k).strobe = true) →
      (wrapperTrace w b (j + 1)).cpuDO sDatI = sDatI 1 := by
  intro w
  have hw : w.Fresh := w₀.fresh_reset h₁ h₂
  constructor
  · intro n
    exact log_eq_causes (DueAt b)
      (fun t k hdue => (Nat.le_add_right t 3).trans (hdue.after hs))
      (fun t t' k k' hdue hdue' => hdue.order hs hdue')
      (fun t k hdue => ackedAt_of_due hw hs hpage hdue)
      (fun k hnone => due_of_ackedAt hw hs hpage hnone)
      (Reached b) reached_iff n
  · intro t j sDatI hstart hread hj hup
    have hadr := adrO_of_read (w := w) hs hread hj hup
    change sDatI (slaveSel (masterAt w b (j + 1)).adrO) = sDatI 1
    rw [hadr, hpage t hstart.1]

/-- A write of two samples, and after one sample without a strobe a read of
three. -/
def writeThenRead : ℕ → CpuBus
  | 0 | 1 => ⟨0x100, 7, false, true, true⟩
  | 3 | 4 | 5 => ⟨0x101, 0, true, false, true⟩
  | _ => ⟨0, 0, false, false, false⟩

theorem idle_writeThenRead (n : ℕ) (hn : 6 ≤ n) :
    (writeThenRead n).strobe = false := by
  obtain ⟨k, rfl⟩ := Nat.exists_eq_add_of_le' hn
  rfl

theorem schedule_writeThenRead : Schedule writeThenRead :=
  .of_idle 6 idle_writeThenRead (by decide)

theorem bridge_performs_writeThenRead :
    let idle : CpuBus := ⟨0, 0, false, false, false⟩
    let w₀ : Wrapper := ⟨⟨0, 0, true, true, true, 0, 0, true⟩, .initial⟩
    let w := (w₀.clock true idle).clock true idle
    log (ackedAt w writeThenRead) 12 = [.write 0x100 7, .read 0x101] ∧
      (wrapperTrace w writeThenRead 6).cpuDO
        (fun slave => if slave = 1 then 0xAA else 0) = 0xAA := by
  intro idle w₀ w
  have hpage : InWboPage writeThenRead := by
    intro n
    match n with
    | 0 | 1 | 2 | 3 | 4 | 5 => decide
    | n + 6 => exact fun h => by cases h
  have hidle : idle.strobe = false := rfl
  obtain ⟨hcycles, hdata⟩ := bridge_performs_accesses w₀ hidle hidle
    schedule_writeThenRead hpage
  refine ⟨(hcycles 12).trans (by decide), ?_⟩
  refine hdata 3 5 _ (by decide) (by decide) (by decide) ?_
  intro k hk hk'
  rcases (show k = 3 ∨ k = 4 ∨ k = 5 by omega) with rfl | rfl | rfl
  all_goals rfl

end EmbBoard.Wishbone
