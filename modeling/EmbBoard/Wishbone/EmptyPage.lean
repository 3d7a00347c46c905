import EmbBoard.Wishbone.Wrapper

/-!
# Writes among accesses to empty pages

Addresses in any page.  A cycle to a page without a slave stays open until the
timeout, and the master goes on taking addresses and data from every strobe.
A write to `WBO` is performed in the clock after its strobe or not at all; the
clocks in which that goes wrong are those in which the strobe finds the master
unable to take it, or in which a read strobe turns an open write cycle to
`WBO`.
-/

namespace EmbBoard.Wishbone

open EmbBoard.Clocked

/-- The write `WBO` sees in clock `n`, if there is one: low address and
data. -/
def wboWriteAt (w : Wrapper) (b : ℕ → CpuBus) (n : ℕ) :
    Option (WbLad × WbDat) :=
  let m := masterAt w b n
  if (wrapperTrace w b n).bus.stbO 1 && m.cycOS && m.weOS then
    some (m.adrO.setWidth 8, m.datOS)
  else none

/-- A write to the page of `WBO` begins with sample `t`. -/
def WritesWbo (b : ℕ → CpuBus) (t : ℕ) : Prop :=
  (b t).writes = true ∧ slaveSel (b t).a = 1

instance (b : ℕ → CpuBus) (t : ℕ) : Decidable (WritesWbo b t) :=
  inferInstanceAs (Decidable (_ ∧ _))

/-- The CPU's writes to the page of `WBO` that are due before clock `n`. -/
def wboWrites (b : ℕ → CpuBus) (n : ℕ) : List (WbLad × WbDat) :=
  log (fun t =>
    if Reached b n t ∧ WritesWbo b t then
      some ((b t).a.setWidth 8, (b t).d)
    else none) n

section

variable (w : Wrapper) (b : ℕ → CpuBus)

/-- A write strobe for `WBO` meets a master that is neither ready for it nor
in an open write cycle. -/
def StrobeLost (n : ℕ) : Prop :=
  wrOAt w b n = true ∧ slaveSel (aOAt w b n) = 1 ∧
    ¬(errSAt (busInAt w b) n = false ∧
      (csAt w b n = .idle ∨
        (csAt w b n = .wbWrite ∧ ackAt (busInAt w b) n = false)))

/-- A read strobe for `WBO` meets an open write cycle. -/
def CycleDiverted (n : ℕ) : Prop :=
  wrOAt w b n = false ∧ rdOAt w b n = true ∧ slaveSel (aOAt w b n) = 1 ∧
    errSAt (busInAt w b) n = false ∧ csAt w b n = .wbWrite ∧
    ackAt (busInAt w b) n = false

/-- The write that should be performed in a clock: the one whose strobe was in
the clock before. -/
def dueWriteAt : ℕ → Option (WbLad × WbDat)
  | 0 => none
  | n + 1 =>
      if wrOAt w b n = true ∧ slaveSel (aOAt w b n) = 1 then
        some ((aOAt w b n).setWidth 8, dOAt w b n)
      else none

end

section Clock

variable {w : Wrapper} {b : ℕ → CpuBus}

/-- `WBO` sees a write in a write cycle to its page. -/
theorem wboWriteAt_eq (hw : w.Fresh) (n : ℕ) :
    wboWriteAt w b n =
      if csAt w b n = .wbWrite ∧ slaveSel (masterAt w b n).adrO = 1 then
        some ((masterAt w b n).adrO.setWidth 8, (masterAt w b n).datOS)
      else none := by
  have hreg := registered_masterAt (b := b) hw n
  rw [wboWriteAt]
  change (if ((masterAt w b n).stbO &&
    decide (1 = slaveSel (masterAt w b n).adrO)) && (masterAt w b n).cycOS &&
      (masterAt w b n).weOS then _ else none) = _
  rw [hreg.stb, hreg.cyc, hreg.we, csAt]
  cases h : (masterAt w b n).csWbCycle
  all_goals simp [WbCycle.nxStb, WbCycle.nxCyc, WbCycle.nxWe, eq_comm]

theorem csAt_succ_eq_wbWrite_iff (hw : w.Fresh) (n : ℕ) :
    csAt w b (n + 1) = .wbWrite ↔
      errSAt (busInAt w b) n = false ∧
        ((csAt w b n = .idle ∧ wrOAt w b n = true) ∨
          (csAt w b n = .wbWrite ∧ ackAt (busInAt w b) n = false)) := by
  rw [csAt_succ hw, nxWbCycle_eq_wbWrite_iff]
  tauto

/-- After a write strobe, its write is performed unless the strobe is lost. -/
theorem wboWriteAt_of_wrO (hw : w.Fresh) {n : ℕ}
    (hwr : wrOAt w b n = true) :
    wboWriteAt w b (n + 1) = dueWriteAt w b (n + 1) ↔
      ¬StrobeLost w b n := by
  have hadr : (masterAt w b (n + 1)).adrO = aOAt w b n := by
    rw [adrO_succ, if_pos (by rw [hwr, Bool.true_or])]
  have hdat : (masterAt w b (n + 1)).datOS = dOAt w b n := by
    rw [datOS_succ, if_pos hwr]
  have htaken : csAt w b (n + 1) = .wbWrite ↔
      errSAt (busInAt w b) n = false ∧ (csAt w b n = .idle ∨
        (csAt w b n = .wbWrite ∧ ackAt (busInAt w b) n = false)) := by
    rw [csAt_succ_eq_wbWrite_iff hw, hwr, eq_self_iff_true, and_true]
  rw [wboWriteAt_eq hw, dueWriteAt, hadr, hdat]
  by_cases hsel : slaveSel (aOAt w b n) = 1
  · by_cases hcs : csAt w b (n + 1) = .wbWrite
    · rw [if_pos ⟨hcs, hsel⟩, if_pos ⟨hwr, hsel⟩]
      exact ⟨fun _ h => h.2.2 (htaken.mp hcs), fun _ => rfl⟩
    · rw [if_neg (fun h => hcs h.1), if_pos ⟨hwr, hsel⟩]
      refine ⟨fun h => absurd h.symm (Option.some_ne_none _), fun h => ?_⟩
      exact absurd ⟨hwr, hsel, fun hopen => hcs (htaken.mpr hopen)⟩ h
  · rw [if_neg (fun h => hsel h.2), if_neg (fun h => hsel h.2)]
    exact ⟨fun _ h => hsel h.2.1, fun _ => rfl⟩

/-- Without a write strobe, a write is performed only in a diverted cycle. -/
theorem wboWriteAt_of_not_wrO (hw : w.Fresh) {n : ℕ}
    (hwr : wrOAt w b n = false) :
    wboWriteAt w b (n + 1) = dueWriteAt w b (n + 1) ↔
      ¬CycleDiverted w b n := by
  have hdue : dueWriteAt w b (n + 1) = none := by simp [dueWriteAt, hwr]
  have hopen : csAt w b (n + 1) = .wbWrite ↔
      errSAt (busInAt w b) n = false ∧ csAt w b n = .wbWrite ∧
        ackAt (busInAt w b) n = false := by
    rw [csAt_succ_eq_wbWrite_iff hw, hwr]
    simp
  rw [wboWriteAt_eq hw, hdue]
  by_cases hcs : csAt w b (n + 1) = .wbWrite ∧
      slaveSel (masterAt w b (n + 1)).adrO = 1
  · rw [if_pos hcs]
    obtain ⟨herr, hold, hack⟩ := hopen.mp hcs.1
    have hsel := hcs.2
    rw [adrO_succ, hwr, Bool.false_or] at hsel
    refine ⟨fun h => absurd h (Option.some_ne_none _), fun h => ?_⟩
    split at hsel
    · next hrd => exact absurd ⟨hwr, hrd, hsel, herr, hold, hack⟩ h
    · -- An open cycle to `WBO` itself would have been acknowledged.
      rw [ackAt_eq hw, hold, hsel] at hack
      cases hack
  · rw [if_neg hcs]
    refine ⟨fun _ h => hcs ?_, fun _ => rfl⟩
    obtain ⟨-, hrd, hsel, herr, hold, hack⟩ := h
    refine ⟨hopen.mpr ⟨herr, hold, hack⟩, ?_⟩
    rwa [adrO_succ, hrd, Bool.or_true, if_pos rfl]

/-- In one clock the right write is performed exactly when its strobe is not
lost and no cycle is diverted. -/
theorem wboWriteAt_succ_iff (hw : w.Fresh) (n : ℕ) :
    wboWriteAt w b (n + 1) = dueWriteAt w b (n + 1) ↔
      ¬StrobeLost w b n ∧ ¬CycleDiverted w b n := by
  cases hwr : wrOAt w b n with
  | true =>
      rw [wboWriteAt_of_wrO hw hwr]
      refine ⟨fun h => ⟨h, ?_⟩, fun h => h.1⟩
      rintro ⟨hlow, -⟩
      rw [hwr] at hlow
      cases hlow
  | false =>
      rw [wboWriteAt_of_not_wrO hw hwr]
      refine ⟨fun h => ⟨?_, h⟩, fun h => h.2⟩
      rintro ⟨hhigh, -⟩
      rw [hwr] at hhigh
      cases hhigh

theorem wboWriteAt_zero (hw : w.Fresh) : wboWriteAt w b 0 = none := by
  rw [wboWriteAt_eq hw, csAt, masterAt_eq hw]
  rfl

/-- The due writes are the writes of the CPU. -/
theorem log_dueWriteAt (hw : w.Fresh) (hs : Schedule b) (n : ℕ) :
    log (dueWriteAt w b) n = wboWrites b n := by
  refine log_eq_causes (fun t k => DueAt b t k ∧ WritesWbo b t)
    ?_ ?_ ?_ ?_ (fun n t => Reached b n t ∧ WritesWbo b t) ?_ n
  · rintro t k ⟨hdue, -⟩
    exact (Nat.le_add_right t 3).trans (hdue.after hs)
  · rintro t t' k k' ⟨hdue, -⟩ ⟨hdue', -⟩
    exact hdue.order hs hdue'
  · rintro t k ⟨⟨-, ⟨hread, -⟩ | ⟨hwrite, e, hidle, rfl⟩⟩, hwr, hsel⟩
    · rw [hs.oneWay t hread] at hwr
      cases hwr
    · obtain ⟨hwr, hadr, hdat⟩ := wrO_of_due (w := w) hs hwrite hidle
      rw [dueWriteAt, hadr, hdat]
      exact if_pos ⟨hwr, hsel⟩
  · intro k hnone
    cases k with
    | zero => rfl
    | succ n =>
        rw [dueWriteAt, if_neg]
        rintro ⟨hwr, hsel⟩
        obtain ⟨t, hwrite, hdue, hadr, -⟩ := due_of_wrO hw hs hwr
        exact hnone t ⟨hdue, hwrite, hadr ▸ hsel⟩
  · intro n t
    rw [reached_iff]
    constructor
    · rintro ⟨⟨k, hk, hdue⟩, hwbo⟩
      exact ⟨k, hk, hdue, hwbo⟩
    · rintro ⟨k, hk, hdue, hwbo⟩
      exact ⟨⟨k, hk, hdue⟩, hwbo⟩

end Clock

/-- Every write of the CPU to the page of `WBO` is performed there once, with
its own address and data, and no other write is, exactly when no write strobe
for `WBO` is lost and no open write cycle is diverted to it. -/
theorem wboWrites_performed_iff (w₀ : Wrapper) {b₁ b₂ : CpuBus}
    (h₁ : b₁.strobe = false) (h₂ : b₂.strobe = false) {b : ℕ → CpuBus}
    (hs : Schedule b) :
    let w := (w₀.clock true b₁).clock true b₂
    (∀ n, log (wboWriteAt w b) n = wboWrites b n) ↔
      ∀ n, ¬StrobeLost w b n ∧ ¬CycleDiverted w b n := by
  intro w
  have hw : w.Fresh := w₀.fresh_reset h₁ h₂
  simp only [← log_dueWriteAt hw hs]
  rw [log_eq_iff]
  constructor
  · intro h n
    exact (wboWriteAt_succ_iff hw n).mp (h (n + 1))
  · intro h n
    cases n with
    | zero => exact wboWriteAt_zero hw
    | succ n => exact (wboWriteAt_succ_iff hw n).mpr (h n)

/-- A read of a page without a slave, and after one sample without a strobe a
write to `WBO`. -/
def readThenWrite : ℕ → CpuBus
  | 0 | 1 => ⟨0x200, 0, true, false, true⟩
  | 3 | 4 => ⟨0x100, 5, false, true, true⟩
  | _ => ⟨0, 0, false, false, false⟩

theorem schedule_readThenWrite : Schedule readThenWrite := by
  refine .of_idle 5 ?_ (by decide)
  intro n hn
  obtain ⟨k, rfl⟩ := Nat.exists_eq_add_of_le' hn
  rfl

/-- The wrapper after two clocks of reset. -/
def Wrapper.afterReset : Wrapper :=
  let idle : CpuBus := ⟨0, 0, false, false, false⟩
  let w₀ : Wrapper := ⟨⟨0, 0, false, false, false, 0, 0, false⟩, .initial⟩
  (w₀.clock true idle).clock true idle

theorem readThenWrite_loses_write :
    Schedule readThenWrite ∧
      ¬∀ n, log (wboWriteAt .afterReset readThenWrite) n =
        wboWrites readThenWrite n := by
  refine ⟨schedule_readThenWrite, ?_⟩
  intro h
  have hlast := h 12
  revert hlast
  decide

/-- The same accesses with the write after the timeout of the read. -/
def readWaitWrite : ℕ → CpuBus
  | 0 | 1 => ⟨0x200, 0, true, false, true⟩
  | 10 | 11 => ⟨0x100, 5, false, true, true⟩
  | _ => ⟨0, 0, false, false, false⟩

theorem idle_readWaitWrite (n : ℕ) (hn : 12 ≤ n) :
    (readWaitWrite n).strobe = false := by
  obtain ⟨k, rfl⟩ := Nat.exists_eq_add_of_le' hn
  rfl

theorem schedule_readWaitWrite : Schedule readWaitWrite :=
  .of_idle 12 idle_readWaitWrite (by decide)

/-- No strobe comes once the CPU is idle. -/
theorem performed_of_idle {w : Wrapper} {b : ℕ → CpuBus} {m : ℕ}
    (hidle : ∀ n, m ≤ n → (b n).strobe = false) {n : ℕ} (hn : m + 2 ≤ n) :
    ¬StrobeLost w b n ∧ ¬CycleDiverted w b n := by
  obtain ⟨k, rfl⟩ := Nat.exists_eq_add_of_le' hn
  have hlow := hidle (k + m) (Nat.le_add_left m k)
  rw [CpuBus.strobe, Bool.or_eq_false_iff] at hlow
  constructor
  · rintro ⟨hwr, -⟩
    change wrOAt w b (k + m + 2) = true at hwr
    rw [wrOAt_add_two, hlow.2] at hwr
    cases hwr
  · rintro ⟨-, hrd, -⟩
    change rdOAt w b (k + m + 2) = true at hrd
    rw [rdOAt_add_two, hlow.1] at hrd
    cases hrd

/-- In the first schedule the write strobe is lost; in the second one it is
not, and the write is performed. -/
theorem wboWrites_performed_iff_readWrite :
    (¬∀ n, ¬StrobeLost .afterReset readThenWrite n ∧
      ¬CycleDiverted .afterReset readThenWrite n) ∧
    (∀ n, log (wboWriteAt .afterReset readWaitWrite) n =
      wboWrites readWaitWrite n) ∧
    wboWrites readWaitWrite 20 = [(0x00, 5)] := by
  let idle : CpuBus := ⟨0, 0, false, false, false⟩
  let w₀ : Wrapper := ⟨⟨0, 0, false, false, false, 0, 0, false⟩, .initial⟩
  have hidle : idle.strobe = false := rfl
  have hfirst : ∀ n < 14, ¬StrobeLost .afterReset readWaitWrite n ∧
      ¬CycleDiverted .afterReset readWaitWrite n := by
    unfold StrobeLost CycleDiverted
    decide
  refine ⟨?_, ?_, by decide⟩
  · intro h
    have hall := (wboWrites_performed_iff w₀ hidle hidle
      schedule_readThenWrite).mpr h
    have hlast := hall 12
    revert hlast
    decide
  · refine (wboWrites_performed_iff w₀ hidle hidle
      schedule_readWaitWrite).mpr ?_
    intro n
    by_cases hn : n < 14
    · exact hfirst n hn
    · exact performed_of_idle idle_readWaitWrite (Nat.le_of_not_lt hn)

end EmbBoard.Wishbone
