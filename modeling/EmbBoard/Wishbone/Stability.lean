import EmbBoard.Support.Clocked
import EmbBoard.Wishbone.Host

/-!
# Stable outputs during a bus cycle

A cycle the slave has not answered yet keeps strobe, cycle and write enable;
these follow the cycle state.  The address and data registers are loaded by
every strobe, whatever the state, so that they keep their values only if the
strobes that arrive in a cycle repeat them.
-/

namespace EmbBoard.Wishbone

open EmbBoard.Clocked

/-- What `WB_Master` sees in one clock, on its two sides. -/
structure MasterIn where
  aI : WbAdr
  wrD : WbDat
  wrStrb : Bool
  rdStrb : Bool
  ackI : Bool
  errI : Bool

namespace WbMaster

/-- The master with its inputs in one record. -/
def step (rst : Bool) (x : MasterIn) (m : WbMaster) : WbMaster :=
  m.clock rst x.aI x.wrD x.wrStrb x.rdStrb x.ackI x.errI

/-- The cycle waits for its response. -/
def Waiting (x : MasterIn) (m : WbMaster) : Prop :=
  m.stbO = true ∧ x.ackI = false ∧ x.errI = false

/-- The outputs of a waiting cycle are the same in the next clock. -/
def StableOutputs (x : MasterIn) (m : WbMaster) : Prop :=
  Waiting x m →
    (m.step false x).stbO = true ∧ (m.step false x).cycOS = true ∧
      (m.step false x).adrO = m.adrO ∧ (m.step false x).datOS = m.datOS ∧
      (m.step false x).weOS = m.weOS

/-- A strobe that arrives in a waiting cycle brings the address that is out,
and a write strobe the data that is out. -/
def RepeatedStrobe (x : MasterIn) (m : WbMaster) : Prop :=
  Waiting x m →
    (x.wrStrb = true ∨ x.rdStrb = true → x.aI = m.adrO) ∧
      (x.wrStrb = true → x.wrD = m.datOS)

/-- The control outputs of a waiting cycle are stable under every strobe. -/
theorem control_stable {x : MasterIn} {m : WbMaster} (hreg : m.Registered)
    (hwait : Waiting x m) :
    (m.step false x).stbO = true ∧ (m.step false x).cycOS = true ∧
      (m.step false x).weOS = m.weOS := by
  obtain ⟨hstb, hack, herr⟩ := hwait
  rw [hreg.stb] at hstb
  have hstate : nxWbCycle m.csWbCycle x.wrStrb x.rdStrb x.ackI x.errI =
      m.csWbCycle := by
    rw [hack, herr]
    cases hcs : m.csWbCycle with
    | idle => rw [hcs] at hstb; cases hstb
    | waitEnd => rw [hcs] at hstb; cases hstb
    | wbWrite => rfl
    | wbRead => rfl
  have hcyc : m.csWbCycle.nxCyc = m.csWbCycle.nxStb := by
    cases m.csWbCycle <;> rfl
  refine ⟨?_, ?_, ?_⟩
  · simp [step, clock, hstate, hstb]
  · simp [step, clock, hstate, hcyc, hstb]
  · simp [step, clock, hstate, hreg.we]

theorem adrO_step (x : MasterIn) (m : WbMaster) :
    (m.step false x).adrO = m.adrO ↔
      (x.wrStrb = true ∨ x.rdStrb = true → x.aI = m.adrO) := by
  simp only [step, clock, Bool.false_eq_true, if_false, Bool.or_eq_true]
  split
  · rename_i hstrobe
    simp [hstrobe]
  · rename_i hstrobe
    simp [hstrobe]

theorem datOS_step (x : MasterIn) (m : WbMaster) :
    (m.step false x).datOS = m.datOS ↔
      (x.wrStrb = true → x.wrD = m.datOS) := by
  cases hwr : x.wrStrb <;> simp [step, clock, hwr]

/-- One clock. -/
theorem stableOutputs_iff_repeatedStrobe {x : MasterIn} {m : WbMaster}
    (hreg : m.Registered) : StableOutputs x m ↔ RepeatedStrobe x m := by
  apply imp_congr_right
  intro hwait
  obtain ⟨hstb, hcyc, hwe⟩ := control_stable hreg hwait
  rw [← adrO_step, ← datOS_step]
  simp [hstb, hcyc, hwe]

end WbMaster

/-! ## Every sequence of inputs -/

/-- The master clock by clock, from a reset of any state. -/
def masterTrace (m₀ : WbMaster) (x₀ : MasterIn) (x : ℕ → MasterIn) :
    ℕ → WbMaster :=
  trace (WbMaster.step false) (m₀.step true x₀) x

theorem registered_masterTrace (m₀ : WbMaster) (x₀ : MasterIn)
    (x : ℕ → MasterIn) (n : ℕ) : (masterTrace m₀ x₀ x n).Registered := by
  cases n with
  | zero => exact WbMaster.registered_clock _ _ _ _ _ _ _ _
  | succ n => exact WbMaster.registered_clock _ _ _ _ _ _ _ _

/-- The outputs of the master are stable in every waiting clock exactly when
in every waiting clock the strobes repeat what is out. -/
theorem stableOutputs_iff (m₀ : WbMaster) (x₀ : MasterIn) (x : ℕ → MasterIn) :
    (∀ n, WbMaster.StableOutputs (x n) (masterTrace m₀ x₀ x n)) ↔
      ∀ n, WbMaster.RepeatedStrobe (x n) (masterTrace m₀ x₀ x n) := by
  apply forall_congr'
  intro n
  exact WbMaster.stableOutputs_iff_repeatedStrobe
    (registered_masterTrace m₀ x₀ x n)

/-- A write to one address, and a read strobe for another one while the first
slave has not answered. -/
def readInWrite (n : ℕ) : MasterIn where
  aI := if n = 0 then 0x200 else 0x100
  wrD := 5
  wrStrb := n = 0
  rdStrb := n = 1
  ackI := false
  errI := false

/-- The address of the open write cycle changes from one slave to another. -/
theorem readInWrite_moves_address :
    let m := masterTrace ⟨.idle, false, false, false, 0, 0, 0⟩ (readInWrite 2)
      readInWrite
    (m 1).stbO = true ∧ (m 1).weOS = true ∧ (m 1).adrO = 0x200 ∧
      (m 2).stbO = true ∧ (m 2).weOS = true ∧ (m 2).adrO = 0x100 ∧
      ¬∀ n, WbMaster.StableOutputs (readInWrite n) (m n) := by
  intro m
  have hbefore : (m 1).adrO = 0x200 := by decide
  have hafter : (m 2).adrO = 0x100 := by decide
  refine ⟨by decide, by decide, hbefore, by decide, by decide, hafter, ?_⟩
  intro hall
  have hsame := (hall 1 ⟨by decide, rfl, rfl⟩).2.2.1
  rw [hbefore, show (m 1).step false (readInWrite 1) = m 2 from rfl,
    hafter] at hsame
  exact absurd hsame (by decide)

end EmbBoard.Wishbone
