import Mathlib.Data.BitVec

/-!
# CPU interface and Wishbone master

The two entities of the host: `CpuInterface`, which samples the CPU bus and
makes strobes of it, and `WB_Master`, which turns strobes into bus cycles.
Each is a state of registers with a clock function; signals are `Bool`, and a
register that a process does not assign keeps its value.
-/

namespace EmbBoard.Wishbone

/-- `wb_adr_typ`: page number in the upper two bits. -/
abbrev WbAdr := BitVec 10

/-- `wb_lad_typ`. -/
abbrev WbLad := BitVec 8

/-- `wb_dat_typ`. -/
abbrev WbDat := BitVec 16

/-! ## CpuInterface -/

/-- The CPU bus as one clock edge samples it. -/
structure CpuBus where
  a : WbAdr
  d : WbDat
  rd : Bool
  wr : Bool
  cs : Bool
deriving DecidableEq, Repr

namespace CpuBus

/-- `CpuRd_i and CpuCs_i`. -/
def reads (b : CpuBus) : Bool := b.rd && b.cs

/-- `CpuWr_i and CpuCs_i`. -/
def writes (b : CpuBus) : Bool := b.wr && b.cs

/-- The CPU accesses a device. -/
def strobe (b : CpuBus) : Bool := b.reads || b.writes

end CpuBus

/-- The registers of `CpuInterface`. -/
structure CpuInterface where
  aR : WbAdr
  dR : WbDat
  wrR : Bool
  wrRR : Bool
  rdR : Bool
  aO : WbAdr
  dO : WbDat
  rdO : Bool
deriving DecidableEq, Repr

namespace CpuInterface

/-- `Wr_o`: a write strobe at the end of a write. -/
def wrO (c : CpuInterface) : Bool := c.wrRR && !c.wrR

/-- `ProcCpuSync1` and `ProcCpuSync2`; the first has no reset. -/
def clock (rst : Bool) (b : CpuBus) (c : CpuInterface) : CpuInterface where
  aR := b.a
  dR := b.d
  wrR := b.writes
  wrRR := c.wrR
  rdR := b.reads
  aO := if rst then 0 else if c.wrR || c.rdR then c.aR else c.aO
  dO := if rst then 0 else if c.wrR || c.rdR then c.dR else c.dO
  rdO := if rst then false else c.rdR

end CpuInterface

/-! ## WB_Master -/

/-- `wb_cycle_typ`. -/
inductive WbCycle
  | idle | wbWrite | wbRead | waitEnd
deriving DecidableEq, Repr

/-- `wb_cycle_state_logic`. -/
def nxWbCycle (cs : WbCycle) (wrStrb rdStrb ackI errI : Bool) : WbCycle :=
  match cs with
  | .idle =>
      if wrStrb && !errI then .wbWrite
      else if rdStrb && !errI then .wbRead
      else .idle
  | .wbWrite => if ackI || errI then .idle else .wbWrite
  | .wbRead => if ackI || errI then .waitEnd else .wbRead
  | .waitEnd => if !rdStrb then .idle else .waitEnd

/-- `wb_cycle_output_logic`, one function for each output. -/
def WbCycle.nxCyc : WbCycle → Bool
  | .wbWrite | .wbRead => true
  | _ => false

def WbCycle.nxStb : WbCycle → Bool
  | .wbWrite | .wbRead => true
  | _ => false

def WbCycle.nxWe : WbCycle → Bool
  | .wbWrite => true
  | _ => false

/-- A cycle goes on until a response or an error. -/
theorem nxStb_of_stb {cs : WbCycle} (hstb : cs.nxStb = true)
    (wrStrb rdStrb ackI errI : Bool) :
    (nxWbCycle cs wrStrb rdStrb ackI errI).nxStb = !(ackI || errI) := by
  cases cs with
  | idle => cases hstb
  | waitEnd => cases hstb
  | wbWrite => cases ackI <;> cases errI <;> rfl
  | wbRead => cases ackI <;> cases errI <;> rfl

/-- No cycle starts under an error. -/
theorem nxStb_of_errI {cs : WbCycle} (hstb : cs.nxStb = false)
    (wrStrb rdStrb ackI : Bool) :
    (nxWbCycle cs wrStrb rdStrb ackI true).nxStb = false := by
  cases cs with
  | idle => cases wrStrb <;> cases rdStrb <;> rfl
  | waitEnd => cases rdStrb <;> rfl
  | wbWrite => cases hstb
  | wbRead => cases hstb

/-- A write cycle is started by a write strobe or goes on. -/
theorem nxWbCycle_eq_wbWrite_iff {cs : WbCycle}
    {wrStrb rdStrb ackI errI : Bool} :
    nxWbCycle cs wrStrb rdStrb ackI errI = .wbWrite ↔
      (cs = .idle ∧ errI = false ∧ wrStrb = true) ∨
      (cs = .wbWrite ∧ errI = false ∧ ackI = false) := by
  revert wrStrb rdStrb ackI errI
  cases cs <;> decide

/-- The registers of `WB_Master`. -/
structure WbMaster where
  csWbCycle : WbCycle
  cycOS : Bool
  stbO : Bool
  weOS : Bool
  ctiO : BitVec 3
  datOS : WbDat
  adrO : WbAdr
deriving DecidableEq, Repr

namespace WbMaster

/-- The five clocked processes of `WB_Master`. -/
def clock (rst : Bool) (aI : WbAdr) (wrD : WbDat)
    (wrStrb rdStrb ackI errI : Bool) (m : WbMaster) : WbMaster :=
  let nx := nxWbCycle m.csWbCycle wrStrb rdStrb ackI errI
  { csWbCycle := if rst then .idle else nx
    cycOS := if rst then false else nx.nxCyc
    stbO := if rst then false else nx.nxStb
    weOS := if rst then false else nx.nxWe
    -- `cti_classic` is zero as well.
    ctiO := 0
    datOS := if rst then 0 else if wrStrb then wrD else m.datOS
    adrO := if rst then 0 else if wrStrb || rdStrb then aI else m.adrO }

/-- `RD_Ack`. -/
def rdAck (ackI : Bool) (m : WbMaster) : Bool :=
  ackI && m.cycOS && !m.weOS

/-- `WR_Ack`. -/
def wrAck (ackI : Bool) (m : WbMaster) : Bool :=
  ackI && m.cycOS && m.weOS

/-- The bus outputs follow the cycle state. -/
structure Registered (m : WbMaster) : Prop where
  cyc : m.cycOS = m.csWbCycle.nxCyc
  stb : m.stbO = m.csWbCycle.nxStb
  we : m.weOS = m.csWbCycle.nxWe

/-- After any clock the registered outputs agree with the state. -/
theorem registered_clock (rst : Bool) (aI : WbAdr) (wrD : WbDat)
    (wrStrb rdStrb ackI errI : Bool) (m : WbMaster) :
    Registered (m.clock rst aI wrD wrStrb rdStrb ackI errI) := by
  cases rst
  · exact ⟨rfl, rfl, rfl⟩
  · exact ⟨rfl, rfl, rfl⟩

end WbMaster

end EmbBoard.Wishbone
