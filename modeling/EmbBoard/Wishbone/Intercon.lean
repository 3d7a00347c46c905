import EmbBoard.Wishbone.Host

/-!
# Interconnect

`Intercon` selects the slave by the page of the address, steers the cycle and
the responses, and ends a cycle that nobody answers: a timer raises `err_s`.
The master and the interconnect together are a machine whose inputs are the
strobes of the CPU side and the responses of the slaves.
-/

namespace EmbBoard.Wishbone

/-- `Timeout`: clock cycles before a response is expected from a slave. -/
def timeout : ℕ := 4

/-- `BA_WBO`. -/
def baWbo : BitVec 2 := 0b01

/-- `BA_WBI`. -/
def baWbi : BitVec 2 := 0b00

/-- The slaves are numbered by the numerals of `Fin 3`. -/
scoped instance neZeroSlaves : NeZero 3 := ⟨by decide⟩

/-- `Slave_sel`; slave 0 stands for addresses that are not valid. -/
def slaveSel (adr : WbAdr) : Fin 3 :=
  if adr.extractLsb' 8 2 = baWbo then 1
  else if adr.extractLsb' 8 2 = baWbi then 2
  else 0

/-- The registers of `Intercon`. -/
@[ext]
structure Intercon where
  timerEn : Bool
  timer : ℕ
  errS : Bool
deriving DecidableEq, Repr

namespace Intercon

/-- `tmout` without its reset.  Later assignments override earlier ones. -/
def tmout (stbI ackI : Bool) (c : Intercon) : Bool × Bool :=
  let (errS, timerEn) := (c.errS, c.timerEn)
  let (errS, timerEn) :=
    if stbI && !c.errS then (errS, true)
    else if !stbI then (false, false)
    else (errS, timerEn)
  let timerEn := if ackI then false else timerEn
  if c.timer = timeout - 1 then (true, false) else (errS, timerEn)

/-- `tmout` and `tick`; `ackI` is the acknowledge of the selected slave. -/
def clock (rst stbI ackI : Bool) (c : Intercon) : Intercon :=
  if rst then { timerEn := false, timer := 0, errS := false }
  else
    { errS := (c.tmout stbI ackI).1
      timerEn := (c.tmout stbI ackI).2
      timer := if c.timerEn then c.timer + 1 else 0 }

@[simp] theorem clock_errS (stbI ackI : Bool) (c : Intercon) :
    (c.clock false stbI ackI).errS =
      (decide (c.timer = timeout - 1) || (c.errS && stbI)) := by
  obtain ⟨timerEn, timer, errS⟩ := c
  by_cases h : timer = timeout - 1
  · simp [clock, tmout, h]
  · cases stbI <;> cases errS <;> simp [clock, tmout, h]

@[simp] theorem clock_timerEn (stbI ackI : Bool) (c : Intercon) :
    (c.clock false stbI ackI).timerEn =
      (!decide (c.timer = timeout - 1) && !ackI && stbI &&
        (!c.errS || c.timerEn)) := by
  obtain ⟨timerEn, timer, errS⟩ := c
  by_cases h : timer = timeout - 1
  · simp [clock, tmout, h]
  · cases stbI <;> cases errS <;> cases ackI <;> simp [clock, tmout, h]

@[simp] theorem clock_timer (stbI ackI : Bool) (c : Intercon) :
    (c.clock false stbI ackI).timer =
      if c.timerEn then c.timer + 1 else 0 := rfl

end Intercon

/-! ## Master and interconnect -/

/-- What the master and the interconnect see in one clock. -/
structure BusIn where
  aI : WbAdr
  wrD : WbDat
  wrStrb : Bool
  rdStrb : Bool
  ackI : Fin 3 → Bool
  errI : Fin 3 → Bool

/-- `WB_Master` driving `Intercon`. -/
structure Bus where
  master : WbMaster
  intercon : Intercon

namespace Bus

/-- `s`: the slave the address selects. -/
def sel (b : Bus) : Fin 3 := slaveSel b.master.adrO

/-- The acknowledge `ack_o` returned to the master. -/
def ackO (i : BusIn) (b : Bus) : Bool := i.ackI b.sel

/-- The error `err_o` returned to the master. -/
def errO (i : BusIn) (b : Bus) : Bool := i.errI b.sel || b.intercon.errS

/-- The strobe `stb_o` a slave sees. -/
def stbO (b : Bus) (slave : Fin 3) : Bool :=
  b.master.stbO && slave = b.sel

/-- The read data `m_dat_o`. -/
def mDatO (sDatI : Fin 3 → WbDat) (b : Bus) : WbDat := sDatI b.sel

def clock (rst : Bool) (i : BusIn) (b : Bus) : Bus where
  master := b.master.clock rst i.aI i.wrD i.wrStrb i.rdStrb (b.ackO i)
    (b.errO i)
  intercon := b.intercon.clock rst b.master.stbO (b.ackO i)

/-- The state a clock with reset leaves. -/
def initial : Bus where
  master := ⟨.idle, false, false, false, 0, 0, 0⟩
  intercon := ⟨false, 0, false⟩

theorem clock_reset (i : BusIn) (b : Bus) : b.clock true i = initial := rfl

end Bus

end EmbBoard.Wishbone
