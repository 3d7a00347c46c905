import Mathlib.Data.Vector.Basic
import Mathlib.Tactic.IntervalCases

/-!
# CAN controller registers

The register block of one LPC24xx CAN controller, with the bit fields the
driver reads or writes, and what the controller itself does with them: the
command register acts on a write, reading the interrupt capture register
clears it, and frames arrive and complete on their own.

The three transmit buffers share one layout; the driver uses the first.
-/

namespace EmbBoard.Can

/-- What a CAN frame carries on the bus. -/
structure Frame where
  dlc : BitVec 4
  rtr : Bool
  ff : Bool
  id29 : BitVec 29
  data : Vector (BitVec 8) 8
deriving DecidableEq, Repr

/-- A telegram as the users of the driver pass it (`CANMSG_T`). -/
structure CanMsg where
  dummy : BitVec 16
  dlc : BitVec 4
  dummy2 : BitVec 10
  rtr : Bool
  ff : Bool
  msgId : BitVec 32
  data : Vector (BitVec 8) 8
deriving DecidableEq, Repr

/-- The part of a telegram that travels; identifiers keep 29 bits. -/
def CanMsg.frame (m : CanMsg) : Frame where
  dlc := m.dlc
  rtr := m.rtr
  ff := m.ff
  id29 := m.msgId.setWidth 29
  data := m.data

/-! ## The register block -/

/-- Mode register. -/
structure CanMod where
  rm : Bool
  lom : Bool
  sm : Bool
  tm : Bool
deriving DecidableEq, Repr

/-- Global status register with the error counters. -/
structure CanGsr where
  rbs : Bool
  dos : Bool
  tbs : Bool
  tcs : Bool
  rs : Bool
  ts : Bool
  es : Bool
  bs : Bool
  rxerr : BitVec 8
  txerr : BitVec 8
deriving DecidableEq, Repr

/-- Interrupt capture register: the receive and the first transmit cause. -/
structure CanIcr where
  ri : Bool
  ti1 : Bool
deriving DecidableEq, Repr

/-- Interrupt enable register. -/
structure CanIer where
  rie : Bool
  tie1 : Bool
  tie2 : Bool
  tie3 : Bool
deriving DecidableEq, Repr

/-- Bus timing register. -/
structure CanBtr where
  brp : BitVec 10
  sjw : BitVec 2
  tseg1 : BitVec 4
  tseg2 : BitVec 3
  sam : BitVec 1
deriving DecidableEq, Repr

/-- Frame information: the receive status or a transmit buffer's header. -/
structure CanFrameInfo where
  dlc : BitVec 4
  rtr : Bool
  ff : Bool
deriving DecidableEq, Repr

/-- Data bytes 1 to 4. -/
structure CanDataA where
  data1 : BitVec 8
  data2 : BitVec 8
  data3 : BitVec 8
  data4 : BitVec 8
deriving DecidableEq, Repr

/-- Data bytes 5 to 8. -/
structure CanDataB where
  data5 : BitVec 8
  data6 : BitVec 8
  data7 : BitVec 8
  data8 : BitVec 8
deriving DecidableEq, Repr

/-- The elements of a telegram's data array that register A holds. -/
def CanDataA.ofArray (data : Vector (BitVec 8) 8) : CanDataA :=
  ⟨data[0], data[1], data[2], data[3]⟩

/-- The elements of a telegram's data array that register B holds. -/
def CanDataB.ofArray (data : Vector (BitVec 8) 8) : CanDataB :=
  ⟨data[4], data[5], data[6], data[7]⟩

/-- The registers of one controller.  `stb1` and `tbs1` are the fields of
those names in the command and the status register.  `transmitted` is no
register: it lists the contents of transmit buffer 1 at each transmission
request, oldest first. -/
structure CanRegs where
  canmod : CanMod
  cangsr : CanGsr
  canicr : CanIcr
  canier : CanIer
  canbtr : CanBtr
  stb1 : Bool
  tbs1 : Bool
  canrfs : CanFrameInfo
  canrid : BitVec 29
  canrda : CanDataA
  canrdb : CanDataB
  cantfi1 : CanFrameInfo
  cantid1 : BitVec 29
  cantda1 : CanDataA
  cantdb1 : CanDataB
  transmitted : List Frame
deriving DecidableEq, Repr

/-- The frame held by a header, an identifier and two data registers. -/
def frameOf (info : CanFrameInfo) (id29 : BitVec 29) (a : CanDataA)
    (b : CanDataB) : Frame where
  dlc := info.dlc
  rtr := info.rtr
  ff := info.ff
  id29 := id29
  data := #v[a.data1, a.data2, a.data3, a.data4, b.data5, b.data6, b.data7,
    b.data8]

namespace CanRegs

/-- The frame in the receive buffer. -/
def rxFrame (r : CanRegs) : Frame :=
  frameOf r.canrfs r.canrid r.canrda r.canrdb

/-- The frame in transmit buffer 1. -/
def txFrame1 (r : CanRegs) : Frame :=
  frameOf r.cantfi1 r.cantid1 r.cantda1 r.cantdb1

/-! ## Register accesses with an effect -/

/-- `canier.TIE1 = b`. -/
def setTie1 (b : Bool) (r : CanRegs) : CanRegs :=
  { r with canier := { r.canier with tie1 := b } }

/-- `canier.RIE = b`. -/
def setRie (b : Bool) (r : CanRegs) : CanRegs :=
  { r with canier := { r.canier with rie := b } }

/-- `cancmr.STB1 = 1` selects transmit buffer 1. -/
def commandStb1 (r : CanRegs) : CanRegs :=
  { r with stb1 := true }

/-- `cancmr.TR = 1` hands transmit buffer 1 over: it is taken until the frame
is complete. -/
def commandTr (r : CanRegs) : CanRegs :=
  { r with tbs1 := false, transmitted := r.transmitted ++ [r.txFrame1] }

/-- `cancmr.RRB = 1` releases the receive buffer, which ends the receive
cause. -/
def commandRrb (r : CanRegs) : CanRegs :=
  { r with canicr := { r.canicr with ri := false } }

/-- Reading the interrupt capture register yields the latched causes and
clears them; the receive cause stays until the buffer is released. -/
def readIcr (r : CanRegs) : CanIcr × CanRegs :=
  (r.canicr, { r with canicr := { r.canicr with ti1 := false } })

/-! ## What the controller does on its own -/

/-- A frame arrives in the receive buffer; the receive cause is latched where
it is enabled.  This is an assumption on the hardware, which no source
describes: there is one receive buffer, an arriving frame overwrites it, and a
frame that arrives while the receive interrupt is disabled is never
announced. -/
def frameArrives (f : Frame) (r : CanRegs) : CanRegs :=
  { r with
    canrfs := ⟨f.dlc, f.rtr, f.ff⟩
    canrid := f.id29
    canrda := .ofArray f.data
    canrdb := .ofArray f.data
    canicr := { r.canicr with ri := r.canicr.ri || r.canier.rie } }

/-- The frame in flight, if there is one, completes: buffer 1 is free again,
and the transmit cause is latched where it is enabled. -/
def frameCompletes (r : CanRegs) : CanRegs :=
  if r.tbs1 then r
  else
    { r with
      tbs1 := true
      canicr := { r.canicr with ti1 := r.canicr.ti1 || r.canier.tie1 } }

end CanRegs

theorem vector8_eta (v : Vector (BitVec 8) 8) :
    #v[v[0], v[1], v[2], v[3], v[4], v[5], v[6], v[7]] = v := by
  apply Vector.ext
  intro i hi
  interval_cases i <;> rfl

end EmbBoard.Can
