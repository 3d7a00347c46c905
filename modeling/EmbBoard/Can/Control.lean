import EmbBoard.Can.Driver

/-!
# CAN driver: open, close, control and the interrupt handler

The parts of the driver that set a controller up: `can_open`, `can_close` and
`can_ioctl`, with the two device configurations, the two register blocks and
the shared chip registers they touch, and the interrupt handler that serves
both controllers.
-/

namespace EmbBoard.Can

/-! ## Constants -/

def noError : ℤ := 0

def error : ℤ := -1

/-- `SMA_BAD_PARAMS`. -/
def smaBadParams : ℤ := -7

inductive CanIoctlCmd
  | setBaudRate | autoSetBaudRate | setFilter | setMode | getStatus
  | forceBusOff | clearErrorCondition
deriving DecidableEq, Repr

def CanIoctlCmd.ofInt : ℤ → Option CanIoctlCmd
  | 0 => some .setBaudRate
  | 1 => some .autoSetBaudRate
  | 2 => some .setFilter
  | 3 => some .setMode
  | 4 => some .getStatus
  | 5 => some .forceBusOff
  | 6 => some .clearErrorCondition
  | _ => none

inductive ErrorConditionType
  | rxErrorCondition | txErrorCondition
deriving DecidableEq, Repr

def ErrorConditionType.ofInt : ℤ → Option ErrorConditionType
  | 0 => some .rxErrorCondition
  | 1 => some .txErrorCondition
  | _ => none

inductive CanBaudRate
  | bps25K | bps50K | bps125K | bps250K | bps500K | bps1000K
deriving DecidableEq, Repr

def CanBaudRate.ofInt : ℤ → Option CanBaudRate
  | 0 => some .bps25K
  | 1 => some .bps50K
  | 2 => some .bps125K
  | 3 => some .bps250K
  | 4 => some .bps500K
  | 5 => some .bps1000K
  | _ => none

def CanBaudRate.toInt : CanBaudRate → ℤ
  | .bps25K => 0
  | .bps50K => 1
  | .bps125K => 2
  | .bps250K => 3
  | .bps500K => 4
  | .bps1000K => 5

/-- `CAN_BRP_25K` to `CAN_BRP_1000K`. -/
def CanBaudRate.brp : CanBaudRate → BitVec 10
  | .bps25K => 127
  | .bps50K => 63
  | .bps125K => 25
  | .bps250K => 12
  | .bps500K => 5
  | .bps1000K => 2

/-- The rate a prescaler value stands for, as `CAN_BAUD_RATE` decodes it. -/
def CanBaudRate.ofBrp (brp : BitVec 10) : Option CanBaudRate :=
  [bps25K, bps50K, bps125K, bps250K, bps500K, bps1000K].find?
    fun rate => rate.brp = brp

inductive CanMode
  | selfTest | listenOnly | operating | reset
deriving DecidableEq, Repr

def CanMode.ofInt : ℤ → Option CanMode
  | 0 => some .selfTest
  | 1 => some .listenOnly
  | 2 => some .operating
  | 3 => some .reset
  | _ => none

def CanMode.toInt : CanMode → ℤ
  | .selfTest => 0
  | .listenOnly => 1
  | .operating => 2
  | .reset => 3

inductive CanIoctlSts
  | mode | baudRate | filterBits | maskBits | dataOverrun | errorStatus
  | busStatus | rxErrors | txErrors
deriving DecidableEq, Repr

def CanIoctlSts.ofInt : ℤ → Option CanIoctlSts
  | 0 => some .mode
  | 1 => some .baudRate
  | 2 => some .filterBits
  | 3 => some .maskBits
  | 4 => some .dataOverrun
  | 5 => some .errorStatus
  | 6 => some .busStatus
  | 7 => some .rxErrors
  | 8 => some .txErrors
  | _ => none

/-! ## Steps shared by open and control -/

namespace CanRegs

def setRm (b : Bool) (r : CanRegs) : CanRegs :=
  { r with canmod := { r.canmod with rm := b } }

/-- "Clear Status register": every bit but the bus status. -/
def clearStatus (r : CanRegs) : CanRegs :=
  { r with cangsr := { r.cangsr with
      rbs := false, dos := false, es := false, rs := false, rxerr := 0
      tbs := true, tcs := true, ts := false, txerr := 0 } }

/-- The sample parameters for 10 to 500 kbps. -/
def setDefaultTiming (r : CanRegs) : CanRegs :=
  { r with canbtr := { r.canbtr with sjw := 3, tseg1 := 10, tseg2 := 5, sam := 0 } }

def setBrp (brp : BitVec 10) (r : CanRegs) : CanRegs :=
  { r with canbtr := { r.canbtr with brp := brp } }

/-- The timing of one rate; the fastest one has sample parameters of its
own. -/
def setRate (rate : CanBaudRate) (r : CanRegs) : CanRegs :=
  match rate with
  | .bps1000K =>
      let r := r.setBrp rate.brp
      { r with canbtr := { r.canbtr with sjw := 3, tseg1 := 11, tseg2 := 5, sam := 0 } }
  | _ => r.setBrp rate.brp

end CanRegs

/-- Both rings emptied by setting all four indices to zero. -/
def CanRingBuffer.initialize (rb : CanRingBuffer) : CanRingBuffer :=
  { rb with txHead := 0, txTail := 0, rxHead := 0, rxTail := 0 }

/-! ## Control -/

/-- `CAN_CLEAR_ERROR_CONDITION`. -/
def clearErrorCondition (arg : ℤ) (r : CanRegs) : CanRegs :=
  let r := r.setRm true
  let r := match ErrorConditionType.ofInt arg with
    | some .rxErrorCondition =>
        { r with
          cangsr := { r.cangsr with rxerr := 0, rbs := false, es := false }
          canier := { r.canier with rie := true } }
    | some .txErrorCondition =>
        { r with
          cangsr := { r.cangsr with txerr := 0, tbs := true, es := false }
          canier := { r.canier with tie1 := true } }
    | none => r
  r.setRm false

/-- `CAN_SET_MODE`. -/
def setMode (arg : ℤ) (r : CanRegs) : ℤ × CanRegs :=
  match CanMode.ofInt arg with
  | some .selfTest =>
      let r := (r.setRm true).setRm false
      (noError, { r with canmod := { r.canmod with tm := true } })
  | some .listenOnly =>
      let r := r.setRm true
      let r := { r with canmod := { r.canmod with lom := true } }
      (noError, r.setRm false)
  | some .operating => (noError, r.setRm false)
  | some .reset => (noError, r.setRm true)
  | none => (smaBadParams, r)

/-- `CAN_SET_BAUD_RATE`; a bad rate is noticed half way through. -/
def setBaudRate (arg : ℤ) (d : CanDev) : ℤ × CanDev :=
  let r := d.regs.setRm true
  let r := (r.setRie false).setTie1 false
  let r := r.setDefaultTiming
  let (status, r) := match CanBaudRate.ofInt arg with
    | some rate => (noError, r.setRate rate)
    | none => (smaBadParams, r)
  let r := r.clearStatus
  let rb := d.cfg.rb.initialize
  let r := (r.setRie true).setTie1 true
  (status, { cfg := { d.cfg with rb := rb }, regs := r.setRm false })

/-- `CAN_FORCE_BUS_OFF` waits for the bus status bit; `polls` are the values
it reads, and there is no result while none of them is 1. -/
def forceBusOff (polls : List Bool) (r : CanRegs) : Option CanRegs :=
  if polls.any id then
    some { r with cangsr := { r.cangsr with bs := true, txerr := 0 } }
  else none

def boolStatus (b : Bool) : ℤ := if b then 1 else 0

/-- `CAN_GET_STATUS`. -/
def getStatus (arg : ℤ) (r : CanRegs) : ℤ :=
  match CanIoctlSts.ofInt arg with
  | some .mode =>
      if r.canmod.lom then CanMode.listenOnly.toInt
      else if r.canmod.rm then CanMode.reset.toInt
      else if r.canmod.tm then CanMode.selfTest.toInt
      else if !r.canmod.rm && !r.canmod.sm then CanMode.operating.toInt
      else noError
  | some .baudRate =>
      match CanBaudRate.ofBrp r.canbtr.brp with
      | some rate => rate.toInt
      | none => smaBadParams
  | some .filterBits => noError
  | some .maskBits => noError
  | some .dataOverrun => boolStatus r.cangsr.dos
  | some .errorStatus => boolStatus r.cangsr.es
  | some .busStatus => boolStatus r.cangsr.bs
  | some .rxErrors => r.cangsr.rxerr.toNat
  | some .txErrors => r.cangsr.txerr.toNat
  | none => smaBadParams

/-- `can_ioctl`; `polls` is only read by `CAN_FORCE_BUS_OFF`. -/
def canIoctl (d : CanDev) (cmd arg : ℤ) (polls : List Bool) :
    Option (ℤ × CanDev) :=
  if d.cfg.init then
    match CanIoctlCmd.ofInt cmd with
    | some .clearErrorCondition =>
        some (noError, { d with regs := clearErrorCondition arg d.regs })
    | some .setMode =>
        let result := setMode arg d.regs
        some (result.1, { d with regs := result.2 })
    | some .setBaudRate => some (setBaudRate arg d)
    | some .autoSetBaudRate => some (noError, d)
    | some .setFilter => some (noError, d)
    | some .forceBusOff =>
        (forceBusOff polls d.regs).map fun r => (noError, { d with regs := r })
    | some .getStatus => some (getStatus arg d.regs, d)
    | none => some (smaBadParams, d)
  else some (error, d)

/-! ## The two controllers -/

/-- The enabled controllers, named by their configuration. -/
inductive Ctrl
  | can1 | can2
deriving DecidableEq, Repr

/-- The address of a controller's register block. -/
def Ctrl.base : Ctrl → BitVec 32
  | .can1 => 0xE0044000
  | .can2 => 0xE0048000

/-- The controller whose register block is at an address. -/
def Ctrl.ofBase (p : BitVec 32) : Option Ctrl :=
  if p = Ctrl.can1.base then some .can1
  else if p = Ctrl.can2.base then some .can2
  else none

/-- The driver's static data and the registers it reaches. -/
structure CanSystem where
  cfg : Ctrl → CanCfg
  regs : Ctrl → CanRegs
  pconp : BitVec 32
  pinsel0 : BitVec 32
  canAfmr : BitVec 32
  handlerInstalled : Bool

/-- Run `f` on the device of `c`: its configuration and the registers its
`regptr` leads to.  There is no result when `regptr` leads nowhere. -/
def CanSystem.onDev (s : CanSystem) (c : Ctrl) (f : CanDev → CanDev) :
    Option CanSystem :=
  (Ctrl.ofBase (s.cfg c).regptr).map fun p =>
    let d := f { cfg := s.cfg c, regs := s.regs p }
    { s with
      cfg := Function.update s.cfg c d.cfg
      regs := Function.update s.regs p d.regs }

/-- Power and pins of a controller, as `can_open` sets them before it looks at
the init flag. -/
def powerUp (c : Ctrl) (s : CanSystem) : CanSystem :=
  match c with
  | .can1 =>
      { s with
        pconp := s.pconp ||| (1#32 <<< 13)
        pinsel0 := (s.pinsel0 &&& ~~~0x0000000F#32) ||| 0x0000005 }
  | .can2 =>
      { s with
        pconp := s.pconp ||| (1#32 <<< 14)
        pinsel0 := (s.pinsel0 &&& ~~~0x00000F00#32) ||| 0x0000A05 }

/-- What `can_open` does to a device that is not open. -/
def openDevice (ipbase : BitVec 32) (d : CanDev) : CanDev :=
  let r := d.regs.setRm true
  let r := r.clearStatus
  let r := (r.setBrp CanBaudRate.bps125K.brp).setDefaultTiming
  let r := (r.setRie true).setTie1 true
  { cfg := { init := true, rb := d.cfg.rb.initialize, regptr := ipbase }
    regs := r.setRm false }

/-- `can_open`; the handle is the configuration's address, `none` for NULL. -/
def canOpen (ipbase : BitVec 32) (s : CanSystem) : Option Ctrl × CanSystem :=
  match Ctrl.ofBase ipbase with
  | none => (none, s)
  | some c =>
      let s := powerUp c s
      if (s.cfg c).init then (some c, s)
      else
        let d := openDevice ipbase { cfg := s.cfg c, regs := s.regs c }
        (some c,
          { s with
            cfg := Function.update s.cfg c d.cfg
            regs := Function.update s.regs c d.regs
            canAfmr := 0x00000002
            handlerInstalled := true })

/-- `can_close`. -/
def canClose (devid : Ctrl) (s : CanSystem) : ℤ × CanSystem :=
  let cfg := { s.cfg devid with init := false }
  let closed (s : CanSystem) : CanSystem :=
    { s with cfg := Function.update s.cfg devid cfg }
  if (s.cfg devid).init then
    match Ctrl.ofBase (s.cfg devid).regptr with
    | some .can1 =>
        (noError, closed { s with pconp := s.pconp &&& ~~~(1#32 <<< 13) })
    | some .can2 =>
        (noError, closed { s with pconp := s.pconp &&& ~~~(1#32 <<< 14) })
    | none => (error, s)
  else (error, s)

/-! ## Power-on state -/

def CanMsg.zero : CanMsg where
  dummy := 0
  dlc := 0
  dummy2 := 0
  rtr := false
  ff := false
  msgId := 0
  data := Vector.replicate 8 0

/-- The telegram with identifier `n` and nothing else. -/
def CanMsg.ofId (n : ℕ) : CanMsg :=
  { CanMsg.zero with msgId := BitVec.ofNat 32 n }

/-- The register block after a chip reset: nothing latched or enabled, the
transmit buffer free. -/
def CanRegs.powerOn : CanRegs where
  canmod := ⟨true, false, false, false⟩
  cangsr := ⟨false, false, true, true, false, false, false, false, 0, 0⟩
  canicr := ⟨false, false⟩
  canier := ⟨false, false, false, false⟩
  canbtr := ⟨0, 0, 0, 0, 0⟩
  stb1 := false
  tbs1 := true
  canrfs := ⟨0, false, false⟩
  canrid := 0
  canrda := ⟨0, 0, 0, 0⟩
  canrdb := ⟨0, 0, 0, 0⟩
  cantfi1 := ⟨0, false, false⟩
  cantid1 := 0
  cantda1 := ⟨0, 0, 0, 0⟩
  cantdb1 := ⟨0, 0, 0, 0⟩
  transmitted := []

/-- Static data is zero until the first call. -/
def CanCfg.powerOn : CanCfg where
  init := false
  rb :=
    { tx := fun _ => .zero
      rx := fun _ => .zero
      txHead := 0
      txTail := 0
      rxHead := 0
      rxTail := 0 }
  regptr := 0

def CanDev.powerOn : CanDev := ⟨.powerOn, .powerOn⟩

/-! ## Interrupt handler -/

/-- One half of `CAN_Handler`.  Each cause is tested by a read of the capture
register of its own. -/
def serveController (d : CanDev) : CanDev :=
  let (icr, r) := d.regs.readIcr
  let d := { d with regs := r }
  let d := if icr.ri then canStandardReceive d else d
  let (icr, r) := d.regs.readIcr
  let d := { d with regs := r }
  if icr.ti1 then canStandardTransmit d else d

/-- `CAN_Handler`; there is no result when a register pointer leads nowhere. -/
def canHandler (s : CanSystem) : Option CanSystem :=
  (s.onDev .can1 serveController).bind fun s =>
    s.onDev .can2 serveController

end EmbBoard.Can
