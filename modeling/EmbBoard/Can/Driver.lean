import EmbBoard.Can.Registers
import Mathlib.Logic.Function.Basic

/-!
# CAN driver: ring buffers and data path

The driver's static data for one controller and the functions that move
telegrams: the two interrupt-side functions, the free count, and the read and
write calls.  A function that takes a configuration pointer acts on a
`CanDev`: the configuration and the register block its `regptr` leads to.

The arrays of the ring buffer are memories indexed by `ℕ`; cells from
`canRingBufsize` on stand for what lies behind the array.
-/

namespace EmbBoard.Can

/-- `CAN_RING_BUFSIZE`. -/
def canRingBufsize : ℕ := 256

/-- `CAN_RING_BUFFER_T`. -/
structure CanRingBuffer where
  tx : ℕ → CanMsg
  rx : ℕ → CanMsg
  txHead : ℤ
  txTail : ℤ
  rxHead : ℤ
  rxTail : ℤ

/-- `CAN_CFG_T`; the address in `regptr` is zero until the device is opened. -/
structure CanCfg where
  init : Bool
  rb : CanRingBuffer
  regptr : BitVec 32

/-- A device configuration with the registers at its `regptr`. -/
structure CanDev where
  cfg : CanCfg
  regs : CanRegs

/-- `i++; if (i >= CAN_RING_BUFSIZE) i = 0;` -/
def ringIncrement (i : ℤ) : ℤ :=
  if i + 1 ≥ canRingBufsize then 0 else i + 1

/-! ## Interrupt side -/

/-- The receive buffer copied into a ring slot; the slot's padding stays. -/
def CanMsg.receive (slot : CanMsg) (r : CanRegs) : CanMsg :=
  { slot with
    dlc := r.canrfs.dlc
    rtr := r.canrfs.rtr
    ff := r.canrfs.ff
    msgId := r.canrid.setWidth 32
    data := #v[r.canrda.data1, r.canrda.data2, r.canrda.data3, r.canrda.data4,
      r.canrdb.data5, r.canrdb.data6, r.canrdb.data7, r.canrdb.data8] }

def canStandardReceive (d : CanDev) : CanDev :=
  let rb := d.cfg.rb
  let head := rb.rxHead.toNat
  { cfg := { d.cfg with
      rb := { rb with
        rx := Function.update rb.rx head ((rb.rx head).receive d.regs)
        rxHead := ringIncrement rb.rxHead } }
    regs := d.regs.commandRrb }

/-- A ring slot copied into transmit buffer 1. -/
def CanRegs.loadTx1 (m : CanMsg) (r : CanRegs) : CanRegs :=
  { r with
    cantfi1 := ⟨m.dlc, m.rtr, m.ff⟩
    cantid1 := m.msgId.setWidth 29
    cantda1 := .ofArray m.data
    cantdb1 := .ofArray m.data }

def canStandardTransmit (d : CanDev) : CanDev :=
  let rb := d.cfg.rb
  if rb.txHead = rb.txTail then
    -- Nothing queued: the transmit interrupt goes off.
    { d with regs := d.regs.setTie1 false }
  else if d.regs.tbs1 then
    let loaded := (d.regs.loadTx1 (rb.tx rb.txTail.toNat)).commandStb1
    { cfg := { d.cfg with
        rb := { rb with txTail := ringIncrement rb.txTail } }
      regs := (loaded.setTie1 true).commandTr }
  else d

def canGetFreeTxCount (rb : CanRingBuffer) : ℤ :=
  let count := rb.txHead - rb.txTail
  let count :=
    if count < 0 then (canRingBufsize - rb.txTail) + rb.txHead else count
  canRingBufsize - count - 1

/-! ## Read and write calls -/

/-- The loop of `can_read`, with `n` the positive part of `max_bytes`: the
telegrams copied to the user's buffer and the ring left behind. -/
def canReadLoop : ℕ → CanRingBuffer → List CanMsg × CanRingBuffer
  | 0, rb => ([], rb)
  | n + 1, rb =>
      if rb.rxTail ≠ rb.rxHead then
        let rest := canReadLoop n { rb with rxTail := ringIncrement rb.rxTail }
        (rb.rx rb.rxTail.toNat :: rest.1, rest.2)
      else ([], rb)

/-- `can_read`; its return value is the number of telegrams copied. -/
def canRead (d : CanDev) (maxBytes : ℤ) : List CanMsg × CanDev :=
  if d.cfg.init then
    let savedint := d.regs.canier.rie
    let locked := d.regs.setRie false
    let result := canReadLoop maxBytes.toNat d.cfg.rb
    (result.1,
      { cfg := { d.cfg with rb := result.2 }
        regs := locked.setRie savedint })
  else ([], d)

/-- One telegram into the transmit ring, without a test for room. -/
def CanRingBuffer.putTx (rb : CanRingBuffer) (m : CanMsg) : CanRingBuffer :=
  { rb with
    tx := Function.update rb.tx rb.txHead.toNat m
    txHead := ringIncrement rb.txHead }

/-- The loop of `can_write`, with `n` the positive part of `n_telegrams` and
`data` standing `bytes` elements into the user's array. -/
def canWriteLoop (buffer : ℕ → CanMsg) :
    ℕ → ℕ → CanRingBuffer → ℕ × CanRingBuffer
  | 0, bytes, rb => (bytes, rb)
  | n + 1, bytes, rb =>
      if canGetFreeTxCount rb > 0 then
        canWriteLoop buffer n (bytes + 1) (rb.putTx (buffer bytes))
      else (bytes, rb)

/-- The three transmit interrupt enables, set together. -/
def CanRegs.setTies (b1 b2 b3 : Bool) (r : CanRegs) : CanRegs :=
  { r with canier := { r.canier with tie1 := b1, tie2 := b2, tie3 := b3 } }

/-- `can_write`; `buffer` is the user's telegram array. -/
def canWrite (d : CanDev) (buffer : ℕ → CanMsg) (nTelegrams : ℤ) :
    ℕ × CanDev :=
  if d.cfg.init then
    let savedint := d.regs.canier
    let locked := d.regs.setTies false false false
    let result := canWriteLoop buffer nTelegrams.toNat 0 d.cfg.rb
    -- The enables come back before the transmission is started.
    let restored := locked.setTies savedint.tie1 savedint.tie2 savedint.tie3
    (result.1,
      canStandardTransmit
        { cfg := { d.cfg with rb := result.2 }, regs := restored })
  else (0, d)

end EmbBoard.Can
