import EmbBoard.Can.Driver
import EmbBoard.Support.Ring

/-!
# The rings as queues

Reads the two rings of a device as lists, oldest telegram first, and says once
what each data-path function of the driver does to them.  The later modules
argue about queues only; index arithmetic ends here.
-/

namespace EmbBoard.Can

/-- A ring index inside the array. -/
def InRing (i : ℤ) : Prop := 0 ≤ i ∧ i < canRingBufsize

theorem ringIncrement_inRing {i : ℤ} (hi : InRing i) :
    InRing (ringIncrement i) := by
  unfold InRing ringIncrement canRingBufsize at *
  split <;> omega

theorem toNat_lt_of_inRing {i : ℤ} (hi : InRing i) :
    i.toNat < canRingBufsize := by
  unfold InRing at hi
  omega

theorem toNat_ringIncrement {i : ℤ} (hi : InRing i) :
    (ringIncrement i).toNat = Ring.next canRingBufsize i.toNat := by
  unfold InRing ringIncrement Ring.next canRingBufsize at *
  split <;> split <;> omega

theorem toNat_ne_of_inRing {i j : ℤ} (hi : InRing i) (hj : InRing j)
    (hne : i ≠ j) : i.toNat ≠ j.toNat := by
  unfold InRing at hi hj
  omega

namespace CanRingBuffer

/-- The transmit indices are inside the array. -/
def TxBounded (rb : CanRingBuffer) : Prop :=
  InRing rb.txHead ∧ InRing rb.txTail

/-- The receive indices are inside the array. -/
def RxBounded (rb : CanRingBuffer) : Prop :=
  InRing rb.rxHead ∧ InRing rb.rxTail

/-- The telegrams queued for transmission, oldest first. -/
def txQueue (rb : CanRingBuffer) : List CanMsg :=
  Ring.contents rb.tx canRingBufsize rb.txHead.toNat rb.txTail.toNat

/-- The telegrams received and not yet read, oldest first. -/
def rxQueue (rb : CanRingBuffer) : List CanMsg :=
  Ring.contents rb.rx canRingBufsize rb.rxHead.toNat rb.rxTail.toNat

/-- The transmit ring after the oldest telegram is dropped. -/
def dropTx (rb : CanRingBuffer) : CanRingBuffer :=
  { rb with txTail := ringIncrement rb.txTail }

/-- The receive ring after the oldest telegram is dropped. -/
def dropRx (rb : CanRingBuffer) : CanRingBuffer :=
  { rb with rxTail := ringIncrement rb.rxTail }

/-- The receive ring after a telegram is stored, full or not. -/
def putRx (rb : CanRingBuffer) (m : CanMsg) : CanRingBuffer :=
  { rb with
    rx := Function.update rb.rx rb.rxHead.toNat m
    rxHead := ringIncrement rb.rxHead }

/-! ## The transmit ring -/

variable {rb : CanRingBuffer}

@[simp] theorem txBounded_initialize_indices {tx rx : ℕ → CanMsg} :
    TxBounded ⟨tx, rx, 0, 0, 0, 0⟩ := by
  simp [TxBounded, InRing, canRingBufsize]

theorem TxBounded.putTx (hb : rb.TxBounded) (m : CanMsg) :
    (rb.putTx m).TxBounded :=
  ⟨ringIncrement_inRing hb.1, hb.2⟩

theorem TxBounded.dropTx (hb : rb.TxBounded) : rb.dropTx.TxBounded :=
  ⟨hb.1, ringIncrement_inRing hb.2⟩

theorem txQueue_eq_nil_iff (hb : rb.TxBounded) :
    rb.txQueue = [] ↔ rb.txHead = rb.txTail := by
  rw [txQueue, Ring.contents_eq_nil_iff (toNat_lt_of_inRing hb.2)]
  obtain ⟨⟨hh, _⟩, ⟨ht, _⟩⟩ := hb
  omega

theorem txQueue_ne_nil_iff (hb : rb.TxBounded) :
    rb.txQueue ≠ [] ↔ rb.txHead ≠ rb.txTail :=
  not_congr (txQueue_eq_nil_iff hb)

theorem length_txQueue_lt (hb : rb.TxBounded) :
    rb.txQueue.length < canRingBufsize := by
  rw [txQueue, Ring.length_contents]
  exact Ring.count_lt (toNat_lt_of_inRing hb.1) (toNat_lt_of_inRing hb.2)

theorem canGetFreeTxCount_eq (hb : rb.TxBounded) :
    canGetFreeTxCount rb = 255 - (rb.txQueue.length : ℤ) := by
  rw [txQueue, Ring.length_contents]
  obtain ⟨⟨hh, hh'⟩, ⟨ht, ht'⟩⟩ := hb
  unfold canGetFreeTxCount Ring.count canRingBufsize at *
  simp only
  split <;> split <;> omega

theorem txQueue_putTx (hb : rb.TxBounded) (m : CanMsg)
    (hroom : rb.txQueue.length < 255) :
    (rb.putTx m).txQueue = rb.txQueue ++ [m] := by
  rw [txQueue, Ring.length_contents] at hroom
  simp only [txQueue, putTx]
  rw [toNat_ringIncrement hb.1]
  exact Ring.contents_push m (toNat_lt_of_inRing hb.1)
    (toNat_lt_of_inRing hb.2) (by unfold canRingBufsize at *; omega)

/-- Advancing the head appends what its slot holds already. -/
theorem txQueue_advanceHead (hb : rb.TxBounded)
    (hroom : rb.txQueue.length < 255) :
    txQueue { rb with txHead := ringIncrement rb.txHead } =
      rb.txQueue ++ [rb.tx rb.txHead.toNat] := by
  rw [← txQueue_putTx hb _ hroom, putTx, Function.update_eq_self]

/-- The slot at the head is outside the queue. -/
theorem txQueue_update_head (hb : rb.TxBounded) (m : CanMsg) :
    txQueue { rb with tx := Function.update rb.tx rb.txHead.toNat m } =
      rb.txQueue :=
  Ring.contents_update_head m (toNat_lt_of_inRing hb.1)
    (toNat_lt_of_inRing hb.2)

theorem txQueue_eq_cons (hb : rb.TxBounded) (hne : rb.txHead ≠ rb.txTail) :
    rb.txQueue = rb.tx rb.txTail.toNat :: rb.dropTx.txQueue := by
  simp only [txQueue, dropTx]
  rw [toNat_ringIncrement hb.2]
  exact Ring.contents_pop (toNat_lt_of_inRing hb.1)
    (toNat_lt_of_inRing hb.2) (toNat_ne_of_inRing hb.1 hb.2 hne)

/-! ## The receive ring -/

theorem RxBounded.putRx (hb : rb.RxBounded) (m : CanMsg) :
    (rb.putRx m).RxBounded :=
  ⟨ringIncrement_inRing hb.1, hb.2⟩

theorem RxBounded.dropRx (hb : rb.RxBounded) : rb.dropRx.RxBounded :=
  ⟨hb.1, ringIncrement_inRing hb.2⟩

theorem rxQueue_eq_nil_iff (hb : rb.RxBounded) :
    rb.rxQueue = [] ↔ rb.rxHead = rb.rxTail := by
  rw [rxQueue, Ring.contents_eq_nil_iff (toNat_lt_of_inRing hb.2)]
  obtain ⟨⟨hh, _⟩, ⟨ht, _⟩⟩ := hb
  omega

theorem rxQueue_putRx (hb : rb.RxBounded) (m : CanMsg)
    (hroom : rb.rxQueue.length < 255) :
    (rb.putRx m).rxQueue = rb.rxQueue ++ [m] := by
  rw [rxQueue, Ring.length_contents] at hroom
  simp only [rxQueue, putRx]
  rw [toNat_ringIncrement hb.1]
  exact Ring.contents_push m (toNat_lt_of_inRing hb.1)
    (toNat_lt_of_inRing hb.2) (by unfold canRingBufsize at *; omega)

theorem rxQueue_eq_cons (hb : rb.RxBounded) (hne : rb.rxHead ≠ rb.rxTail) :
    rb.rxQueue = rb.rx rb.rxTail.toNat :: rb.dropRx.rxQueue := by
  simp only [rxQueue, dropRx]
  rw [toNat_ringIncrement hb.2]
  exact Ring.contents_pop (toNat_lt_of_inRing hb.1)
    (toNat_lt_of_inRing hb.2) (toNat_ne_of_inRing hb.1 hb.2 hne)

end CanRingBuffer

/-! ## What the transmit functions do -/

@[simp] theorem loadTx1_txFrame1 (m : CanMsg) (r : CanRegs) :
    (r.loadTx1 m).txFrame1 = m.frame := by
  simp only [CanRegs.loadTx1, CanRegs.txFrame1, frameOf, CanDataA.ofArray,
    CanDataB.ofArray, vector8_eta, CanMsg.frame]

/-- The registers after telegram `m` is loaded and its transmission
requested. -/
def CanRegs.sendTx1 (m : CanMsg) (r : CanRegs) : CanRegs :=
  (((r.loadTx1 m).commandStb1).setTie1 true).commandTr

@[simp] theorem sendTx1_transmitted (m : CanMsg) (r : CanRegs) :
    (r.sendTx1 m).transmitted = r.transmitted ++ [m.frame] := by
  have hframe : (((r.loadTx1 m).commandStb1).setTie1 true).txFrame1 =
      (r.loadTx1 m).txFrame1 := rfl
  simp only [CanRegs.sendTx1, CanRegs.commandTr, hframe, loadTx1_txFrame1]
  rfl

/-- Everything a run of `can_standard_transmit` can do. -/
theorem canStandardTransmit_cases (d : CanDev) :
    (d.cfg.rb.txHead = d.cfg.rb.txTail ∧
      canStandardTransmit d = { d with regs := d.regs.setTie1 false }) ∨
    (d.cfg.rb.txHead ≠ d.cfg.rb.txTail ∧ d.regs.tbs1 = true ∧
      canStandardTransmit d =
        { cfg := { d.cfg with rb := d.cfg.rb.dropTx }
          regs := d.regs.sendTx1 (d.cfg.rb.tx d.cfg.rb.txTail.toNat) }) ∨
    (d.cfg.rb.txHead ≠ d.cfg.rb.txTail ∧ d.regs.tbs1 = false ∧
      canStandardTransmit d = d) := by
  by_cases hempty : d.cfg.rb.txHead = d.cfg.rb.txTail
  · exact Or.inl ⟨hempty, by simp [canStandardTransmit, hempty]⟩
  · cases hfree : d.regs.tbs1 with
    | true =>
        refine Or.inr (Or.inl ⟨hempty, rfl, ?_⟩)
        simp only [canStandardTransmit, if_neg hempty, hfree, if_true]
        rfl
    | false =>
        exact Or.inr (Or.inr ⟨hempty, rfl,
          by simp [canStandardTransmit, hempty, hfree]⟩)

@[simp] theorem canStandardTransmit_init (d : CanDev) :
    (canStandardTransmit d).cfg.init = d.cfg.init := by
  rcases canStandardTransmit_cases d with ⟨_, h⟩ | ⟨_, _, h⟩ | ⟨_, _, h⟩
  all_goals rw [h]

@[simp] theorem canStandardTransmit_regptr (d : CanDev) :
    (canStandardTransmit d).cfg.regptr = d.cfg.regptr := by
  rcases canStandardTransmit_cases d with ⟨_, h⟩ | ⟨_, _, h⟩ | ⟨_, _, h⟩
  all_goals rw [h]

theorem canStandardTransmit_txBounded {d : CanDev}
    (hb : d.cfg.rb.TxBounded) :
    (canStandardTransmit d).cfg.rb.TxBounded := by
  rcases canStandardTransmit_cases d with ⟨_, h⟩ | ⟨_, _, h⟩ | ⟨_, _, h⟩
  · rw [h]
    exact hb
  · rw [h]
    exact hb.dropTx
  · rw [h]
    exact hb

/-- `can_standard_transmit` moves telegrams from the queue to the bus, in
order, and loses none. -/
theorem canStandardTransmit_conserves {d : CanDev}
    (hb : d.cfg.rb.TxBounded) :
    ∃ moved, d.cfg.rb.txQueue =
        moved ++ (canStandardTransmit d).cfg.rb.txQueue ∧
      (canStandardTransmit d).regs.transmitted =
        d.regs.transmitted ++ moved.map CanMsg.frame := by
  rcases canStandardTransmit_cases d with ⟨_, h⟩ | ⟨hne, _, h⟩ | ⟨_, _, h⟩
  · exact ⟨[], by simp [h], by simp [h, CanRegs.setTie1]⟩
  · exact ⟨[_], by rw [h]; exact CanRingBuffer.txQueue_eq_cons hb hne,
      by simp [h]⟩
  · exact ⟨[], by simp [h], by simp [h]⟩

theorem map_range_succ (buffer : ℕ → CanMsg) (start n : ℕ) :
    (List.range (n + 1)).map (fun i => buffer (start + i)) =
      buffer start :: (List.range n).map (fun i => buffer (start + 1 + i)) := by
  rw [List.range_succ_eq_map, List.map_cons, List.map_map, Nat.add_zero]
  congr 1
  apply List.map_congr_left
  intro i _
  simp only [Function.comp_apply, Nat.succ_eq_add_one]
  congr 1
  omega

/-- The write loop takes as many telegrams as are offered and fit, and appends
them in order. -/
theorem canWriteLoop_spec (buffer : ℕ → CanMsg) (n bytes : ℕ)
    {rb : CanRingBuffer} (hb : rb.TxBounded) :
    (canWriteLoop buffer n bytes rb).1 =
        bytes + min n (255 - rb.txQueue.length) ∧
      (canWriteLoop buffer n bytes rb).2.txQueue =
        rb.txQueue ++ (List.range (min n (255 - rb.txQueue.length))).map
          (fun i => buffer (bytes + i)) ∧
      (canWriteLoop buffer n bytes rb).2.TxBounded := by
  induction n generalizing bytes rb with
  | zero => simp [canWriteLoop, hb]
  | succ n ih =>
      have hfree := CanRingBuffer.canGetFreeTxCount_eq hb
      by_cases hroom : rb.txQueue.length < 255
      · have hpos : canGetFreeTxCount rb > 0 := by omega
        have hput := CanRingBuffer.txQueue_putTx hb (buffer bytes) hroom
        have hlen : (rb.putTx (buffer bytes)).txQueue.length =
            rb.txQueue.length + 1 := by simp [hput]
        have hmin : min (n + 1) (255 - rb.txQueue.length) =
            min n (255 - (rb.txQueue.length + 1)) + 1 := by omega
        obtain ⟨hcount, hqueue, hbounded⟩ :=
          ih (bytes + 1) (hb.putTx (buffer bytes))
        rw [hlen] at hcount hqueue
        rw [canWriteLoop, if_pos hpos, hmin]
        refine ⟨by omega, ?_, hbounded⟩
        rw [hqueue, hput, List.append_assoc, map_range_succ]
        rfl
      · have hfull : ¬canGetFreeTxCount rb > 0 := by omega
        have hmin : min (n + 1) (255 - rb.txQueue.length) = 0 := by omega
        rw [canWriteLoop, if_neg hfull, hmin]
        simp [hb]

/-- The telegrams a write of `n` takes when `queued` are waiting already. -/
def takenCount (n : ℤ) (queued : ℕ) : ℕ :=
  min n.toNat (255 - queued)

/-- A write on an open device queues what fits, leaves the registers as they
were, and then starts the transmission. -/
theorem canWrite_spec {d : CanDev} (hinit : d.cfg.init = true)
    (hb : d.cfg.rb.TxBounded) (buffer : ℕ → CanMsg) (n : ℤ) :
    ∃ rb : CanRingBuffer, rb.TxBounded ∧
      rb.txQueue = d.cfg.rb.txQueue ++
        (List.range (takenCount n d.cfg.rb.txQueue.length)).map buffer ∧
      canWrite d buffer n =
        (takenCount n d.cfg.rb.txQueue.length,
          canStandardTransmit
            { cfg := { d.cfg with rb := rb }, regs := d.regs }) := by
  obtain ⟨hcount, hqueue, hbounded⟩ :=
    canWriteLoop_spec buffer n.toNat 0 hb
  refine ⟨_, hbounded, by simpa [takenCount] using hqueue, ?_⟩
  rw [canWrite, if_pos hinit]
  simp only [hcount, Nat.zero_add, takenCount]
  rfl

theorem canWrite_closed {d : CanDev} (hinit : d.cfg.init = false)
    (buffer : ℕ → CanMsg) (n : ℤ) : canWrite d buffer n = (0, d) := by
  simp [canWrite, hinit]

/-! ## What the receive functions do -/

/-- The read loop copies the oldest telegrams, as many as asked for and
there. -/
theorem canReadLoop_spec (n : ℕ) {rb : CanRingBuffer} (hb : rb.RxBounded) :
    (canReadLoop n rb).1 = rb.rxQueue.take n ∧
      (canReadLoop n rb).2.rxQueue = rb.rxQueue.drop n ∧
      (canReadLoop n rb).2.RxBounded ∧
      (canReadLoop n rb).2.rx = rb.rx ∧
      (canReadLoop n rb).2.rxHead = rb.rxHead := by
  induction n generalizing rb with
  | zero => simp [canReadLoop, hb]
  | succ n ih =>
      by_cases hne : rb.rxTail ≠ rb.rxHead
      · obtain ⟨hdata, hqueue, hbounded, hmem, hhead⟩ := ih hb.dropRx
        rw [CanRingBuffer.rxQueue_eq_cons hb (Ne.symm hne), canReadLoop,
          if_pos hne]
        refine ⟨?_, ?_, hbounded, hmem, hhead⟩
        · rw [List.take_succ_cons, ← hdata]
          rfl
        · rw [List.drop_succ_cons, ← hqueue]
          rfl
      · have hnil : rb.rxQueue = [] :=
          (CanRingBuffer.rxQueue_eq_nil_iff hb).mpr (not_not.mp hne).symm
        rw [canReadLoop, if_neg hne, hnil]
        simp [hb]

end EmbBoard.Can
