import EmbBoard.Can.Handler
import EmbBoard.Support.Relay

/-!
# What a device holds

The frames a device has still to send and those it has received and not yet
handed out, and what each function of the driver, the interrupt handler and
the bus do to them.  Everything is stated for a loss relation `R`: what cannot
lose a frame holds for every `R`, and what may lose some holds where `R` lets
these be lost.
-/

namespace EmbBoard.Can

/-! ## What a device holds -/

/-- The frames a device has still to send, oldest first: the one in flight,
and the transmit ring. -/
def CanDev.outbound (d : CanDev) : List Frame :=
  (if d.regs.tbs1 then [] else [d.regs.txFrame1]) ++
    d.cfg.rb.txQueue.map CanMsg.frame

/-- The frames a device has received and not handed out, oldest first: the
receive ring, and the receive buffer while it is not released. -/
def CanDev.inbound (d : CanDev) : List Frame :=
  d.cfg.rb.rxQueue.map CanMsg.frame ++
    (if d.regs.canicr.ri then [d.regs.rxFrame] else [])

/-- All indices are inside the rings. -/
structure CanDev.RingsBounded (d : CanDev) : Prop where
  tx : d.cfg.rb.TxBounded
  rx : d.cfg.rb.RxBounded

/-- Nothing is in the rings. -/
structure CanDev.RingsEmpty (d : CanDev) : Prop where
  tx : d.cfg.rb.txQueue = []
  rx : d.cfg.rb.rxQueue = []

/-- What is in the rings may be lost, as far as `R` goes. -/
structure CanDev.Droppable (R : List Frame → List Frame → Prop)
    (d : CanDev) : Prop where
  tx : R [] (d.cfg.rb.txQueue.map CanMsg.frame)
  rx : R [] (d.cfg.rb.rxQueue.map CanMsg.frame)

/-- A step of a device that takes `taken` from its caller and hands out
`given`, with `R` between what it holds afterwards and what it held. -/
structure Relays (R : List Frame → List Frame → Prop)
    (taken given : List CanMsg) (d d' : CanDev) : Prop where
  bounded : d'.RingsBounded
  outbound : R d'.outbound (d.outbound ++ taken.map CanMsg.frame)
  inbound : R (given.map CanMsg.frame ++ d'.inbound) d.inbound

section Device

variable {d d' : CanDev} {taken given : List CanMsg}

theorem Relays.of_eq {R : List Frame → List Frame → Prop} (hR : LossRel R)
    (h : Relays Eq taken given d d') : Relays R taken given d d' where
  bounded := h.bounded
  outbound := by
    rw [h.outbound]
    exact hR.refl _
  inbound := by
    rw [h.inbound]
    exact hR.refl _

theorem Relays.refl (hb : d.RingsBounded) : Relays Eq [] [] d d where
  bounded := hb
  outbound := by simp
  inbound := by simp

/-- The registers that hold frames, or say that they do, are unchanged. -/
structure SameBuffers (r r' : CanRegs) : Prop where
  tbs1 : r'.tbs1 = r.tbs1
  ri : r'.canicr.ri = r.canicr.ri
  txFrame1 : r'.txFrame1 = r.txFrame1
  rxFrame : r'.rxFrame = r.rxFrame

theorem Relays.of_same (hb : d.RingsBounded)
    (hrings : d'.cfg.rb = d.cfg.rb) (hsame : SameBuffers d.regs d'.regs) :
    Relays Eq [] [] d d' where
  bounded := ⟨by rw [hrings]; exact hb.tx, by rw [hrings]; exact hb.rx⟩
  outbound := by
    simp [CanDev.outbound, hrings, hsame.tbs1, hsame.txFrame1]
  inbound := by simp [CanDev.inbound, hrings, hsame.ri, hsame.rxFrame]

/-- A reset empties the rings. -/
theorem Relays.of_reset {R : List Frame → List Frame → Prop}
    (hR : LossRel R) (hdrop : d.Droppable R)
    (hrings : d'.cfg.rb = d.cfg.rb.initialize)
    (hsame : SameBuffers d.regs d'.regs) : Relays R [] [] d d' where
  bounded := by
    constructor
    · rw [hrings]
      exact initialize_txBounded _
    · rw [hrings]
      exact initialize_rxBounded _
  outbound := by
    simp only [CanDev.outbound, hrings, initialize_txQueue, hsame.tbs1,
      hsame.txFrame1, List.map_nil, List.append_nil]
    simpa using hR.append_left _ hdrop.tx
  inbound := by
    simp only [CanDev.inbound, hrings, initialize_rxQueue, hsame.ri,
      hsame.rxFrame, List.map_nil, List.nil_append]
    simpa using hR.append_right _ hdrop.rx

end Device

/-! ## The functions of the driver -/

theorem relays_canStandardTransmit {d : CanDev} (hb : d.RingsBounded) :
    Relays Eq [] [] d (canStandardTransmit d) := by
  rcases canStandardTransmit_cases d with ⟨_, h⟩ | ⟨hne, hfree, h⟩ | ⟨_, _, h⟩
  · rw [h]
    exact .of_same hb rfl ⟨rfl, rfl, rfl, rfl⟩
  · rw [h]
    have hqueue := CanRingBuffer.txQueue_eq_cons hb.tx hne
    have hframe : (d.regs.sendTx1
        (d.cfg.rb.tx d.cfg.rb.txTail.toNat)).txFrame1 =
          (d.cfg.rb.tx d.cfg.rb.txTail.toNat).frame :=
      loadTx1_txFrame1 _ d.regs
    have htaken : (d.regs.sendTx1
        (d.cfg.rb.tx d.cfg.rb.txTail.toNat)).tbs1 = false := rfl
    refine ⟨⟨hb.tx.dropTx, hb.rx⟩, ?_, rfl⟩
    simp only [CanDev.outbound, hqueue, hframe, htaken, hfree]
    simp
  · rw [h]
    exact .refl hb

/-- The write loop leaves the receive ring alone. -/
theorem canWriteLoop_rx (buffer : ℕ → CanMsg) (n bytes : ℕ)
    (rb : CanRingBuffer) :
    (canWriteLoop buffer n bytes rb).2.rx = rb.rx ∧
      (canWriteLoop buffer n bytes rb).2.rxHead = rb.rxHead ∧
      (canWriteLoop buffer n bytes rb).2.rxTail = rb.rxTail := by
  induction n generalizing bytes rb with
  | zero => exact ⟨rfl, rfl, rfl⟩
  | succ n ih =>
      rw [canWriteLoop]
      split
      · exact ih (bytes + 1) (rb.putTx (buffer bytes))
      · exact ⟨rfl, rfl, rfl⟩

/-- The read loop leaves the transmit ring alone. -/
theorem canReadLoop_tx (n : ℕ) (rb : CanRingBuffer) :
    (canReadLoop n rb).2.tx = rb.tx ∧
      (canReadLoop n rb).2.txHead = rb.txHead ∧
      (canReadLoop n rb).2.txTail = rb.txTail := by
  induction n generalizing rb with
  | zero => exact ⟨rfl, rfl, rfl⟩
  | succ n ih =>
      rw [canReadLoop]
      split
      · exact ih _
      · exact ⟨rfl, rfl, rfl⟩

theorem relays_canWrite {d : CanDev} (hb : d.RingsBounded)
    (buffer : ℕ → CanMsg) (n : ℤ) :
    Relays Eq ((List.range (canWrite d buffer n).1).map buffer) [] d
      (canWrite d buffer n).2 := by
  cases hinit : d.cfg.init with
  | false =>
      rw [canWrite_closed hinit]
      exact .refl hb
  | true =>
      obtain ⟨hcount, hqueue, hbounded⟩ :=
        canWriteLoop_spec buffer n.toNat 0 hb.tx
      obtain ⟨hrx, hhead, htail⟩ :=
        canWriteLoop_rx buffer n.toNat 0 d.cfg.rb
      let queued : CanDev :=
        { cfg := { d.cfg with
            rb := (canWriteLoop buffer n.toNat 0 d.cfg.rb).2 }
          regs := d.regs }
      have hwrite : canWrite d buffer n =
          ((canWriteLoop buffer n.toNat 0 d.cfg.rb).1,
            canStandardTransmit queued) := by
        rw [canWrite, if_pos hinit]
        rfl
      have hrxQueue : queued.cfg.rb.rxQueue = d.cfg.rb.rxQueue := by
        simp only [queued, CanRingBuffer.rxQueue, hrx, hhead, htail]
      have hqueued : queued.RingsBounded :=
        ⟨hbounded, by
          simpa only [queued, CanRingBuffer.RxBounded, hhead, htail]
            using hb.rx⟩
      have hsend := relays_canStandardTransmit hqueued
      rw [hwrite]
      refine ⟨hsend.bounded, ?_, ?_⟩
      · rw [hsend.outbound]
        simp only [CanDev.outbound, queued, hqueue, hcount, Nat.zero_add,
          List.map_append, List.append_assoc, List.map_nil, List.append_nil]
      · rw [hsend.inbound]
        simp only [CanDev.inbound, hrxQueue]
        rfl

theorem canRead_closed {d : CanDev} (hinit : d.cfg.init = false) (n : ℤ) :
    canRead d n = ([], d) := by
  simp [canRead, hinit]

theorem relays_canRead {d : CanDev} (hb : d.RingsBounded) (n : ℤ) :
    Relays Eq [] (canRead d n).1 d (canRead d n).2 := by
  cases hinit : d.cfg.init with
  | false =>
      rw [canRead_closed hinit]
      exact .refl hb
  | true =>
      obtain ⟨hdata, hqueue, hbounded, _⟩ := canRead_spec hinit hb.rx n
      obtain ⟨htx, hhead, htail⟩ := canReadLoop_tx n.toNat d.cfg.rb
      have hrun : canRead d n =
          ((canReadLoop n.toNat d.cfg.rb).1,
            { cfg := { d.cfg with rb := (canReadLoop n.toNat d.cfg.rb).2 }
              regs := d.regs }) := by
        rw [canRead, if_pos hinit]
        rfl
      have htxQueue :
          (canRead d n).2.cfg.rb.txQueue = d.cfg.rb.txQueue := by
        simp only [hrun, CanRingBuffer.txQueue, htx, hhead, htail]
      refine ⟨⟨?_, hbounded⟩, ?_, ?_⟩
      · simpa only [hrun, CanRingBuffer.TxBounded, hhead, htail] using hb.tx
      · simp only [CanDev.outbound, htxQueue, List.map_nil, List.append_nil]
        simp only [hrun]
      · simp only [CanDev.inbound, hdata, hqueue, ← List.append_assoc,
          ← List.map_append, List.take_append_drop]
        simp only [hrun]

theorem sameBuffers_clearErrorCondition (arg : ℤ) (r : CanRegs) :
    SameBuffers r (clearErrorCondition arg r) := by
  cases hkind : ErrorConditionType.ofInt arg with
  | none => simp only [clearErrorCondition, hkind]; exact ⟨rfl, rfl, rfl, rfl⟩
  | some kind =>
      cases kind with
      | rxErrorCondition =>
          simp only [clearErrorCondition, hkind]
          exact ⟨rfl, rfl, rfl, rfl⟩
      | txErrorCondition =>
          simp only [clearErrorCondition, hkind]
          exact ⟨rfl, rfl, rfl, rfl⟩

theorem sameBuffers_setMode (arg : ℤ) (r : CanRegs) :
    SameBuffers r (setMode arg r).2 := by
  cases hmode : CanMode.ofInt arg with
  | none => simp only [setMode, hmode]; exact ⟨rfl, rfl, rfl, rfl⟩
  | some mode => cases mode <;> simp only [setMode, hmode] <;> exact ⟨rfl, rfl, rfl, rfl⟩

theorem sameBuffers_setBaudRate (arg : ℤ) (d : CanDev) :
    SameBuffers d.regs (setBaudRate arg d).2.regs := by
  cases hrate : CanBaudRate.ofInt arg with
  | none => simp only [setBaudRate, hrate]; exact ⟨rfl, rfl, rfl, rfl⟩
  | some rate =>
      cases rate <;> simp only [setBaudRate, hrate] <;> exact ⟨rfl, rfl, rfl, rfl⟩

/-- No command but `CAN_SET_BAUD_RATE` touches what a device holds; that one
empties the rings. -/
theorem relays_canIoctl {R : List Frame → List Frame → Prop}
    (hR : LossRel R) {d d' : CanDev} (hb : d.RingsBounded)
    {cmd arg status : ℤ} {polls : List Bool}
    (hdrop : CanIoctlCmd.ofInt cmd = some .setBaudRate → d.Droppable R)
    (h : canIoctl d cmd arg polls = some (status, d')) :
    Relays R [] [] d d' := by
  have hkeep : ∀ {r : CanRegs}, SameBuffers d.regs r →
      Relays R [] [] d { d with regs := r } := by
    intro r hsame
    have heq : Relays Eq [] [] d { d with regs := r } :=
      .of_same hb rfl hsame
    exact heq.of_eq hR
  unfold canIoctl at h
  split at h
  · cases hkind : CanIoctlCmd.ofInt cmd with
    | none =>
        rw [hkind] at h
        cases h
        exact hkeep ⟨rfl, rfl, rfl, rfl⟩
    | some kind =>
        rw [hkind] at h
        cases kind with
        | setBaudRate =>
            have hd : d' = (setBaudRate arg d).2 := by
              rw [Option.some_inj.mp h]
            rw [hd]
            exact .of_reset hR (hdrop hkind) rfl
              (sameBuffers_setBaudRate arg d)
        | clearErrorCondition =>
            cases h
            exact hkeep (sameBuffers_clearErrorCondition arg d.regs)
        | setMode =>
            cases h
            exact hkeep (sameBuffers_setMode arg d.regs)
        | forceBusOff =>
            obtain ⟨r, hr, hd⟩ := Option.map_eq_some_iff.mp h
            cases hd
            unfold forceBusOff at hr
            split at hr
            · cases hr
              exact hkeep ⟨rfl, rfl, rfl, rfl⟩
            · cases hr
        | autoSetBaudRate | setFilter | getStatus =>
            cases h
            exact hkeep ⟨rfl, rfl, rfl, rfl⟩
  · cases h
    exact hkeep ⟨rfl, rfl, rfl, rfl⟩

theorem relays_openDevice {R : List Frame → List Frame → Prop}
    (hR : LossRel R) (ipbase : BitVec 32) {d : CanDev}
    (hdrop : d.Droppable R) : Relays R [] [] d (openDevice ipbase d) :=
  .of_reset hR hdrop rfl ⟨rfl, rfl, rfl, rfl⟩

/-! ## The interrupt -/

theorem length_rxQueue_lt {rb : CanRingBuffer} (hb : rb.RxBounded) :
    rb.rxQueue.length < canRingBufsize := by
  rw [CanRingBuffer.rxQueue, Ring.length_contents]
  exact Ring.count_lt (toNat_lt_of_inRing hb.1) (toNat_lt_of_inRing hb.2)

/-- Storing a telegram appends it, or empties a ring that was full. -/
theorem rxQueue_putRx_cases {rb : CanRingBuffer} (hb : rb.RxBounded)
    (m : CanMsg) :
    (rb.putRx m).rxQueue = rb.rxQueue ++ [m] ∨
      (rb.rxQueue.length = 255 ∧ (rb.putRx m).rxQueue = []) := by
  by_cases hroom : rb.rxQueue.length < 255
  · exact Or.inl (CanRingBuffer.rxQueue_putRx hb m hroom)
  · refine Or.inr ⟨?_, (CanRingBuffer.rxQueue_eq_nil_iff (hb.putRx m)).mpr ?_⟩
    · have hlt := length_rxQueue_lt hb
      unfold canRingBufsize at hlt
      omega
    · rw [CanRingBuffer.rxQueue, Ring.length_contents] at hroom
      obtain ⟨⟨hh, hh'⟩, ⟨ht, ht'⟩⟩ := hb
      unfold Ring.count canRingBufsize at hroom
      simp only [CanRingBuffer.putRx, ringIncrement]
      unfold canRingBufsize at *
      split at hroom <;> split <;> omega

theorem canStandardReceive_rb (d : CanDev) :
    (canStandardReceive d).cfg.rb =
      d.cfg.rb.putRx ((d.cfg.rb.rx d.cfg.rb.rxHead.toNat).receive d.regs) :=
  rfl

theorem receive_frame (slot : CanMsg) (r : CanRegs) :
    (slot.receive r).frame = r.rxFrame := by
  have hid : (r.canrid.setWidth 32).setWidth 29 = r.canrid := by
    apply BitVec.eq_of_toNat_eq
    have hlt := r.canrid.isLt
    simp only [BitVec.toNat_setWidth]
    omega
  simp only [CanMsg.receive, CanMsg.frame, CanRegs.rxFrame, frameOf, hid]

/-- One half of the handler moves the received frame into the ring; a ring
that is full then reads as empty. -/
theorem relays_serveController {R : List Frame → List Frame → Prop}
    (hR : LossRel R) {d : CanDev} (hb : d.RingsBounded)
    (hroom : d.regs.canicr.ri = true → d.cfg.rb.rxQueue.length = 255 →
      R [] d.inbound) :
    Relays R [] [] d (serveController d) := by
  rw [serveController_eq]
  cases hri : d.regs.canicr.ri with
  | false =>
      have hkeep : Relays Eq [] [] d { d with regs := d.regs.readIcr.2 } :=
        .of_same hb rfl ⟨rfl, rfl, rfl, rfl⟩
      exact hkeep.of_eq hR
  | true =>
      rw [if_pos rfl]
      refine ⟨⟨hb.tx, hb.rx.putRx _⟩, ?_, ?_⟩
      · rw [List.map_nil, List.append_nil]
        exact hR.refl _
      · let m := (d.cfg.rb.rx d.cfg.rb.rxHead.toNat).receive d.regs
        have hafter : CanDev.inbound
            { cfg := (canStandardReceive d).cfg
              regs := d.regs.readIcr.2.commandRrb } =
            (d.cfg.rb.putRx m).rxQueue.map CanMsg.frame := by
          simp [CanDev.inbound, CanRegs.commandRrb, canStandardReceive_rb, m]
        rw [hafter, List.map_nil, List.nil_append]
        rcases rxQueue_putRx_cases hb.rx m with hput | ⟨hfull, hput⟩
        · have hmoved : (d.cfg.rb.putRx m).rxQueue.map CanMsg.frame =
              d.inbound := by
            simp only [hput, CanDev.inbound, hri, List.map_append,
              List.map_cons, List.map_nil, if_true]
            rw [receive_frame]
          rw [hmoved]
          exact hR.refl _
        · rw [hput]
          exact hroom hri hfull

/-! ## The bus -/

/-- The device after its frame in flight, if there is one, completes. -/
def CanDev.completes (d : CanDev) : CanDev :=
  { d with regs := d.regs.frameCompletes }

/-- The device after a frame arrives. -/
def CanDev.arrives (d : CanDev) (f : Frame) : CanDev :=
  { d with regs := d.regs.frameArrives f }

theorem rxFrame_frameArrives (f : Frame) (r : CanRegs) :
    (r.frameArrives f).rxFrame = f := by
  simp only [CanRegs.frameArrives, CanRegs.rxFrame, frameOf, CanDataA.ofArray,
    CanDataB.ofArray, vector8_eta]

/-- A completed frame was the oldest a device had to send. -/
theorem outbound_completes {d : CanDev} (htaken : d.regs.tbs1 = false) :
    d.outbound = d.regs.txFrame1 ::
      d.completes.outbound := by
  have hcompletes : d.regs.frameCompletes =
      { d.regs with
        tbs1 := true
        canicr := { d.regs.canicr with
          ti1 := d.regs.canicr.ti1 || d.regs.canier.tie1 } } := by
    rw [CanRegs.frameCompletes, htaken]
    rfl
  simp [CanDev.completes, CanDev.outbound, htaken, hcompletes]

theorem inbound_completes (d : CanDev) :
    d.completes.inbound = d.inbound := by
  unfold CanDev.completes CanRegs.frameCompletes
  split <;> rfl

theorem outbound_arrives (d : CanDev) (f : Frame) :
    (d.arrives f).outbound = d.outbound :=
  rfl

/-- The receive buffer is released and its interrupt is enabled. -/
def CanDev.Listening (d : CanDev) : Prop :=
  d.regs.canicr.ri = false ∧ d.regs.canier.rie = true

/-- An arriving frame comes after what a listening device has received; it
may replace the frame in the buffer of one that is not. -/
theorem inbound_arrives {R : List Frame → List Frame → Prop}
    (hR : LossRel R) (d : CanDev) (f : Frame)
    (hloss : (∀ xs, R [] xs) ∨ d.Listening) :
    R ((d.arrives f).inbound)
      (d.inbound ++ [f]) := by
  have hafter : (d.arrives f).inbound =
      d.cfg.rb.rxQueue.map CanMsg.frame ++
        (if d.regs.canicr.ri || d.regs.canier.rie then [f] else []) := by
    simp only [CanDev.arrives, CanDev.inbound, rxFrame_frameArrives]
    rfl
  rw [hafter]
  rcases hloss with hlossy | ⟨hri, hrie⟩
  · rw [CanDev.inbound, List.append_assoc]
    apply hR.append_left
    split
    · exact hR.append (hlossy _) (hR.refl [f])
    · exact hlossy _
  · simp only [CanDev.inbound, hri, hrie, Bool.false_or, Bool.false_eq_true,
      if_true, if_false, List.append_nil]
    exact hR.refl _

end EmbBoard.Can
