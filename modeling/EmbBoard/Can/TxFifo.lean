import EmbBoard.Can.Control
import EmbBoard.Can.Queue
import EmbBoard.Support.Fifo
import EmbBoard.Support.Runs

/-!
# The transmit path of one controller

One controller under write calls, transmit interrupts, completing frames,
ring resets and closing, each taken as one step.  A history records what the
write calls accepted since the last ring reset; the state refines a lossless
queue of telegrams whose delivered part is what the bus was handed.
-/

namespace EmbBoard.Can

open EmbBoard.Runs

/-- `can_close` on the device itself. -/
def closeDevice (d : CanDev) : CanDev :=
  { d with cfg := { d.cfg with init := false } }

/-- What can happen to one controller's transmit path. -/
inductive TxEvent
  | write (buffer : ℕ → CanMsg) (n : ℤ)
  | transmitInterrupt
  | frameCompletes
  | opened (ipbase : BitVec 32)
  | closed
  | setBaudRate (arg : ℤ)

/-- A device with its transmit history since the last ring reset: the
telegrams accepted, and how many frames the bus had been handed before. -/
structure TxHistory where
  dev : CanDev
  accepted : List CanMsg
  mark : ℕ

/-- The frames loaded into transmit buffer 1 since the last ring reset. -/
def TxHistory.loaded (h : TxHistory) : List Frame :=
  h.dev.regs.transmitted.drop h.mark

/-- A history that begins with a ring reset which leaves the device `d`. -/
def TxHistory.fresh (d : CanDev) : TxHistory where
  dev := d
  accepted := []
  mark := d.regs.transmitted.length

def txStep (h : TxHistory) : TxEvent → TxHistory
  | .write buffer n =>
      let result := canWrite h.dev buffer n
      { h with
        dev := result.2
        accepted := h.accepted ++ (List.range result.1).map buffer }
  | .transmitInterrupt => { h with dev := canStandardTransmit h.dev }
  | .frameCompletes =>
      { h with dev := { h.dev with regs := h.dev.regs.frameCompletes } }
  | .opened ipbase =>
      if h.dev.cfg.init then h else .fresh (openDevice ipbase h.dev)
  | .closed => { h with dev := closeDevice h.dev }
  | .setBaudRate arg =>
      if h.dev.cfg.init then .fresh (setBaudRate arg h.dev).2 else h

/-- The device state stands for the queue `f`. -/
structure TxRefines (h : TxHistory) (f : Fifo CanMsg) : Prop where
  bounded : h.dev.cfg.rb.TxBounded
  accepted : h.accepted = f.accepted
  queue : h.dev.cfg.rb.txQueue = f.queue
  marked : h.mark ≤ h.dev.regs.transmitted.length
  loaded : h.loaded = f.delivered.map CanMsg.frame

theorem initialize_txBounded (rb : CanRingBuffer) :
    rb.initialize.TxBounded :=
  CanRingBuffer.txBounded_initialize_indices

theorem initialize_txQueue (rb : CanRingBuffer) :
    rb.initialize.txQueue = [] := by
  rw [CanRingBuffer.txQueue_eq_nil_iff (initialize_txBounded rb)]
  rfl

/-- A ring reset starts with the empty queue. -/
theorem txRefines_fresh {d : CanDev} {rb : CanRingBuffer}
    (hrb : d.cfg.rb = rb.initialize) :
    TxRefines (.fresh d) (Fifo.empty) where
  bounded := by
    simp only [TxHistory.fresh, hrb]
    exact initialize_txBounded rb
  accepted := rfl
  queue := by
    simp only [TxHistory.fresh, hrb, initialize_txQueue]
    rfl
  marked := le_refl _
  loaded := by simp [TxHistory.loaded, TxHistory.fresh, Fifo.empty]

/-- A run of the transmit function delivers from the front of the queue. -/
theorem TxRefines.transmit {h : TxHistory} {f : Fifo CanMsg}
    (href : TxRefines h f) :
    ∃ f', TxRefines { h with dev := canStandardTransmit h.dev } f' := by
  obtain ⟨moved, hqueue, hsent⟩ :=
    canStandardTransmit_conserves href.bounded
  have hsplit : f.queue =
      moved ++ (canStandardTransmit h.dev).cfg.rb.txQueue := by
    rw [← href.queue, hqueue]
  refine ⟨f.deliver moved _ hsplit, ?_⟩
  constructor
  · exact canStandardTransmit_txBounded href.bounded
  · exact href.accepted
  · rfl
  · rw [hsent, List.length_append]
    exact href.marked.trans (Nat.le_add_right _ _)
  · rw [TxHistory.loaded, hsent, List.drop_append_of_le_length href.marked,
      Fifo.deliver, List.map_append]
    congr 1
    exact href.loaded

/-- A write call accepts at the back of the queue and then transmits. -/
theorem TxRefines.write {h : TxHistory} {f : Fifo CanMsg}
    (href : TxRefines h f) (buffer : ℕ → CanMsg) (n : ℤ) :
    ∃ f', TxRefines (txStep h (.write buffer n)) f' := by
  cases hinit : h.dev.cfg.init with
  | false =>
      rw [txStep, canWrite_closed hinit]
      exact ⟨f, by simpa using href⟩
  | true =>
      obtain ⟨rb, hb, hqueue, hwrite⟩ :=
        canWrite_spec hinit href.bounded buffer n
      rw [txStep, hwrite]
      let queued : TxHistory :=
        { dev := { cfg := { h.dev.cfg with rb := rb }, regs := h.dev.regs }
          accepted := h.accepted ++ (List.range
            (takenCount n h.dev.cfg.rb.txQueue.length)).map buffer
          mark := h.mark }
      have hqueued : TxRefines queued (f.accept ((List.range
          (takenCount n h.dev.cfg.rb.txQueue.length)).map buffer)) := by
        constructor
        · exact hb
        · simp only [queued, Fifo.accept, href.accepted]
        · simp only [queued, Fifo.accept, hqueue, href.queue]
        · exact href.marked
        · exact href.loaded
      exact hqueued.transmit

theorem TxRefines.step {h : TxHistory} {f : Fifo CanMsg}
    (href : TxRefines h f) (e : TxEvent) : ∃ f', TxRefines (txStep h e) f' := by
  cases e with
  | write buffer n => exact href.write buffer n
  | transmitInterrupt => exact href.transmit
  | frameCompletes =>
      have hsent : h.dev.regs.frameCompletes.transmitted =
          h.dev.regs.transmitted := by
        unfold CanRegs.frameCompletes
        split <;> rfl
      refine ⟨f, href.bounded, href.accepted, href.queue, ?_, ?_⟩
      · simpa only [txStep, hsent] using href.marked
      · simpa only [txStep, TxHistory.loaded, hsent] using href.loaded
  | opened ipbase =>
      cases hinit : h.dev.cfg.init with
      | true => exact ⟨f, by simpa [txStep, hinit] using href⟩
      | false =>
          refine ⟨Fifo.empty, ?_⟩
          simp only [txStep, hinit, Bool.false_eq_true, if_false]
          exact txRefines_fresh rfl
  | closed =>
      exact ⟨f, href.bounded, href.accepted, href.queue, href.marked,
        href.loaded⟩
  | setBaudRate arg =>
      cases hinit : h.dev.cfg.init with
      | false => exact ⟨f, by simpa [txStep, hinit] using href⟩
      | true =>
          refine ⟨Fifo.empty, ?_⟩
          simp only [txStep, hinit, if_true]
          exact txRefines_fresh rfl

/-- Every history that begins with a ring reset refines a lossless queue. -/
theorem txRefines_run (d : CanDev) (ipbase : BitVec 32) (es : List TxEvent) :
    ∃ f, TxRefines (run txStep (.fresh (openDevice ipbase d)) es) f := by
  apply invariant_run (I := fun h => ∃ f, TxRefines h f)
  · rintro h e ⟨f, href⟩
    exact href.step e
  · exact ⟨Fifo.empty, txRefines_fresh rfl⟩

/-- The frame has the telegram's header, its identifier where that fits 29
bits, and its data. -/
def Carries (f : Frame) (m : CanMsg) : Prop :=
  f.dlc = m.dlc ∧ f.rtr = m.rtr ∧ f.ff = m.ff ∧
    (m.msgId.toNat < 2 ^ 29 → f.id29.toNat = m.msgId.toNat) ∧
    f.data = m.data

theorem frame_carries (m : CanMsg) : Carries m.frame m := by
  refine ⟨rfl, rfl, rfl, ?_, rfl⟩
  intro hid
  simp only [CanMsg.frame, BitVec.toNat_setWidth]
  exact Nat.mod_eq_of_lt hid

/-- The transmit path is a lossless queue: the frames loaded since the last
ring reset, then the ring from tail to head, are the telegrams accepted, in
order; the indices stay inside the ring; and a write call on the open device
accepts what fits into 255 telegrams. -/
theorem canTransmit_lossless_fifo (d : CanDev) (ipbase : BitVec 32)
    (es : List TxEvent) :
    let h := run txStep (.fresh (openDevice ipbase d)) es
    (∃ sent, h.accepted = sent ++ h.dev.cfg.rb.txQueue ∧
      List.Forall₂ Carries h.loaded sent) ∧
    h.dev.cfg.rb.TxBounded ∧
    (h.dev.cfg.init = true → ∀ (buffer : ℕ → CanMsg) (n : ℤ), 0 ≤ n →
      ((canWrite h.dev buffer n).1 : ℤ) =
        min n (255 - h.dev.cfg.rb.txQueue.length)) := by
  intro h
  obtain ⟨f, href⟩ := txRefines_run d ipbase es
  refine ⟨⟨f.delivered, ?_, ?_⟩, href.bounded, ?_⟩
  · rw [show h.accepted = f.accepted from href.accepted, href.queue]
    exact f.conserved
  · rw [show h.loaded = f.delivered.map CanMsg.frame from href.loaded]
    rw [List.forall₂_map_left_iff, List.forall₂_same]
    exact fun m _ => frame_carries m
  · intro hinit buffer n hn
    obtain ⟨_, _, _, hwrite⟩ := canWrite_spec hinit href.bounded buffer n
    have hlen := CanRingBuffer.length_txQueue_lt href.bounded
    unfold canRingBufsize at hlen
    rw [hwrite]
    unfold takenCount
    change ((min n.toNat (255 - h.dev.cfg.rb.txQueue.length) : ℕ) : ℤ) = _
    change h.dev.cfg.rb.txQueue.length < 256 at hlen
    omega

/-- Two telegrams written with a frame in flight after the first, an interrupt
that loads the second, and a third one that stays queued. -/
def threeWritten : List TxEvent :=
  [.write (fun i => .ofId (i + 1)) 2, .frameCompletes, .transmitInterrupt,
    .write (fun _ => .ofId 3) 1]

/-- Two telegrams are loaded and one is queued; the next write takes 254 of the
300 telegrams it is offered. -/
theorem canTransmit_lossless_fifo_threeWritten :
    let h := run txStep (.fresh (openDevice Ctrl.can1.base .powerOn))
      threeWritten
    h.loaded.map (·.id29) = [1, 2] ∧
      h.dev.cfg.rb.txQueue.map (·.msgId) = [3] ∧
      ((canWrite h.dev (fun _ => .zero) 300).1 : ℤ) = 254 := by
  refine ⟨by decide, by decide, ?_⟩
  rw [(canTransmit_lossless_fifo .powerOn Ctrl.can1.base threeWritten).2.2 rfl
    (fun _ => .zero) 300 (by decide)]
  decide

end EmbBoard.Can
