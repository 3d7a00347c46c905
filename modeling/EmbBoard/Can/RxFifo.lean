import EmbBoard.Can.Control
import EmbBoard.Can.Queue
import EmbBoard.Support.Fifo
import EmbBoard.Support.Runs

/-!
# The receive path of one controller

One open controller under receive interrupts and read calls, each taken as one
step, since the last ring reset.  While at most 255 frames are unread the state
refines a lossless queue.  Without that bound the ring overruns silently; what
a drain then finds are the newest frames, counted modulo the ring size.
-/

namespace EmbBoard.Can

open EmbBoard.Runs

/-- What can happen to one controller's receive path. -/
inductive RxEvent
  | receive (f : Frame)
  | read (maxBytes : ℤ)

/-- A device with its receive history since the last ring reset. -/
structure RxHistory where
  dev : CanDev
  received : List Frame
  copied : List CanMsg

/-- A receive interrupt with the frame `f` in the receive buffer. -/
def receiveInterrupt (f : Frame) (d : CanDev) : CanDev :=
  canStandardReceive { d with regs := d.regs.frameArrives f }

def rxStep (h : RxHistory) : RxEvent → RxHistory
  | .receive f =>
      { h with
        dev := receiveInterrupt f h.dev
        received := h.received ++ [f] }
  | .read maxBytes =>
      let result := canRead h.dev maxBytes
      { h with dev := result.2, copied := h.copied ++ result.1 }

def RxHistory.fresh (d : CanDev) : RxHistory where
  dev := d
  received := []
  copied := []

/-- An open device right after a ring reset. -/
def JustReset (d : CanDev) : Prop :=
  d.cfg.init = true ∧ ∃ rb : CanRingBuffer, d.cfg.rb = rb.initialize

theorem justReset_openDevice (ipbase : BitVec 32) (d : CanDev) :
    JustReset (openDevice ipbase d) :=
  ⟨rfl, d.cfg.rb, rfl⟩

theorem justReset_setBaudRate {d : CanDev} (hinit : d.cfg.init = true)
    (arg : ℤ) : JustReset (setBaudRate arg d).2 :=
  ⟨hinit, d.cfg.rb, rfl⟩

/-- The telegram has the frame's header, identifier and data. -/
def Holds (m : CanMsg) (f : Frame) : Prop :=
  m.dlc = f.dlc ∧ m.rtr = f.rtr ∧ m.ff = f.ff ∧
    m.msgId.toNat = f.id29.toNat ∧ m.data = f.data

/-- What a receive interrupt stores is the frame. -/
theorem receive_holds (slot : CanMsg) (r : CanRegs) (f : Frame) :
    Holds (slot.receive (r.frameArrives f)) f := by
  refine ⟨rfl, rfl, rfl, ?_, ?_⟩
  · simp only [CanMsg.receive, CanRegs.frameArrives, BitVec.toNat_setWidth]
    exact Nat.mod_eq_of_lt (f.id29.isLt.trans (by decide))
  · exact vector8_eta f.data

theorem initialize_rxBounded (rb : CanRingBuffer) :
    rb.initialize.RxBounded := by
  simp [CanRingBuffer.RxBounded, CanRingBuffer.initialize, InRing,
    canRingBufsize]

theorem initialize_rxQueue (rb : CanRingBuffer) :
    rb.initialize.rxQueue = [] := by
  rw [CanRingBuffer.rxQueue_eq_nil_iff (initialize_rxBounded rb)]
  rfl

/-- A read call on an open device copies from the front of the queue. -/
theorem canRead_spec {d : CanDev} (hinit : d.cfg.init = true)
    (hb : d.cfg.rb.RxBounded) (n : ℤ) :
    (canRead d n).1 = d.cfg.rb.rxQueue.take n.toNat ∧
      (canRead d n).2.cfg.rb.rxQueue = d.cfg.rb.rxQueue.drop n.toNat ∧
      (canRead d n).2.cfg.rb.RxBounded ∧
      (canRead d n).2.cfg.init = true := by
  obtain ⟨hdata, hqueue, hbounded, _, _⟩ := canReadLoop_spec n.toNat hb
  rw [canRead, if_pos hinit]
  exact ⟨hdata, hqueue, hbounded, hinit⟩

/-! ## While the ring does not overrun -/

/-- At most 255 received frames are unread. -/
def WithinRing (h : RxHistory) : Prop :=
  h.received.length ≤ h.copied.length + 255

/-- The device state stands for the queue `f`, whose accepted telegrams are
the received frames. -/
structure RxRefines (h : RxHistory) (f : Fifo CanMsg) : Prop where
  opened : h.dev.cfg.init = true
  bounded : h.dev.cfg.rb.RxBounded
  copied : h.copied = f.delivered
  queue : h.dev.cfg.rb.rxQueue = f.queue
  holds : List.Forall₂ Holds f.accepted h.received

theorem rxRefines_fresh {d : CanDev} (hd : JustReset d) :
    RxRefines (.fresh d) Fifo.empty := by
  obtain ⟨hinit, rb, hrb⟩ := hd
  constructor
  · exact hinit
  · simp only [RxHistory.fresh, hrb]
    exact initialize_rxBounded rb
  · rfl
  · simp only [RxHistory.fresh, hrb, initialize_rxQueue]
    rfl
  · exact List.Forall₂.nil

theorem RxRefines.unread {h : RxHistory} {f : Fifo CanMsg}
    (href : RxRefines h f) :
    h.received.length = h.copied.length + h.dev.cfg.rb.rxQueue.length := by
  rw [← href.holds.length_eq, f.conserved, List.length_append, href.copied,
    href.queue]

theorem RxRefines.receive {h : RxHistory} {f : Fifo CanMsg}
    (href : RxRefines h f) (frame : Frame)
    (hroom : WithinRing (rxStep h (.receive frame))) :
    ∃ f', RxRefines (rxStep h (.receive frame)) f' := by
  have hunread := href.unread
  have hlen : h.dev.cfg.rb.rxQueue.length < 255 := by
    simp only [WithinRing, rxStep, List.length_append,
      List.length_singleton] at hroom
    omega
  let m := (h.dev.cfg.rb.rx h.dev.cfg.rb.rxHead.toNat).receive
    (h.dev.regs.frameArrives frame)
  refine ⟨f.accept [m], ?_⟩
  constructor
  · exact href.opened
  · exact href.bounded.putRx m
  · exact href.copied
  · have hput := CanRingBuffer.rxQueue_putRx href.bounded m hlen
    rw [href.queue] at hput
    exact hput
  · exact List.rel_append href.holds
      (List.Forall₂.cons (receive_holds _ _ _) List.Forall₂.nil)

theorem RxRefines.read {h : RxHistory} {f : Fifo CanMsg}
    (href : RxRefines h f) (n : ℤ) :
    ∃ f', RxRefines (rxStep h (.read n)) f' := by
  obtain ⟨hdata, hqueue, hbounded, hinit⟩ :=
    canRead_spec href.opened href.bounded n
  have hsplit : f.queue =
      (canRead h.dev n).1 ++ (canRead h.dev n).2.cfg.rb.rxQueue := by
    rw [hdata, hqueue, List.take_append_drop, href.queue]
  refine ⟨f.deliver _ _ hsplit, ?_⟩
  constructor
  · exact hinit
  · exact hbounded
  · simp only [rxStep, Fifo.deliver, href.copied]
  · rfl
  · exact href.holds

theorem RxRefines.step {h : RxHistory} {f : Fifo CanMsg}
    (href : RxRefines h f) (e : RxEvent)
    (hroom : WithinRing (rxStep h e)) : ∃ f', RxRefines (rxStep h e) f' := by
  cases e with
  | receive frame => exact href.receive frame hroom
  | read n => exact href.read n

theorem rxRefines_run {d : CanDev} (hd : JustReset d) {es : List RxEvent}
    (hroom : Along rxStep WithinRing (.fresh d) es) :
    ∃ f, RxRefines (run rxStep (.fresh d) es) f := by
  apply invariant_run_of_along (I := fun h => ∃ f, RxRefines h f)
      (P := WithinRing) _ ⟨Fifo.empty, rxRefines_fresh hd⟩ hroom
  rintro h e ⟨f, href⟩ _ hnext
  exact href.step e hnext

/-! ## Overruns -/

/-- The device is open with its receive indices inside the ring. -/
def RxSane (h : RxHistory) : Prop :=
  h.dev.cfg.init = true ∧ h.dev.cfg.rb.RxBounded

theorem RxSane.step {h : RxHistory} (hsane : RxSane h) (e : RxEvent) :
    RxSane (rxStep h e) := by
  obtain ⟨hopen, hb⟩ := hsane
  cases e with
  | receive f => exact ⟨hopen, hb.putRx _⟩
  | read n =>
      obtain ⟨_, _, hbounded, hinit⟩ := canRead_spec hopen hb n
      exact ⟨hinit, hbounded⟩

theorem rxSane_fresh {d : CanDev} (hd : JustReset d) :
    RxSane (.fresh d) := by
  obtain ⟨hinit, rb, hrb⟩ := hd
  refine ⟨hinit, ?_⟩
  simp only [RxHistory.fresh, hrb]
  exact initialize_rxBounded rb

theorem RxSane.run {h : RxHistory} (hsane : RxSane h) (es : List RxEvent) :
    RxSane (run rxStep h es) :=
  invariant_run (I := RxSane) (fun _ e hs => hs.step e) hsane es

/-- Frames that arrive without a read in between are stored one slot after
the other, whether or not the ring is full. -/
theorem run_receive_writeAll (h : RxHistory) (hb : h.dev.cfg.rb.RxBounded)
    (fs : List Frame) :
    ∃ ms, List.Forall₂ Holds ms fs ∧
      (run rxStep h (fs.map .receive)).dev.cfg.rb.rx =
        (Ring.writeAll canRingBufsize h.dev.cfg.rb.rx
          h.dev.cfg.rb.rxHead.toNat ms).1 ∧
      (run rxStep h (fs.map .receive)).dev.cfg.rb.rxHead.toNat =
        (Ring.writeAll canRingBufsize h.dev.cfg.rb.rx
          h.dev.cfg.rb.rxHead.toNat ms).2 ∧
      (run rxStep h (fs.map .receive)).dev.cfg.rb.rxTail =
        h.dev.cfg.rb.rxTail := by
  induction fs generalizing h with
  | nil => exact ⟨[], List.Forall₂.nil, rfl, rfl, rfl⟩
  | cons f fs ih =>
      let m := (h.dev.cfg.rb.rx h.dev.cfg.rb.rxHead.toNat).receive
        (h.dev.regs.frameArrives f)
      obtain ⟨ms, hms, hmem, hhead, htail⟩ :=
        ih (rxStep h (.receive f)) (hb.putRx m)
      have hnext : (rxStep h (.receive f)).dev.cfg.rb.rxHead.toNat =
          Ring.next canRingBufsize h.dev.cfg.rb.rxHead.toNat :=
        toNat_ringIncrement hb.1
      rw [hnext] at hmem hhead
      exact ⟨m :: ms, .cons (receive_holds _ _ _) hms, hmem, hhead, htail⟩

theorem run_receive_copied (h : RxHistory) (fs : List Frame) :
    (run rxStep h (fs.map .receive)).copied = h.copied := by
  induction fs generalizing h with
  | nil => rfl
  | cons f fs ih => exact ih (rxStep h (.receive f))

/-- Read calls, one after another, copy from the front of the queue. -/
theorem run_read_split {h : RxHistory} (hsane : RxSane h) (ns : List ℤ) :
    ∃ drained, (run rxStep h (ns.map .read)).copied = h.copied ++ drained ∧
      h.dev.cfg.rb.rxQueue =
        drained ++ (run rxStep h (ns.map .read)).dev.cfg.rb.rxQueue := by
  induction ns generalizing h with
  | nil => exact ⟨[], (List.append_nil _).symm, rfl⟩
  | cons n ns ih =>
      obtain ⟨hdata, hqueue, _, _⟩ := canRead_spec hsane.1 hsane.2 n
      obtain ⟨drained, hcopied, hsplit⟩ := ih (hsane.step (.read n))
      refine ⟨(canRead h.dev n).1 ++ drained, ?_, ?_⟩
      · rw [List.map_cons, run_cons, hcopied, ← List.append_assoc]
        rfl
      · change (canRead h.dev n).2.cfg.rb.rxQueue = _ at hsplit
        rw [List.map_cons, run_cons, List.append_assoc, ← hsplit, hdata,
          hqueue, List.take_append_drop]

/-- After a complete drain and `n` further frames, the read calls that drain
the ring again copy the newest `n % 256` of them. -/
theorem drain_after_receive {h : RxHistory} (hsane : RxSane h)
    (hdrained : h.dev.cfg.rb.rxTail = h.dev.cfg.rb.rxHead)
    (fs : List Frame) (ns : List ℤ)
    (hdrain :
      (run rxStep h (fs.map .receive ++ ns.map .read)).dev.cfg.rb.rxTail =
        (run rxStep h (fs.map .receive ++ ns.map .read)).dev.cfg.rb.rxHead) :
    ∃ drained,
      (run rxStep h (fs.map .receive ++ ns.map .read)).copied =
        h.copied ++ drained ∧
      List.Forall₂ Holds drained
        (fs.drop (fs.length - fs.length % canRingBufsize)) := by
  have hb := hsane.2
  have hreceived := hsane.run (fs.map .receive)
  have hread := hreceived.run (ns.map .read)
  rw [run_append] at hdrain ⊢
  obtain ⟨ms, hms, hmem, hhead, htail⟩ := run_receive_writeAll h hb fs
  obtain ⟨drained, hcopied, hsplit⟩ := run_read_split hreceived ns
  rw [run_receive_copied] at hcopied
  have hnil := (CanRingBuffer.rxQueue_eq_nil_iff hread.2).mpr hdrain.symm
  have hcontents :
      (run rxStep h (fs.map .receive)).dev.cfg.rb.rxQueue =
        ms.drop (ms.length - ms.length % canRingBufsize) := by
    rw [CanRingBuffer.rxQueue, hmem, hhead, htail, hdrained]
    exact Ring.contents_writeAll _ (toNat_lt_of_inRing hb.1) ms
  rw [hnil, List.append_nil, hcontents] at hsplit
  refine ⟨drained, hcopied, ?_⟩
  rw [← hsplit, hms.length_eq]
  exact List.forall₂_drop _ hms

/-! ## The receive law -/

/-- The receive path is a lossless queue while at most 255 frames are unread;
and whatever happened before, the frames that arrive between two complete
drains come out of the second one, however many reads it takes, as the newest
of them, their number taken modulo 256. -/
theorem canReceive_fifo {d : CanDev} (hd : JustReset d) (es : List RxEvent) :
    let h := run rxStep (.fresh d) es
    (Along rxStep WithinRing (.fresh d) es →
      List.Forall₂ Holds (h.copied ++ h.dev.cfg.rb.rxQueue) h.received ∧
      ∀ n : ℤ, ((canRead h.dev n).1.length : ℤ) =
        min (max 0 n) (h.received.length - h.copied.length)) ∧
    (h.dev.cfg.rb.rxTail = h.dev.cfg.rb.rxHead →
      ∀ (fs : List Frame) (ns : List ℤ),
        let h' := run rxStep h (fs.map .receive ++ ns.map .read)
        h'.dev.cfg.rb.rxTail = h'.dev.cfg.rb.rxHead →
        ∃ drained, h'.copied = h.copied ++ drained ∧
          List.Forall₂ Holds drained
            (fs.drop (fs.length - fs.length % 256))) := by
  intro h
  constructor
  · intro hroom
    obtain ⟨f, href⟩ := rxRefines_run hd hroom
    have hunread := href.unread
    refine ⟨?_, ?_⟩
    · rw [show h.copied = f.delivered from href.copied, href.queue,
        ← f.conserved]
      exact href.holds
    · intro n
      obtain ⟨hdata, _, _, _⟩ := canRead_spec href.opened href.bounded n
      rw [hdata, List.length_take]
      change ((min n.toNat h.dev.cfg.rb.rxQueue.length : ℕ) : ℤ) = _
      change h.received.length =
        h.copied.length + h.dev.cfg.rb.rxQueue.length at hunread
      omega
  · intro hdrained fs ns h' hdrain
    exact drain_after_receive ((rxSane_fresh hd).run es) hdrained fs ns hdrain

/-- The frames with identifiers from 0 up. -/
def framesTo (n : ℕ) : List Frame :=
  (List.range n).map fun i => (CanMsg.ofId i).frame

/-- Three frames between reads that leave one of them in the ring; and 300
frames in an empty ring, of which three reads hand out the last 44. -/
theorem canReceive_fifo_overrun :
    let d := openDevice Ctrl.can1.base .powerOn
    let es := [.receive (CanMsg.ofId 5).frame, .receive (CanMsg.ofId 6).frame,
      .read 7, .receive (CanMsg.ofId 7).frame]
    let h := run rxStep (.fresh d) es
    List.Forall₂ Holds (h.copied ++ h.dev.cfg.rb.rxQueue) h.received ∧
      (h.copied ++ h.dev.cfg.rb.rxQueue).map (·.msgId) = [5, 6, 7] ∧
      ∃ drained, (run rxStep (.fresh d)
        ((framesTo 300).map .receive ++ [20, 20, 9].map .read)).copied =
          drained ∧
        List.Forall₂ Holds drained ((framesTo 300).drop 256) := by
  intro d es h
  have hd : JustReset d := justReset_openDevice Ctrl.can1.base .powerOn
  refine ⟨?_, by decide, ?_⟩
  · refine ((canReceive_fifo hd es).1 ?_).1
    simp only [es, along_cons, along_nil]
    unfold WithinRing
    decide
  · have hlast := (canReceive_fifo hd []).2 rfl (framesTo 300) [20, 20, 9]
      (by decide +kernel)
    rwa [show (framesTo 300).length = 300 by simp [framesTo]] at hlast

end EmbBoard.Can
