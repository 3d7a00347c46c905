import EmbBoard.Can.Preempt

/-!
# The transmit queue under preemption

The queue law at every statement of `can_write`.  While an index is between
its increment and its wrap test the ring is read as if the test had been made;
a telegram stored but not counted yet is pending, and one taken from the ring
whose transmission is not requested yet is held in the transmit buffer.

The law needs the part of `can_standard_transmit` from its test of the buffer
to the transmission request to itself: the write call gives the interrupt back
before that part begins.
-/

namespace EmbBoard.Can

open EmbBoard.Runs

/-! ## Where the main program is -/

/-- The statements executed with the transmit interrupt locked out. -/
def Pc.locked : Pc → Bool
  | .loopTest | .copy | .dataInc | .headInc | .headWrap | .bytesInc
  | .telegramsDec => true
  | _ => false

/-- The statements that read the ring slot at the tail. -/
def Pc.reading : Pc → Bool
  | .load _ | .tailInc => true
  | _ => false

/-- The statements between the slot and the transmission request. -/
def Pc.holding : Pc → Bool
  | .tailWrap | .enableTie1 | .requestTr => true
  | _ => false

/-- From the first assignment to the buffer to the transmission request. -/
def Pc.sending (pc : Pc) : Bool :=
  pc.reading || pc.holding

namespace WriteState

/-- The ring with a half-done increment completed. -/
def ring (s : WriteState) : CanRingBuffer :=
  match s.pc with
  | .headWrap => { s.rb with txHead := wrapIndex s.rb.txHead }
  | .tailWrap => { s.rb with txTail := wrapIndex s.rb.txTail }
  | _ => s.rb

/-- A telegram in the ring that `bytes` does not count yet. -/
def pending (s : WriteState) : List CanMsg :=
  match s.pc with
  | .headWrap | .bytesInc => [s.buffer s.bytes]
  | _ => []

/-- A frame in the buffer that is out of the ring but not requested yet. -/
def held (s : WriteState) : List Frame :=
  if s.pc.holding then [s.regs.txFrame1] else []

end WriteState

/-! ## The queue law -/

/-- What the queue promises in every state.  The frames loaded are a first
part of the telegrams accepted; the buffer is written only while it is free
and only from a slot inside the ring; and the ring from tail to head is what
was accepted and not taken. -/
structure PreemptCorrect (s : WriteState) : Prop where
  inOrder : ∃ sent, sent <+: s.hist.accepted ∧
    List.Forall₂ Carries s.hist.loaded sent
  free : s.pc.sending = true → s.regs.tbs1 = true
  queued : s.pc.reading = true → s.rb.txHead ≠ s.rb.txTail
  bounded : s.ring.TxBounded
  conserved : ∃ taken,
    s.hist.accepted ++ s.pending = taken ++ s.ring.txQueue ∧
    s.hist.loaded.length ≤ taken.length ∧
    taken.length ≤ s.hist.loaded.length + 1

/-- The interrupt does not run with telegrams queued while the main program is
sending, and the main program's test of the buffer does not come out free when
the telegrams it saw queued are gone. -/
def Undisturbed (s : WriteState) : PreemptEvent → Prop
  | .interrupt => InterruptEnabled s → s.pc.sending = true →
      s.rb.txHead = s.rb.txTail
  | .main => s.pc = .tbs1Test → s.regs.tbs1 = true →
      s.rb.txHead ≠ s.rb.txTail
  | _ => True

instance (s : WriteState) (e : PreemptEvent) :
    Decidable (Undisturbed s e) :=
  match e with
  | .call _ _ => isTrue trivial
  | .main => inferInstanceAs (Decidable (_ → _ → _))
  | .frameCompletes => isTrue trivial
  | .interrupt => inferInstanceAs (Decidable (_ → _ → _))

/-- The history and a ring stand for the queue `f`, apart from telegrams
pending behind it and frames held in front of it. -/
structure StandsFor (h : TxHistory) (rb : CanRingBuffer)
    (pending : List CanMsg) (held : List Frame) (f : Fifo CanMsg) : Prop where
  bounded : rb.TxBounded
  accepted : h.accepted = f.accepted
  queue : rb.txQueue = f.queue ++ pending
  marked : h.mark ≤ h.dev.regs.transmitted.length
  loaded : h.loaded ++ held = f.delivered.map CanMsg.frame

theorem standsFor_iff_txRefines {h : TxHistory} {f : Fifo CanMsg} :
    StandsFor h h.dev.cfg.rb [] [] f ↔ TxRefines h f := by
  constructor
  · intro hs
    exact ⟨hs.bounded, hs.accepted, by simpa using hs.queue, hs.marked,
      by simpa using hs.loaded⟩
  · intro hr
    exact ⟨hr.bounded, hr.accepted, by simpa using hr.queue, hr.marked,
      by simpa using hr.loaded⟩

/-- What the main program relies on at each statement besides the queue. -/
def AtPc (s : WriteState) : Pc → Prop
  | .initTest | .saveTie1 | .saveTie2 | .saveTie3 | .lockTies =>
      s.data = s.bytes
  | .loopTest | .telegramsDec =>
      s.regs.canier.tie1 = false ∧ s.data = s.bytes
  | .copy =>
      s.regs.canier.tie1 = false ∧ s.data = s.bytes ∧
        s.rb.txQueue.length < 255
  | .dataInc =>
      s.regs.canier.tie1 = false ∧ s.data = s.bytes ∧
        s.rb.txQueue.length < 255 ∧
        s.rb.tx s.rb.txHead.toNat = s.buffer s.bytes
  | .headInc =>
      s.regs.canier.tie1 = false ∧ s.data = s.bytes + 1 ∧
        s.rb.txQueue.length < 255 ∧
        s.rb.tx s.rb.txHead.toNat = s.buffer s.bytes
  | .headWrap | .bytesInc =>
      s.regs.canier.tie1 = false ∧ s.data = s.bytes + 1
  | .load todo =>
      s.regs.tbs1 = true ∧ s.rb.txHead ≠ s.rb.txTail ∧
        (todo.foldl (CanRegs.loadField (s.rb.tx s.rb.txTail.toNat))
          s.regs).txFrame1 = (s.rb.tx s.rb.txTail.toNat).frame
  | .tailInc =>
      s.regs.tbs1 = true ∧ s.rb.txHead ≠ s.rb.txTail ∧
        s.regs.txFrame1 = (s.rb.tx s.rb.txTail.toNat).frame
  | .tailWrap | .enableTie1 | .requestTr => s.regs.tbs1 = true
  | _ => True

/-- The invariant of the undisturbed runs. -/
structure PreemptInv (s : WriteState) (f : Fifo CanMsg) : Prop where
  standsFor : StandsFor s.hist s.ring s.pending s.held f
  atPc : AtPc s s.pc

theorem PreemptInv.locked {s : WriteState} {f : Fifo CanMsg}
    (h : PreemptInv s f) (hpc : s.pc.locked = true) :
    s.regs.canier.tie1 = false := by
  have hat := h.atPc
  revert hat hpc
  cases s.pc <;> simp [Pc.locked, AtPc] <;> tauto

theorem PreemptInv.sending {s : WriteState} {f : Fifo CanMsg}
    (h : PreemptInv s f) (hpc : s.pc.sending = true) : s.regs.tbs1 = true := by
  have hat := h.atPc
  revert hat hpc
  cases s.pc <;> simp [Pc.sending, Pc.reading, Pc.holding, AtPc] <;> tauto

theorem PreemptInv.reading {s : WriteState} {f : Fifo CanMsg}
    (h : PreemptInv s f) (hpc : s.pc.reading = true) :
    s.rb.txHead ≠ s.rb.txTail := by
  have hat := h.atPc
  revert hat hpc
  cases s.pc <;> simp [Pc.reading, AtPc] <;> tauto

/-- The invariant gives the queue law. -/
theorem PreemptInv.correct {s : WriteState} {f : Fifo CanMsg}
    (h : PreemptInv s f) : PreemptCorrect s := by
  have hlen := congrArg List.length h.standsFor.loaded
  rw [List.length_append, List.length_map] at hlen
  have hheld : s.held.length ≤ 1 := by
    unfold WriteState.held
    split <;> simp
  refine ⟨⟨f.delivered.take s.hist.loaded.length, ?_, ?_⟩, h.sending,
    h.reading, h.standsFor.bounded, ⟨f.delivered, ?_, by omega, by omega⟩⟩
  · rw [h.standsFor.accepted]
    exact (List.take_prefix _ _).trans f.delivered_prefix
  · have hloaded : s.hist.loaded =
        (f.delivered.take s.hist.loaded.length).map CanMsg.frame := by
      rw [List.map_take, ← h.standsFor.loaded, List.take_left]
    rw [hloaded, List.length_map, List.length_take,
      min_eq_left (by omega), List.forall₂_map_left_iff, List.forall₂_same]
    exact fun m _ => frame_carries m
  · rw [h.standsFor.accepted, h.standsFor.queue, f.conserved,
      List.append_assoc]

/-! ## The main program's statements -/

/-- What stands for a queue depends on the history, not on the rest of the
device. -/
theorem StandsFor.of_same {h h' : TxHistory} {rb : CanRingBuffer}
    {pending : List CanMsg} {held : List Frame} {f : Fifo CanMsg}
    (hs : StandsFor h rb pending held f) (haccepted : h'.accepted = h.accepted)
    (hmark : h'.mark = h.mark)
    (hsent : h'.dev.regs.transmitted = h.dev.regs.transmitted) :
    StandsFor h' rb pending held f := by
  refine ⟨hs.bounded, haccepted.trans hs.accepted, hs.queue, ?_, ?_⟩
  · rw [hmark, hsent]
    exact hs.marked
  · rw [TxHistory.loaded, hmark, hsent]
    exact hs.loaded

/-- The statements before the loop. -/
theorem PreemptInv.main_entry {s : WriteState} {f : Fifo CanMsg}
    (h : PreemptInv s f)
    (hpc : s.pc ∈ [.initTest, .saveTie1, .saveTie2, .saveTie3, .lockTies]) :
    PreemptInv (mainStep s) f := by
  obtain ⟨hist, pc, buffer, n, data, bytes, saved1, saved2, saved3⟩ := s
  obtain ⟨hstands, hat⟩ := h
  cases pc with
  | initTest =>
      rw [mainStep_initTest rfl]
      split
      · exact ⟨hstands, hat⟩
      · exact ⟨hstands, trivial⟩
  | saveTie1 => exact ⟨hstands, hat⟩
  | saveTie2 => exact ⟨hstands, hat⟩
  | saveTie3 => exact ⟨hstands, hat⟩
  | lockTies => exact ⟨hstands.of_same rfl rfl rfl, rfl, hat⟩
  | _ => simp at hpc

/-- The loop's statements, from its test to the count. -/
theorem PreemptInv.main_loop {s : WriteState} {f : Fifo CanMsg}
    (h : PreemptInv s f) (hpc : s.pc.locked = true) :
    ∃ f', PreemptInv (mainStep s) f' := by
  obtain ⟨hist, pc, buffer, n, data, bytes, saved1, saved2, saved3⟩ := s
  obtain ⟨hstands, hat⟩ := h
  cases pc with
  | loopTest =>
      obtain ⟨hoff, hdata⟩ := hat
      have hfree : canGetFreeTxCount hist.dev.cfg.rb =
          255 - (hist.dev.cfg.rb.txQueue.length : ℤ) :=
        CanRingBuffer.canGetFreeTxCount_eq hstands.bounded
      refine ⟨f, ?_⟩
      rw [mainStep_loopTest rfl]
      split
      · next hgo =>
          have hpos : canGetFreeTxCount hist.dev.cfg.rb > 0 := hgo.2
          have hroom : hist.dev.cfg.rb.txQueue.length < 255 := by omega
          exact ⟨hstands, hoff, hdata, hroom⟩
      · exact ⟨hstands, trivial⟩
  | copy =>
      obtain ⟨hoff, hdata, hroom⟩ := hat
      have hqueue := CanRingBuffer.txQueue_update_head hstands.bounded
        (buffer data)
      refine ⟨f, ⟨hstands.bounded, hstands.accepted, ?_, hstands.marked,
        hstands.loaded⟩, hoff, hdata, ?_, ?_⟩
      · exact hqueue.trans hstands.queue
      · exact (congrArg List.length hqueue).trans_lt hroom
      · exact (Function.update_self _ _ _).trans (congrArg buffer hdata)
  | dataInc =>
      obtain ⟨hoff, hdata, hroom, hslot⟩ := hat
      exact ⟨f, hstands, hoff, congrArg (· + 1) hdata, hroom, hslot⟩
  | headInc =>
      -- The slot already holds the telegram, so the increment stores it.
      obtain ⟨hoff, hdata, hroom, hslot⟩ := hat
      have hqueue :=
        CanRingBuffer.txQueue_advanceHead hstands.bounded hroom
      refine ⟨f, ⟨⟨ringIncrement_inRing hstands.bounded.1,
        hstands.bounded.2⟩, hstands.accepted, ?_, hstands.marked,
        hstands.loaded⟩, hoff, hdata⟩
      refine hqueue.trans (congrArg₂ (· ++ ·) ?_ (congrArg (fun m => [m]) hslot))
      exact hstands.queue.trans (List.append_nil _)
  | headWrap =>
      exact ⟨f, hstands.of_same rfl rfl rfl, hat⟩
  | bytesInc =>
      obtain ⟨hoff, hdata⟩ := hat
      refine ⟨f.accept [buffer bytes], ⟨hstands.bounded, ?_, ?_,
        hstands.marked, hstands.loaded⟩, hoff, hdata⟩
      · exact congrArg (· ++ [buffer bytes]) hstands.accepted
      · exact hstands.queue.trans (List.append_nil _).symm
  | telegramsDec => exact ⟨f, hstands, hat⟩
  | _ => cases hpc

/-- The statements after the loop, up to the test of the buffer. -/
theorem PreemptInv.main_start {s : WriteState} {f : Fifo CanMsg}
    (h : PreemptInv s f) (hok : Undisturbed s .main)
    (hpc : s.pc ∈ [.outside, .restoreTie1, .restoreTie2, .restoreTie3,
      .emptyTest, .disableTie1, .tbs1Test]) :
    PreemptInv (mainStep s) f := by
  obtain ⟨hist, pc, buffer, n, data, bytes, saved1, saved2, saved3⟩ := s
  obtain ⟨hstands, -⟩ := h
  cases pc with
  | outside => exact ⟨hstands, trivial⟩
  | restoreTie1 => exact ⟨hstands.of_same rfl rfl rfl, trivial⟩
  | restoreTie2 => exact ⟨hstands.of_same rfl rfl rfl, trivial⟩
  | restoreTie3 => exact ⟨hstands.of_same rfl rfl rfl, trivial⟩
  | emptyTest =>
      rw [mainStep_emptyTest rfl]
      split
      · exact ⟨hstands, trivial⟩
      · exact ⟨hstands, trivial⟩
  | disableTie1 => exact ⟨hstands.of_same rfl rfl rfl, trivial⟩
  | tbs1Test =>
      rw [mainStep_tbs1Test rfl]
      split
      · next hfree =>
          refine ⟨hstands, hfree, hok rfl hfree, ?_⟩
          rw [foldl_loadField_all, loadTx1_txFrame1]
      · exact ⟨hstands, trivial⟩
  | _ => simp at hpc

/-- Writing a field of the buffer touches nothing else. -/
theorem loadField_frame (m : CanMsg) (r : CanRegs) (field : TxField) :
    (r.loadField m field).transmitted = r.transmitted ∧
      (r.loadField m field).tbs1 = r.tbs1 := by
  cases field <;> exact ⟨rfl, rfl⟩

/-- The statements from the first assignment to the buffer to the request. -/
theorem PreemptInv.main_send {s : WriteState} {f : Fifo CanMsg}
    (h : PreemptInv s f) (hpc : s.pc.sending = true) :
    ∃ f', PreemptInv (mainStep s) f' := by
  obtain ⟨hist, pc, buffer, n, data, bytes, saved1, saved2, saved3⟩ := s
  obtain ⟨hstands, hat⟩ := h
  cases pc with
  | load todo =>
      obtain ⟨hfree, hne, hframe⟩ := hat
      cases todo with
      | nil => exact ⟨f, hstands.of_same rfl rfl rfl, hfree, hne, hframe⟩
      | cons field todo =>
          have hkept := loadField_frame
            (hist.dev.cfg.rb.tx hist.dev.cfg.rb.txTail.toNat) hist.dev.regs
            field
          exact ⟨f, hstands.of_same rfl rfl hkept.1, hkept.2.trans hfree, hne,
            hframe⟩
  | tailInc =>
      obtain ⟨hfree, hne, hframe⟩ := hat
      have hsplit : f.queue =
          [hist.dev.cfg.rb.tx hist.dev.cfg.rb.txTail.toNat] ++
            hist.dev.cfg.rb.dropTx.txQueue := by
        refine ((List.append_nil _).symm.trans hstands.queue.symm).trans ?_
        exact CanRingBuffer.txQueue_eq_cons hstands.bounded hne
      refine ⟨f.deliver _ _ hsplit, ⟨hstands.bounded.dropTx,
        hstands.accepted, (List.append_nil _).symm, hstands.marked, ?_⟩,
        hfree⟩
      refine Eq.trans ?_ (List.map_append).symm
      refine congrArg₂ (· ++ ·) ((List.append_nil _).symm.trans hstands.loaded)
        (congrArg (fun x => [x]) hframe)
  | tailWrap => exact ⟨f, hstands.of_same rfl rfl rfl, hat⟩
  | enableTie1 => exact ⟨f, hstands.of_same rfl rfl rfl, hat⟩
  | requestTr =>
      have hmark : hist.mark ≤ hist.dev.regs.transmitted.length :=
        hstands.marked
      have hgrown : hist.mark ≤ (hist.dev.regs.transmitted ++
          [hist.dev.regs.txFrame1]).length := by
        rw [List.length_append]
        exact hmark.trans (Nat.le_add_right _ _)
      refine ⟨f, ⟨hstands.bounded, hstands.accepted, hstands.queue, hgrown,
        ?_⟩, trivial⟩
      refine Eq.trans ?_ hstands.loaded
      exact (List.append_nil _).trans (List.drop_append_of_le_length hmark)
  | _ => cases hpc

/-- A statement of the main program keeps the invariant. -/
theorem PreemptInv.main {s : WriteState} {f : Fifo CanMsg}
    (h : PreemptInv s f) (hok : Undisturbed s .main) :
    ∃ f', PreemptInv (mainStep s) f' := by
  by_cases hlocked : s.pc.locked = true
  · exact h.main_loop hlocked
  by_cases hsending : s.pc.sending = true
  · exact h.main_send hsending
  by_cases hentry :
      s.pc ∈ [.initTest, .saveTie1, .saveTie2, .saveTie3, .lockTies]
  · exact ⟨f, h.main_entry hentry⟩
  · refine ⟨f, h.main_start hok ?_⟩
    revert hlocked hsending hentry
    cases s.pc <;> simp [Pc.locked, Pc.sending, Pc.reading, Pc.holding]

/-! ## The other events -/

theorem PreemptInv.call {s : WriteState} {f : Fifo CanMsg}
    (h : PreemptInv s f) (buffer : ℕ → CanMsg) (n : ℤ)
    (hpc : s.pc = .outside) : PreemptInv (s.call buffer n) f := by
  have hstands := h.standsFor
  obtain ⟨hist, pc, _, _, _, _, _, _, _⟩ := s
  change pc = .outside at hpc
  subst hpc
  exact ⟨hstands, rfl⟩

/-- Outside the sending part the invariant asks little of the registers. -/
theorem PreemptInv.setRegs {s : WriteState} {f : Fifo CanMsg}
    (h : PreemptInv s f) (hpc : s.pc.sending = false) {r : CanRegs}
    (hsent : r.transmitted = s.regs.transmitted)
    (htie : r.canier.tie1 = s.regs.canier.tie1) :
    PreemptInv (s.setRegs r) f := by
  obtain ⟨hist, pc, buffer, n, data, bytes, saved1, saved2, saved3⟩ := s
  obtain ⟨hstands, hat⟩ := h
  cases pc
  all_goals first
    | exact ⟨hstands.of_same rfl rfl hsent, hat⟩
    | exact ⟨hstands.of_same rfl rfl hsent, htie.trans hat.1, hat.2⟩
    | exact absurd hpc Bool.noConfusion

/-- While the main program sends no frame is in flight. -/
theorem PreemptInv.frameCompletes {s : WriteState} {f : Fifo CanMsg}
    (h : PreemptInv s f) :
    PreemptInv (s.setRegs s.regs.frameCompletes) f := by
  cases hfree : s.regs.tbs1 with
  | true =>
      have hsame : s.regs.frameCompletes = s.regs := by
        simp [CanRegs.frameCompletes, hfree]
      rw [hsame]
      exact h
  | false =>
      have hpc : s.pc.sending = false := by
        by_contra hsending
        rw [Bool.not_eq_false] at hsending
        rw [h.sending hsending] at hfree
        cases hfree
      apply h.setRegs hpc
      · simp [CanRegs.frameCompletes, hfree]
      · simp [CanRegs.frameCompletes, hfree]

/-- Neither locked nor sending: the history alone stands for the queue. -/
theorem PreemptInv.refines {s : WriteState} {f : Fifo CanMsg}
    (h : PreemptInv s f) (hlocked : s.pc.locked = false)
    (hsending : s.pc.sending = false) : TxRefines s.hist f := by
  obtain ⟨hist, pc, buffer, n, data, bytes, saved1, saved2, saved3⟩ := s
  have hstands := h.standsFor
  cases pc
  all_goals first
    | exact absurd hlocked Bool.noConfusion
    | exact absurd hsending Bool.noConfusion
    | exact standsFor_iff_txRefines.mp hstands

theorem PreemptInv.setDev {s : WriteState} {f f' : Fifo CanMsg}
    (h : PreemptInv s f) (hlocked : s.pc.locked = false)
    (hsending : s.pc.sending = false) {d : CanDev}
    (hrefines : TxRefines { s.hist with dev := d } f') :
    PreemptInv (s.setDev d) f' := by
  obtain ⟨hist, pc, buffer, n, data, bytes, saved1, saved2, saved3⟩ := s
  have hat := h.atPc
  have hstands := standsFor_iff_txRefines.mpr hrefines
  cases pc
  all_goals first
    | exact absurd hlocked Bool.noConfusion
    | exact absurd hsending Bool.noConfusion
    | exact ⟨hstands, hat⟩

/-- With nothing queued the interrupt only goes off, also while a frame is
held. -/
theorem PreemptInv.interrupt_holding {s : WriteState} {f : Fifo CanMsg}
    (h : PreemptInv s f) (hpc : s.pc.holding = true)
    (hempty : s.rb.txHead = s.rb.txTail)
    (hlatched : s.regs.canicr.ti1 = true) :
    PreemptInv (s.setDev (transmitInterrupt s.dev)) f := by
  have hoff : transmitInterrupt s.dev =
      ⟨s.dev.cfg, s.regs.readIcr.2.setTie1 false⟩ := by
    rw [transmitInterrupt_latched (d := s.dev) hlatched]
    exact if_pos hempty
  rw [hoff]
  obtain ⟨hist, pc, buffer, n, data, bytes, saved1, saved2, saved3⟩ := s
  obtain ⟨hstands, hat⟩ := h
  cases pc
  all_goals first
    | exact absurd hpc Bool.noConfusion
    | exact ⟨hstands.of_same rfl rfl rfl, hat⟩

theorem PreemptInv.interrupt {s : WriteState} {f : Fifo CanMsg}
    (h : PreemptInv s f) (hok : Undisturbed s .interrupt)
    (henabled : InterruptEnabled s) :
    ∃ f', PreemptInv (s.setDev (transmitInterrupt s.dev)) f' := by
  have hlocked : s.pc.locked = false := by
    by_contra hlocked
    rw [Bool.not_eq_false] at hlocked
    have hoff := h.locked hlocked
    rw [henabled.2] at hoff
    cases hoff
  by_cases hsending : s.pc.sending = true
  · have hempty := hok henabled hsending
    have hholding : s.pc.holding = true := by
      by_contra hnot
      have hreading : s.pc.reading = true := by
        simpa [Pc.sending, hnot] using hsending
      exact h.reading hreading hempty
    exact ⟨f, h.interrupt_holding hholding hempty henabled.1⟩
  · rw [Bool.not_eq_true] at hsending
    have hread := h.setRegs hsending (r := s.regs.readIcr.2) rfl rfl
    obtain ⟨f', hrefines⟩ := (hread.refines hlocked hsending).transmit
    refine ⟨f', ?_⟩
    rw [transmitInterrupt_latched (d := s.dev) henabled.1]
    exact h.setDev hlocked hsending hrefines

theorem PreemptInv.step {s : WriteState} {f : Fifo CanMsg}
    (h : PreemptInv s f) (e : PreemptEvent) (hok : Undisturbed s e) :
    ∃ f', PreemptInv (preemptStep s e) f' := by
  cases e with
  | call buffer n =>
      by_cases hpc : s.pc = .outside
      · rw [preemptStep, if_pos hpc]
        exact ⟨f, h.call buffer n hpc⟩
      · rw [preemptStep, if_neg hpc]
        exact ⟨f, h⟩
  | main => exact h.main hok
  | frameCompletes => exact ⟨f, h.frameCompletes⟩
  | interrupt =>
      by_cases henabled : InterruptEnabled s
      · rw [preemptStep, if_pos henabled]
        exact h.interrupt hok henabled
      · rw [preemptStep, if_neg henabled]
        exact ⟨f, h⟩

theorem preemptInv_opened (ipbase : BitVec 32) (d : CanDev) :
    PreemptInv (.opened ipbase d) Fifo.empty :=
  ⟨standsFor_iff_txRefines.mpr (txRefines_fresh rfl), trivial⟩

/-- A disturbed step breaks the queue law at once: either the interrupt takes
the buffer while the main program writes it, or the main program goes on to
read a slot outside the ring. -/
theorem undisturbed_of_correct {s : WriteState} (e : PreemptEvent)
    (h : PreemptCorrect s) (hnext : PreemptCorrect (preemptStep s e)) :
    Undisturbed s e := by
  cases e with
  | call buffer n => trivial
  | frameCompletes => trivial
  | main =>
      intro hpc hfree
      have hstep : preemptStep s .main = s.goto (.load TxField.all) := by
        rw [preemptStep, mainStep_tbs1Test hpc, if_pos hfree]
      rw [hstep] at hnext
      exact hnext.queued rfl
  | interrupt =>
      intro henabled hsending
      by_contra hne
      have hfree : s.regs.tbs1 = true := h.free hsending
      have htaken : (transmitInterrupt s.dev).regs.tbs1 = false := by
        rw [transmitInterrupt_latched (d := s.dev) henabled.1]
        rcases canStandardTransmit_cases
            { cfg := s.dev.cfg, regs := s.dev.regs.readIcr.2 } with
          ⟨heq, _⟩ | ⟨_, _, hload⟩ | ⟨_, hbusy, _⟩
        · exact absurd heq hne
        · rw [hload]
          rfl
        · exact absurd (hfree.symm.trans hbusy) (by decide)
      rw [preemptStep, if_pos henabled] at hnext
      exact absurd ((hnext.free hsending).symm.trans htaken) (by decide)

/-- The queue law holds in every state of an interleaving exactly when the
interleaving leaves the sending part to itself. -/
theorem canWrite_preempt_fifo_iff (d : CanDev) (ipbase : BitVec 32)
    (es : List PreemptEvent) :
    Along preemptStep PreemptCorrect (.opened ipbase d) es ↔
      Admissible preemptStep Undisturbed (.opened ipbase d) es := by
  constructor
  · exact admissible_of_along (P := PreemptCorrect)
      (fun _ e h hnext => undisturbed_of_correct e h hnext)
  · intro hok
    have hinv : Along preemptStep (fun s => ∃ f, PreemptInv s f)
        (.opened ipbase d) es := by
      refine along_of_admissible ?_
        ⟨Fifo.empty, preemptInv_opened ipbase d⟩ hok
      rintro s e ⟨f, h⟩ hstep
      exact h.step e hstep
    refine hinv.mono ?_
    rintro s ⟨f, h⟩
    exact h.correct

/-- Telegram 1 is sent; telegram 2 is written, and the frame in flight
completes just before the call tests the buffer.  The interrupt, taken after
that test, loads telegram 2 and moves the tail; the call then loads the slot
behind it, which no telegram was ever stored in. -/
def staleLoad : List PreemptEvent :=
  .call (fun _ => .ofId 1) 1 :: List.replicate 40 .main ++
  .call (fun _ => .ofId 2) 1 :: List.replicate 17 .main ++
  [.frameCompletes, .main, .interrupt] ++ List.replicate 20 .main

theorem canWrite_preempt_loads_stale :
    let s := run preemptStep (.opened Ctrl.can1.base .powerOn) staleLoad
    s.hist.accepted.map (·.msgId) = [1, 2] ∧
      s.hist.loaded.map (·.id29) = [1, 2, 0] ∧ ¬PreemptCorrect s := by
  refine ⟨by decide +kernel, by decide +kernel, ?_⟩
  rintro ⟨⟨sent, hpre, hloaded⟩, -⟩
  have hlen := hpre.length_le
  rw [← hloaded.length_eq] at hlen
  revert hlen
  decide +kernel

/-- The same calls with the interrupt taken before the test of the buffer. -/
def earlyInterrupt : List PreemptEvent :=
  .call (fun _ => .ofId 1) 1 :: List.replicate 40 .main ++
  .call (fun _ => .ofId 2) 1 :: List.replicate 17 .main ++
  [.frameCompletes, .interrupt] ++ List.replicate 20 .main

theorem canWrite_preempt_fifo_iff_earlyInterrupt :
    let s := run preemptStep (.opened Ctrl.can1.base .powerOn) earlyInterrupt
    Along preemptStep PreemptCorrect (.opened Ctrl.can1.base .powerOn)
        earlyInterrupt ∧
      s.hist.loaded.map (·.id29) = [1, 2] := by
  refine ⟨?_, by decide +kernel⟩
  rw [canWrite_preempt_fifo_iff]
  decide +kernel

end EmbBoard.Can
