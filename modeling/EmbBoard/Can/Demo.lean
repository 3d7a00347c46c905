import EmbBoard.Can.Network

/-!
# The demo program

The main program of the CAN demo on the two controllers: it opens both, then
for ever composes a telegram with the next identifier, writes it to the first
controller, waits, and reads the second one until it is empty.  The bus and,
once they are enabled, the interrupts come between these calls in any order; a
driver call and a handler run are one step each.
-/

namespace EmbBoard.Can

open EmbBoard.Runs

/-! ## The program -/

/-- Where the program stands: the calls before interrupts are enabled that are
still to be made, or the part of the main loop. -/
inductive DemoPhase
  | setup (calls : List DriverCall)
  | compose
  | wait
  | read

/-- The program's variables, and how many telegrams it has composed. -/
structure Demo where
  net : Network
  txMsg : CanMsg
  rxMsg : CanMsg
  phase : DemoPhase
  composed : ℕ

inductive DemoEvent
  | main
  | interrupt
  | transfer (c : Ctrl) (received : Bool)
deriving DecidableEq

/-- `CAN_SET_BAUD_RATE`. -/
def setBaudRateCmd : ℤ := 0

/-- `BPS_125K`. -/
def bps125KArg : ℤ := 2

/-- The calls before the main loop. -/
def demoSetup : List DriverCall :=
  [.session (.canOpen Ctrl.can1.base),
    .canIoctl .can1 setBaudRateCmd bps125KArg [],
    .session (.canOpen Ctrl.can2.base),
    .canIoctl .can2 setBaudRateCmd bps125KArg []]

/-- `TxMsg.MsgID++; TxMsg.Frame.Bit.DLC = 7;` -/
def CanMsg.next (m : CanMsg) : CanMsg :=
  { m with msgId := m.msgId + 1, dlc := 7 }

def Demo.start (s : CanSystem) : Demo where
  net := .start s
  txMsg := .zero
  rxMsg := .zero
  phase := .setup demoSetup
  composed := 0

/-- One step of `main`. -/
def demoMain (d : Demo) : Demo :=
  match d.phase with
  | .setup [] => { d with phase := .compose }
  | .setup (call :: calls) =>
      { d with net := netStep d.net (.call call), phase := .setup calls }
  | .compose =>
      let txMsg := d.txMsg.next
      { d with
        net := netStep d.net (.call (.canWrite .can1 (fun _ => txMsg) 1))
        txMsg := txMsg
        phase := .wait
        composed := d.composed + 1 }
  | .wait => { d with phase := .read }
  | .read =>
      let net := netStep d.net (.call (.canRead .can2 1))
      match (canRead (d.net.sys.dev .can2) 1).1 with
      | [] => { d with net := net, phase := .compose }
      | m :: _ => { d with net := net, rxMsg := m }

def demoStep (d : Demo) : DemoEvent → Demo
  | .main => demoMain d
  | .interrupt =>
      match d.phase with
      | .setup _ => d
      | _ => { d with net := netStep d.net .interrupt }
  | .transfer c received =>
      { d with net := netStep d.net (.transfer c received) }

/-! ## What is sent -/

/-- The `k`-th telegram the program composes. -/
def telegram (k : ℕ) : CanMsg :=
  CanMsg.next^[k] .zero

theorem telegram_succ (k : ℕ) : telegram (k + 1) = (telegram k).next :=
  Function.iterate_succ_apply' _ _ _

/-- The write loop takes no more telegrams than are offered. -/
theorem canWriteLoop_le (buffer : ℕ → CanMsg) (n bytes : ℕ)
    (rb : CanRingBuffer) : (canWriteLoop buffer n bytes rb).1 ≤ bytes + n := by
  induction n generalizing bytes rb with
  | zero => exact le_refl _
  | succ n ih =>
      rw [canWriteLoop]
      split
      · have hle := ih (bytes + 1) (rb.putTx (buffer bytes))
        omega
      · exact Nat.le_add_right _ _

theorem canWrite_le (d : CanDev) (buffer : ℕ → CanMsg) (n : ℤ) :
    (canWrite d buffer n).1 ≤ n.toNat := by
  cases hinit : d.cfg.init with
  | false =>
      rw [canWrite_closed hinit]
      exact Nat.zero_le _
  | true =>
      have hle := canWriteLoop_le buffer n.toNat 0 d.cfg.rb
      rw [canWrite, if_pos hinit]
      simpa using hle

/-- A write of one telegram takes that telegram or none. -/
theorem canWrite_one_sublist (d : CanDev) (m : CanMsg) :
    List.Sublist ((List.range (canWrite d (fun _ => m) 1).1).map fun _ => m)
      [m] := by
  have hle := canWrite_le d (fun _ => m) 1
  have hcases : (canWrite d (fun _ => m) 1).1 = 0 ∨
      (canWrite d (fun _ => m) 1).1 = 1 := by
    have hone : (1 : ℤ).toNat = 1 := rfl
    omega
  rcases hcases with hnone | hone
  · rw [hnone]
    exact List.nil_sublist _
  · rw [hone]
    exact List.Sublist.refl _

/-- All telegrams composed so far. -/
def Demo.composedMsgs (d : Demo) : List CanMsg :=
  (List.range d.composed).map fun i => telegram (i + 1)

/-- Telegrams composed and telegrams accepted; the set-up accepts none. -/
structure Composes (d : Demo) : Prop where
  carried : Carried List.Sublist d.net
  txMsg : d.txMsg = telegram d.composed
  accepted : List.Sublist (d.net.accepted .can1) d.composedMsgs
  setup : ∀ calls, d.phase = .setup calls → ∀ call ∈ calls, call ∈ demoSetup

theorem callAccepted_demoSetup (s : CanSystem) {call : DriverCall}
    (h : call ∈ demoSetup) : callAccepted s call = fun _ => [] := by
  simp only [demoSetup, List.mem_cons, List.not_mem_nil, or_false] at h
  rcases h with rfl | rfl | rfl | rfl <;> rfl

/-- A step of the board that takes nothing from the caller. -/
theorem Composes.board {d d' : Demo} (h : Composes d) (e : NetEvent)
    (hnet : d'.net = netStep d.net e)
    (haccepted : d'.net.accepted .can1 = d.net.accepted .can1)
    (htx : d'.txMsg = d.txMsg) (hcomposed : d'.composed = d.composed)
    (hsetup : ∀ calls, d'.phase = .setup calls →
      ∀ call ∈ calls, call ∈ demoSetup) : Composes d' where
  carried := by
    rw [hnet]
    exact h.carried.step lossRel_sublist e (Or.inl List.nil_sublist)
  txMsg := by rw [htx, hcomposed, h.txMsg]
  accepted := by
    rw [haccepted, Demo.composedMsgs, hcomposed]
    exact h.accepted
  setup := hsetup

/-- Composing a telegram: it is accepted when the ring has room. -/
theorem Composes.compose {d : Demo} (h : Composes d)
    (hphase : d.phase = .compose) : Composes (demoMain d) := by
  rw [demoMain, hphase]
  have hmsgs : ∀ (net : Network) (m : CanMsg) (phase : DemoPhase),
      Demo.composedMsgs
        { d with
          net := net, txMsg := m, phase := phase, composed := d.composed + 1 } =
      d.composedMsgs ++ [d.txMsg.next] := by
    intro net m phase
    simp only [Demo.composedMsgs, List.range_succ, List.map_append,
      List.map_cons, List.map_nil, telegram_succ, ← h.txMsg]
  constructor
  · exact h.carried.step lossRel_sublist
      (.call (.canWrite .can1 (fun _ => d.txMsg.next) 1))
      (Or.inl List.nil_sublist)
  · simp only [h.txMsg, telegram_succ]
  · rw [hmsgs]
    refine h.accepted.append ?_
    simp only [callAccepted, Function.update_self]
    exact canWrite_one_sublist _ _
  · intro calls hcalls
    cases hcalls

theorem Composes.main {d : Demo} (h : Composes d) : Composes (demoMain d) := by
  cases hphase : d.phase with
  | setup calls =>
      have hcalls := h.setup calls hphase
      cases calls with
      | nil =>
          rw [demoMain, hphase]
          exact ⟨h.carried, h.txMsg, h.accepted, by rintro _ ⟨⟩⟩
      | cons call calls =>
          have hnone := callAccepted_demoSetup d.net.sys (hcalls call (by simp))
          rw [demoMain, hphase]
          refine h.board (.call call) rfl ?_ rfl rfl ?_
          · simp only [netStep, hnone, List.append_nil]
          · rintro _ ⟨⟩
            exact fun c hc => hcalls c (List.mem_cons_of_mem _ hc)
  | compose => exact h.compose hphase
  | wait =>
      rw [demoMain, hphase]
      exact ⟨h.carried, h.txMsg, h.accepted, by rintro _ ⟨⟩⟩
  | read =>
      have hsetup : ∀ d' : Demo, d'.phase = .compose ∨ d'.phase = .read →
          ∀ calls, d'.phase = .setup calls →
            ∀ call ∈ calls, call ∈ demoSetup := by
        rintro d' (h' | h') calls hcalls
        · rw [h'] at hcalls
          cases hcalls
        · rw [h'] at hcalls
          cases hcalls
      rw [demoMain, hphase]
      simp only
      split
      · exact h.board (.call (.canRead .can2 1)) rfl (List.append_nil _) rfl rfl
          (hsetup _ (Or.inl rfl))
      · exact h.board (.call (.canRead .can2 1)) rfl (List.append_nil _) rfl rfl
          (hsetup _ (Or.inr rfl))

theorem Composes.step {d : Demo} (h : Composes d) (e : DemoEvent) :
    Composes (demoStep d e) := by
  cases e with
  | main => exact h.main
  | interrupt =>
      rw [demoStep]
      split
      · exact h
      · exact h.board .interrupt rfl rfl rfl rfl h.setup
  | transfer c received =>
      exact h.board (.transfer c received) rfl rfl rfl rfl h.setup

/-- The main program makes no step. -/
def Quiet (es : List DemoEvent) : Prop :=
  ∀ e ∈ es, e ≠ .main

instance (es : List DemoEvent) : Decidable (Quiet es) :=
  inferInstanceAs (Decidable (∀ e ∈ es, e ≠ .main))

/-- From the write to the first read: the first transfer from the first
controller reaches the second one, and the handler runs after it.  Whatever
else happens, the main program only ends its waiting loop. -/
structure ServedWait (es : List DemoEvent) : Prop where
  main : es.count .main = 1
  served : ∃ before between after,
    es = before ++ .transfer .can1 true :: (between ++ .interrupt :: after) ∧
      ∀ received, .transfer .can1 received ∉ before

/-- What an event changes on the board while the main program makes no
call. -/
def boardStep (s : CanSystem) : DemoEvent → CanSystem
  | .main => s
  | .interrupt => driverStep s .interrupt
  | .transfer c received => busTransfer c received s

theorem demoStep_quiet {d : Demo} (hphase : ∀ calls, d.phase ≠ .setup calls)
    {e : DemoEvent} (he : e ≠ .main) :
    demoStep d e =
      { d with net := { d.net with sys := boardStep d.net.sys e } } := by
  cases e with
  | main => exact absurd rfl he
  | interrupt =>
      rw [demoStep]
      split
      · rename_i hsetup
        exact absurd hsetup (hphase _)
      · rfl
  | transfer c received => rfl

theorem run_quiet {d : Demo} (hphase : ∀ calls, d.phase ≠ .setup calls)
    {es : List DemoEvent} (hquiet : Quiet es) :
    run demoStep d es =
      { d with net := { d.net with sys := run boardStep d.net.sys es } } := by
  induction es generalizing d with
  | nil => rfl
  | cons e es ih =>
      have he : e ≠ .main := hquiet e List.mem_cons_self
      have hrest : Quiet es := fun e' he' =>
        hquiet e' (List.mem_cons_of_mem e he')
      rw [run_cons, run_cons, demoStep_quiet hphase he]
      exact ih hphase hrest

/-- Between the write and the first read the main program only ends its
waiting loop. -/
theorem run_wait {d : Demo} (hphase : d.phase = .wait) {es : List DemoEvent}
    (hmain : es.count .main = 1) :
    run demoStep d es =
      { d with
        net := { d.net with sys := run boardStep d.net.sys es }
        phase := .read } := by
  induction es generalizing d with
  | nil => cases hmain
  | cons e es ih =>
      by_cases he : e = .main
      · subst he
        have hquiet : Quiet es := by
          rintro e he rfl
          have hpos := List.count_pos_iff.mpr he
          rw [List.count_cons_self] at hmain
          omega
        have hwait : demoStep d .main = { d with phase := .read } := by
          rw [demoStep, demoMain, hphase]
        rw [run_cons, hwait]
        exact run_quiet (by rintro _ ⟨⟩) hquiet
      · have hnotSetup : ∀ calls, d.phase ≠ .setup calls := by
          rw [hphase]
          rintro _ ⟨⟩
        rw [List.count_cons_of_ne he] at hmain
        rw [run_cons, run_cons, demoStep_quiet hnotSetup he]
        exact ih hphase hmain

/-! ### The two devices -/

/-- `flying` is the frame in flight from a device, and nothing is queued
behind it. -/
structure Sender (d : CanDev) (flying : Option Frame) : Prop where
  sent : d.cfg.rb.txQueue = []
  free : d.regs.tbs1 = flying.isNone
  frame : ∀ f ∈ flying, d.regs.txFrame1 = f

/-- `arrived` is in the receive buffer of a device and `held` in its ring;
its receive interrupt is enabled, and it sends nothing. -/
structure Receiver (d : CanDev) (arrived : Option Frame)
    (held : List CanMsg) : Prop where
  silent : d.regs.tbs1 = true
  enabled : d.regs.canier.rie = true
  latched : d.regs.canicr.ri = arrived.isSome
  frame : ∀ f ∈ arrived, d.regs.rxFrame = f
  read : d.cfg.rb.rxQueue = held

/-- A telegram written to a device with nothing to send goes into the transmit
buffer at once. -/
theorem Sender.write {d : CanDev} (h : Sender d none)
    (hinit : d.cfg.init = true) (hb : d.RingsBounded) (m : CanMsg) :
    Sender (canWrite d (fun _ => m) 1).2 (some m.frame) := by
  obtain ⟨rb, hbounded, hqueue, hwrite⟩ :=
    canWrite_spec hinit hb.tx (fun _ => m) 1
  have hone : rb.txQueue = [m] := by
    rw [hqueue, h.sent]
    rfl
  have hne : rb.txHead ≠ rb.txTail := by
    rw [← CanRingBuffer.txQueue_ne_nil_iff hbounded, hone]
    exact List.cons_ne_nil m []
  have hcons := CanRingBuffer.txQueue_eq_cons hbounded hne
  rw [hone] at hcons
  obtain ⟨hm, hrest⟩ := List.cons.inj hcons
  rw [hwrite]
  rcases canStandardTransmit_cases
      { cfg := { d.cfg with rb := rb }, regs := d.regs } with
    ⟨heq, _⟩ | ⟨_, _, hload⟩ | ⟨_, htaken, _⟩
  · exact absurd heq hne
  · rw [hload]
    refine ⟨hrest.symm, rfl, ?_⟩
    rintro f ⟨⟩
    rw [hm]
    exact loadTx1_txFrame1 _ d.regs
  · exact absurd (h.free.symm.trans htaken) (by decide)

theorem Sender.completes {d : CanDev} {flying : Option Frame}
    (h : Sender d flying) : Sender d.completes none := by
  refine ⟨h.sent, ?_, by rintro _ ⟨⟩⟩
  unfold CanDev.completes CanRegs.frameCompletes
  split
  · assumption
  · rfl

/-- The handler keeps the transmit buffer and ring as they are. -/
theorem Sender.serve {d : CanDev} {flying : Option Frame}
    (h : Sender d flying) : Sender (serveController d) flying := by
  rw [serveController_eq]
  split <;> exact ⟨h.sent, h.free, h.frame⟩

section Receiver

variable {d : CanDev} {held : List CanMsg}

theorem Receiver.arrives (h : Receiver d none held) (f : Frame) :
    Receiver (d.arrives f) (some f) held := by
  refine ⟨h.silent, h.enabled, ?_, ?_, h.read⟩
  · simp [CanDev.arrives, CanRegs.frameArrives, h.enabled]
  · rintro _ ⟨⟩
    exact rxFrame_frameArrives f d.regs

theorem Receiver.serve_none (h : Receiver d none held) :
    Receiver (serveController d) none held := by
  have hri : d.regs.canicr.ri = false := h.latched
  rw [serveController_eq, hri]
  exact ⟨h.silent, h.enabled, hri, h.frame, h.read⟩

/-- A frame in the receive buffer is in the ring once the handler has run. -/
theorem Receiver.serve_some {f : Frame} (h : Receiver d (some f) [])
    (hb : d.RingsBounded) :
    ∃ m, m.frame = f ∧ Receiver (serveController d) none [m] := by
  have hri : d.regs.canicr.ri = true := h.latched
  let m := (d.cfg.rb.rx d.cfg.rb.rxHead.toNat).receive d.regs
  have hput := CanRingBuffer.rxQueue_putRx hb.rx m
    (by rw [h.read]; decide)
  rw [h.read] at hput
  refine ⟨m, ?_, ?_⟩
  · rw [← h.frame f rfl]
    exact receive_frame _ _
  · rw [serveController_eq, if_pos hri]
    exact ⟨h.silent, h.enabled, rfl, by rintro _ ⟨⟩, hput⟩

/-- A read of one telegram takes the oldest one held, if there is one. -/
theorem Receiver.reads (h : Receiver d none held)
    (hinit : d.cfg.init = true) (hb : d.RingsBounded) :
    (canRead d 1).1 = held.take 1 ∧
      Receiver (canRead d 1).2 none (held.drop 1) := by
  obtain ⟨hdata, hqueue, _, _⟩ := canRead_spec hinit hb.rx 1
  rw [h.read] at hdata hqueue
  refine ⟨hdata, ?_, ?_, ?_, by rintro _ ⟨⟩, hqueue⟩
  · rw [canRead, if_pos hinit]
    exact h.silent
  · rw [canRead, if_pos hinit]
    exact h.enabled
  · rw [canRead, if_pos hinit]
    exact h.latched

end Receiver

/-! ### The board -/

/-- Both controllers are open; `flying` is in flight from the first one, and
`arrived` and `held` are in the second one. -/
structure BoardState (s : CanSystem) (flying arrived : Option Frame)
    (held : List CanMsg) : Prop where
  opened : BothOpen s
  installed : s.handlerInstalled = true
  bounded : ∀ c, (s.dev c).RingsBounded
  sender : Sender (s.dev .can1) flying
  receiver : Receiver (s.dev .can2) arrived held

theorem BothOpen.wired {s : CanSystem} (h : BothOpen s) : Wired s :=
  fun c => Or.inl (h c).2

theorem onDev_installed {s t : CanSystem} {c : Ctrl} {f : CanDev → CanDev}
    (ht : s.onDev c f = some t) : t.handlerInstalled = s.handlerInstalled := by
  obtain ⟨p, _, rfl⟩ := Option.map_eq_some_iff.mp ht
  rfl

theorem canHandler_installed {s t : CanSystem} (ht : canHandler s = some t) :
    t.handlerInstalled = s.handlerInstalled := by
  obtain ⟨s₁, hfirst, hsecond⟩ := Option.bind_eq_some_iff.mp ht
  rw [onDev_installed hsecond, onDev_installed hfirst]

theorem busTransfer_installed (s : CanSystem) (c : Ctrl) (received : Bool) :
    (busTransfer c received s).handlerInstalled = s.handlerInstalled := by
  unfold busTransfer
  split
  · rfl
  · cases received <;> rfl

theorem BothOpen.of_handles {s t : CanSystem} (h : BothOpen s)
    (hsame : SameHandles s t) : BothOpen t := by
  intro c
  rw [(hsame c).1, (hsame c).2]
  exact h c

section Board

variable {s : CanSystem} {flying arrived : Option Frame} {held : List CanMsg}

theorem BoardState.write (h : BoardState s none arrived held) (m : CanMsg) :
    BoardState (driverStep s (.call (.canWrite .can1 (fun _ => m) 1)))
      (some m.frame) arrived held := by
  have hstep : driverStep s (.call (.canWrite .can1 (fun _ => m) 1)) =
      s.setDev .can1 (canWrite (s.dev .can1) (fun _ => m) 1).2 := by
    simp only [driverStep, callStep,
      h.opened.wired.onOpenDev_open (h.opened .can1).1]
    rfl
  have hmoves := moves_canWrite lossRel_eq h.opened.wired h.bounded .can1
    (fun _ => m) 1
  rw [hstep] at hmoves ⊢
  constructor
  · exact h.opened.setDev (canWrite_cfg _ _ _).1 (canWrite_cfg _ _ _).2
  · exact h.installed
  · exact fun c => (hmoves c).bounded
  · rw [setDev_dev, if_pos rfl]
    exact h.sender.write (h.opened .can1).1 (h.bounded .can1) m
  · rw [setDev_dev, if_neg (by decide)]
    exact h.receiver

/-- A read of one telegram takes the oldest one held, if there is one. -/
theorem BoardState.reads (h : BoardState s flying none held) :
    (canRead (s.dev .can2) 1).1 = held.take 1 ∧
      BoardState (driverStep s (.call (.canRead .can2 1))) flying none
        (held.drop 1) := by
  have hstep : driverStep s (.call (.canRead .can2 1)) =
      s.setDev .can2 (canRead (s.dev .can2) 1).2 := by
    simp only [driverStep, callStep,
      h.opened.wired.onOpenDev_open (h.opened .can2).1]
    rfl
  obtain ⟨hdata, hreceiver⟩ :=
    h.receiver.reads (h.opened .can2).1 (h.bounded .can2)
  have hmoves := moves_canRead lossRel_eq h.opened.wired h.bounded .can2 1
  rw [hstep] at hmoves ⊢
  refine ⟨hdata, ?_⟩
  constructor
  · exact h.opened.setDev (canRead_cfg _ _).1 (canRead_cfg _ _).2
  · exact h.installed
  · exact fun c => (hmoves c).bounded
  · rw [setDev_dev, if_neg (by decide)]
    exact h.sender
  · rw [setDev_dev, if_pos rfl]
    exact hreceiver

/-- A transfer with no frame in flight changes nothing. -/
theorem BoardState.transfer_idle (h : BoardState s flying arrived held)
    {c : Ctrl} (hidle : c = .can1 → flying = none) (received : Bool) :
    busTransfer c received s = s := by
  apply busTransfer_idle
  cases c with
  | can1 =>
      have hfree := h.sender.free
      rw [hidle rfl] at hfree
      exact hfree
  | can2 => exact h.receiver.silent

/-- The frame in flight crosses the bus, -/
theorem BoardState.transfer {f : Frame}
    (h : BoardState s (some f) none held) :
    BoardState (busTransfer .can1 true s) none (some f) held := by
  have htaken : (s.regs .can1).tbs1 = false := h.sender.free
  have hsender := busTransfer_sender htaken true
  have hreceiver := busTransfer_receiver htaken true
  rw [if_pos rfl, h.sender.frame f rfl] at hreceiver
  constructor
  · exact h.opened.of_handles (busTransfer_handles s .can1 true)
  · rw [busTransfer_installed]
    exact h.installed
  · intro c
    refine ⟨?_, ?_⟩
    · rw [busTransfer_rings]
      exact (h.bounded c).tx
    · rw [busTransfer_rings]
      exact (h.bounded c).rx
  · rw [hsender]
    exact h.sender.completes
  · exact hreceiver ▸ h.receiver.arrives f

/-- and the handler serves both devices. -/
theorem BoardState.interrupt (h : BoardState s flying arrived held)
    {arrived' : Option Frame} {held' : List CanMsg}
    (hserve : Receiver (serveController (s.dev .can2)) arrived' held') :
    BoardState (driverStep s .interrupt) flying arrived' held' := by
  obtain ⟨t, ht, hserved⟩ := canHandler_of_open h.opened
  have hstep : driverStep s .interrupt = t := by
    rw [driverStep, if_pos h.installed, ht, Option.getD_some]
  have hmoves := moves_interrupt lossRel_sublist h.opened.wired h.bounded
    (Or.inl List.nil_sublist)
  rw [hstep] at hmoves ⊢
  constructor
  · exact h.opened.of_handles (h.opened.wired.handler_handles ht)
  · rw [canHandler_installed ht]
    exact h.installed
  · exact fun c => (hmoves c).bounded
  · rw [hserved]
    exact h.sender.serve
  · rw [hserved]
    exact hserve

/-! ### Runs of the board -/

/-- With nothing under way, events change nothing, -/
theorem BoardState.run_idle (h : BoardState s none none held)
    (es : List DemoEvent) :
    BoardState (run boardStep s es) none none held := by
  refine invariant_run (I := fun s => BoardState s none none held) ?_ h es
  intro s e h
  cases e with
  | main => exact h
  | interrupt => exact h.interrupt h.receiver.serve_none
  | transfer c received =>
      rw [boardStep, h.transfer_idle (fun _ => rfl)]
      exact h

/-- and a frame in flight stays there until it is transferred. -/
theorem BoardState.run_flying {f : Frame} (h : BoardState s (some f) none held)
    {es : List DemoEvent} (hes : ∀ received, .transfer .can1 received ∉ es) :
    BoardState (run boardStep s es) (some f) none held := by
  induction es generalizing s with
  | nil => exact h
  | cons e es ih =>
      have hrest : ∀ received, .transfer .can1 received ∉ es :=
        fun received hmem => hes received (List.mem_cons_of_mem e hmem)
      refine ih ?_ hrest
      cases e with
      | main => exact h
      | interrupt => exact h.interrupt h.receiver.serve_none
      | transfer c received =>
          have hc : c = .can1 → some f = none := by
            rintro rfl
            exact absurd List.mem_cons_self (hes received)
          rw [boardStep, h.transfer_idle hc]
          exact h

/-- A frame that has arrived is in the receive buffer or in the ring. -/
def Arrived (s : CanSystem) (f : Frame) : Prop :=
  BoardState s none (some f) [] ∨
    ∃ m, m.frame = f ∧ BoardState s none none [m]

theorem Arrived.interrupt {f : Frame} (h : Arrived s f) :
    ∃ m, m.frame = f ∧ BoardState (driverStep s .interrupt) none none [m] := by
  rcases h with hbuffer | ⟨m, hm, hring⟩
  · obtain ⟨m, hm, hserve⟩ :=
      hbuffer.receiver.serve_some (hbuffer.bounded .can2)
    exact ⟨m, hm, hbuffer.interrupt hserve⟩
  · exact ⟨m, hm, hring.interrupt hring.receiver.serve_none⟩

theorem Arrived.run {f : Frame} (h : Arrived s f) (es : List DemoEvent) :
    Arrived (run boardStep s es) f := by
  refine invariant_run (I := fun s => Arrived s f) ?_ h es
  intro s e h
  cases e with
  | main => exact h
  | interrupt => exact Or.inr h.interrupt
  | transfer c received =>
      have hidle : busTransfer c received s = s := by
        rcases h with hbuffer | ⟨m, _, hring⟩
        · exact hbuffer.transfer_idle (fun _ => rfl) received
        · exact hring.transfer_idle (fun _ => rfl) received
      rw [boardStep, hidle]
      exact h

/-- A wait in which the bus and the handler do their part brings the frame in
flight into the ring. -/
theorem BoardState.served {f : Frame} (h : BoardState s (some f) none [])
    {es : List DemoEvent} (hwait : ServedWait es) :
    ∃ m, m.frame = f ∧ BoardState (run boardStep s es) none none [m] := by
  obtain ⟨before, between, after, rfl, hbefore⟩ := hwait.served
  have harrived : Arrived (busTransfer .can1 true (run boardStep s before)) f :=
    Or.inl (h.run_flying hbefore).transfer
  obtain ⟨m, hm, hring⟩ := (harrived.run between).interrupt
  refine ⟨m, hm, ?_⟩
  rw [run_append, run_cons, run_append, run_cons]
  exact hring.run_idle after

end Board

/-! ## One round -/

/-- What the program has in its variables, and what it has read. -/
structure DemoView where
  phase : DemoPhase
  txMsg : CanMsg
  rxMsg : CanMsg
  composed : ℕ
  copied : List CanMsg

def Demo.view (d : Demo) : DemoView where
  phase := d.phase
  txMsg := d.txMsg
  rxMsg := d.rxMsg
  composed := d.composed
  copied := d.net.copied .can2

/-- Where the program stands, and the board with it. -/
structure Stage (d : Demo) (v : DemoView) (flying : Option Frame)
    (held : List CanMsg) : Prop where
  view : d.view = v
  board : BoardState d.net.sys flying none held

section Round

variable {d : Demo} {v : DemoView} {held : List CanMsg}

theorem Stage.phase_eq {flying : Option Frame} (h : Stage d v flying held) :
    d.phase = v.phase := by
  rw [← h.view]
  rfl

theorem Stage.quiet (h : Stage d v none held)
    (hphase : v.phase = .compose ∨ v.phase = .read) {es : List DemoEvent}
    (hes : Quiet es) : Stage (run demoStep d es) v none held := by
  have hnotSetup : ∀ calls, d.phase ≠ .setup calls := by
    intro calls
    rw [h.phase_eq]
    rcases hphase with hphase | hphase
    · rw [hphase]
      rintro ⟨⟩
    · rw [hphase]
      rintro ⟨⟩
  rw [run_quiet hnotSetup hes]
  exact ⟨h.view, h.board.run_idle es⟩

/-- The write, -/
theorem Stage.compose (h : Stage d v none held)
    (hphase : v.phase = .compose) :
    Stage (demoStep d .main)
      { v with
        phase := .wait
        txMsg := v.txMsg.next
        composed := v.composed + 1 }
      (some v.txMsg.next.frame) held := by
  have hd : d.phase = .compose := h.phase_eq.trans hphase
  obtain ⟨rfl, hboard⟩ := h
  rw [demoStep, demoMain, hd]
  refine ⟨?_, hboard.write d.txMsg.next⟩
  simp only [Demo.view, netStep, callCopied, List.append_nil]

/-- the wait, -/
theorem Stage.wait {f : Frame} (h : Stage d v (some f) [])
    (hphase : v.phase = .wait) {es : List DemoEvent} (hes : ServedWait es) :
    ∃ m, m.frame = f ∧
      Stage (run demoStep d es) { v with phase := .read } none [m] := by
  have hd : d.phase = .wait := h.phase_eq.trans hphase
  obtain ⟨m, hm, hboard⟩ := h.board.served hes
  refine ⟨m, hm, ?_⟩
  rw [run_wait hd hes.main]
  obtain ⟨rfl, _⟩ := h
  exact ⟨rfl, hboard⟩

/-- the read that finds the telegram, -/
theorem Stage.read {m : CanMsg} (h : Stage d v none [m])
    (hphase : v.phase = .read) :
    Stage (demoStep d .main)
      { v with rxMsg := m, copied := v.copied ++ [m] } none [] := by
  have hd : d.phase = .read := h.phase_eq.trans hphase
  obtain ⟨hgot, hboard⟩ := h.board.reads
  obtain ⟨rfl, _⟩ := h
  have hgot' : (canRead (d.net.sys.dev .can2) 1).1 = [m] := hgot
  simp only [demoStep, demoMain, hd, hgot']
  refine ⟨?_, hboard⟩
  simp only [Demo.view, netStep, callCopied, Function.update_self, hgot', hd]

/-- and the one that finds nothing. -/
theorem Stage.empty (h : Stage d v none []) (hphase : v.phase = .read) :
    Stage (demoStep d .main) { v with phase := .compose } none [] := by
  have hd : d.phase = .read := h.phase_eq.trans hphase
  obtain ⟨hgot, hboard⟩ := h.board.reads
  obtain ⟨rfl, _⟩ := h
  have hgot' : (canRead (d.net.sys.dev .can2) 1).1 = [] := hgot
  simp only [demoStep, demoMain, hd, hgot']
  refine ⟨?_, hboard⟩
  simp only [Demo.view, netStep, callCopied, Function.update_self, hgot',
    List.append_nil]

end Round

/-! ## Whole runs of served rounds -/

/-- No frame is in flight while the program still makes its set-up calls. -/
structure Silent (calls : List DriverCall) (d : Demo) : Prop where
  phase : d.phase = .setup calls
  calls : ∀ call ∈ calls, call ∈ demoSetup
  carried : Carried List.Sublist d.net
  outbound : ∀ c, (d.net.sys.dev c).outbound = []

theorem tbs1_of_outbound {d : CanDev} (h : d.outbound = []) :
    d.regs.tbs1 = true := by
  unfold CanDev.outbound at h
  split at h
  · assumption
  · cases h

/-- Until interrupts are enabled only the program acts. -/
theorem Silent.quiet {calls : List DriverCall} {d : Demo}
    (h : Silent calls d) {e : DemoEvent} (he : e ≠ .main) :
    demoStep d e = d := by
  cases e with
  | main => exact absurd rfl he
  | interrupt => rw [demoStep, h.phase]
  | transfer c received =>
      rw [demoStep, netStep,
        busTransfer_idle (tbs1_of_outbound (h.outbound c))]

theorem Silent.call {call : DriverCall} {calls : List DriverCall} {d : Demo}
    (h : Silent (call :: calls) d) : Silent calls (demoStep d .main) := by
  have hcall : call ∈ demoSetup := h.calls call List.mem_cons_self
  have hmoves := moves_call lossRel_sublist h.carried.wired h.carried.bounded
    call (Or.inl List.nil_sublist)
  rw [callAccepted_demoSetup _ hcall] at hmoves
  rw [demoStep, demoMain, h.phase]
  constructor
  · rfl
  · exact fun c hc => h.calls c (List.mem_cons_of_mem _ hc)
  · exact h.carried.step lossRel_sublist (.call call) (Or.inl List.nil_sublist)
  · intro c
    have hout := (hmoves c).outbound
    rw [h.outbound c] at hout
    exact List.sublist_nil.mp hout

/-- Whatever happens during the set-up, it ends as if the program ran alone,
and what happens after it comes before the first round. -/
theorem Silent.run {calls : List DriverCall} {d : Demo} (h : Silent calls d)
    {es : List DemoEvent} (hes : es.count .main = calls.length + 1) :
    ∃ after, Quiet after ∧ run demoStep d es =
      run demoStep
        (run demoStep d (List.replicate (calls.length + 1) .main)) after := by
  induction es generalizing calls d with
  | nil => cases hes
  | cons e es ih =>
      by_cases he : e = .main
      · subst he
        rw [List.count_cons_self] at hes
        cases calls with
        | nil =>
            refine ⟨es, ?_, rfl⟩
            rintro e he rfl
            have hpos := List.count_pos_iff.mpr he
            rw [List.length_nil] at hes
            omega
        | cons call calls =>
            exact ih h.call (by simpa using hes)
      · rw [List.count_cons_of_ne he] at hes
        rw [run_cons, h.quiet he]
        exact ih h hes

end EmbBoard.Can
