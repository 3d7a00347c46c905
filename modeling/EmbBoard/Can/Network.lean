import EmbBoard.Can.Ownership
import EmbBoard.Can.Relays

/-!
# Two controllers on one bus

The board's two controllers connected to each other, as the demo program
connects them: what one sends, the other receives.  Driver calls, interrupts
and the bus take turns in any order.  Each direction is a relay from the
telegrams that `can_write` accepts on one controller to the telegrams that
`can_read` copies on the other, through the transmit ring, transmit buffer 1,
the receive buffer and the receive ring.  A driver call and a handler run are
one step each, and the receive buffer is the one that `CanRegs.frameArrives`
assumes.
-/

namespace EmbBoard.Can

open EmbBoard.Runs

/-! ## The bus -/

/-- The controller at the other end of the bus. -/
def Ctrl.other : Ctrl → Ctrl
  | .can1 => .can2
  | .can2 => .can1

theorem Ctrl.other_ne (c : Ctrl) : c.other ≠ c := by
  cases c <;> decide

theorem Ctrl.other_other (c : Ctrl) : c.other.other = c := by
  cases c <;> rfl

/-- The frame in flight from `c` completes, and the other controller receives
it or does not.  Without a frame in flight nothing happens. -/
def busTransfer (c : Ctrl) (received : Bool) (s : CanSystem) : CanSystem :=
  if (s.dev c).regs.tbs1 then s
  else
    let f := (s.dev c).regs.txFrame1
    let s := s.setDev c (s.dev c).completes
    if received then s.setDev c.other ((s.dev c.other).arrives f) else s

inductive NetEvent
  | call (call : DriverCall)
  | interrupt
  | transfer (c : Ctrl) (received : Bool)

/-- The telegrams a call takes from its caller, for each controller. -/
def callAccepted (s : CanSystem) : DriverCall → Ctrl → List CanMsg
  | .canWrite devid buffer nTelegrams =>
      Function.update (fun _ => []) devid
        ((List.range (canWrite (s.dev devid) buffer nTelegrams).1).map buffer)
  | _ => fun _ => []

/-- The telegrams a call hands to its caller, for each controller. -/
def callCopied (s : CanSystem) : DriverCall → Ctrl → List CanMsg
  | .canRead devid maxBytes =>
      Function.update (fun _ => []) devid (canRead (s.dev devid) maxBytes).1
  | _ => fun _ => []

/-- The board with what the callers of `can_write` and `can_read` saw. -/
structure Network where
  sys : CanSystem
  accepted : Ctrl → List CanMsg
  copied : Ctrl → List CanMsg

def Network.start (s : CanSystem) : Network where
  sys := s
  accepted := fun _ => []
  copied := fun _ => []

def netStep (n : Network) : NetEvent → Network
  | .call call =>
      { sys := driverStep n.sys (.call call)
        accepted := fun c => n.accepted c ++ callAccepted n.sys call c
        copied := fun c => n.copied c ++ callCopied n.sys call c }
  | .interrupt => { n with sys := driverStep n.sys .interrupt }
  | .transfer c received => { n with sys := busTransfer c received n.sys }

/-! ## One step of the board -/

/-- Nothing is there to be lost in a step: rings are reset while they are
empty, a latched frame finds room in its ring, and a frame on the bus reaches a
listening device. -/
def Keeps (s : CanSystem) : NetEvent → Prop
  | .call (.session (.canOpen ipbase)) => ∀ c, ipbase = c.base →
      (s.cfg c).init = false → (s.dev c).RingsEmpty
  | .call (.canIoctl devid cmd _ _) =>
      (s.cfg devid).init = true →
        CanIoctlCmd.ofInt cmd = some .setBaudRate → (s.dev devid).RingsEmpty
  | .call _ => True
  | .interrupt => s.handlerInstalled = true → (canHandler s).isSome →
      ∀ c, (s.regs c).canicr.ri = true →
        (s.dev c).cfg.rb.rxQueue.length < 255
  | .transfer c received => (s.regs c).tbs1 = false →
      received = true ∧ (s.dev c.other).Listening

theorem setDev_self (s : CanSystem) (c : Ctrl) : s.setDev c (s.dev c) = s := by
  simp [CanSystem.setDev, CanSystem.dev]

/-- Every device takes, hands out and holds as `Relays` says. -/
def Moves (R : List Frame → List Frame → Prop) (taken given : Ctrl → List CanMsg)
    (s t : CanSystem) : Prop :=
  ∀ c, Relays R (taken c) (given c) (s.dev c) (t.dev c)

section System

variable {R : List Frame → List Frame → Prop} {s t : CanSystem}

theorem Moves.of_dev (hR : LossRel R) (hb : ∀ c, (s.dev c).RingsBounded)
    (hdev : ∀ c, t.dev c = s.dev c) :
    Moves R (fun _ => []) (fun _ => []) s t := by
  intro c
  rw [hdev c]
  exact (Relays.refl (hb c)).of_eq hR

theorem Moves.setDev (hR : LossRel R) (hb : ∀ c, (s.dev c).RingsBounded)
    {c : Ctrl} {d : CanDev} {taken given : List CanMsg}
    (h : Relays R taken given (s.dev c) d) :
    Moves R (Function.update (fun _ => []) c taken)
      (Function.update (fun _ => []) c given) s (s.setDev c d) := by
  intro c'
  rw [setDev_dev]
  by_cases hc : c' = c
  · subst hc
    rw [if_pos rfl, Function.update_self, Function.update_self]
    exact h
  · rw [if_neg hc, Function.update_of_ne hc, Function.update_of_ne hc]
    exact (Relays.refl (hb c')).of_eq hR

/-- A device that only changes itself, and takes and hands out nothing. -/
theorem Moves.setDev_nil (hR : LossRel R) (hb : ∀ c, (s.dev c).RingsBounded)
    {c : Ctrl} {d : CanDev} (h : Relays R [] [] (s.dev c) d) :
    Moves R (fun _ => []) (fun _ => []) s (s.setDev c d) := by
  have hmoves := Moves.setDev hR hb h
  rwa [show Function.update (fun _ : Ctrl => ([] : List CanMsg)) c [] =
    fun _ => [] from Function.update_eq_self c _] at hmoves

/-- On an open device a call acts on the controller's own registers. -/
theorem Wired.onOpenDev_open (hw : Wired s) {c : Ctrl}
    (hinit : (s.cfg c).init = true) (f : CanDev → Option CanDev) :
    s.onOpenDev c f = (f (s.dev c)).map (s.setDev c) := by
  rw [CanSystem.onOpenDev, if_pos hinit, hw.regptr_of_init hinit, ofBase_base]
  rfl

theorem onOpenDev_closed {c : Ctrl} (hinit : (s.cfg c).init = false)
    (f : CanDev → Option CanDev) : s.onOpenDev c f = some s := by
  rw [CanSystem.onOpenDev, hinit]
  rfl

theorem moves_canWrite (hR : LossRel R) (hw : Wired s)
    (hb : ∀ c, (s.dev c).RingsBounded) (devid : Ctrl) (buffer : ℕ → CanMsg)
    (n : ℤ) :
    Moves R (callAccepted s (.canWrite devid buffer n)) (fun _ => []) s
      (driverStep s (.call (.canWrite devid buffer n))) := by
  have hrelays := (relays_canWrite (hb devid) buffer n).of_eq hR
  have hstep : driverStep s (.call (.canWrite devid buffer n)) =
      s.setDev devid (canWrite (s.dev devid) buffer n).2 := by
    cases hinit : (s.cfg devid).init with
    | true =>
        simp only [driverStep, callStep, hw.onOpenDev_open hinit]
        rfl
    | false =>
        have hclosed : (s.dev devid).cfg.init = false := hinit
        simp only [driverStep, callStep, onOpenDev_closed hinit,
          canWrite_closed hclosed, setDev_self]
        rfl
  have hmoves := Moves.setDev hR hb hrelays
  rw [hstep]
  rwa [show Function.update (fun _ : Ctrl => ([] : List CanMsg)) devid [] =
    fun _ => [] from Function.update_eq_self devid _] at hmoves

theorem moves_canRead (hR : LossRel R) (hw : Wired s)
    (hb : ∀ c, (s.dev c).RingsBounded) (devid : Ctrl) (n : ℤ) :
    Moves R (fun _ => []) (callCopied s (.canRead devid n)) s
      (driverStep s (.call (.canRead devid n))) := by
  have hrelays := (relays_canRead (hb devid) n).of_eq hR
  have hstep : driverStep s (.call (.canRead devid n)) =
      s.setDev devid (canRead (s.dev devid) n).2 := by
    cases hinit : (s.cfg devid).init with
    | true =>
        simp only [driverStep, callStep, hw.onOpenDev_open hinit]
        rfl
    | false =>
        have hclosed : (s.dev devid).cfg.init = false := hinit
        simp only [driverStep, callStep, onOpenDev_closed hinit,
          canRead_closed hclosed, setDev_self]
        rfl
  have hmoves := Moves.setDev hR hb hrelays
  rw [hstep]
  rwa [show Function.update (fun _ : Ctrl => ([] : List CanMsg)) devid [] =
    fun _ => [] from Function.update_eq_self devid _] at hmoves

/-- Rings that are empty may be emptied. -/
theorem CanDev.RingsEmpty.droppable (hR : LossRel R) {d : CanDev}
    (h : d.RingsEmpty) : d.Droppable R where
  tx := by
    rw [h.tx]
    exact hR.refl []
  rx := by
    rw [h.rx]
    exact hR.refl []

/-- What a step may lose, `R` lets it lose. -/
theorem droppable_of_keeps (hR : LossRel R) {d : CanDev}
    (h : (∀ xs, R [] xs) ∨ d.RingsEmpty) : d.Droppable R := by
  rcases h with hlossy | hempty
  · exact ⟨hlossy _, hlossy _⟩
  · exact hempty.droppable hR

theorem moves_canIoctl (hR : LossRel R) (hw : Wired s)
    (hb : ∀ c, (s.dev c).RingsBounded) (devid : Ctrl) (cmd arg : ℤ)
    (polls : List Bool)
    (h : (∀ xs, R [] xs) ∨ Keeps s (.call (.canIoctl devid cmd arg polls))) :
    Moves R (fun _ => []) (fun _ => []) s
      (driverStep s (.call (.canIoctl devid cmd arg polls))) := by
  cases hcall : callStep s (.canIoctl devid cmd arg polls) with
  | none =>
      simp only [driverStep, hcall]
      exact .of_dev hR hb fun _ => rfl
  | some t =>
      simp only [driverStep, hcall, Option.getD_some]
      rw [callStep] at hcall
      rcases hw.onOpenDev_cases hcall with rfl | ⟨d, hinit, hd, rfl⟩
      · exact .of_dev hR hb fun _ => rfl
      · obtain ⟨⟨status, _⟩, hresult, rfl⟩ := Option.map_eq_some_iff.mp hd
        refine .setDev_nil hR hb (relays_canIoctl hR (hb devid) ?_ hresult)
        intro hcmd
        exact droppable_of_keeps hR (h.imp_right fun hkeeps => hkeeps hinit hcmd)

theorem moves_session (hR : LossRel R) (hw : Wired s)
    (hb : ∀ c, (s.dev c).RingsBounded) (call : SessionCall)
    (h : (∀ xs, R [] xs) ∨ Keeps s (.call (.session call))) :
    Moves R (fun _ => []) (fun _ => []) s (sessionStep s call) := by
  cases call with
  | canOpen ipbase =>
      rw [sessionStep]
      rcases canOpen_cases ipbase s with
        ⟨_, hrun⟩ | ⟨c, rfl, _, hrun⟩ | ⟨c, rfl, hinit, hrun⟩
      · rw [hrun]
        exact .of_dev hR hb fun _ => rfl
      · rw [hrun]
        refine .of_dev hR hb fun c' => ?_
        simp only [CanSystem.dev, powerUp_cfg, powerUp_regs]
      · have hdrop : (s.dev c).Droppable R :=
          droppable_of_keeps hR (h.imp_right fun hkeeps => hkeeps c rfl hinit)
        have hmoves := Moves.setDev_nil hR hb
          (relays_openDevice hR c.base hdrop)
        rw [hrun]
        exact hmoves
  | canClose c =>
      rw [sessionStep]
      rcases hw.canClose_cases c with ⟨_, hrun⟩ | ⟨_, hrun⟩
      · rw [hrun]
        exact .of_dev hR hb fun _ => rfl
      · have hsame : Relays Eq [] [] (s.dev c) (closeDevice (s.dev c)) :=
          .of_same (hb c) rfl ⟨rfl, rfl, rfl, rfl⟩
        have hmoves := Moves.setDev_nil hR hb (hsame.of_eq hR)
        intro c'
        have hdev : (closeOpen c s).dev c' =
            (s.setDev c (closeDevice (s.dev c))).dev c' := by
          cases c <;> cases c' <;>
            simp [closeOpen, powerDown, CanSystem.setDev, CanSystem.dev,
              closeDevice]
        rw [hrun, hdev]
        exact hmoves c'

theorem moves_call (hR : LossRel R) (hw : Wired s)
    (hb : ∀ c, (s.dev c).RingsBounded) (call : DriverCall)
    (h : (∀ xs, R [] xs) ∨ Keeps s (.call call)) :
    Moves R (callAccepted s call) (callCopied s call) s
      (driverStep s (.call call)) := by
  cases call with
  | session call => exact moves_session hR hw hb call h
  | canIoctl devid cmd arg polls =>
      exact moves_canIoctl hR hw hb devid cmd arg polls h
  | canRead devid n => exact moves_canRead hR hw hb devid n
  | canWrite devid buffer n => exact moves_canWrite hR hw hb devid buffer n

/-- A handler run that returns has served both controllers. -/
theorem Wired.canHandler_dev (hw : Wired s) (ht : canHandler s = some t)
    (c : Ctrl) : t.dev c = serveController (s.dev c) := by
  obtain ⟨s₁, hfirst, hsecond⟩ := Option.bind_eq_some_iff.mp ht
  have hs₁ := hw.onDev_eq hfirst
  have hw₁ : Wired s₁ := by
    rw [hs₁]
    exact hw.of_handles (serveController_handles s .can1)
  rw [hw₁.onDev_eq hsecond, hs₁]
  cases c <;> simp [setDev_dev]

theorem moves_interrupt (hR : LossRel R) (hw : Wired s)
    (hb : ∀ c, (s.dev c).RingsBounded)
    (h : (∀ xs, R [] xs) ∨ Keeps s .interrupt) :
    Moves R (fun _ => []) (fun _ => []) s (driverStep s .interrupt) := by
  rw [driverStep]
  split
  · rename_i hinstalled
    cases ht : canHandler s with
    | none => exact .of_dev hR hb fun _ => rfl
    | some t =>
        intro c
        rw [Option.getD_some, hw.canHandler_dev ht c]
        refine relays_serveController hR (hb c) ?_
        intro hri hfull
        rcases h with hlossy | hkeeps
        · exact hlossy _
        · have hlt := hkeeps hinstalled (by rw [ht]; rfl) c hri
          omega
  · exact .of_dev hR hb fun _ => rfl

end System

/-! ## The two directions of the bus -/

/-- What is under way from `c` to the other controller. -/
def underway (s : CanSystem) (c : Ctrl) : List Frame :=
  (s.dev c.other).inbound ++ (s.dev c).outbound

/-- The direction from `c` to the other controller is the relay `r`. -/
structure Refines {R : List Frame → List Frame → Prop} (n : Network)
    (c : Ctrl) (r : Relay R) : Prop where
  sent : r.sent = (n.accepted c).map CanMsg.frame
  delivered : r.delivered = (n.copied c.other).map CanMsg.frame
  underway : r.underway = Can.underway n.sys c

/-- Both directions are relays, on rings with their indices in bounds. -/
structure Carried (R : List Frame → List Frame → Prop) (n : Network) :
    Prop where
  wired : Wired n.sys
  bounded : ∀ c, (n.sys.dev c).RingsBounded
  relay : ∀ c, ∃ r : Relay R, Refines n c r

section Network

variable {R : List Frame → List Frame → Prop} {n : Network}

/-- A step of the two devices is a send and a delivery of each relay. -/
theorem Carried.moves (hR : LossRel R) (h : Carried R n) {t : CanSystem}
    {taken given : Ctrl → List CanMsg} (hw : Wired t)
    (hmoves : Moves R taken given n.sys t) :
    Carried R
      { sys := t
        accepted := fun c => n.accepted c ++ taken c
        copied := fun c => n.copied c ++ given c } where
  wired := hw
  bounded := fun c => (hmoves c).bounded
  relay := by
    intro c
    obtain ⟨r, hsent, hdelivered, hunderway⟩ := h.relay c
    have hsend : R ((n.sys.dev c.other).inbound ++ (t.dev c).outbound)
        (r.underway ++ (taken c).map CanMsg.frame) := by
      rw [hunderway, underway, List.append_assoc]
      exact hR.append_left _ (hmoves c).outbound
    have hdeliver : R ((given c.other).map CanMsg.frame ++ underway t c)
        ((n.sys.dev c.other).inbound ++ (t.dev c).outbound) := by
      rw [underway, ← List.append_assoc]
      exact hR.append_right _ (hmoves c.other).inbound
    refine ⟨(r.send hR _ _ hsend).deliver hR _ _ hdeliver, ?_, ?_, rfl⟩
    · simp only [Relay.deliver, Relay.send, hsent, List.map_append]
    · simp only [Relay.deliver, Relay.send, hdelivered, List.map_append]

theorem busTransfer_sender {s : CanSystem} {c : Ctrl}
    (htaken : (s.regs c).tbs1 = false) (received : Bool) :
    (busTransfer c received s).dev c = (s.dev c).completes := by
  have hne := c.other_ne
  have hdev : (s.dev c).regs.tbs1 = false := htaken
  cases received <;> simp [busTransfer, hdev, setDev_dev, hne.symm]

theorem busTransfer_receiver {s : CanSystem} {c : Ctrl}
    (htaken : (s.regs c).tbs1 = false) (received : Bool) :
    (busTransfer c received s).dev c.other =
      if received then (s.dev c.other).arrives (s.dev c).regs.txFrame1
      else s.dev c.other := by
  have hne := c.other_ne
  have hdev : (s.dev c).regs.tbs1 = false := htaken
  cases received <;> simp [busTransfer, hdev, setDev_dev, hne]

theorem busTransfer_idle {s : CanSystem} {c : Ctrl}
    (hfree : (s.regs c).tbs1 = true) (received : Bool) :
    busTransfer c received s = s := by
  rw [busTransfer]
  exact if_pos hfree

/-- A transfer changes no configuration. -/
theorem busTransfer_handles (s : CanSystem) (c : Ctrl) (received : Bool) :
    SameHandles s (busTransfer c received s) := by
  unfold busTransfer
  split
  · exact .of_cfg rfl
  · have hfirst : SameHandles s (s.setDev c (s.dev c).completes) :=
      .setDev ⟨rfl, rfl⟩
    cases received with
    | false => exact hfirst
    | true => exact hfirst.trans (.setDev ⟨rfl, rfl⟩)

theorem busTransfer_rings (s : CanSystem) (c c' : Ctrl) (received : Bool) :
    ((busTransfer c received s).dev c').cfg.rb = (s.dev c').cfg.rb := by
  unfold busTransfer
  split
  · rfl
  · cases received with
    | false =>
        simp only [Bool.false_eq_true, if_false, setDev_dev]
        split
        · rename_i hc
          rw [hc]
          rfl
        · rfl
    | true =>
        simp only [if_true, setDev_dev]
        split
        · rename_i hc
          subst hc
          rw [if_neg c.other_ne]
          rfl
        · split
          · rename_i hc
            rw [hc]
            rfl
          · rfl

/-- A frame on the bus leaves the sender and comes after what the receiver
has. -/
theorem Carried.transfer (hR : LossRel R) (h : Carried R n) (c : Ctrl)
    (received : Bool)
    (hloss : (∀ xs, R [] xs) ∨ Keeps n.sys (.transfer c received)) :
    Carried R { n with sys := busTransfer c received n.sys } where
  wired := h.wired.of_handles (busTransfer_handles n.sys c received)
  bounded := by
    intro c'
    have hb := h.bounded c'
    constructor
    · rw [busTransfer_rings]
      exact hb.tx
    · rw [busTransfer_rings]
      exact hb.rx
  relay := by
    intro c'
    obtain ⟨r, hsent, hdelivered, hunderway⟩ := h.relay c'
    suffices hrest : R ([] ++ underway (busTransfer c received n.sys) c')
        r.underway from
      ⟨r.deliver hR [] _ hrest, hsent, by simp [Relay.deliver, hdelivered],
        rfl⟩
    rw [List.nil_append, hunderway]
    cases hfree : (n.sys.regs c).tbs1 with
    | true =>
        rw [busTransfer_idle hfree]
        exact hR.refl _
    | false =>
        have hsender := busTransfer_sender hfree received
        have hreceiver := busTransfer_receiver hfree received
        by_cases hc : c' = c
        · -- The direction of the frame itself.
          subst hc
          rw [underway, underway, hsender, hreceiver,
            outbound_completes (d := n.sys.dev c') hfree,
            ← List.singleton_append, ← List.append_assoc]
          apply hR.append_right
          cases received with
          | true =>
              exact inbound_arrives hR _ _
                (hloss.imp_right fun hkeeps => (hkeeps hfree).2)
          | false =>
              rcases hloss with hlossy | hkeeps
              · simpa using hR.append_left _ (hlossy _)
              · exact absurd (hkeeps hfree).1 (by decide)
        · -- The other direction: its buffers are not the ones in use.
          obtain rfl : c' = c.other := by
            cases c <;> cases c' <;> first | rfl | exact absurd rfl hc
          rw [underway, underway, c.other_other, hsender, hreceiver,
            inbound_completes]
          cases received with
          | true => exact hR.refl _
          | false => exact hR.refl _

theorem Carried.step (hR : LossRel R) (h : Carried R n) (e : NetEvent)
    (hloss : (∀ xs, R [] xs) ∨ Keeps n.sys e) : Carried R (netStep n e) := by
  cases e with
  | call call =>
      exact h.moves hR (h.wired.step (.call call))
        (moves_call hR h.wired h.bounded call hloss)
  | interrupt =>
      have hmoved := h.moves hR (h.wired.step .interrupt)
        (moves_interrupt hR h.wired h.bounded hloss)
      simp only [List.append_nil] at hmoved
      exact hmoved
  | transfer c received => exact h.transfer hR c received hloss

/-- The hardware at rest: no frame in flight, none received. -/
def AtRest (s : CanSystem) : Prop :=
  ∀ c, (s.regs c).tbs1 = true ∧ (s.regs c).canicr.ri = false

theorem carried_start (hR : LossRel R) {s : CanSystem} (h : PowerUp s)
    (hrest : AtRest s) : Carried R (.start s) where
  wired := h.wired
  bounded := by
    intro c
    have hzero : InRing 0 := ⟨le_refl 0, by decide⟩
    constructor
    · simp only [Network.start, CanSystem.dev, h c]
      exact ⟨hzero, hzero⟩
    · simp only [Network.start, CanSystem.dev, h c]
      exact ⟨hzero, hzero⟩
  relay := by
    intro c
    refine ⟨.empty hR, rfl, rfl, ?_⟩
    have hin : (s.dev c.other).inbound = [] := by
      simp [CanDev.inbound, CanSystem.dev, h c.other, (hrest c.other).2]
      decide
    have hout : (s.dev c).outbound = [] := by
      simp [CanDev.outbound, CanSystem.dev, h c, (hrest c).1]
      decide
    simp only [Relay.empty, underway, Network.start, hin, hout]
    rfl

end Network

/-! ## What is lost -/

/-- Whatever one controller accepted, the other has handed out or it is still
under way. -/
def Complete (n : Network) : Prop :=
  ∀ c, (n.copied c.other).map CanMsg.frame ++ underway n.sys c =
    (n.accepted c).map CanMsg.frame

/-- In every reachable state, what was handed out and what is under way is a
part of what was accepted, in the same order. -/
theorem Carried.sublist {n : Network} (h : Carried List.Sublist n) (c : Ctrl) :
    List.Sublist ((n.copied c.other).map CanMsg.frame ++ underway n.sys c)
      ((n.accepted c).map CanMsg.frame) := by
  obtain ⟨r, hsent, hdelivered, hunderway⟩ := h.relay c
  rw [← hsent, ← hdelivered, ← hunderway]
  exact r.law

theorem Carried.complete {n : Network} (h : Carried Eq n) : Complete n := by
  intro c
  obtain ⟨r, hsent, hdelivered, hunderway⟩ := h.relay c
  rw [← hsent, ← hdelivered, ← hunderway]
  exact r.law

/-- A reset that loses nothing found the rings empty. -/
theorem Relays.ringsEmpty {d d' : CanDev} (h : Relays Eq [] [] d d')
    (hrings : d'.cfg.rb = d.cfg.rb.initialize)
    (hsame : SameBuffers d.regs d'.regs) : d.RingsEmpty := by
  have hout := h.outbound
  have hin := h.inbound
  simp only [CanDev.outbound, hrings, initialize_txQueue, hsame.tbs1,
    hsame.txFrame1, List.map_nil, List.append_nil] at hout
  simp only [CanDev.inbound, hrings, initialize_rxQueue, hsame.ri,
    hsame.rxFrame, List.map_nil, List.nil_append] at hin
  constructor
  · simpa using hout
  · simpa using hin

/-- A device that holds one frame more after a frame arrived was listening. -/
theorem listening_of_inbound {d : CanDev} {f : Frame}
    (h : (d.arrives f).inbound.length = d.inbound.length + 1) :
    d.Listening := by
  simp only [CanDev.arrives, CanDev.inbound, CanRegs.frameArrives,
    List.length_append] at h
  cases hri : d.regs.canicr.ri <;> cases hrie : d.regs.canier.rie <;>
    simp_all [CanDev.Listening]

/-- A handler half that loses nothing found room in the ring. -/
theorem Relays.room {d : CanDev} (hb : d.RingsBounded)
    (h : Relays Eq [] [] d (serveController d))
    (hri : d.regs.canicr.ri = true) : d.cfg.rb.rxQueue.length < 255 := by
  have hin := h.inbound
  let m := (d.cfg.rb.rx d.cfg.rb.rxHead.toNat).receive d.regs
  rcases rxQueue_putRx_cases hb.rx m with hput | ⟨_, hput⟩
  · have hlt := length_rxQueue_lt (hb.rx.putRx m)
    rw [hput, List.length_append, List.length_singleton] at hlt
    unfold canRingBufsize at hlt
    omega
  · have hlost : (serveController d).inbound = [] := by
      rw [serveController_eq, if_pos hri]
      simp [CanDev.inbound, CanRegs.commandRrb, canStandardReceive_rb, hput, m]
    rw [hlost] at hin
    simp [CanDev.inbound, hri] at hin

theorem keeps_call_of_moves {s : CanSystem} (hw : Wired s) {call : DriverCall}
    (h : Moves Eq (callAccepted s call) (callCopied s call) s
      (driverStep s (.call call))) : Keeps s (.call call) := by
  cases call with
  | session call =>
      cases call with
      | canOpen ipbase =>
          rintro c rfl hinit
          have hopen : (driverStep s (.call (.session (.canOpen c.base)))).dev c
              = openDevice c.base (s.dev c) := by
            simp [driverStep, callStep, sessionStep, canOpen_of_closed hinit,
              openFresh, CanSystem.dev, CanCfg.opened, openDevice]
          have hdev := h c
          rw [hopen] at hdev
          exact hdev.ringsEmpty rfl ⟨rfl, rfl, rfl, rfl⟩
      | canClose devid => trivial
  | canIoctl devid cmd arg polls =>
      intro hinit hcmd
      have hrate : (driverStep s (.call (.canIoctl devid cmd arg polls))).dev
          devid = (setBaudRate arg (s.dev devid)).2 := by
        have hdev : (s.dev devid).cfg.init = true := hinit
        simp only [driverStep, callStep, hw.onOpenDev_open hinit, canIoctl,
          hdev, if_true, hcmd]
        simp [setDev_dev]
      have hdev := h devid
      rw [hrate] at hdev
      exact hdev.ringsEmpty rfl (sameBuffers_setBaudRate arg _)
  | canRead devid n => trivial
  | canWrite devid buffer n => trivial

theorem keeps_interrupt_of_moves {s : CanSystem} (hw : Wired s)
    (hb : ∀ c, (s.dev c).RingsBounded)
    (h : Moves Eq (fun _ => []) (fun _ => []) s (driverStep s .interrupt)) :
    Keeps s .interrupt := by
  intro hinstalled hruns c hri
  obtain ⟨t, ht⟩ := Option.isSome_iff_exists.mp hruns
  have hserved : (driverStep s .interrupt).dev c =
      serveController (s.dev c) := by
    rw [driverStep, if_pos hinstalled, ht, Option.getD_some]
    exact hw.canHandler_dev ht c
  have hdev := h c
  rw [hserved] at hdev
  exact hdev.room (hb c) hri

section Lossless

variable {n : Network}

/-- When nothing is missing after a step of the two devices, nothing was
missing before it, and neither device lost anything. -/
theorem Carried.moves_eq (h : Carried List.Sublist n) {t : CanSystem}
    {taken given : Ctrl → List CanMsg}
    (hmoves : Moves List.Sublist taken given n.sys t)
    (hafter : Complete
      { sys := t
        accepted := fun c => n.accepted c ++ taken c
        copied := fun c => n.copied c ++ given c }) :
    Complete n ∧ Moves Eq taken given n.sys t := by
  have hlength : ∀ c,
      ((n.copied c.other).map CanMsg.frame ++ underway n.sys c).length =
        ((n.accepted c).map CanMsg.frame).length ∧
      (t.dev c).outbound.length =
        ((n.sys.dev c).outbound ++ (taken c).map CanMsg.frame).length ∧
      ((given c.other).map CanMsg.frame ++ (t.dev c.other).inbound).length =
        (n.sys.dev c.other).inbound.length := by
    intro c
    have hbefore := (h.sublist c).length_le
    have hout := (hmoves c).outbound.length_le
    have hin := (hmoves c.other).inbound.length_le
    have hall := congrArg List.length (hafter c)
    simp only [underway, List.length_append, List.length_map] at *
    omega
  constructor
  · exact fun c => (h.sublist c).eq_of_length (hlength c).1
  · intro c
    refine ⟨(hmoves c).bounded, ?_, ?_⟩
    · exact (hmoves c).outbound.eq_of_length (hlength c).2.1
    · have hin := (hlength c.other).2.2
      rw [c.other_other] at hin
      exact (hmoves c).inbound.eq_of_length hin

/-- When nothing is missing after a transfer, nothing was missing before it,
and the frame reached a listening device. -/
theorem Carried.keeps_transfer (h : Carried List.Sublist n) (c : Ctrl)
    (received : Bool)
    (hafter : Complete { n with sys := busTransfer c received n.sys }) :
    Complete n ∧ Keeps n.sys (.transfer c received) := by
  cases hfree : (n.sys.regs c).tbs1 with
  | true =>
      rw [busTransfer_idle hfree] at hafter
      refine ⟨hafter, ?_⟩
      intro htaken
      rw [hfree] at htaken
      cases htaken
  | false =>
      have hsender := busTransfer_sender hfree received
      have hreceiver := busTransfer_receiver hfree received
      have hout := congrArg List.length
        (outbound_completes (d := n.sys.dev c) hfree)
      have hbefore := (h.sublist c).length_le
      have hall := congrArg List.length (hafter c)
      have hback := hafter c.other
      simp only [underway, c.other_other, hsender, hreceiver,
        inbound_completes] at hback
      simp only [underway, hsender, List.length_append, List.length_map,
        List.length_cons] at *
      cases received with
      | false =>
          -- The frame is gone.
          rw [hreceiver] at hall
          simp only [Bool.false_eq_true, if_false] at hall
          omega
      | true =>
          rw [hreceiver] at hall
          simp only [if_true] at hall hback
          rw [outbound_arrives] at hback
          have hin : ((n.sys.dev c.other).arrives
              (n.sys.dev c).regs.txFrame1).inbound.length =
              (n.sys.dev c.other).inbound.length + 1 := by
            have hle := (inbound_arrives lossRel_sublist
              (n.sys.dev c.other) (n.sys.dev c).regs.txFrame1
              (Or.inl List.nil_sublist)).length_le
            rw [List.length_append, List.length_singleton] at hle
            omega
          have hlisten := listening_of_inbound hin
          refine ⟨?_, fun _ => ⟨rfl, hlisten⟩⟩
          intro c'
          by_cases hc : c' = c
          · subst hc
            refine (h.sublist c').eq_of_length ?_
            simp only [underway, List.length_append, List.length_map]
            omega
          · obtain rfl : c' = c.other := by
              cases c <;> cases c' <;> first | rfl | exact absurd rfl hc
            rw [underway, c.other_other]
            exact hback

theorem Carried.keeps (h : Carried List.Sublist n) (e : NetEvent)
    (hafter : Complete (netStep n e)) : Complete n ∧ Keeps n.sys e := by
  have hlossy : ∀ xs : List Frame, List.Sublist [] xs := List.nil_sublist
  cases e with
  | call call =>
      have hmoves := moves_call lossRel_sublist h.wired h.bounded call
        (Or.inl hlossy)
      obtain ⟨hbefore, heq⟩ := h.moves_eq hmoves hafter
      exact ⟨hbefore, keeps_call_of_moves h.wired heq⟩
  | interrupt =>
      have hmoves := moves_interrupt lossRel_sublist h.wired h.bounded
        (Or.inl hlossy)
      have hafter' : Complete
          { sys := driverStep n.sys .interrupt
            accepted := fun c => n.accepted c ++ []
            copied := fun c => n.copied c ++ [] } := by
        simp only [List.append_nil]
        exact hafter
      obtain ⟨hbefore, heq⟩ := h.moves_eq hmoves hafter'
      exact ⟨hbefore, keeps_interrupt_of_moves h.wired h.bounded heq⟩
  | transfer c received => exact h.keeps_transfer c received hafter

/-- Nothing lost on the way stays unnoticed: a run that ends with nothing
missing had nothing missing at any step. -/
theorem Carried.admissible_of_complete (h : Carried List.Sublist n)
    (es : List NetEvent) (hafter : Complete (run netStep n es)) :
    Complete n ∧ Admissible netStep (fun n e => Keeps n.sys e) n es := by
  induction es generalizing n with
  | nil => exact ⟨hafter, trivial⟩
  | cons e es ih =>
      have hstep := h.step lossRel_sublist e (Or.inl List.nil_sublist)
      obtain ⟨hnext, hrest⟩ := ih hstep hafter
      obtain ⟨hbefore, hkeeps⟩ := h.keeps e hnext
      exact ⟨hbefore, hkeeps, hrest⟩

end Lossless

/-! ## Delivery -/

/-- Whatever the callers do, whenever the handler runs and whatever the bus
loses: what one controller's users read is a part of what the other's users
wrote, in the order written, nothing twice and nothing made up; and what is
still under way comes after it. -/
theorem network_keeps_order {s : CanSystem} (h : PowerUp s) (hrest : AtRest s)
    (es : List NetEvent) (c : Ctrl) :
    let n := run netStep (.start s) es
    List.Sublist ((n.copied c.other).map CanMsg.frame ++ underway n.sys c)
      ((n.accepted c).map CanMsg.frame) := by
  intro n
  have hcarried : Carried List.Sublist n :=
    invariant_run (I := Carried List.Sublist)
      (fun _ e hn => hn.step lossRel_sublist e (Or.inl List.nil_sublist))
      (carried_start lossRel_sublist h hrest) es
  exact hcarried.sublist c

theorem atRest_powerOn : AtRest .powerOn := fun _ => ⟨rfl, rfl⟩

def bothOpened : List NetEvent :=
  [.call (.session (.canOpen Ctrl.can1.base)),
    .call (.session (.canOpen Ctrl.can2.base))]

/-- Three telegrams one way, of which the bus loses the second, and one the
other way. -/
def exchange : List NetEvent :=
  bothOpened ++
    [.call (.canWrite .can1 (fun i => .ofId (i + 1)) 2),
      .call (.canWrite .can2 (fun _ => .ofId 7) 1),
      .transfer .can1 true, .transfer .can2 true, .interrupt,
      .call (.canWrite .can1 (fun _ => .ofId 3) 1), .transfer .can1 false,
      .call (.canWrite .can1 (fun _ => .zero) 0), .transfer .can1 true,
      .interrupt, .call (.canRead .can2 5), .call (.canRead .can1 5)]

theorem network_keeps_order_exchange :
    let n := run netStep (.start .powerOn) exchange
    (n.accepted .can1).map (·.msgId) = [1, 2, 3] ∧
      (n.copied .can2).map (·.msgId) = [1, 3] ∧
      (n.copied .can1).map (·.msgId) = [7] ∧
      List.Sublist ((n.copied .can2).map CanMsg.frame ++ underway n.sys .can1)
        ((n.accepted .can1).map CanMsg.frame) :=
  ⟨by decide, by decide, by decide,
    network_keeps_order powerUp_powerOn atRest_powerOn exchange .can1⟩

/-- Nothing is missing in either direction exactly when every step of the run
had nothing to lose, on controllers that receive as
`CanRegs.frameArrives` assumes: into one buffer that an arriving frame
overwrites, with the cause latched only where it is enabled on arrival. -/
theorem network_complete_iff {s : CanSystem} (h : PowerUp s)
    (hrest : AtRest s) (es : List NetEvent) :
    (∀ c, ((run netStep (.start s) es).copied c.other).map CanMsg.frame ++
        underway (run netStep (.start s) es).sys c =
      ((run netStep (.start s) es).accepted c).map CanMsg.frame) ↔
    Admissible netStep (fun n e => Keeps n.sys e) (.start s) es := by
  constructor
  · intro hafter
    exact ((carried_start lossRel_sublist h hrest).admissible_of_complete es
      hafter).2
  · intro hkeeps
    have hcarried : Carried Eq (run netStep (.start s) es) :=
      invariant_run_of_admissible (I := Carried Eq)
        (fun _ e hn hok => hn.step lossRel_eq e (Or.inr hok))
        (carried_start lossRel_eq h hrest) hkeeps
    exact hcarried.complete

/-- A frame that the bus loses is missing, so its transfer had something to
lose. -/
theorem network_complete_iff_lost :
    ¬Admissible netStep (fun n e => Keeps n.sys e) (.start .powerOn)
      (bothOpened ++ [.call (.canWrite .can1 (fun _ => .ofId 1) 1),
        .transfer .can1 false]) := by
  rw [← network_complete_iff powerUp_powerOn atRest_powerOn]
  intro h
  exact absurd (h .can1) (by decide)

end EmbBoard.Can
