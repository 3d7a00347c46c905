import EmbBoard.Can.RxFifo
import EmbBoard.Can.TxFifo

/-!
# The interrupt handler of both controllers

What one run of `CAN_Handler` does to two open controllers.  The handler tests
the receive cause by one read of the capture register and the transmit cause
by a second one; since the first read clears what is latched, the second never
finds the transmit cause.
-/

namespace EmbBoard.Can

open EmbBoard.Runs

/-- The device of a controller, when its `regptr` leads to its own
registers. -/
def CanSystem.dev (s : CanSystem) (c : Ctrl) : CanDev :=
  { cfg := s.cfg c, regs := s.regs c }

/-- Both controllers are open, each on its own registers. -/
def BothOpen (s : CanSystem) : Prop :=
  ∀ c, (s.dev c).cfg.init = true ∧ (s.dev c).cfg.regptr = c.base

@[simp] theorem ofBase_base (c : Ctrl) : Ctrl.ofBase c.base = some c := by
  cases c <;> rfl

theorem onDev_of_open {s : CanSystem} {c : Ctrl}
    (hptr : (s.dev c).cfg.regptr = c.base) (f : CanDev → CanDev) :
    ∃ s', s.onDev c f = some s' ∧ s'.dev c = f (s.dev c) ∧
      ∀ c', c' ≠ c → s'.dev c' = s.dev c' := by
  have hbase : Ctrl.ofBase (s.cfg c).regptr = some c := by
    rw [show (s.cfg c).regptr = c.base from hptr, ofBase_base]
  refine ⟨_, by rw [CanSystem.onDev, hbase]; rfl, ?_, ?_⟩
  · simp [CanSystem.dev]
  · intro c' hne
    simp [CanSystem.dev, hne]

/-- On two open controllers the handler returns, and has served each of
them. -/
theorem canHandler_of_open {s : CanSystem} (hopen : BothOpen s) :
    ∃ s', canHandler s = some s' ∧
      ∀ c, s'.dev c = serveController (s.dev c) := by
  obtain ⟨s₁, hfirst, hserved₁, hframe₁⟩ :=
    onDev_of_open (hopen .can1).2 serveController
  have hptr : (s₁.dev .can2).cfg.regptr = Ctrl.can2.base := by
    rw [hframe₁ .can2 (by decide)]
    exact (hopen .can2).2
  obtain ⟨s₂, hsecond, hserved₂, hframe₂⟩ := onDev_of_open hptr serveController
  refine ⟨s₂, by rw [canHandler, hfirst]; exact hsecond, ?_⟩
  intro c
  cases c with
  | can1 => rw [hframe₂ .can1 (by decide), hserved₁]
  | can2 => rw [hserved₂, hframe₁ .can2 (by decide)]

/-! ## One controller -/

/-- The second read of the capture register finds no transmit cause: the
handler half receives, and never transmits. -/
theorem serveController_eq (d : CanDev) :
    serveController d =
      if d.regs.canicr.ri then
        { cfg := (canStandardReceive d).cfg
          regs := d.regs.readIcr.2.commandRrb }
      else { d with regs := d.regs.readIcr.2 } := by
  cases hri : d.regs.canicr.ri with
  | true =>
      simp [serveController, CanRegs.readIcr, hri, canStandardReceive,
        CanRegs.commandRrb, CanMsg.receive]
  | false => simp [serveController, CanRegs.readIcr, hri]

/-- The frame in the receive buffer went into the ring at the head. -/
def Stored (d d' : CanDev) : Prop :=
  ∃ m, Holds m d.regs.rxFrame ∧
    d'.cfg.rb.rx = Function.update d.cfg.rb.rx d.cfg.rb.rxHead.toNat m ∧
    d'.cfg.rb.rxHead = ringIncrement d.cfg.rb.rxHead

/-- The oldest queued telegram went into transmit buffer 1. -/
def LoadedOldest (d d' : CanDev) : Prop :=
  ∃ m, d.cfg.rb.txQueue.head? = some m ∧
    ∃ f, Carries f m ∧ d'.regs.transmitted = d.regs.transmitted ++ [f]

/-- What serving the latched causes of a controller means. -/
structure Served (d d' : CanDev) : Prop where
  received : d.regs.canicr.ri = true → Stored d d'
  transmitted : d.regs.canicr.ti1 = true → d.cfg.rb.txQueue ≠ [] →
    LoadedOldest d d'
  disabled : d.regs.canicr.ti1 = true → d.cfg.rb.txQueue = [] →
    d'.regs.canier.tie1 = false

theorem holds_receive (slot : CanMsg) (r : CanRegs) :
    Holds (slot.receive r) r.rxFrame := by
  refine ⟨rfl, rfl, rfl, ?_, rfl⟩
  simp only [CanMsg.receive, CanRegs.rxFrame, frameOf, BitVec.toNat_setWidth]
  exact Nat.mod_eq_of_lt (r.canrid.isLt.trans (by decide))

theorem serveController_stored {d : CanDev}
    (hri : d.regs.canicr.ri = true) : Stored d (serveController d) := by
  rw [serveController_eq, if_pos hri]
  exact ⟨_, holds_receive _ d.regs, rfl, rfl⟩

/-- The transmit side, apart from the cleared cause, is left alone. -/
theorem serveController_transmit_side (d : CanDev) :
    (serveController d).regs.transmitted = d.regs.transmitted ∧
      (serveController d).cfg.rb.txQueue = d.cfg.rb.txQueue ∧
      (serveController d).regs.canier = d.regs.canier ∧
      (serveController d).regs.canicr.ti1 = false := by
  rw [serveController_eq]
  split <;> exact ⟨rfl, rfl, rfl, rfl⟩

theorem serveController_cfg (d : CanDev) :
    (serveController d).cfg.init = d.cfg.init ∧
      (serveController d).cfg.regptr = d.cfg.regptr := by
  rw [serveController_eq]
  split <;> exact ⟨rfl, rfl⟩

theorem not_loadedOldest_serveController (d : CanDev) :
    ¬LoadedOldest d (serveController d) := by
  rintro ⟨_, _, f, _, hload⟩
  rw [(serveController_transmit_side d).1] at hload
  exact List.cons_ne_nil f [] (List.self_eq_append_right.mp hload)

/-- A latched transmit cause asks for nothing that is not so already: nothing
is queued and the interrupt is off. -/
def TransmitIdle (d : CanDev) : Prop :=
  d.regs.canicr.ti1 = true →
    d.cfg.rb.txQueue = [] ∧ d.regs.canier.tie1 = false

theorem served_serveController_iff (d : CanDev) :
    Served d (serveController d) ↔ TransmitIdle d := by
  have henable : (serveController d).regs.canier = d.regs.canier :=
    (serveController_transmit_side d).2.2.1
  constructor
  · intro h hti
    have hempty : d.cfg.rb.txQueue = [] := by
      by_contra hne
      exact not_loadedOldest_serveController d (h.transmitted hti hne)
    refine ⟨hempty, ?_⟩
    rw [← henable]
    exact h.disabled hti hempty
  · intro hidle
    refine ⟨fun hri => serveController_stored hri, ?_, ?_⟩
    · intro hti hne
      exact absurd (hidle hti).1 hne
    · intro hti _
      rw [henable]
      exact (hidle hti).2

/-! ## Both controllers -/

/-- What can happen to the two controllers, one step at a time. -/
inductive SystemEvent
  | write (c : Ctrl) (buffer : ℕ → CanMsg) (n : ℤ)
  | read (c : Ctrl) (n : ℤ)
  | frameCompletes (c : Ctrl)
  | frameArrives (c : Ctrl) (f : Frame)
  | handler

/-- Change the device of one controller. -/
def CanSystem.setDev (s : CanSystem) (c : Ctrl) (d : CanDev) : CanSystem :=
  { s with
    cfg := Function.update s.cfg c d.cfg
    regs := Function.update s.regs c d.regs }

def systemStep (s : CanSystem) : SystemEvent → CanSystem
  | .write c buffer n => s.setDev c (canWrite (s.dev c) buffer n).2
  | .read c n => s.setDev c (canRead (s.dev c) n).2
  | .frameCompletes c =>
      s.setDev c { s.dev c with regs := (s.dev c).regs.frameCompletes }
  | .frameArrives c f =>
      s.setDev c { s.dev c with regs := (s.dev c).regs.frameArrives f }
  | .handler => (canHandler s).getD s

theorem setDev_dev (s : CanSystem) (c c' : Ctrl) (d : CanDev) :
    (s.setDev c d).dev c' = if c' = c then d else s.dev c' := by
  by_cases hc : c' = c
  · subst hc
    simp [CanSystem.setDev, CanSystem.dev]
  · simp [CanSystem.setDev, CanSystem.dev, hc]

theorem BothOpen.setDev {s : CanSystem} (h : BothOpen s) {c : Ctrl}
    {d : CanDev} (hinit : d.cfg.init = (s.dev c).cfg.init)
    (hptr : d.cfg.regptr = (s.dev c).cfg.regptr) : BothOpen (s.setDev c d) := by
  intro c'
  rw [setDev_dev]
  split
  · rename_i hc
    rw [hinit, hptr, hc]
    exact h c
  · exact h c'

theorem canWrite_cfg (d : CanDev) (buffer : ℕ → CanMsg) (n : ℤ) :
    (canWrite d buffer n).2.cfg.init = d.cfg.init ∧
      (canWrite d buffer n).2.cfg.regptr = d.cfg.regptr := by
  unfold canWrite
  split
  · exact ⟨canStandardTransmit_init _, canStandardTransmit_regptr _⟩
  · exact ⟨rfl, rfl⟩

theorem canRead_cfg (d : CanDev) (n : ℤ) :
    (canRead d n).2.cfg.init = d.cfg.init ∧
      (canRead d n).2.cfg.regptr = d.cfg.regptr := by
  unfold canRead
  split <;> exact ⟨rfl, rfl⟩

theorem BothOpen.step {s : CanSystem} (h : BothOpen s) (e : SystemEvent) :
    BothOpen (systemStep s e) := by
  cases e with
  | write c buffer n =>
      exact h.setDev (canWrite_cfg _ buffer n).1 (canWrite_cfg _ buffer n).2
  | read c n => exact h.setDev (canRead_cfg _ n).1 (canRead_cfg _ n).2
  | frameCompletes c => exact h.setDev rfl rfl
  | frameArrives c f => exact h.setDev rfl rfl
  | handler =>
      obtain ⟨s', hrun, hserved⟩ := canHandler_of_open h
      simp only [systemStep, hrun, Option.getD_some]
      intro c
      rw [hserved c, (serveController_cfg _).1, (serveController_cfg _).2]
      exact h c

/-- The handler serves every latched cause of both controllers. -/
def HandlerServes (s : CanSystem) : Prop :=
  ∃ s', canHandler s = some s' ∧ ∀ c, Served (s.dev c) (s'.dev c)

/-- In every state that two open controllers reach, one run of the handler
serves every latched cause exactly when each latched transmit cause finds
nothing queued and its interrupt off; and no run of the handler loads a
telegram on either controller. -/
theorem canHandler_serves_iff {s₀ : CanSystem} (hopen : BothOpen s₀)
    (es : List SystemEvent) :
    let s := run systemStep s₀ es
    (HandlerServes s ↔ ∀ c, TransmitIdle (s.dev c)) ∧
    (∀ s', canHandler s = some s' →
      ∀ c, ¬LoadedOldest (s.dev c) (s'.dev c)) := by
  intro s
  have hreached : BothOpen s :=
    invariant_run (I := BothOpen) (fun _ e h => h.step e) hopen es
  obtain ⟨s', hrun, hserved⟩ := canHandler_of_open hreached
  constructor
  · constructor
    · rintro ⟨t, ht, hall⟩ c
      rw [hrun, Option.some_inj] at ht
      subst ht
      have hc := hall c
      rw [hserved c] at hc
      exact (served_serveController_iff _).mp hc
    · intro hidle
      refine ⟨s', hrun, ?_⟩
      intro c
      rw [hserved c]
      exact (served_serveController_iff _).mpr (hidle c)
  · intro t ht c
    rw [hrun, Option.some_inj] at ht
    subst ht
    rw [hserved c]
    exact not_loadedOldest_serveController _

/-- Both controllers opened from power-on. -/
def CanSystem.opened : CanSystem where
  cfg := fun c => (openDevice c.base .powerOn).cfg
  regs := fun c => (openDevice c.base .powerOn).regs
  pconp := 0x00006000
  pinsel0 := 0x00000A05
  canAfmr := 0x00000002
  handlerInstalled := true

theorem bothOpen_opened : BothOpen .opened := fun _ => ⟨rfl, rfl⟩

/-- Two telegrams are queued and the first completes: its transmit cause is
latched, the second telegram waits, and the handler does not load it. -/
theorem canHandler_drops_transmit :
    let s := run systemStep .opened
      [.write .can1 (fun _ => .zero) 2, .frameCompletes .can1]
    BothOpen s ∧
      (∀ c, (s.dev c).regs.canicr.ti1 = true →
        (s.dev c).regs.tbs1 = true) ∧
      ¬HandlerServes s := by
  intro s
  have hreached : BothOpen s :=
    invariant_run (I := BothOpen) (fun _ e h => h.step e) bothOpen_opened _
  refine ⟨hreached, ?_, ?_⟩
  · intro c
    cases c <;> decide
  · rintro ⟨s', hrun, hall⟩
    obtain ⟨t, ht, hserved⟩ := canHandler_of_open hreached
    have hsame : s' = t := Option.some_inj.mp (hrun.symm.trans ht)
    have hload := (hall .can1).transmitted (by decide) (by decide)
    rw [hsame, hserved .can1] at hload
    exact not_loadedOldest_serveController _ hload

theorem canHandler_serves_iff_opened :
    let s := run systemStep .opened [.frameArrives .can1 CanMsg.zero.frame]
    HandlerServes s := by
  intro s
  refine (canHandler_serves_iff bothOpen_opened
    [.frameArrives .can1 CanMsg.zero.frame]).1.mpr ?_
  intro c hti
  cases c <;> exact absurd hti (by decide)

end EmbBoard.Can
