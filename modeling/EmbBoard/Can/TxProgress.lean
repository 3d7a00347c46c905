import EmbBoard.Can.Control
import EmbBoard.Can.Queue
import EmbBoard.Support.Runs

/-!
# Progress of the transmit queue

One open controller under write calls, completing frames and the transmit
interrupts these raise, each taken as one step.  The queue waits on the frame
in flight and on its interrupt; a write call that queues telegrams keeps that
promise exactly when it does not start with a frame in flight and the transmit
interrupt off.
-/

namespace EmbBoard.Can

open EmbBoard.Runs

inductive LineEvent
  | write (buffer : ℕ → CanMsg) (n : ℤ)
  | frameCompletes
  | interrupt

/-- The transmit interrupt is latched and not served yet. -/
def InterruptPending (d : CanDev) : Prop := d.regs.canicr.ti1 = true

/-- Serving a latched transmit interrupt: the cause is cleared and
`can_standard_transmit` runs. -/
def transmitInterrupt (d : CanDev) : CanDev :=
  if d.regs.canicr.ti1 then
    canStandardTransmit { d with regs := d.regs.readIcr.2 }
  else d

theorem transmitInterrupt_latched {d : CanDev}
    (hlatched : d.regs.canicr.ti1 = true) :
    transmitInterrupt d =
      canStandardTransmit { d with regs := d.regs.readIcr.2 } :=
  if_pos hlatched

def lineStep (d : CanDev) : LineEvent → CanDev
  | .write buffer n => (canWrite d buffer n).2
  | .frameCompletes => { d with regs := d.regs.frameCompletes }
  | .interrupt => transmitInterrupt d

/-- Telegrams wait only for a frame in flight whose completion will raise the
transmit interrupt. -/
def NoStall (d : CanDev) : Prop :=
  d.cfg.rb.txHead ≠ d.cfg.rb.txTail →
    d.regs.tbs1 = false ∧ d.regs.canier.tie1 = true

/-- A write call that has telegrams to queue does not start with a frame in
flight and the transmit interrupt off. -/
def InterruptKept (d : CanDev) : LineEvent → Prop
  | .write _ n => 0 < n → d.regs.tbs1 = false → d.regs.canier.tie1 = true
  | _ => True

/-- The invariant behind `NoStall`: while a completion is latched the buffer
may be free already. -/
structure Waiting (d : CanDev) : Prop where
  opened : d.cfg.init = true
  bounded : d.cfg.rb.TxBounded
  enabled : d.cfg.rb.txHead ≠ d.cfg.rb.txTail → d.regs.canier.tie1 = true
  inFlight : d.cfg.rb.txHead ≠ d.cfg.rb.txTail →
    d.regs.tbs1 = false ∨ d.regs.canicr.ti1 = true

theorem Waiting.noStall {d : CanDev} (h : Waiting d)
    (hserved : ¬InterruptPending d) : NoStall d := by
  intro hne
  refine ⟨?_, h.enabled hne⟩
  rcases h.inFlight hne with hflight | hpending
  · exact hflight
  · exact absurd hpending hserved

theorem waiting_openDevice (ipbase : BitVec 32) (d : CanDev) :
    Waiting (openDevice ipbase d) where
  opened := rfl
  bounded := CanRingBuffer.txBounded_initialize_indices
  enabled := fun _ => rfl
  inFlight := fun hne => absurd rfl hne

/-- A run of the transmit function restores the invariant wherever a taken
buffer comes with an enabled interrupt. -/
theorem waiting_transmit {d : CanDev} (hinit : d.cfg.init = true)
    (hb : d.cfg.rb.TxBounded)
    (hbusy : d.cfg.rb.txHead ≠ d.cfg.rb.txTail → d.regs.tbs1 = false →
      d.regs.canier.tie1 = true) :
    Waiting (canStandardTransmit d) := by
  rcases canStandardTransmit_cases d with
    ⟨hempty, h⟩ | ⟨_, _, h⟩ | ⟨hne, hflight, h⟩
  · rw [h]
    exact ⟨hinit, hb, fun hne => absurd hempty hne,
      fun hne => absurd hempty hne⟩
  · rw [h]
    exact ⟨hinit, hb.dropTx, fun _ => rfl, fun _ => Or.inl rfl⟩
  · rw [h]
    exact ⟨hinit, hb, fun _ => hbusy hne hflight, fun _ => Or.inl hflight⟩

/-- A write that takes nothing leaves the queue as it was. -/
theorem takenCount_nonpos {n : ℤ} (hn : ¬0 < n) (queued : ℕ) :
    takenCount n queued = 0 := by
  unfold takenCount
  omega

theorem Waiting.write {d : CanDev} (h : Waiting d) (buffer : ℕ → CanMsg)
    (n : ℤ) (hkept : InterruptKept d (.write buffer n)) :
    Waiting (lineStep d (.write buffer n)) := by
  obtain ⟨rb, hb, hqueue, hwrite⟩ :=
    canWrite_spec h.opened h.bounded buffer n
  have hbusy : rb.txHead ≠ rb.txTail → d.regs.tbs1 = false →
      d.regs.canier.tie1 = true := by
    intro hne hflight
    by_cases hn : 0 < n
    · exact hkept hn hflight
    · -- Nothing was queued, so the telegrams were waiting before the call.
      rw [takenCount_nonpos hn] at hqueue
      apply h.enabled
      rw [← CanRingBuffer.txQueue_ne_nil_iff h.bounded]
      rw [← CanRingBuffer.txQueue_ne_nil_iff hb] at hne
      simpa [hqueue] using hne
  rw [lineStep, hwrite]
  exact waiting_transmit
    (d := { cfg := { d.cfg with rb := rb }, regs := d.regs }) h.opened hb hbusy

theorem Waiting.frameCompletes {d : CanDev} (h : Waiting d) :
    Waiting (lineStep d .frameCompletes) := by
  cases hfree : d.regs.tbs1 with
  | true =>
      have hsame : lineStep d .frameCompletes = d := by
        simp [lineStep, CanRegs.frameCompletes, hfree]
      rw [hsame]
      exact h
  | false =>
      have hregs : d.regs.frameCompletes =
          { d.regs with
            tbs1 := true
            canicr := { d.regs.canicr with
              ti1 := d.regs.canicr.ti1 || d.regs.canier.tie1 } } := by
        simp [CanRegs.frameCompletes, hfree]
      rw [lineStep, hregs]
      refine ⟨h.opened, h.bounded, h.enabled, ?_⟩
      intro hne
      right
      simp [h.enabled hne]

theorem Waiting.interrupt {d : CanDev} (h : Waiting d) :
    Waiting (lineStep d .interrupt) := by
  rw [lineStep, transmitInterrupt]
  split
  · exact waiting_transmit (d := { d with regs := d.regs.readIcr.2 })
      h.opened h.bounded (fun hne _ => h.enabled hne)
  · exact h

theorem Waiting.step {d : CanDev} (h : Waiting d) (e : LineEvent)
    (hkept : InterruptKept d e) : Waiting (lineStep d e) := by
  cases e with
  | write buffer n => exact h.write buffer n hkept
  | frameCompletes => exact h.frameCompletes
  | interrupt => exact h.interrupt

/-- Open and inside the ring, whatever the interrupt enables are. -/
structure LineSane (d : CanDev) : Prop where
  opened : d.cfg.init = true
  bounded : d.cfg.rb.TxBounded

theorem LineSane.transmit {d : CanDev} (h : LineSane d) :
    LineSane (canStandardTransmit d) :=
  ⟨by rw [canStandardTransmit_init, h.opened],
    canStandardTransmit_txBounded h.bounded⟩

theorem LineSane.step {d : CanDev} (h : LineSane d) (e : LineEvent) :
    LineSane (lineStep d e) := by
  cases e with
  | write buffer n =>
      obtain ⟨rb, hb, _, hwrite⟩ := canWrite_spec h.opened h.bounded buffer n
      rw [lineStep, hwrite]
      exact LineSane.transmit ⟨h.opened, hb⟩
  | frameCompletes => exact ⟨h.opened, h.bounded⟩
  | interrupt =>
      rw [lineStep, transmitInterrupt]
      split
      · exact LineSane.transmit ⟨h.opened, h.bounded⟩
      · exact h

/-- A positive write that starts with a frame in flight and the interrupt off
leaves telegrams nobody will send. -/
theorem write_stalls {d : CanDev} (h : LineSane d) (buffer : ℕ → CanMsg)
    {n : ℤ} (hn : 0 < n) (hflight : d.regs.tbs1 = false)
    (hoff : d.regs.canier.tie1 = false) :
    ¬NoStall (lineStep d (.write buffer n)) ∧
      (lineStep d (.write buffer n)).regs = d.regs := by
  obtain ⟨rb, hb, hqueue, hwrite⟩ :=
    canWrite_spec h.opened h.bounded buffer n
  have hne : rb.txHead ≠ rb.txTail := by
    rw [← CanRingBuffer.txQueue_ne_nil_iff hb, hqueue]
    intro hnil
    obtain ⟨hold, hnew⟩ := List.append_eq_nil_iff.mp hnil
    have hzero := congrArg List.length hnew
    simp only [hold, List.length_map, List.length_range, List.length_nil,
      takenCount] at hzero
    omega
  rw [lineStep, hwrite]
  rcases canStandardTransmit_cases
      { cfg := { d.cfg with rb := rb }, regs := d.regs } with
    ⟨hempty, _⟩ | ⟨_, hfree, _⟩ | ⟨_, _, hstep⟩
  · exact absurd hempty hne
  · simp [hflight] at hfree
  · rw [hstep]
    refine ⟨?_, rfl⟩
    intro hno
    have henabled := (hno hne).2
    simp [hoff] at henabled

/-- The queue never stalls in a run whose write calls keep the interrupt; and
a write call that does not keep it, made with no interrupt pending, stalls the
queue at once. -/
theorem canWrite_noStall (d : CanDev) (ipbase : BitVec 32)
    (es : List LineEvent) :
    (Admissible lineStep InterruptKept (openDevice ipbase d) es →
      Along lineStep (fun s => ¬InterruptPending s → NoStall s)
        (openDevice ipbase d) es) ∧
    (let s := run lineStep (openDevice ipbase d) es
      ∀ (buffer : ℕ → CanMsg) (n : ℤ), ¬InterruptPending s →
        ¬InterruptKept s (.write buffer n) →
        ¬InterruptPending (lineStep s (.write buffer n)) ∧
          ¬NoStall (lineStep s (.write buffer n))) := by
  constructor
  · intro hok
    have hwaiting : Along lineStep Waiting (openDevice ipbase d) es :=
      along_of_admissible (fun s e hs hkept => hs.step e hkept)
        (waiting_openDevice ipbase d) hok
    exact hwaiting.mono fun s hs => hs.noStall
  · intro s buffer n hserved hlost
    have hsane : LineSane s :=
      invariant_run (I := LineSane) (fun _ e hs => hs.step e)
        ⟨rfl, CanRingBuffer.txBounded_initialize_indices⟩ es
    simp only [InterruptKept, Classical.not_imp, Bool.not_eq_true] at hlost
    obtain ⟨hn, hflight, hoff⟩ := hlost
    obtain ⟨hstall, hregs⟩ := write_stalls hsane buffer hn hflight hoff
    refine ⟨?_, hstall⟩
    unfold InterruptPending at *
    rw [hregs]
    exact hserved

/-- A telegram in flight, a write of nothing, another write: the second
telegram waits with the transmit interrupt off. -/
theorem canWrite_zero_stalls :
    let s := run lineStep (openDevice Ctrl.can1.base .powerOn)
      [.write (fun _ => .zero) 1, .write (fun _ => .zero) 0,
        .write (fun _ => .zero) 1]
    ¬InterruptPending s ∧ ¬NoStall s := by
  intro s
  refine ⟨by unfold InterruptPending; decide, ?_⟩
  intro hno
  have hqueued : s.cfg.rb.txHead ≠ s.cfg.rb.txTail := by decide
  have hoff : s.regs.canier.tie1 ≠ true := by decide
  exact hoff (hno hqueued).2

theorem canWrite_noStall_two_writes :
    let s := run lineStep (openDevice Ctrl.can1.base .powerOn)
      [.write (fun _ => .zero) 1, .write (fun _ => .zero) 1]
    NoStall s := by
  intro s
  have h := (canWrite_noStall .powerOn Ctrl.can1.base
    [.write (fun _ => .zero) 1, .write (fun _ => .zero) 1]).1
    ⟨fun _ _ => by decide, fun _ _ => by decide, trivial⟩
  exact h.last (by unfold InterruptPending; decide)

end EmbBoard.Can
