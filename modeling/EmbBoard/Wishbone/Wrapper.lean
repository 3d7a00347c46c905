import EmbBoard.Wishbone.Schedule
import EmbBoard.Wishbone.Timeout

/-!
# The composed bridge

`CpuInterface`, `WB_Master`, `Intercon` and the output slave `WBO`, wired as in
the wrapper; the other two slave positions are not connected and never
respond.  The strobes the master sees are read off the CPU samples, and the
bus part is the machine of master and interconnect under these strobes.
-/

namespace EmbBoard.Wishbone

open EmbBoard.Clocked

structure Wrapper where
  cpu : CpuInterface
  bus : Bus

namespace Wrapper

/-- `ack_o` of `WBO`. -/
def wboAck (stbI cycI : Bool) : Bool := stbI && cycI

/-- The inputs of the bus part.  `WBO` is slave 1 and has `err_o` at zero. -/
def busIn (w : Wrapper) : BusIn where
  aI := w.cpu.aO
  wrD := w.cpu.dO
  wrStrb := w.cpu.wrO
  rdStrb := w.cpu.rdO
  ackI := fun slave =>
    decide (slave = 1) && wboAck (w.bus.stbO 1) w.bus.master.cycOS
  errI := fun _ => false

def clock (rst : Bool) (b : CpuBus) (w : Wrapper) : Wrapper where
  cpu := w.cpu.clock rst b
  bus := w.bus.clock rst w.busIn

/-- `CpuD_o`. -/
def cpuDO (sDatI : Fin 3 → WbDat) (w : Wrapper) : WbDat :=
  w.bus.mDatO sDatI

/-- The state two clocks of reset with the CPU bus idle leave. -/
structure Fresh (w : Wrapper) : Prop where
  wrR : w.cpu.wrR = false
  wrRR : w.cpu.wrRR = false
  rdR : w.cpu.rdR = false
  rdO : w.cpu.rdO = false
  bus : w.bus = .initial

theorem fresh_reset (w : Wrapper) {b₁ b₂ : CpuBus} (h₁ : b₁.strobe = false)
    (h₂ : b₂.strobe = false) : ((w.clock true b₁).clock true b₂).Fresh := by
  rw [CpuBus.strobe, Bool.or_eq_false_iff] at h₁ h₂
  exact ⟨h₂.2, h₁.2, h₂.1, rfl, rfl⟩

end Wrapper

/-! ## Traces -/

section Trace

variable (w : Wrapper) (b : ℕ → CpuBus)

/-- The wrapper, clock by clock, under the samples `b`. -/
def wrapperTrace : ℕ → Wrapper :=
  trace (Wrapper.clock false) w b

def wrOAt (n : ℕ) : Bool := (wrapperTrace w b n).cpu.wrO

def rdOAt (n : ℕ) : Bool := (wrapperTrace w b n).cpu.rdO

def aOAt (n : ℕ) : WbAdr := (wrapperTrace w b n).cpu.aO

def dOAt (n : ℕ) : WbDat := (wrapperTrace w b n).cpu.dO

def masterAt (n : ℕ) : WbMaster := (wrapperTrace w b n).bus.master

/-- The cycle state of the master. -/
def csAt (n : ℕ) : WbCycle := (masterAt w b n).csWbCycle

/-- The inputs the bus part sees, clock by clock. -/
def busInAt (n : ℕ) : BusIn := (wrapperTrace w b n).busIn

end Trace

/-! ## Master and interconnect -/

section Bus

variable {w : Wrapper} {b : ℕ → CpuBus}

/-- The bus part runs as the machine of master and interconnect. -/
theorem wrapperTrace_bus (hw : w.Fresh) (n : ℕ) :
    (wrapperTrace w b n).bus = busTrace (busInAt w b) n := by
  induction n with
  | zero => exact hw.bus
  | succ n ih =>
      rw [busTrace_succ, ← ih]
      rfl

theorem masterAt_eq (hw : w.Fresh) (n : ℕ) :
    masterAt w b n = (busTrace (busInAt w b) n).master := by
  rw [masterAt, wrapperTrace_bus hw]

theorem registered_masterAt (hw : w.Fresh) (n : ℕ) :
    (masterAt w b n).Registered := by
  rw [masterAt_eq hw]
  exact registered_busTrace _ n

theorem stbAt_eq (hw : w.Fresh) (n : ℕ) :
    stbAt (busInAt w b) n = (csAt w b n).nxStb := by
  rw [stbAt, ← masterAt_eq hw]
  exact (registered_masterAt hw n).stb

/-- A strobe updates the address register, and nothing else does. -/
theorem adrO_succ (n : ℕ) :
    (masterAt w b (n + 1)).adrO =
      if wrOAt w b n || rdOAt w b n then aOAt w b n
      else (masterAt w b n).adrO := rfl

theorem datOS_succ (n : ℕ) :
    (masterAt w b (n + 1)).datOS =
      if wrOAt w b n then dOAt w b n else (masterAt w b n).datOS := rfl

theorem csAt_succ (hw : w.Fresh) (n : ℕ) :
    csAt w b (n + 1) =
      nxWbCycle (csAt w b n) (wrOAt w b n) (rdOAt w b n)
        (ackAt (busInAt w b) n) (errSAt (busInAt w b) n) := by
  rw [ackAt, errSAt, ← wrapperTrace_bus hw]
  rfl

/-- The acknowledge is the strobe of `WBO`. -/
theorem ackAt_eq (hw : w.Fresh) (n : ℕ) :
    ackAt (busInAt w b) n =
      ((csAt w b n).nxStb &&
        decide (slaveSel (masterAt w b n).adrO = 1)) := by
  have hreg := registered_masterAt (b := b) hw n
  rw [ackAt, ← wrapperTrace_bus hw]
  change (decide (slaveSel (masterAt w b n).adrO = 1) &&
    (((masterAt w b n).stbO && decide (1 = slaveSel (masterAt w b n).adrO)) &&
      (masterAt w b n).cycOS)) = _
  rw [hreg.stb, hreg.cyc]
  cases h : csAt w b n
  all_goals
    rw [csAt] at h
    simp [h, WbCycle.nxStb, WbCycle.nxCyc, eq_comm]

end Bus

/-! ## Strobes -/

section Strobes

variable {w : Wrapper} {b : ℕ → CpuBus}

theorem wrOAt_zero (hw : w.Fresh) : wrOAt w b 0 = false := by
  change (w.cpu.wrRR && !w.cpu.wrR) = false
  rw [hw.wrRR, Bool.false_and]

theorem wrOAt_one (hw : w.Fresh) : wrOAt w b 1 = false := by
  change (w.cpu.wrR && !(b 0).writes) = false
  rw [hw.wrR, Bool.false_and]

/-- The write strobe comes two clocks after the last sample of a write. -/
theorem wrOAt_add_two (n : ℕ) :
    wrOAt w b (n + 2) = ((b n).writes && !(b (n + 1)).writes) := rfl

theorem rdOAt_zero (hw : w.Fresh) : rdOAt w b 0 = false := hw.rdO

theorem rdOAt_one (hw : w.Fresh) : rdOAt w b 1 = false := hw.rdR

/-- The read strobe follows the samples of a read by two clocks. -/
theorem rdOAt_add_two (n : ℕ) : rdOAt w b (n + 2) = (b n).reads := rfl

theorem aOAt_of_strobe {n : ℕ} (h : (b n).strobe = true) :
    aOAt w b (n + 2) = (b n).a := by
  have hlatch : ((b n).writes || (b n).reads) = true := by
    rwa [Bool.or_comm]
  exact if_pos hlatch

theorem dOAt_of_strobe {n : ℕ} (h : (b n).strobe = true) :
    dOAt w b (n + 2) = (b n).d := by
  have hlatch : ((b n).writes || (b n).reads) = true := by
    rwa [Bool.or_comm]
  exact if_pos hlatch

/-- Two clocks after a sample, or in the first two clocks. -/
theorem strobe_cases (hw : w.Fresh) (n : ℕ) :
    (∃ p, n = p + 2) ∨ (wrOAt w b n = false ∧ rdOAt w b n = false) := by
  match n with
  | 0 => exact Or.inr ⟨wrOAt_zero hw, rdOAt_zero hw⟩
  | 1 => exact Or.inr ⟨wrOAt_one hw, rdOAt_one hw⟩
  | p + 2 => exact Or.inl ⟨p, rfl⟩

/-- A write strobe is the last one of its access. -/
theorem wrO_quiet (hw : w.Fresh) (hs : Schedule b) {n : ℕ}
    (h : wrOAt w b n = true) :
    rdOAt w b n = false ∧ wrOAt w b (n + 1) = false ∧
      rdOAt w b (n + 1) = false := by
  rcases strobe_cases hw n with ⟨p, rfl⟩ | ⟨hlow, -⟩
  · rw [wrOAt_add_two, Bool.and_eq_true, Bool.not_eq_true'] at h
    obtain ⟨hwrite, hend⟩ := h
    have hread : ∀ q, (b q).writes = true → (b q).reads = false := by
      intro q hq
      by_contra hr
      rw [Bool.not_eq_false] at hr
      rw [hs.oneWay q hr] at hq
      cases hq
    refine ⟨hread p hwrite, ?_, ?_⟩
    · change ((b (p + 1)).writes && _) = false
      rw [hend, Bool.false_and]
    · change (b (p + 1)).reads = false
      by_contra hr
      rw [Bool.not_eq_false] at hr
      have hsame := hs.steady p (strobe_of_writes hwrite) (strobe_of_reads hr)
      rw [hsame.writes, hwrite] at hend
      cases hend
  · rw [h] at hlow
    cases hlow

/-- No write strobe comes with a read strobe or right after it. -/
theorem rdO_quiet (hw : w.Fresh) (hs : Schedule b) {n : ℕ}
    (h : rdOAt w b n = true) :
    wrOAt w b n = false ∧ wrOAt w b (n + 1) = false := by
  rcases strobe_cases hw n with ⟨p, rfl⟩ | ⟨-, hlow⟩
  · rw [rdOAt_add_two] at h
    refine ⟨?_, ?_⟩
    · rw [wrOAt_add_two, hs.oneWay p h, Bool.false_and]
    · change ((b (p + 1)).writes && _) = false
      cases hwrite : (b (p + 1)).writes with
      | false => rfl
      | true =>
          have hsame :=
            hs.steady p (strobe_of_reads h) (strobe_of_writes hwrite)
          rw [hsame.writes, hs.oneWay p h] at hwrite
          cases hwrite
  · rw [h] at hlow
    cases hlow

/-- The first read strobe of a read: its first sample was two clocks ago. -/
theorem rdO_rises (hw : w.Fresh) (hs : Schedule b) {n : ℕ}
    (h : rdOAt w b n = true) (hrise : ∀ m, m + 1 = n → rdOAt w b m = false) :
    ∃ t, n = t + 2 ∧ (b t).reads = true ∧ Starts b t := by
  rcases strobe_cases hw n with ⟨t, rfl⟩ | ⟨-, hlow⟩
  · rw [rdOAt_add_two] at h
    refine ⟨t, rfl, h, strobe_of_reads h, ?_⟩
    cases t with
    | zero => exact Or.inl rfl
    | succ p =>
        right
        have hlow : (b p).reads = false := hrise (p + 2) rfl
        rw [Nat.add_sub_cancel]
        by_contra hup
        rw [Bool.not_eq_false] at hup
        have hsame := hs.steady p hup (strobe_of_reads h)
        rw [hsame.reads, hlow] at h
        cases h
  · rw [h] at hlow
    cases hlow

/-- A read keeps its strobe for a second clock. -/
theorem rdO_long (hw : w.Fresh) (hs : Schedule b) {n : ℕ}
    (h : rdOAt w b n = true) (hrise : ∀ m, m + 1 = n → rdOAt w b m = false) :
    rdOAt w b (n + 1) = true := by
  obtain ⟨t, rfl, hread, hstart⟩ := rdO_rises hw hs h hrise
  have hsame := hs.steady t hstart.1 (hstart.long hs)
  change (b (t + 1)).reads = true
  rw [hsame.reads, hread]

/-- The address at a strobe is the one of the access. -/
theorem exists_sample (hw : w.Fresh) {n : ℕ}
    (h : (wrOAt w b n || rdOAt w b n) = true) :
    ∃ p, n = p + 2 ∧ (b p).strobe = true := by
  rcases strobe_cases (b := b) hw n with ⟨p, rfl⟩ | ⟨hwr, hrd⟩
  · refine ⟨p, rfl, ?_⟩
    rw [Bool.or_eq_true] at h
    rcases h with hwr | hrd
    · rw [wrOAt_add_two, Bool.and_eq_true] at hwr
      exact strobe_of_writes hwr.1
    · exact strobe_of_reads hrd
  · rw [hwr, hrd] at h
    cases h

/-- A write strobe ends an access, and shows its address and data. -/
theorem due_of_wrO (hw : w.Fresh) (hs : Schedule b) {n : ℕ}
    (h : wrOAt w b n = true) :
    ∃ t, (b t).writes = true ∧ DueAt b t (n + 1) ∧
      aOAt w b n = (b t).a ∧ dOAt w b n = (b t).d := by
  rcases strobe_cases (b := b) hw n with ⟨p, rfl⟩ | ⟨hlow, -⟩
  · rw [wrOAt_add_two, Bool.and_eq_true, Bool.not_eq_true'] at h
    obtain ⟨hwrite, hend⟩ := h
    have hup := strobe_of_writes hwrite
    obtain ⟨t, htp, hstart, hrun⟩ := exists_starts hup
    have hsame := hs.same htp hrun
    have hgap : (b (p + 1)).strobe = false := by
      by_contra hon
      rw [Bool.not_eq_false] at hon
      rw [(hs.steady p hup hon).writes, hwrite] at hend
      cases hend
    have hidle : FirstIdle b t (p + 1) := by
      refine ⟨by omega, hgap, ?_⟩
      intro j hj hjp
      exact hrun j hj (Nat.lt_succ_iff.mp hjp)
    have hwrite' : (b t).writes = true := hsame.writes.symm.trans hwrite
    refine ⟨t, hwrite', ⟨hstart, Or.inr ⟨hwrite', p + 1, hidle, rfl⟩⟩, ?_, ?_⟩
    · rw [aOAt_of_strobe hup, hsame.a]
    · rw [dOAt_of_strobe hup, hsame.d hwrite']
  · rw [h] at hlow
    cases hlow

/-- A write ends with a write strobe that shows its address and data. -/
theorem wrO_of_due (hs : Schedule b) {t e : ℕ}
    (hwrite : (b t).writes = true) (hidle : FirstIdle b t e) :
    wrOAt w b (e + 1) = true ∧ aOAt w b (e + 1) = (b t).a ∧
      dOAt w b (e + 1) = (b t).d := by
  obtain ⟨p, rfl, -, hsame⟩ := hidle.last hs
  have hend : (b (p + 1)).writes = false := by
    have hlow := hidle.2.1
    rw [CpuBus.strobe, Bool.or_eq_false_iff] at hlow
    exact hlow.2
  have hlast : (b p).writes = true := hsame.writes.trans hwrite
  refine ⟨?_, ?_, ?_⟩
  · rw [wrOAt_add_two, hlast, hend]
    rfl
  · rw [aOAt_of_strobe (strobe_of_writes hlast), hsame.a]
  · rw [dOAt_of_strobe (strobe_of_writes hlast), hsame.d hwrite]

end Strobes

end EmbBoard.Wishbone
