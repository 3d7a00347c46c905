import EmbBoard.Wishbone.Bridge
import EmbBoard.Wishbone.EmptyPage
import EmbBoard.Wishbone.Pwm

/-!
# The FPGA of the shell board

The whole of the FPGA from the pins of the CPU to the LEDs: the bridge with the
output port that has a duty cycle.  The board leaves the upper address pins
unconnected, and their pull resistors select the page of the output port.
-/

namespace EmbBoard.Wishbone

open EmbBoard.Clocked

/-! ## Pins and signals -/

/-- The pins of the CPU as one clock edge samples them: A1 to A7, the data, and
the three strobes, active low.  In a read the data are what the FPGA drives. -/
structure CpuPins where
  a : BitVec 7
  d : WbDat
  nCpuRd : Bool
  nCpuWr : Bool
  nCpuCs : Bool
deriving DecidableEq, Repr

/-- The ten address inputs: the upper three are pulled to a page. -/
def pinAddress (a : BitVec 7) : WbAdr := 0b010#3 ++ a

def CpuPins.bus (p : CpuPins) : CpuBus where
  a := pinAddress p.a
  d := p.d
  rd := !p.nCpuRd
  wr := !p.nCpuWr
  cs := !p.nCpuCs

structure Board where
  bridge : Wrapper
  wbo : PwmWbo

namespace Board

/-- What the interconnect shows the output port. -/
def wboIn (rst : Bool) (s : Board) : PwmIn where
  rst := rst
  bus :=
    { cycI := s.bridge.bus.master.cycOS
      stbI := s.bridge.bus.stbO 1
      weI := s.bridge.bus.master.weOS
      datI := s.bridge.bus.master.datOS
      adrI := s.bridge.bus.master.adrO.setWidth 8 }

def clock (rst : Bool) (p : CpuPins) (s : Board) : Board where
  bridge := s.bridge.clock rst p.bus
  wbo := s.wbo.clock (s.wboIn rst)

/-- `Port_o`: the lower four bits of the output port. -/
def portO (s : Board) : BitVec 4 := s.wbo.portO.setWidth 4

/-- `CpuD_o`; nothing drives the data of the other two slaves. -/
def cpuDO (floating : Fin 3 → WbDat) (s : Board) : WbDat :=
  s.bridge.cpuDO fun slave =>
    if slave = 1 then s.wbo.datO else floating slave

end Board

/-- The last data written to an address, `d₀` if there is none. -/
def lastData (adr : WbLad) (ws : List (WbLad × WbDat)) (d₀ : WbDat) : WbDat :=
  ws.foldl (fun d w => if w.1 = adr then w.2 else d) d₀

theorem lastData_append (adr : WbLad) (ws ws' : List (WbLad × WbDat))
    (d₀ : WbDat) :
    lastData adr (ws ++ ws') d₀ = lastData adr ws' (lastData adr ws d₀) :=
  List.foldl_append

/-! ## The output port under its writes -/

theorem PwmWbo.reg_of_write {x : PwmIn} {adr : WbLad} {d : WbDat}
    (hrst : x.rst = false) (h : x.bus.write = some (adr, d)) (w : PwmWbo) :
    w.reg x =
      if adr = aWboReg1 then { w with r1 := d }
      else if adr = aWboReg2 then { w with regPwm := d }
      else w := by
  unfold WboIn.write at h
  split at h
  · rename_i hwrite
    rw [Bool.and_eq_true] at hwrite
    obtain ⟨rfl, rfl⟩ := Prod.mk.inj (Option.some_inj.mp h)
    simp [PwmWbo.reg, hrst, hwrite.1, hwrite.2]
  · cases h

/-- The registers hold the last data written to them, and the counter counts
the clocks. -/
theorem pwmTrace_eq (w : PwmWbo) {x : ℕ → PwmIn}
    (hrst : ∀ k, (x k).rst = false) (n : ℕ) :
    trace PwmWbo.clock w x n =
      { r1 := lastData aWboReg1 (log (fun k => (x k).bus.write) n) w.r1
        regPwm :=
          lastData aWboReg2 (log (fun k => (x k).bus.write) n) w.regPwm
        cntPwm := w.cntPwm + BitVec.ofNat 16 n } := by
  induction n with
  | zero => simp [trace, log, lastData]
  | succ n ih =>
      have hcnt : w.cntPwm + BitVec.ofNat 16 (n + 1) =
          w.cntPwm + BitVec.ofNat 16 n + 1 := by
        rw [BitVec.ofNat_add, ← BitVec.add_assoc]
        rfl
      rw [trace_succ, ih, log_succ, lastData_append, lastData_append, hcnt,
        PwmWbo.clock]
      cases hwrite : (x n).bus.write with
      | none =>
          rw [PwmWbo.reg_of_no_write hwrite]
          rfl
      | some write =>
          obtain ⟨adr, d⟩ := write
          rw [PwmWbo.reg_of_write (hrst n) hwrite]
          by_cases hreg1 : adr = aWboReg1
          · subst hreg1
            rfl
          · by_cases hreg2 : adr = aWboReg2
            · subst hreg2
              rfl
            · simp [lastData, hreg1, hreg2]

/-- The whole output in one clock. -/
theorem PwmWbo.q_eq (w : PwmWbo) :
    w.q = if w.cntPwm.toNat < w.regPwm.toNat then w.r1 else 0 := by
  by_cases hhigh : w.cntPwm.toNat < w.regPwm.toNat
  · have hpwm : w.pwm = true := decide_eq_true hhigh
    rw [if_pos hhigh, PwmWbo.q, hpwm]
    exact BitVec.and_allOnes
  · have hpwm : w.pwm = false := decide_eq_false hhigh
    simp [PwmWbo.q, hpwm, hhigh, BitVec.fill]

/-! ## The bridge on the board -/

/-- Every access of the CPU is to the page of the output port. -/
theorem inWboPage_pins (p : ℕ → CpuPins) : InWboPage fun n => (p n).bus := by
  intro n _
  change slaveSel (pinAddress (p n).a) = 1
  generalize (p n).a = a
  revert a
  decide

section Board

variable {w : Wrapper} {b : ℕ → CpuBus}

/-- With all accesses in the page of the output port every write is performed
when it is due. -/
theorem wboWriteAt_of_page (hw : w.Fresh) (hs : Schedule b)
    (hpage : InWboPage b) (n : ℕ) :
    wboWriteAt w b n = dueWriteAt w b n := by
  cases n with
  | zero => exact wboWriteAt_zero hw
  | succ n =>
      rw [wboWriteAt_succ_iff hw]
      constructor
      · rintro ⟨hwr, -, hlost⟩
        apply hlost
        have htaken : csAt w b (n + 1) = .wbWrite := by
          rcases csAt_succ_cases hw hs hpage n with
            ⟨-, hcs⟩ | ⟨hlow, -⟩ | ⟨hlow, -⟩
          · exact hcs
          · exact absurd (hwr.symm.trans hlow) (by decide)
          · exact absurd (hwr.symm.trans hlow) (by decide)
        obtain ⟨herr, hopen⟩ := (csAt_succ_eq_wbWrite_iff hw n).mp htaken
        exact ⟨herr, hopen.imp_left And.left⟩
      · rintro ⟨-, -, -, -, hopen, hack⟩
        rw [ackAt_of_page hw hpage, hopen] at hack
        cases hack

/-- The writes the port sees are the writes of the CPU. -/
theorem log_wboWriteAt (hw : w.Fresh) (hs : Schedule b)
    (hpage : InWboPage b) (n : ℕ) :
    log (wboWriteAt w b) n = wboWrites b n := by
  rw [← log_dueWriteAt hw hs]
  exact log_congr fun t _ => wboWriteAt_of_page hw hs hpage t

end Board

/-! ## The whole board -/

section Trace

variable (s : Board) (p : ℕ → CpuPins)

/-- The samples of the CPU bus. -/
def busOf (n : ℕ) : CpuBus := (p n).bus

def boardTrace : ℕ → Board := trace (Board.clock false) s p

theorem boardTrace_bridge (n : ℕ) :
    (boardTrace s p n).bridge = wrapperTrace s.bridge (busOf p) n := by
  induction n with
  | zero => rfl
  | succ n ih =>
      change (boardTrace s p n).bridge.clock false (busOf p n) = _
      rw [ih]
      rfl

theorem boardTrace_wbo (n : ℕ) :
    (boardTrace s p n).wbo =
      trace PwmWbo.clock s.wbo (fun k => (boardTrace s p k).wboIn false) n := by
  induction n with
  | zero => rfl
  | succ n ih =>
      rw [trace_succ, ← ih]
      rfl

/-- What the port sees as a write is what the bridge performs as one. -/
theorem write_wboIn (n : ℕ) :
    ((boardTrace s p n).wboIn false).bus.write =
      wboWriteAt s.bridge (busOf p) n := by
  have hbridge := boardTrace_bridge s p n
  simp only [WboIn.write, Board.wboIn, wboWriteAt, masterAt, hbridge]
  rw [Bool.and_comm (wrapperTrace s.bridge (busOf p) n).bus.master.cycOS]
  rfl

end Trace

/-- The board after two clocks of reset with the CPU idle. -/
def Board.afterReset (s : Board) (p₁ p₂ : CpuPins) : Board :=
  (s.clock true p₁).clock true p₂

section Fresh

variable {s : Board} {p : ℕ → CpuPins}

/-- The registers of the port hold what the CPU wrote last. -/
theorem boardTrace_wbo_eq (hw : s.bridge.Fresh) (hs : Schedule (busOf p))
    (n : ℕ) :
    (boardTrace s p n).wbo =
      { r1 := lastData aWboReg1 (wboWrites (busOf p) n) s.wbo.r1
        regPwm := lastData aWboReg2 (wboWrites (busOf p) n) s.wbo.regPwm
        cntPwm := s.wbo.cntPwm + BitVec.ofNat 16 n } := by
  have hlog : log (fun k => ((boardTrace s p k).wboIn false).bus.write) n =
      wboWrites (busOf p) n := by
    rw [← log_wboWriteAt hw hs (inWboPage_pins p)]
    exact log_congr fun t _ => write_wboIn s p t
  rw [boardTrace_wbo, pwmTrace_eq s.wbo (fun _ => rfl), hlog]

/-- While no further write is due the registers stay. -/
theorem wboWrites_between {b : ℕ → CpuBus} {m n k : ℕ} (hmk : m ≤ k)
    (hkn : k ≤ n) (h : wboWrites b n = wboWrites b m)
    (hw : s.bridge.Fresh) (hs : Schedule b) (hpage : InWboPage b) :
    wboWrites b k = wboWrites b m := by
  have hinit : ∀ {i j}, i ≤ j → wboWrites b i <+: wboWrites b j := by
    intro i j hij
    rw [← log_wboWriteAt hw hs hpage, ← log_wboWriteAt hw hs hpage]
    induction j, hij using Nat.le_induction with
    | base => exact List.prefix_refl _
    | succ j _ ih =>
        rw [log_succ]
        exact ih.trans (List.prefix_append _ _)
  have hlow := (hinit hmk).length_le
  have hhigh := (hinit hkn).length_le
  rw [h] at hhigh
  exact ((hinit hmk).eq_of_length (le_antisymm hlow hhigh)).symm

theorem Board.getElem_portO (s : Board) (i : Fin 4) :
    s.portO[i] = true ↔ s.wbo.r1[i] = true ∧
      s.wbo.cntPwm.toNat < s.wbo.regPwm.toNat := by
  have hlow : s.portO[i] = s.wbo.portO[i.castLE (by decide : 4 ≤ 16)] := by
    simp only [Board.portO, Fin.getElem_fin, BitVec.getElem_setWidth]
    exact BitVec.getLsbD_eq_getElem _
  rw [hlow, PwmWbo.getElem_portO]
  rfl

/-- A reset leaves the registers of the port alone and the counter running. -/
theorem afterReset_wbo (s : Board) (p₁ p₂ : CpuPins) :
    (s.afterReset p₁ p₂).wbo = { s.wbo with cntPwm := s.wbo.cntPwm + 2 } := by
  have hcnt : s.wbo.cntPwm + 1 + 1 = s.wbo.cntPwm + 2 := by
    rw [BitVec.add_assoc]
    rfl
  rw [← hcnt]
  rfl

/-- The port in every clock after a reset. -/
theorem boardTrace_afterReset (s₀ : Board) {p₁ p₂ : CpuPins}
    (h₁ : p₁.bus.strobe = false) (h₂ : p₂.bus.strobe = false)
    (hs : Schedule (busOf p)) (n : ℕ) :
    (boardTrace (s₀.afterReset p₁ p₂) p n).wbo =
      { r1 := lastData aWboReg1 (wboWrites (busOf p) n) s₀.wbo.r1
        regPwm := lastData aWboReg2 (wboWrites (busOf p) n) s₀.wbo.regPwm
        cntPwm := s₀.wbo.cntPwm + 2 + BitVec.ofNat 16 n } := by
  have hw : (s₀.afterReset p₁ p₂).bridge.Fresh :=
    s₀.bridge.fresh_reset h₁ h₂
  rw [boardTrace_wbo_eq hw hs, afterReset_wbo]

end Fresh

/-- A CPU that does not write from sample `m` on has no more writes due. -/
theorem wboWrites_of_noWrite {w : Wrapper} {b : ℕ → CpuBus} (hw : w.Fresh)
    (hs : Schedule b) {m : ℕ} (hlow : ∀ k, m ≤ k → (b k).writes = false)
    {n : ℕ} (hn : m + 3 ≤ n) : wboWrites b n = wboWrites b (m + 3) := by
  rw [← log_dueWriteAt hw hs, ← log_dueWriteAt hw hs]
  apply log_eq_of_none_after hn
  intro t ht _
  obtain ⟨k, rfl⟩ := Nat.exists_eq_add_of_le' ht
  have hwr : wrOAt w b (k + m + 2) = false := by
    rw [wrOAt_add_two, hlow (k + m) (Nat.le_add_left m k), Bool.false_and]
  change dueWriteAt w b (k + m + 2 + 1) = none
  rw [dueWriteAt]
  exact if_neg fun hdue => absurd (hdue.1.symm.trans hwr) (by decide)

/-- From a reset of any state, with any schedule of the CPU: in every clock an
LED is on when its bit was set in the last data the CPU wrote to the first
register and the clocks counted, modulo 65536, are below the last data it wrote
to the second one, both as far as the writes are due; and from the third sample
of a read on the CPU sees the whole first register or zero in the same way. -/
theorem board_shows_last_writes (s₀ : Board) {p₁ p₂ : CpuPins}
    (h₁ : p₁.bus.strobe = false) (h₂ : p₂.bus.strobe = false)
    {p : ℕ → CpuPins} (hs : Schedule (busOf p)) :
    let s := s₀.afterReset p₁ p₂
    let reg1 := fun n => lastData aWboReg1 (wboWrites (busOf p) n) s₀.wbo.r1
    let duty := fun n => lastData aWboReg2 (wboWrites (busOf p) n) s₀.wbo.regPwm
    let high := fun n => (s₀.wbo.cntPwm.toNat + 2 + n) % 2 ^ 16 < (duty n).toNat
    (∀ (n : ℕ) (i : Fin 4), (boardTrace s p n).portO[i] = true ↔
      (reg1 n)[i] = true ∧ high n) ∧
    ∀ (t j : ℕ) (floating : Fin 3 → WbDat), Starts (busOf p) t →
      (busOf p t).reads = true → t + 2 ≤ j →
      (∀ k, t ≤ k → k ≤ j → (busOf p k).strobe = true) →
      (boardTrace s p (j + 1)).cpuDO floating =
        if high (j + 1) then reg1 (j + 1) else 0 := by
  intro s reg1 duty high
  have hwbo := boardTrace_afterReset s₀ h₁ h₂ hs
  have hcount : ∀ n, (s₀.wbo.cntPwm + 2 + BitVec.ofNat 16 n).toNat =
      (s₀.wbo.cntPwm.toNat + 2 + n) % 2 ^ 16 := by
    intro n
    simp [BitVec.toNat_add]
  constructor
  · intro n i
    rw [Board.getElem_portO, hwbo n, hcount]
  · intro t j floating hstart hread hj hup
    have hsel : (boardTrace s p (j + 1)).bridge.bus.sel = 1 := by
      have hadr := adrO_of_read (w := s.bridge) hs hread hj hup
      rw [masterAt, ← boardTrace_bridge] at hadr
      rw [Bus.sel, hadr]
      exact inWboPage_pins p t hstart.1
    have hdata : (boardTrace s p (j + 1)).cpuDO floating =
        (boardTrace s p (j + 1)).wbo.datO := by
      rw [Board.cpuDO, Wrapper.cpuDO, Bus.mDatO, hsel, if_pos rfl]
    rw [hdata, PwmWbo.datO, PwmWbo.q_eq, hwbo (j + 1), hcount]

/-- Over any 65536 clocks in which no write of the CPU is due, an LED whose bit
is set in the last data written to the first register is on in exactly as many
clocks as the last data written to the second one says, and every other LED in
none. -/
theorem board_duty_exact (s₀ : Board) {p₁ p₂ : CpuPins}
    (h₁ : p₁.bus.strobe = false) (h₂ : p₂.bus.strobe = false)
    {p : ℕ → CpuPins} (hs : Schedule (busOf p)) (n : ℕ)
    (hquiet : wboWrites (busOf p) (n + 2 ^ 16) = wboWrites (busOf p) n)
    (i : Fin 4) :
    Nat.count (fun k =>
        (boardTrace (s₀.afterReset p₁ p₂) p (n + k)).portO[i] = true)
      (2 ^ 16) =
    if (lastData aWboReg1 (wboWrites (busOf p) n) s₀.wbo.r1)[i] then
      (lastData aWboReg2 (wboWrites (busOf p) n) s₀.wbo.regPwm).toNat
    else 0 := by
  have hw : (s₀.afterReset p₁ p₂).bridge.Fresh :=
    s₀.bridge.fresh_reset h₁ h₂
  let r1 := lastData aWboReg1 (wboWrites (busOf p) n) s₀.wbo.r1
  let duty := lastData aWboReg2 (wboWrites (busOf p) n) s₀.wbo.regPwm
  have hbit : ∀ k < 2 ^ 16,
      (boardTrace (s₀.afterReset p₁ p₂) p (n + k)).portO[i] = true ↔
        r1[i] = true ∧
          (s₀.wbo.cntPwm.toNat + 2 + n + k) % 2 ^ 16 < duty.toNat := by
    intro k hk
    have hsame := wboWrites_between (k := n + k) (by omega) (by omega) hquiet
      hw hs (inWboPage_pins p)
    rw [Board.getElem_portO, boardTrace_afterReset s₀ h₁ h₂ hs, hsame]
    simp [BitVec.toNat_add, Nat.add_assoc, r1, duty]
  cases hset : r1[i] with
  | false =>
      apply Nat.count_of_forall_not
      intro k hk hhigh
      rw [hbit k hk, hset] at hhigh
      cases hhigh.1
  | true =>
      refine (count_congr fun k hk => ?_).trans
        (count_mod_lt duty.isLt.le (s₀.wbo.cntPwm.toNat + 2 + n))
      rw [hbit k hk, hset, eq_self, true_and]

/-- The CPU lights four LEDs for 20 clocks of each turn of the counter, with a
write of two samples to each register; then it reads while the FPGA, which
drives the data pins in a read, turns the LEDs off. -/
def lightLeds : ℕ → CpuPins
  | 0 | 1 => ⟨0, 0x000F, true, false, false⟩
  | 3 | 4 => ⟨1, 0x0014, true, false, false⟩
  | 12 | 13 | 14 | 15 | 16 | 17 => ⟨0, 0x000F, false, true, false⟩
  | 18 | 19 => ⟨0, 0x0000, false, true, false⟩
  | _ => ⟨0, 0, true, true, true⟩

theorem idle_lightLeds (n : ℕ) (hn : 20 ≤ n) :
    (busOf lightLeds n).strobe = false := by
  obtain ⟨k, rfl⟩ := Nat.exists_eq_add_of_le' hn
  rfl

theorem schedule_lightLeds : Schedule (busOf lightLeds) :=
  .of_idle 20 idle_lightLeds (by decide)

/-- A board with nothing in its registers. -/
def Board.powerOn : Board where
  bridge := ⟨⟨0, 0, false, false, false, 0, 0, false⟩, .initial⟩
  wbo := ⟨0, 0, 0⟩

theorem board_shows_last_writes_lightLeds :
    let idle : CpuPins := ⟨0, 0, true, true, true⟩
    let s := Board.powerOn.afterReset idle idle
    (boardTrace s lightLeds 17).portO[(0 : Fin 4)] = true ∧
      ∀ floating, (boardTrace s lightLeds 17).cpuDO floating = 0x000F ∧
        (boardTrace s lightLeds 19).cpuDO floating = 0 := by
  intro idle s
  have hidle : idle.bus.strobe = false := rfl
  obtain ⟨hleds, hread⟩ :=
    board_shows_last_writes .powerOn hidle hidle schedule_lightLeds
  refine ⟨(hleds 17 0).mpr ⟨by decide, by decide⟩, fun floating => ⟨?_, ?_⟩⟩
  · refine (hread 12 16 floating (by decide) (by decide) (by decide)
      ?_).trans (by decide)
    intro k hk hk'
    exact (show ∀ k ≤ 16, 12 ≤ k → (busOf lightLeds k).strobe = true by
      decide) k hk' hk
  · refine (hread 12 18 floating (by decide) (by decide) (by decide)
      ?_).trans (by decide)
    intro k hk hk'
    exact (show ∀ k ≤ 18, 12 ≤ k → (busOf lightLeds k).strobe = true by
      decide) k hk' hk

theorem board_duty_exact_lightLeds :
    let idle : CpuPins := ⟨0, 0, true, true, true⟩
    Nat.count (fun k => (boardTrace (Board.powerOn.afterReset idle idle)
      lightLeds (8 + k)).portO[(0 : Fin 4)] = true) (2 ^ 16) = 0x0014 := by
  intro idle
  have hidle : idle.bus.strobe = false := rfl
  have hw : (Board.powerOn.afterReset idle idle).bridge.Fresh :=
    Board.powerOn.bridge.fresh_reset hidle hidle
  have hlow : ∀ k, 5 ≤ k → (busOf lightLeds k).writes = false := by
    intro k hk
    by_cases hread : k < 20
    · exact (show ∀ k < 20, 5 ≤ k → (busOf lightLeds k).writes = false by
        decide) k hread hk
    · have hidle := idle_lightLeds k (Nat.le_of_not_lt hread)
      rw [CpuBus.strobe, Bool.or_eq_false_iff] at hidle
      exact hidle.2
  have hquiet : wboWrites (busOf lightLeds) (8 + 2 ^ 16) =
      wboWrites (busOf lightLeds) 8 :=
    wboWrites_of_noWrite hw schedule_lightLeds hlow (by omega)
  have hduty := board_duty_exact .powerOn hidle hidle schedule_lightLeds 8
    hquiet 0
  rw [hduty]
  decide

end EmbBoard.Wishbone
