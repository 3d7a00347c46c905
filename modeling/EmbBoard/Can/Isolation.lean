import EmbBoard.Can.Ownership

/-!
# What a call on one controller does to the other

The two controllers have configurations and register blocks of their own and
share the power and pin registers, which `can_open` and `can_close` change by
hand-made masks.  The masks of the first controller, and every other call, keep
to their own bits; the second controller is opened with a mask that also sets
two pin bits of the first.
-/

namespace EmbBoard.Can

/-- The power bit of a controller in `PCONP`. -/
def Ctrl.powerBit : Ctrl → ℕ
  | .can1 => 13
  | .can2 => 14

/-- The lowest of the four bits for its pins in `PINSEL0`. -/
def Ctrl.pinBit : Ctrl → ℕ
  | .can1 => 0
  | .can2 => 8

/-- The pins of a controller are selected as before. -/
def SamePins (c : Ctrl) (s s' : CanSystem) : Prop :=
  ∀ i < 4, s'.pinsel0.getLsbD (c.pinBit + i) = s.pinsel0.getLsbD (c.pinBit + i)

/-- Everything of one controller is as before. -/
structure SameController (c : Ctrl) (s s' : CanSystem) : Prop where
  init : (s'.cfg c).init = (s.cfg c).init
  rings : (s'.cfg c).rb = (s.cfg c).rb
  regs : s'.regs c = s.regs c
  power : s'.pconp.getLsbD c.powerBit = s.pconp.getLsbD c.powerBit
  pins : SamePins c s s'

theorem SameController.refl (c : Ctrl) (s : CanSystem) :
    SameController c s s :=
  ⟨rfl, rfl, rfl, rfl, fun _ _ => rfl⟩

/-- The call leaves each controller alone that it is not about. -/
def Isolated (s : CanSystem) (call : DriverCall) : Prop :=
  ∀ s', callStep s call = some s' →
    ∀ c, call.target ≠ some c → SameController c s s'

/-- The call opens the second controller while one of the two pin bits of the
first that its mask sets is clear. -/
def SetsForeignPins (s : CanSystem) (call : DriverCall) : Prop :=
  call = .session (.canOpen Ctrl.can2.base) ∧
    (s.pinsel0.getLsbD 0 = false ∨ s.pinsel0.getLsbD 2 = false)

/-! ## Masks -/

theorem getLsbD_powerUp_pconp {c c' : Ctrl} (hne : c' ≠ c) (s : CanSystem) :
    (powerUp c s).pconp.getLsbD c'.powerBit = s.pconp.getLsbD c'.powerBit := by
  cases c <;> cases c' <;>
    first
    | exact absurd rfl hne
    | simp [powerUp, Ctrl.powerBit]

theorem getLsbD_powerDown_pconp {c c' : Ctrl} (hne : c' ≠ c) (s : CanSystem) :
    (powerDown c s).pconp.getLsbD c'.powerBit = s.pconp.getLsbD c'.powerBit := by
  cases c <;> cases c' <;>
    first
    | exact absurd rfl hne
    | simp [powerDown, Ctrl.powerBit]

/-- A bit after `reg &= ~clear; reg |= set`. -/
theorem getLsbD_mask (w clear set : BitVec 32) {i : ℕ} (hi : i < 32) :
    ((w &&& ~~~clear) ||| set).getLsbD i =
      (w.getLsbD i && !clear.getLsbD i || set.getLsbD i) := by
  simp [hi]

theorem samePins_powerUp_can1 (s : CanSystem) :
    SamePins .can2 s (powerUp .can1 s) := by
  intro i hi
  rw [powerUp, getLsbD_mask _ _ _ (by simp only [Ctrl.pinBit]; omega)]
  interval_cases i <;> simp [Ctrl.pinBit]

theorem samePins_powerUp_can2_iff (s : CanSystem) :
    SamePins .can1 s (powerUp .can2 s) ↔
      s.pinsel0.getLsbD 0 = true ∧ s.pinsel0.getLsbD 2 = true := by
  have hbit : ∀ i < 4, (powerUp .can2 s).pinsel0.getLsbD i =
      (s.pinsel0.getLsbD i || decide (i = 0) || decide (i = 2)) := by
    intro i hi
    rw [powerUp, getLsbD_mask _ _ _ (by omega)]
    interval_cases i <;> simp
  simp only [SamePins, Ctrl.pinBit, Nat.zero_add]
  constructor
  · intro h
    have h₀ := h 0 (by decide)
    have h₂ := h 2 (by decide)
    rw [hbit 0 (by decide)] at h₀
    rw [hbit 2 (by decide)] at h₂
    exact ⟨by rw [← h₀]; simp, by rw [← h₂]; simp⟩
  · rintro ⟨h₀, h₂⟩ i hi
    rw [hbit i hi]
    interval_cases i <;> simp [h₀, h₂]

/-! ## One call -/

theorem sameController_setDev {c c' : Ctrl} (hne : c' ≠ c) (s : CanSystem)
    (d : CanDev) : SameController c' s (s.setDev c d) := by
  have hcfg : (s.setDev c d).cfg c' = s.cfg c' := Function.update_of_ne hne _ _
  have hregs : (s.setDev c d).regs c' = s.regs c' :=
    Function.update_of_ne hne _ _
  exact ⟨by rw [hcfg], by rw [hcfg], hregs, rfl, fun _ _ => rfl⟩

/-- Opening a controller reaches the other one through its pins at most. -/
theorem sameController_canOpen_iff {c c' : Ctrl} (hne : c' ≠ c)
    (s : CanSystem) :
    SameController c' s (canOpen c.base s).2 ↔ SamePins c' s (powerUp c s) := by
  have hpower := getLsbD_powerUp_pconp hne s
  cases hinit : (s.cfg c).init with
  | true =>
      rw [canOpen_of_open hinit]
      have hcfg := congrFun (powerUp_cfg c s) c'
      constructor
      · intro h
        exact h.pins
      · intro hpins
        exact ⟨by rw [hcfg], by rw [hcfg], congrFun (powerUp_regs c s) c',
          hpower, hpins⟩
  | false =>
      rw [canOpen_of_closed hinit, openFresh]
      constructor
      · intro h
        exact h.pins
      · intro hpins
        refine ⟨?_, ?_, Function.update_of_ne hne _ _, hpower, hpins⟩
        · exact congrArg CanCfg.init (Function.update_of_ne hne _ _)
        · exact congrArg CanCfg.rb (Function.update_of_ne hne _ _)

theorem sameController_canClose {s : CanSystem} (h : Wired s) {c c' : Ctrl}
    (hne : c' ≠ c) : SameController c' s (canClose c s).2 := by
  rcases h.canClose_cases c with ⟨_, hrun⟩ | ⟨_, hrun⟩
  · rw [hrun]
    exact .refl c' s
  · rw [hrun, closeOpen]
    refine ⟨?_, ?_, ?_, getLsbD_powerDown_pconp hne s, ?_⟩
    · exact congrArg CanCfg.init (Function.update_of_ne hne _ _)
    · exact congrArg CanCfg.rb (Function.update_of_ne hne _ _)
    · cases c <;> rfl
    · cases c <;> exact fun _ _ => rfl

theorem sameController_onOpenDev {s t : CanSystem} (h : Wired s)
    {c c' : Ctrl} (hne : c' ≠ c) {f : CanDev → Option CanDev}
    (ht : s.onOpenDev c f = some t) : SameController c' s t := by
  rcases h.onOpenDev_cases ht with rfl | ⟨d, _, _, rfl⟩
  · exact .refl c' t
  · exact sameController_setDev hne s d

/-- Calls that look at the init flag first are isolated. -/
theorem isolated_onOpenDev {s : CanSystem} (h : Wired s) {call : DriverCall}
    {devid : Ctrl} (htarget : call.target = some devid)
    (hcall : ∃ f, callStep s call = s.onOpenDev devid f) : Isolated s call := by
  intro t ht c hne
  obtain ⟨f, hf⟩ := hcall
  rw [hf] at ht
  rw [htarget] at hne
  exact sameController_onOpenDev h (fun hc => hne (congrArg some hc.symm)) ht

theorem isolated_canOpen_iff (s : CanSystem) (ipbase : BitVec 32) :
    Isolated s (.session (.canOpen ipbase)) ↔
      ¬SetsForeignPins s (.session (.canOpen ipbase)) := by
  have hstep : Isolated s (.session (.canOpen ipbase)) ↔
      ∀ c, Ctrl.ofBase ipbase ≠ some c →
        SameController c s (canOpen ipbase s).2 := by
    simp [Isolated, callStep, sessionStep, DriverCall.target]
  rw [hstep]
  cases hbase : Ctrl.ofBase ipbase with
  | none =>
      rw [canOpen_of_invalid hbase]
      constructor
      · rintro _ ⟨hcall, _⟩
        cases hcall
        rw [ofBase_base] at hbase
        cases hbase
      · exact fun _ c _ => .refl c s
  | some c =>
      obtain rfl := ofBase_eq_some.mp hbase
      cases c with
      | can1 =>
          constructor
          · rintro _ ⟨hcall, _⟩
            exact absurd hcall (by simp [Ctrl.base])
          · intro _ c hne
            have hne' : c ≠ .can1 := fun hc => hne (congrArg some hc.symm)
            rw [sameController_canOpen_iff hne']
            cases c with
            | can1 => exact absurd rfl hne'
            | can2 => exact samePins_powerUp_can1 s
      | can2 =>
          have hpins : (∀ c, some Ctrl.can2 ≠ some c →
              SameController c s (canOpen Ctrl.can2.base s).2) ↔
                SamePins .can1 s (powerUp .can2 s) := by
            rw [← sameController_canOpen_iff (by decide)]
            constructor
            · exact fun h => h .can1 (by decide)
            · intro h c hne
              cases c with
              | can1 => exact h
              | can2 => exact absurd rfl hne
          rw [hpins, samePins_powerUp_can2_iff]
          simp only [SetsForeignPins, true_and, not_or, Bool.not_eq_false]

theorem Wired.isolated_iff {s : CanSystem} (h : Wired s) (call : DriverCall) :
    Isolated s call ↔ ¬SetsForeignPins s call := by
  cases call with
  | session call =>
      cases call with
      | canOpen ipbase => exact isolated_canOpen_iff s ipbase
      | canClose devid =>
          refine iff_of_true ?_ (by simp [SetsForeignPins])
          rintro _ ⟨⟩ c hne
          exact sameController_canClose h fun hc => hne (congrArg some hc.symm)
  | canIoctl devid cmd arg polls =>
      refine iff_of_true ?_ (by simp [SetsForeignPins])
      exact isolated_onOpenDev h rfl ⟨_, callStep.eq_def _ _⟩
  | canRead devid maxBytes =>
      refine iff_of_true ?_ (by simp [SetsForeignPins])
      exact isolated_onOpenDev h rfl ⟨_, callStep.eq_def _ _⟩
  | canWrite devid buffer nTelegrams =>
      refine iff_of_true ?_ (by simp [SetsForeignPins])
      exact isolated_onOpenDev h rfl ⟨_, callStep.eq_def _ _⟩

/-- In every state the driver reaches from zero static data, whatever the
hardware has come to, a call leaves the other controller alone exactly when it
does not open the second controller while bit 0 or bit 2 of `PINSEL0` is
clear. -/
theorem isolated_iff_of_run {s₀ : CanSystem} (h : PowerUp s₀)
    (es : List DriverEvent) (call : DriverCall) :
    Isolated (Runs.run driverStep s₀ es) call ↔
      ¬SetsForeignPins (Runs.run driverStep s₀ es) call :=
  (wired_run h es).isolated_iff call

/-- On the power-on board, opening the second controller selects a function on
the pins of the first. -/
theorem canOpen_sets_foreign_pins :
    PowerUp .powerOn ∧ CanSystem.powerOn.pinsel0.getLsbD 0 = false ∧
      ((canOpen Ctrl.can2.base .powerOn).2).pinsel0.getLsbD 0 = true ∧
      ¬Isolated .powerOn (.session (.canOpen Ctrl.can2.base)) := by
  refine ⟨powerUp_powerOn, by decide, by decide, ?_⟩
  intro h
  have hsame := h _ rfl .can1 (by decide)
  have hpin := hsame.pins 0 (by decide)
  revert hpin
  decide

/-- The first controller opened, with one telegram in flight and two queued. -/
def firstWriting : List DriverEvent :=
  [.call (.session (.canOpen Ctrl.can1.base)),
    .call (.canWrite .can1 (fun i => .ofId (i + 1)) 3)]

/-- Opening the second controller then leaves the first one alone. -/
theorem isolated_iff_of_run_openSecond :
    let s := Runs.run driverStep .powerOn firstWriting
    (s.cfg .can1).rb.txQueue.map (·.msgId) = [2, 3] ∧
      ((canOpen Ctrl.can2.base s).2.cfg .can2).init = true ∧
      Isolated s (.session (.canOpen Ctrl.can2.base)) := by
  refine ⟨by decide, by decide, ?_⟩
  refine (isolated_iff_of_run powerUp_powerOn firstWriting _).mpr ?_
  rintro ⟨-, hpins⟩
  revert hpins
  decide

end EmbBoard.Can
