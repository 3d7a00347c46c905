import EmbBoard.Can.Handler

/-!
# Calls of the CAN driver

The five calls an application makes, the interrupt, and what the hardware may
do in between, as the steps of one machine.  Whatever happens, the register
pointer of a configuration is either still zero or the address of the
controller's own registers.
-/

namespace EmbBoard.Can

open EmbBoard.Runs

/-! ## The calls -/

inductive SessionCall
  | canOpen (ipbase : BitVec 32)
  | canClose (devid : Ctrl)

def sessionStep (s : CanSystem) : SessionCall → CanSystem
  | .canOpen ipbase => (canOpen ipbase s).2
  | .canClose devid => (canClose devid s).2

inductive DriverCall
  | session (call : SessionCall)
  | canIoctl (devid : Ctrl) (cmd arg : ℤ) (polls : List Bool)
  | canRead (devid : Ctrl) (maxBytes : ℤ)
  | canWrite (devid : Ctrl) (buffer : ℕ → CanMsg) (nTelegrams : ℤ)

/-- The controller a call is about; `can_open` may be given an address that is
none. -/
def DriverCall.target : DriverCall → Option Ctrl
  | .session (.canOpen ipbase) => Ctrl.ofBase ipbase
  | .session (.canClose devid) => some devid
  | .canIoctl devid _ _ _ => some devid
  | .canRead devid _ => some devid
  | .canWrite devid _ _ => some devid

/-- Run `f` on the device of `c` where the call looks at the registers only
after it has found the init flag set. -/
def CanSystem.onOpenDev (s : CanSystem) (c : Ctrl)
    (f : CanDev → Option CanDev) : Option CanSystem :=
  if (s.cfg c).init then
    (Ctrl.ofBase (s.cfg c).regptr).bind fun p =>
      (f { cfg := s.cfg c, regs := s.regs p }).map fun d =>
        { s with
          cfg := Function.update s.cfg c d.cfg
          regs := Function.update s.regs p d.regs }
  else some s

/-- The state after a call, `none` when it does not return. -/
def callStep (s : CanSystem) : DriverCall → Option CanSystem
  | .session call => some (sessionStep s call)
  | .canIoctl devid cmd arg polls =>
      s.onOpenDev devid fun d => (canIoctl d cmd arg polls).map Prod.snd
  | .canRead devid maxBytes =>
      s.onOpenDev devid fun d => some (canRead d maxBytes).2
  | .canWrite devid buffer nTelegrams =>
      s.onOpenDev devid fun d => some (canWrite d buffer nTelegrams).2

/-- One thing that happens on the board: a call, an interrupt, or the hardware
and the other drivers changing the two register blocks and the shared power
and pin registers in any way. -/
inductive DriverEvent
  | call (call : DriverCall)
  | interrupt
  | hardware (regs : Ctrl → CanRegs) (pconp pinsel0 : BitVec 32)

/-- An interrupt reaches the handler once `can_open` has installed it. -/
def driverStep (s : CanSystem) : DriverEvent → CanSystem
  | .call call => (callStep s call).getD s
  | .interrupt => if s.handlerInstalled then (canHandler s).getD s else s
  | .hardware regs pconp pinsel0 =>
      { s with regs := regs, pconp := pconp, pinsel0 := pinsel0 }

/-- The static data is zero, the hardware in any state. -/
def PowerUp (s : CanSystem) : Prop := ∀ c, s.cfg c = .powerOn

/-! ## What open and close do to the configurations -/

theorem ofBase_eq_some {ipbase : BitVec 32} {c : Ctrl} :
    Ctrl.ofBase ipbase = some c ↔ ipbase = c.base := by
  constructor
  · intro h
    unfold Ctrl.ofBase at h
    split at h
    · rename_i hbase
      rw [hbase, Option.some_inj.mp h]
    · split at h
      · rename_i hbase
        rw [hbase, Option.some_inj.mp h]
      · cases h
  · rintro rfl
    cases c <;> rfl

theorem base_ne_zero (c : Ctrl) : c.base ≠ 0 := by
  cases c <;> decide

theorem powerUp_cfg (c : Ctrl) (s : CanSystem) : (powerUp c s).cfg = s.cfg := by
  cases c <;> rfl

theorem powerUp_regs (c : Ctrl) (s : CanSystem) :
    (powerUp c s).regs = s.regs := by
  cases c <;> rfl

theorem canOpen_of_invalid {ipbase : BitVec 32}
    (h : Ctrl.ofBase ipbase = none) (s : CanSystem) :
    canOpen ipbase s = (none, s) := by
  rw [canOpen, h]

theorem canOpen_of_open {s : CanSystem} {c : Ctrl}
    (h : (s.cfg c).init = true) : canOpen c.base s = (some c, powerUp c s) := by
  simp [canOpen, powerUp_cfg, h]

/-- The configuration `can_open` leaves behind. -/
def CanCfg.opened (c : Ctrl) (cfg : CanCfg) : CanCfg :=
  { init := true, rb := cfg.rb.initialize, regptr := c.base }

/-- The system after `can_open` of a closed controller. -/
def openFresh (c : Ctrl) (s : CanSystem) : CanSystem :=
  { powerUp c s with
    cfg := Function.update s.cfg c ((s.cfg c).opened c)
    regs := Function.update s.regs c
      (openDevice c.base ⟨s.cfg c, s.regs c⟩).regs
    canAfmr := 0x00000002
    handlerInstalled := true }

theorem canOpen_of_closed {s : CanSystem} {c : Ctrl}
    (h : (s.cfg c).init = false) :
    canOpen c.base s = (some c, openFresh c s) := by
  simp [canOpen, powerUp_cfg, powerUp_regs, h, openDevice, CanCfg.opened,
    openFresh]

/-- The three things `can_open` can do. -/
theorem canOpen_cases (ipbase : BitVec 32) (s : CanSystem) :
    (Ctrl.ofBase ipbase = none ∧ canOpen ipbase s = (none, s)) ∨
    (∃ c, ipbase = c.base ∧ (s.cfg c).init = true ∧
      canOpen ipbase s = (some c, powerUp c s)) ∨
    (∃ c, ipbase = c.base ∧ (s.cfg c).init = false ∧
      canOpen ipbase s = (some c, openFresh c s)) := by
  cases hbase : Ctrl.ofBase ipbase with
  | none => exact Or.inl ⟨rfl, canOpen_of_invalid hbase s⟩
  | some c =>
      obtain rfl := ofBase_eq_some.mp hbase
      cases hinit : (s.cfg c).init with
      | true => exact Or.inr (Or.inl ⟨c, rfl, hinit, canOpen_of_open hinit⟩)
      | false => exact Or.inr (Or.inr ⟨c, rfl, hinit, canOpen_of_closed hinit⟩)

theorem canClose_of_closed {s : CanSystem} {c : Ctrl}
    (h : (s.cfg c).init = false) : canClose c s = (error, s) := by
  simp [canClose, h]

/-- The power of a controller switched off, as `can_close` does. -/
def powerDown (c : Ctrl) (s : CanSystem) : CanSystem :=
  match c with
  | .can1 => { s with pconp := s.pconp &&& ~~~(1#32 <<< 13) }
  | .can2 => { s with pconp := s.pconp &&& ~~~(1#32 <<< 14) }

/-- The system after `can_close` of an open controller. -/
def closeOpen (c : Ctrl) (s : CanSystem) : CanSystem :=
  { powerDown c s with
    cfg := Function.update s.cfg c { s.cfg c with init := false } }

theorem canClose_of_open {s : CanSystem} {c : Ctrl}
    (h : (s.cfg c).init = true) (hptr : (s.cfg c).regptr = c.base) :
    canClose c s = (noError, closeOpen c s) := by
  cases c <;> simp [canClose, h, hptr, powerDown, closeOpen]

/-! ## Handles -/

/-- A device whose init flag and register pointer are those of another. -/
def SameHandle (d d' : CanDev) : Prop :=
  d'.cfg.init = d.cfg.init ∧ d'.cfg.regptr = d.cfg.regptr

/-- Both devices have the init flags and register pointers they had. -/
def SameHandles (s t : CanSystem) : Prop :=
  ∀ c, SameHandle (s.dev c) (t.dev c)

theorem SameHandles.of_cfg {s t : CanSystem} (h : t.cfg = s.cfg) :
    SameHandles s t := by
  intro c
  simp only [SameHandle, CanSystem.dev, h, and_self]

theorem SameHandles.trans {s t u : CanSystem} (h : SameHandles s t)
    (h' : SameHandles t u) : SameHandles s u :=
  fun c => ⟨(h' c).1.trans (h c).1, (h' c).2.trans (h c).2⟩

theorem SameHandles.setDev {s : CanSystem} {c : Ctrl} {d : CanDev}
    (h : SameHandle (s.dev c) d) : SameHandles s (s.setDev c d) := by
  intro c'
  rw [setDev_dev]
  split
  · rename_i hc
    rw [hc]
    exact h
  · exact ⟨rfl, rfl⟩

/-! ## Register pointers -/

/-- A register pointer is zero until `can_open` sets it to the address of the
controller's own registers. -/
def Wired (s : CanSystem) : Prop :=
  ∀ c, (s.cfg c).regptr = c.base ∨
    ((s.cfg c).regptr = 0 ∧ (s.cfg c).init = false)

theorem PowerUp.wired {s : CanSystem} (h : PowerUp s) : Wired s := by
  intro c
  rw [h c]
  exact Or.inr ⟨rfl, rfl⟩

theorem Wired.regptr_of_init {s : CanSystem} (h : Wired s) {c : Ctrl}
    (hinit : (s.cfg c).init = true) : (s.cfg c).regptr = c.base := by
  rcases h c with hptr | ⟨_, hclosed⟩
  · exact hptr
  · rw [hinit] at hclosed
    cases hclosed

/-- A pointer that leads to registers leads to the controller's own. -/
theorem Wired.ofBase_regptr {s : CanSystem} (h : Wired s) {c p : Ctrl}
    (hp : Ctrl.ofBase (s.cfg c).regptr = some p) : p = c := by
  rcases h c with hptr | ⟨hzero, _⟩
  · rw [hptr, ofBase_base] at hp
    exact (Option.some_inj.mp hp).symm
  · rw [hzero] at hp
    exact absurd (ofBase_eq_some.mp hp).symm (base_ne_zero p)

/-- Changing one configuration keeps the pointers wired when its own pointer
stays or is set to the controller's registers. -/
theorem Wired.update {s t : CanSystem} (h : Wired s) {c : Ctrl} {cfg : CanCfg}
    (ht : t.cfg = Function.update s.cfg c cfg)
    (hcfg : cfg.regptr = c.base ∨
      (cfg.regptr = (s.cfg c).regptr ∧
        (cfg.init = true → (s.cfg c).init = true))) :
    Wired t := by
  intro c'
  rw [ht]
  by_cases hc : c' = c
  · subst hc
    rw [Function.update_self]
    rcases hcfg with hset | ⟨hsame, hinit⟩
    · exact Or.inl hset
    · rw [hsame]
      rcases h c' with hptr | ⟨hzero, hclosed⟩
      · exact Or.inl hptr
      · refine Or.inr ⟨hzero, ?_⟩
        rw [hclosed] at hinit
        simpa using hinit
  · rw [Function.update_of_ne hc]
    exact h c'

theorem Wired.of_handles {s t : CanSystem} (h : Wired s)
    (hsame : SameHandles s t) : Wired t := by
  intro c
  rw [show (t.cfg c).regptr = (s.cfg c).regptr from (hsame c).2,
    show (t.cfg c).init = (s.cfg c).init from (hsame c).1]
  exact h c

/-- The two things `can_close` can do. -/
theorem Wired.canClose_cases {s : CanSystem} (h : Wired s) (c : Ctrl) :
    ((s.cfg c).init = false ∧ canClose c s = (error, s)) ∨
      ((s.cfg c).init = true ∧ canClose c s = (noError, closeOpen c s)) := by
  cases hinit : (s.cfg c).init with
  | false => exact Or.inl ⟨rfl, canClose_of_closed hinit⟩
  | true =>
      exact Or.inr ⟨rfl, canClose_of_open hinit (h.regptr_of_init hinit)⟩

theorem Wired.session {s : CanSystem} (h : Wired s) (call : SessionCall) :
    Wired (sessionStep s call) := by
  cases call with
  | canOpen ipbase =>
      rw [sessionStep]
      rcases canOpen_cases ipbase s with
        ⟨_, hrun⟩ | ⟨c, rfl, _, hrun⟩ | ⟨c, rfl, _, hrun⟩
      · rw [hrun]
        exact h
      · rw [hrun]
        exact h.of_handles (.of_cfg (powerUp_cfg c s))
      · rw [hrun]
        exact h.update rfl (Or.inl rfl)
  | canClose c =>
      rw [sessionStep]
      rcases h.canClose_cases c with ⟨_, hrun⟩ | ⟨_, hrun⟩
      · rw [hrun]
        exact h
      · rw [hrun]
        refine h.update rfl (Or.inr ⟨rfl, ?_⟩)
        intro hfalse
        cases hfalse

/-! ## Calls on an open device -/

/-- On a closed device the call does nothing; on an open one it acts on the
controller's own registers. -/
theorem Wired.onOpenDev_cases {s t : CanSystem} (h : Wired s) {c : Ctrl}
    {f : CanDev → Option CanDev} (ht : s.onOpenDev c f = some t) :
    t = s ∨ ∃ d, (s.cfg c).init = true ∧ f (s.dev c) = some d ∧
      t = s.setDev c d := by
  unfold CanSystem.onOpenDev at ht
  split at ht
  · rename_i hinit
    rw [h.regptr_of_init hinit, ofBase_base, Option.bind_some,
      Option.map_eq_some_iff] at ht
    obtain ⟨d, hd, rfl⟩ := ht
    exact Or.inr ⟨d, hinit, hd, rfl⟩
  · exact Or.inl (Option.some_inj.mp ht).symm

theorem setBaudRate_handle (arg : ℤ) (d : CanDev) :
    SameHandle d (setBaudRate arg d).2 := ⟨rfl, rfl⟩

theorem canIoctl_handle {d d' : CanDev} {cmd arg status : ℤ}
    {polls : List Bool} (h : canIoctl d cmd arg polls = some (status, d')) :
    SameHandle d d' := by
  unfold canIoctl at h
  split at h
  · cases hcmd : CanIoctlCmd.ofInt cmd with
    | none =>
        rw [hcmd] at h
        cases h
        exact ⟨rfl, rfl⟩
    | some command =>
        rw [hcmd] at h
        cases command with
        | forceBusOff =>
            obtain ⟨r, _, hr⟩ := Option.map_eq_some_iff.mp h
            cases hr
            exact ⟨rfl, rfl⟩
        | setBaudRate =>
            have hd : d' = (setBaudRate arg d).2 := by
              rw [Option.some_inj.mp h]
            rw [hd]
            exact setBaudRate_handle arg d
        | setMode | getStatus | autoSetBaudRate | setFilter
        | clearErrorCondition =>
            cases h
            exact ⟨rfl, rfl⟩
  · cases h
    exact ⟨rfl, rfl⟩

theorem Wired.onOpenDev_handles {s t : CanSystem} (h : Wired s) {c : Ctrl}
    {f : CanDev → Option CanDev}
    (hf : ∀ d d', f d = some d' → SameHandle d d')
    (ht : s.onOpenDev c f = some t) : SameHandles s t := by
  rcases h.onOpenDev_cases ht with rfl | ⟨d, _, hd, rfl⟩
  · exact .of_cfg rfl
  · exact .setDev (hf _ _ hd)

/-- Only open and close change a handle. -/
theorem Wired.call_cases {s t : CanSystem} (h : Wired s) {call : DriverCall}
    (ht : callStep s call = some t) :
    (∃ session, call = .session session ∧ t = sessionStep s session) ∨
      SameHandles s t := by
  cases call with
  | session call => exact Or.inl ⟨call, rfl, (Option.some_inj.mp ht).symm⟩
  | canIoctl devid cmd arg polls =>
      rw [callStep] at ht
      refine Or.inr (h.onOpenDev_handles ?_ ht)
      intro d d' hd
      obtain ⟨⟨status, _⟩, hresult, rfl⟩ := Option.map_eq_some_iff.mp hd
      exact canIoctl_handle hresult
  | canRead devid maxBytes =>
      rw [callStep] at ht
      refine Or.inr (h.onOpenDev_handles ?_ ht)
      rintro d _ ⟨⟩
      exact canRead_cfg d maxBytes
  | canWrite devid buffer nTelegrams =>
      rw [callStep] at ht
      refine Or.inr (h.onOpenDev_handles ?_ ht)
      rintro d _ ⟨⟩
      exact canWrite_cfg d buffer nTelegrams

/-! ## The handler and whole runs -/

/-- A half of the handler that returns has served the controller's own
registers. -/
theorem Wired.onDev_eq {s t : CanSystem} (h : Wired s) {c : Ctrl}
    (ht : s.onDev c serveController = some t) :
    t = s.setDev c (serveController (s.dev c)) := by
  obtain ⟨p, hp, rfl⟩ := Option.map_eq_some_iff.mp ht
  obtain rfl := h.ofBase_regptr hp
  rfl

theorem serveController_handles (s : CanSystem) (c : Ctrl) :
    SameHandles s (s.setDev c (serveController (s.dev c))) :=
  .setDev (serveController_cfg _)

theorem Wired.handler_handles {s t : CanSystem} (h : Wired s)
    (ht : canHandler s = some t) : SameHandles s t := by
  obtain ⟨s₁, hfirst, hsecond⟩ := Option.bind_eq_some_iff.mp ht
  have hsame : SameHandles s s₁ := by
    rw [h.onDev_eq hfirst]
    exact serveController_handles s .can1
  apply hsame.trans
  rw [(h.of_handles hsame).onDev_eq hsecond]
  exact serveController_handles s₁ .can2

/-- One step of a run either opens or closes a controller or keeps both
handles. -/
theorem Wired.step_cases {s : CanSystem} (h : Wired s) (e : DriverEvent) :
    (∃ session, e = .call (.session session) ∧
        driverStep s e = sessionStep s session) ∨
      SameHandles s (driverStep s e) := by
  cases e with
  | call call =>
      cases ht : callStep s call with
      | none => exact Or.inr (.of_cfg (by simp [driverStep, ht]))
      | some t =>
          have hstep : driverStep s (.call call) = t := by
            simp [driverStep, ht]
          rw [hstep]
          rcases h.call_cases ht with ⟨session, rfl, hsession⟩ | hsame
          · exact Or.inl ⟨session, rfl, hsession⟩
          · exact Or.inr hsame
  | interrupt =>
      refine Or.inr ?_
      rw [driverStep]
      split
      · cases ht : canHandler s with
        | none => exact .of_cfg rfl
        | some t => exact h.handler_handles ht
      · exact .of_cfg rfl
  | hardware regs pconp pinsel0 => exact Or.inr (.of_cfg rfl)

theorem Wired.step {s : CanSystem} (h : Wired s) (e : DriverEvent) :
    Wired (driverStep s e) := by
  rcases h.step_cases e with ⟨session, _, hstep⟩ | hsame
  · rw [hstep]
    exact h.session session
  · exact h.of_handles hsame

/-- From zero static data every run keeps the pointers wired. -/
theorem wired_run {s₀ : CanSystem} (h : PowerUp s₀) (es : List DriverEvent) :
    Wired (run driverStep s₀ es) :=
  invariant_run (I := Wired) (fun _ e hs => hs.step e) h.wired es

end EmbBoard.Can
