import EmbBoard.Can.Ownership

/-!
# What the interrupt handler touches

`CAN_Handler` serves both controllers whenever it runs.  It takes each
register pointer from the configuration without a look at the init flag, so
that a controller never opened is served through a null pointer and a closed
one is still served.
-/

namespace EmbBoard.Can

open EmbBoard.Runs

/-! ## The handler with its accesses -/

/-- A read or write the handler makes. -/
inductive Access
  | regs (p : BitVec 32)
  | rxRing (c : Ctrl)
  | txRing (c : Ctrl)
deriving DecidableEq

/-- `serveController` with the accesses it makes, in order. -/
def serveLogged (c : Ctrl) (d : CanDev) : List Access × CanDev :=
  let p := d.cfg.regptr
  let (icr, r) := d.regs.readIcr
  let d := { d with regs := r }
  let (log, d) :=
    if icr.ri then
      ([.regs p, .rxRing c, .regs p], canStandardReceive d)
    else ([.regs p], d)
  let (icr, r) := d.regs.readIcr
  let d := { d with regs := r }
  if icr.ti1 then
    (log ++ [.regs p, .txRing c, .regs p], canStandardTransmit d)
  else (log ++ [.regs p], d)

/-- One half of the handler; a pointer that leads nowhere is its last
access. -/
def halfLogged (c : Ctrl) (s : CanSystem) : List Access × Option CanSystem :=
  match Ctrl.ofBase (s.cfg c).regptr with
  | none => ([.regs (s.cfg c).regptr], none)
  | some p =>
      let served := serveLogged c { cfg := s.cfg c, regs := s.regs p }
      (served.1,
        some { s with
          cfg := Function.update s.cfg c served.2.cfg
          regs := Function.update s.regs p served.2.regs })

/-- `CAN_Handler` with the accesses it makes, in order. -/
def canHandlerLogged (s : CanSystem) : List Access × Option CanSystem :=
  match halfLogged .can1 s with
  | (log, none) => (log, none)
  | (log, some s) =>
      let second := halfLogged .can2 s
      (log ++ second.1, second.2)

theorem serveLogged_snd (c : Ctrl) (d : CanDev) :
    (serveLogged c d).2 = serveController d := by
  cases hri : d.regs.readIcr.1.ri with
  | true =>
      simp only [serveLogged, serveController, hri, if_true]
      split <;> rfl
  | false =>
      simp only [serveLogged, serveController, hri, Bool.false_eq_true, if_false]
      split <;> rfl

theorem halfLogged_snd (c : Ctrl) (s : CanSystem) :
    (halfLogged c s).2 = s.onDev c serveController := by
  cases hp : Ctrl.ofBase (s.cfg c).regptr with
  | none => simp [halfLogged, CanSystem.onDev, hp]
  | some p => simp [halfLogged, CanSystem.onDev, hp, serveLogged_snd]

/-- The log changes nothing of what the handler does. -/
theorem canHandlerLogged_snd (s : CanSystem) :
    (canHandlerLogged s).2 = canHandler s := by
  have hfirst := halfLogged_snd .can1 s
  cases hrun : halfLogged .can1 s with
  | mk log result =>
      rw [hrun] at hfirst
      rw [canHandler, ← hfirst]
      cases result with
      | none => simp [canHandlerLogged, hrun]
      | some t => simp [canHandlerLogged, hrun, halfLogged_snd]

/-! ## Safe accesses -/

/-- An access to an open controller, through a pointer that an earlier
`can_open` was given. -/
def Access.Allowed (past : List DriverEvent) (s : CanSystem) : Access → Prop
  | .regs p =>
      .call (.session (.canOpen p)) ∈ past ∧
        ∃ c, p = c.base ∧ (s.cfg c).init = true
  | .rxRing c => (s.cfg c).init = true
  | .txRing c => (s.cfg c).init = true

/-- Every access of a handler run in this state is allowed. -/
def HandlerSafe (past : List DriverEvent) (s : CanSystem) : Prop :=
  ∀ a ∈ (canHandlerLogged s).1, a.Allowed past s

/-- Every open controller was opened by an earlier call. -/
def OpenedBefore (past : List DriverEvent) (s : CanSystem) : Prop :=
  ∀ c, (s.cfg c).init = true →
    .call (.session (.canOpen c.base)) ∈ past

/-- The accesses of one half are to its own controller. -/
theorem serveLogged_accesses (c : Ctrl) (d : CanDev) :
    .regs d.cfg.regptr ∈ (serveLogged c d).1 ∧
      ∀ a ∈ (serveLogged c d).1,
        a = .regs d.cfg.regptr ∨ a = .rxRing c ∨ a = .txRing c := by
  cases hri : d.regs.readIcr.1.ri with
  | true =>
      simp only [serveLogged, hri, if_true]
      split <;> simp
  | false =>
      simp only [serveLogged, hri, Bool.false_eq_true, if_false]
      split <;> simp

/-- The pointer of a half is always followed. -/
theorem regptr_mem_halfLogged (c : Ctrl) (s : CanSystem) :
    .regs (s.cfg c).regptr ∈ (halfLogged c s).1 := by
  cases hp : Ctrl.ofBase (s.cfg c).regptr with
  | none => simp [halfLogged, hp]
  | some p =>
      simp only [halfLogged, hp]
      exact (serveLogged_accesses c ⟨s.cfg c, s.regs p⟩).1

theorem halfLogged_accesses {s : CanSystem} {c : Ctrl} {a : Access}
    (ha : a ∈ (halfLogged c s).1) :
    a = .regs (s.cfg c).regptr ∨ a = .rxRing c ∨ a = .txRing c := by
  cases hp : Ctrl.ofBase (s.cfg c).regptr with
  | none =>
      simp only [halfLogged, hp, List.mem_singleton] at ha
      exact Or.inl ha
  | some p =>
      simp only [halfLogged, hp] at ha
      exact (serveLogged_accesses c ⟨s.cfg c, s.regs p⟩).2 a ha

theorem allowed_halfLogged {past : List DriverEvent} {s t : CanSystem}
    (h : Wired s) (hpast : OpenedBefore past s) (hsame : SameHandles s t)
    {c : Ctrl} (hinit : (s.cfg c).init = true) {a : Access}
    (ha : a ∈ (halfLogged c t).1) : a.Allowed past s := by
  have hptr : (t.cfg c).regptr = c.base :=
    (hsame c).2.trans (h.regptr_of_init hinit)
  rcases halfLogged_accesses ha with rfl | rfl | rfl
  · rw [hptr]
    exact ⟨hpast c hinit, c, rfl, hinit⟩
  · exact hinit
  · exact hinit

/-- A half whose pointer may be followed belongs to an open controller. -/
theorem init_of_allowed {past : List DriverEvent} {s : CanSystem}
    (h : Wired s) {c : Ctrl}
    (hallowed : (Access.regs (s.cfg c).regptr).Allowed past s) :
    (s.cfg c).init = true := by
  obtain ⟨_, c', hptr, hinit⟩ := hallowed
  have hc : c' = c := h.ofBase_regptr (ofBase_eq_some.mpr hptr)
  rw [← hc]
  exact hinit

/-- With an open first controller the second half runs. -/
theorem canHandlerLogged_of_open {s : CanSystem} (h : Wired s)
    (hinit : (s.cfg .can1).init = true) :
    ∃ t, SameHandles s t ∧
      (canHandlerLogged s).1 = (halfLogged .can1 s).1 ++ (halfLogged .can2 t).1 := by
  have hptr := h.regptr_of_init hinit
  have hfirst : (halfLogged .can1 s).2 =
      some (s.setDev .can1 (serveController (s.dev .can1))) := by
    rw [halfLogged_snd, CanSystem.onDev, hptr, ofBase_base]
    rfl
  refine ⟨_, serveController_handles s .can1, ?_⟩
  cases hrun : halfLogged .can1 s with
  | mk log result =>
      rw [hrun] at hfirst
      obtain rfl : result = _ := hfirst
      simp [canHandlerLogged, hrun]

theorem regptr_mem_canHandlerLogged (s : CanSystem) :
    .regs (s.cfg .can1).regptr ∈ (canHandlerLogged s).1 := by
  have hmem := regptr_mem_halfLogged .can1 s
  cases hrun : halfLogged .can1 s with
  | mk log result =>
      rw [hrun] at hmem
      cases result with
      | none => simpa [canHandlerLogged, hrun] using hmem
      | some t => simpa [canHandlerLogged, hrun] using Or.inl hmem

/-- A run of the handler is safe exactly when both controllers are open. -/
theorem handlerSafe_iff {past : List DriverEvent} {s : CanSystem}
    (h : Wired s) (hpast : OpenedBefore past s) :
    HandlerSafe past s ↔ ∀ c, (s.cfg c).init = true := by
  constructor
  · intro hsafe
    have hfirst : (s.cfg .can1).init = true :=
      init_of_allowed h (hsafe _ (regptr_mem_canHandlerLogged s))
    obtain ⟨t, hsame, hlog⟩ := canHandlerLogged_of_open h hfirst
    have hmem : .regs (s.cfg .can2).regptr ∈ (canHandlerLogged s).1 := by
      rw [hlog, ← show (t.cfg .can2).regptr = (s.cfg .can2).regptr
        from (hsame .can2).2]
      exact List.mem_append_right _ (regptr_mem_halfLogged .can2 t)
    have hsecond : (s.cfg .can2).init = true :=
      init_of_allowed h (hsafe _ hmem)
    intro c
    cases c with
    | can1 => exact hfirst
    | can2 => exact hsecond
  · intro hopen a ha
    obtain ⟨t, hsame, hlog⟩ := canHandlerLogged_of_open h (hopen .can1)
    rw [hlog] at ha
    rcases List.mem_append.mp ha with hfirst | hsecond
    · exact allowed_halfLogged h hpast (.of_cfg rfl) (hopen .can1) hfirst
    · exact allowed_halfLogged h hpast hsame (hopen .can2) hsecond

/-! ## Whole runs -/

/-- `can_open` opens at most the controller it names. -/
theorem init_of_canOpen {ipbase : BitVec 32} {s : CanSystem} {c : Ctrl}
    (hinit : ((canOpen ipbase s).2.cfg c).init = true) :
    (s.cfg c).init = true ∨ ipbase = c.base := by
  rcases canOpen_cases ipbase s with
    ⟨_, hrun⟩ | ⟨p, rfl, _, hrun⟩ | ⟨p, rfl, _, hrun⟩
  · rw [hrun] at hinit
    exact Or.inl hinit
  · rw [hrun, powerUp_cfg] at hinit
    exact Or.inl hinit
  · by_cases hc : c = p
    · exact Or.inr (congrArg Ctrl.base hc.symm)
    · rw [hrun] at hinit
      refine Or.inl ?_
      simpa [openFresh, hc] using hinit

theorem Wired.init_of_canClose {s : CanSystem} (h : Wired s) {devid c : Ctrl}
    (hinit : ((canClose devid s).2.cfg c).init = true) :
    (s.cfg c).init = true := by
  rcases h.canClose_cases devid with ⟨_, hrun⟩ | ⟨hopen, hrun⟩
  · rw [hrun] at hinit
    exact hinit
  · by_cases hc : c = devid
    · rw [hc]
      exact hopen
    · rw [hrun] at hinit
      simpa [closeOpen, hc] using hinit

/-- A step opens at most the controller it names. -/
theorem init_of_step {s : CanSystem} (h : Wired s) {e : DriverEvent} {c : Ctrl}
    (hinit : ((driverStep s e).cfg c).init = true) :
    (s.cfg c).init = true ∨ e = .call (.session (.canOpen c.base)) := by
  rcases h.step_cases e with ⟨session, rfl, hstep⟩ | hsame
  · rw [hstep] at hinit
    cases session with
    | canOpen ipbase =>
        rcases init_of_canOpen hinit with hbefore | rfl
        · exact Or.inl hbefore
        · exact Or.inr rfl
    | canClose devid => exact Or.inl (h.init_of_canClose hinit)
  · exact Or.inl ((hsame c).1.symm.trans hinit)

theorem openedBefore_run {s₀ : CanSystem} (h : PowerUp s₀)
    (past : List DriverEvent) : OpenedBefore past (run driverStep s₀ past) := by
  induction past using List.reverseRecOn with
  | nil =>
      intro c hinit
      rw [run_nil, h c] at hinit
      cases hinit
  | append_singleton past e ih =>
      intro c hinit
      rw [run_append, run_cons, run_nil] at hinit
      apply List.mem_append.mpr
      rcases init_of_step (wired_run h past) hinit with hbefore | he
      · exact Or.inl (ih c hbefore)
      · rw [he]
        exact Or.inr (List.mem_singleton.mpr rfl)

/-- The events up to `past` are followed by an interrupt that the handler is
installed for. -/
def HandlerRuns (s₀ : CanSystem) (es past : List DriverEvent) : Prop :=
  past ++ [.interrupt] <+: es ∧
    (run driverStep s₀ past).handlerInstalled = true

/-- In every run from zero static data, the handler touches open controllers
only, through pointers that `can_open` has set, exactly when each of its runs
finds both controllers open. -/
theorem handler_safe_iff {s₀ : CanSystem} (h : PowerUp s₀)
    (es : List DriverEvent) :
    (∀ past, HandlerRuns s₀ es past →
        HandlerSafe past (run driverStep s₀ past)) ↔
      ∀ past, HandlerRuns s₀ es past →
        ∀ c, ((run driverStep s₀ past).cfg c).init = true := by
  apply forall_congr'
  intro past
  apply imp_congr_right
  intro _
  exact handlerSafe_iff (wired_run h past) (openedBefore_run h past)

/-- Only the first controller was opened: the first interrupt makes the
handler follow a null pointer. -/
theorem handler_follows_null :
    let past : List DriverEvent := [.call (.session (.canOpen Ctrl.can1.base))]
    PowerUp .powerOn ∧ HandlerRuns .powerOn (past ++ [.interrupt]) past ∧
      .regs 0 ∈ (canHandlerLogged (run driverStep .powerOn past)).1 ∧
      ¬HandlerSafe past (run driverStep .powerOn past) := by
  intro past
  have hwired := wired_run powerUp_powerOn past
  refine ⟨powerUp_powerOn, ⟨List.prefix_refl _, by decide⟩, by decide, ?_⟩
  intro hsafe
  have hopen := (handlerSafe_iff hwired (openedBefore_run powerUp_powerOn past)).mp
    hsafe .can2
  revert hopen
  decide

theorem handler_safe_iff_both_open :
    let es : List DriverEvent :=
      [.call (.session (.canOpen Ctrl.can1.base)),
        .call (.session (.canOpen Ctrl.can2.base)), .interrupt]
    ∀ past, HandlerRuns .powerOn es past →
      HandlerSafe past (run driverStep .powerOn past) := by
  intro es
  refine (handler_safe_iff powerUp_powerOn es).mpr ?_
  rintro past ⟨hpre, _⟩
  have hpast : past = es.take 2 := by
    rcases past with _ | ⟨e₁, _ | ⟨e₂, _ | ⟨e₃, rest⟩⟩⟩ <;>
      simp_all [es]
  rw [hpast]
  intro c
  cases c <;> decide

end EmbBoard.Can
