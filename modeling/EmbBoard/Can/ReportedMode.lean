import EmbBoard.Can.Reject

/-!
# The reported mode

`CAN_SET_MODE` encodes a mode in bits of their own, and sets the bit of the new
mode without clearing those of the earlier ones; `CAN_MODE` decodes them in an
order of priority.  Leaving reset, which several commands do on their way,
drops the mode that was set to reset.
-/

namespace EmbBoard.Can

open EmbBoard.Runs

/-! ## Runs of control commands -/

/-- A call of `can_ioctl` with any command but `CAN_FORCE_BUS_OFF`. -/
structure ModeCall where
  cmd : ℤ
  arg : ℤ
  notBusOff : CanIoctlCmd.ofInt cmd ≠ some .forceBusOff

/-- `can_ioctl` with `CAN_GET_STATUS` and `CAN_MODE`. -/
def reportedMode (d : CanDev) : Option ℤ := (canIoctl d 4 0 []).map Prod.fst

/-- The mode after a call: a mode or bit rate that is supported counts, and
nothing else. -/
def expectedMode (mode : CanMode) (call : ModeCall) : CanMode :=
  match CanIoctlCmd.ofInt call.cmd with
  | some .setMode => (CanMode.ofInt call.arg).getD mode
  | some .setBaudRate =>
      match CanBaudRate.ofInt call.arg with
      | some _ => .operating
      | none => mode
  | _ => mode

/-- The device and the mode it should report. -/
structure ModeView where
  dev : CanDev
  expected : CanMode

def modeStep (v : ModeView) (call : ModeCall) : ModeView where
  dev := ((canIoctl v.dev call.cmd call.arg []).map Prod.snd).getD v.dev
  expected := expectedMode v.expected call

/-- The device reports the mode that was set. -/
def ReportsMode (v : ModeView) : Prop :=
  reportedMode v.dev = some v.expected.toInt

/-- Clearing an error condition, or a rejected command, leaves the reported
mode as it was. -/
def KeepsReport (v : ModeView) (call : ModeCall) : Prop :=
  CanIoctlCmd.ofInt call.cmd = some .clearErrorCondition ∨
      Rejected call.cmd call.arg →
    reportedMode (modeStep v call).dev = reportedMode v.dev

/-- The mode register before a call, with which the call gives the right
report.  A new mode but listen-only needs the listen-only bit clear, operating
mode the test bit too; and what leaves reset on its way must not find a
controller in reset mode. -/
def ModeSafe (v : ModeView) (call : ModeCall) : Prop :=
  let m := v.dev.regs.canmod
  match CanIoctlCmd.ofInt call.cmd with
  | some .setMode =>
      match CanMode.ofInt call.arg with
      | some .selfTest => m.lom = false
      | some .listenOnly => True
      | some .operating => m.lom = false ∧ m.tm = false
      | some .reset => m.lom = false
      | none => True
  | some .setBaudRate =>
      match CanBaudRate.ofInt call.arg with
      | some _ => m.lom = false ∧ m.tm = false
      | none => m.lom = true ∨ m.rm = false
  | some .clearErrorCondition => m.lom = true ∨ m.rm = false
  | _ => True

/-! ## The mode register -/

/-- The mode register after a call. -/
def CanMod.after (m : CanMod) (call : ModeCall) : CanMod :=
  match CanIoctlCmd.ofInt call.cmd with
  | some .setMode =>
      match CanMode.ofInt call.arg with
      | some .selfTest => { m with rm := false, tm := true }
      | some .listenOnly => { m with rm := false, lom := true }
      | some .operating => { m with rm := false }
      | some .reset => { m with rm := true }
      | none => m
  | some .setBaudRate => { m with rm := false }
  | some .clearErrorCondition => { m with rm := false }
  | _ => m

/-- The mode that `CAN_MODE` decodes, with the sleep bit clear. -/
def CanMod.shows (m : CanMod) : CanMode :=
  if m.lom then .listenOnly
  else if m.rm then .reset
  else if m.tm then .selfTest
  else .operating

/-- What a call can do to the mode register. -/
theorem CanMod.after_cases (m : CanMod) (call : ModeCall) :
    (∃ rm, m.after call = { m with rm := rm }) ∨
      m.after call = { m with rm := false, tm := true } ∨
      m.after call = { m with rm := false, lom := true } := by
  unfold CanMod.after
  split
  · split
    · exact Or.inr (Or.inl rfl)
    · exact Or.inr (Or.inr rfl)
    · exact Or.inl ⟨false, rfl⟩
    · exact Or.inl ⟨true, rfl⟩
    · exact Or.inl ⟨m.rm, rfl⟩
  · exact Or.inl ⟨false, rfl⟩
  · exact Or.inl ⟨false, rfl⟩
  · exact Or.inl ⟨m.rm, rfl⟩

theorem CanMod.after_sm (m : CanMod) (call : ModeCall) :
    (m.after call).sm = m.sm := by
  rcases m.after_cases call with ⟨rm, hafter⟩ | hafter | hafter
  · rw [hafter]
  · rw [hafter]
  · rw [hafter]

/-- No call clears the listen-only bit. -/
theorem CanMod.after_lom {m : CanMod} (h : m.lom = true) (call : ModeCall) :
    (m.after call).lom = true := by
  rcases m.after_cases call with ⟨rm, hafter⟩ | hafter | hafter
  · rw [hafter, ← h]
  · rw [hafter, ← h]
  · rw [hafter]

/-- An open device whose sleep bit is clear. -/
structure AwakeOpen (v : ModeView) : Prop where
  init : v.dev.cfg.init = true
  sm : v.dev.regs.canmod.sm = false

theorem setMode_canmod (call : ModeCall)
    (hcmd : CanIoctlCmd.ofInt call.cmd = some .setMode) (r : CanRegs) :
    (setMode call.arg r).2.canmod = r.canmod.after call := by
  unfold CanMod.after
  rw [hcmd]
  cases hmode : CanMode.ofInt call.arg with
  | none => simp [setMode, hmode]
  | some mode => cases mode <;> simp [setMode, hmode, CanRegs.setRm]

theorem clearErrorCondition_canmod (arg : ℤ) (r : CanRegs) :
    (clearErrorCondition arg r).canmod = { r.canmod with rm := false } := by
  cases hkind : ErrorConditionType.ofInt arg with
  | none => simp [clearErrorCondition, hkind, CanRegs.setRm]
  | some kind =>
      cases kind <;> simp [clearErrorCondition, hkind, CanRegs.setRm]

theorem setRate_canmod (rate : CanBaudRate) (r : CanRegs) :
    (r.setRate rate).canmod = r.canmod := by
  cases rate <;> rfl

theorem setBaudRate_canmod (arg : ℤ) (d : CanDev) :
    (setBaudRate arg d).2.regs.canmod = { d.regs.canmod with rm := false } := by
  cases hrate : CanBaudRate.ofInt arg with
  | none =>
      simp [setBaudRate, hrate, CanRegs.setRm, CanRegs.setRie,
        CanRegs.setTie1, CanRegs.setDefaultTiming, CanRegs.clearStatus]
  | some rate =>
      simp [setBaudRate, hrate, CanRegs.setRm, CanRegs.setRie,
        CanRegs.setTie1, CanRegs.setDefaultTiming, CanRegs.clearStatus,
        setRate_canmod]

theorem modeStep_dev {v : ModeView} (h : v.dev.cfg.init = true)
    (call : ModeCall) :
    (modeStep v call).dev.cfg.init = true ∧
      (modeStep v call).dev.regs.canmod = v.dev.regs.canmod.after call := by
  unfold modeStep
  simp only [canIoctl, h, if_true]
  cases hcmd : CanIoctlCmd.ofInt call.cmd with
  | none => exact ⟨h, by simp [CanMod.after, hcmd]⟩
  | some cmd =>
      cases cmd with
      | setMode => exact ⟨h, setMode_canmod call hcmd v.dev.regs⟩
      | setBaudRate =>
          refine ⟨h, ?_⟩
          simpa [CanMod.after, hcmd] using
            setBaudRate_canmod call.arg v.dev
      | clearErrorCondition =>
          refine ⟨h, ?_⟩
          simpa [CanMod.after, hcmd] using
            clearErrorCondition_canmod call.arg v.dev.regs
      | forceBusOff => exact absurd hcmd call.notBusOff
      | autoSetBaudRate | setFilter | getStatus =>
          exact ⟨h, by simp [CanMod.after, hcmd]⟩

theorem AwakeOpen.step {v : ModeView} (h : AwakeOpen v) (call : ModeCall) :
    AwakeOpen (modeStep v call) := by
  obtain ⟨hinit, hmod⟩ := modeStep_dev h.init call
  exact ⟨hinit, by rw [hmod, CanMod.after_sm, h.sm]⟩

theorem AwakeOpen.reportedMode_eq {v : ModeView} (h : AwakeOpen v) :
    reportedMode v.dev = some v.dev.regs.canmod.shows.toInt := by
  have hrun : reportedMode v.dev = some (getStatus 0 v.dev.regs) := by
    simp [reportedMode, canIoctl, h.init, CanIoctlCmd.ofInt]
  rw [hrun, Option.some_inj]
  simp only [getStatus, CanIoctlSts.ofInt, CanMod.shows, h.sm]
  cases hlom : v.dev.regs.canmod.lom <;> cases hrm : v.dev.regs.canmod.rm <;>
    cases htm : v.dev.regs.canmod.tm <;> rfl

/-- Once the listen-only bit is set, no sequence of commands gets another mode
reported. -/
theorem AwakeOpen.reportedMode_of_lom {v : ModeView} (h : AwakeOpen v)
    (hlom : v.dev.regs.canmod.lom = true) (calls : List ModeCall) :
    reportedMode (run modeStep v calls).dev =
      some CanMode.listenOnly.toInt := by
  have hrun := invariant_run
    (I := fun v => AwakeOpen v ∧ v.dev.regs.canmod.lom = true)
    (fun v call hv => ⟨hv.1.step call, by
      rw [(modeStep_dev hv.1.init call).2]
      exact CanMod.after_lom hv.2 call⟩) ⟨h, hlom⟩ calls
  rw [hrun.1.reportedMode_eq, CanMod.shows, if_pos hrun.2]

theorem CanMode.toInt_injective : Function.Injective CanMode.toInt := by
  intro m m' h
  cases m <;> cases m' <;> first | rfl | exact absurd h (by decide)

theorem AwakeOpen.reportsMode_iff {v : ModeView} (h : AwakeOpen v) :
    ReportsMode v ↔ v.dev.regs.canmod.shows = v.expected := by
  rw [ReportsMode, h.reportedMode_eq, Option.some_inj]
  exact CanMode.toInt_injective.eq_iff

/-! ## One call -/

/-- Out of reset, the register shows the mode below the reset bit. -/
theorem CanMod.shows_leaveReset_iff (m : CanMod) :
    CanMod.shows { m with rm := false } = m.shows ↔
      m.lom = true ∨ m.rm = false := by
  obtain ⟨rm, lom, sm, tm⟩ := m
  cases rm <;> cases lom <;> cases tm <;> simp [CanMod.shows]

theorem CanMod.shows_operating_iff (m : CanMod) :
    CanMod.shows { m with rm := false } = .operating ↔
      m.lom = false ∧ m.tm = false := by
  obtain ⟨rm, lom, sm, tm⟩ := m
  cases lom <;> cases tm <;> simp [CanMod.shows]

theorem CanMod.shows_selfTest_iff (m : CanMod) :
    CanMod.shows { m with rm := false, tm := true } = .selfTest ↔
      m.lom = false := by
  obtain ⟨rm, lom, sm, tm⟩ := m
  cases lom <;> simp [CanMod.shows]

theorem CanMod.shows_reset_iff (m : CanMod) :
    CanMod.shows { m with rm := true } = .reset ↔ m.lom = false := by
  obtain ⟨rm, lom, sm, tm⟩ := m
  cases lom <;> simp [CanMod.shows]

/-- A call keeps the report right exactly when it is safe. -/
theorem reportsMode_step_iff {v : ModeView} (h : AwakeOpen v)
    (hreport : ReportsMode v) (call : ModeCall) :
    ReportsMode (modeStep v call) ↔ ModeSafe v call := by
  have hshows := h.reportsMode_iff.mp hreport
  rw [(h.step call).reportsMode_iff, (modeStep_dev h.init call).2]
  simp only [modeStep, expectedMode, ModeSafe, CanMod.after]
  rw [← hshows]
  generalize v.dev.regs.canmod = m
  cases hcmd : CanIoctlCmd.ofInt call.cmd with
  | none => simp
  | some cmd =>
      cases cmd with
      | setMode =>
          cases hmode : CanMode.ofInt call.arg with
          | none => simp
          | some mode =>
              cases mode with
              | selfTest => exact m.shows_selfTest_iff
              | listenOnly => exact iff_of_true rfl trivial
              | operating => exact m.shows_operating_iff
              | reset => exact m.shows_reset_iff
      | setBaudRate =>
          cases hrate : CanBaudRate.ofInt call.arg with
          | none => exact m.shows_leaveReset_iff
          | some rate => exact m.shows_operating_iff
      | clearErrorCondition => exact m.shows_leaveReset_iff
      | forceBusOff => exact absurd hcmd call.notBusOff
      | autoSetBaudRate | setFilter | getStatus => simp

/-! ## Whole sequences -/

/-- A call that only clears an error condition or is rejected sets no mode. -/
theorem expectedMode_eq (mode : CanMode) {call : ModeCall}
    (h : CanIoctlCmd.ofInt call.cmd = some .clearErrorCondition ∨
      Rejected call.cmd call.arg) : expectedMode mode call = mode := by
  unfold expectedMode
  rcases h with hclear | hrejected
  · rw [hclear]
  · unfold Rejected at hrejected
    cases hcmd : CanIoctlCmd.ofInt call.cmd with
    | none => rfl
    | some cmd =>
        rw [hcmd] at hrejected
        cases cmd with
        | setMode =>
            have hnone : CanMode.ofInt call.arg = none := hrejected
            simp [hnone]
        | setBaudRate =>
            have hnone : CanBaudRate.ofInt call.arg = none := hrejected
            simp [hnone]
        | getStatus | autoSetBaudRate | setFilter | forceBusOff
        | clearErrorCondition => rfl

theorem keepsReport_of_reports {v : ModeView} {call : ModeCall}
    (h : ReportsMode v) (h' : ReportsMode (modeStep v call)) :
    KeepsReport v call := by
  intro hcall
  have hexpected : (modeStep v call).expected = v.expected :=
    expectedMode_eq v.expected hcall
  rw [show reportedMode v.dev = _ from h,
    show reportedMode (modeStep v call).dev = _ from h', hexpected]

/-- What `can_open` leaves behind when the mode register was zero. -/
theorem awakeOpen_canOpen {s : CanSystem} {c : Ctrl}
    (hzero : (s.regs c).canmod = ⟨false, false, false, false⟩) :
    let v : ModeView := ⟨(canOpen c.base s).2.dev c, .operating⟩
    AwakeOpen v ∧ ReportsMode v := by
  intro v
  have hdev : v.dev.cfg.init = true ∧
      v.dev.regs.canmod = ⟨false, false, false, false⟩ := by
    cases hinit : (s.cfg c).init with
    | true =>
        simp [v, canOpen_of_open hinit, CanSystem.dev, powerUp_cfg,
          powerUp_regs, hinit, hzero]
    | false =>
        simp [v, canOpen_of_closed hinit, CanSystem.dev, openFresh,
          CanCfg.opened, openDevice, CanRegs.setRm, CanRegs.clearStatus,
          CanRegs.setBrp, CanRegs.setDefaultTiming, CanRegs.setRie,
          CanRegs.setTie1, hzero]
  have hawake : AwakeOpen v := ⟨hdev.1, by rw [hdev.2]⟩
  refine ⟨hawake, hawake.reportsMode_iff.mpr ?_⟩
  rw [hdev.2]
  rfl

/-- After `can_open` with the mode register at zero, the mode that was set is
reported all along a sequence of control commands, and never changed by
clearing an error condition or by a rejected command, exactly when every
command is safe for the mode register it finds. -/
theorem reportsSetMode_iff {s : CanSystem} {c : Ctrl}
    (hzero : (s.regs c).canmod = ⟨false, false, false, false⟩)
    (calls : List ModeCall) :
    let v : ModeView := ⟨(canOpen c.base s).2.dev c, .operating⟩
    (Along modeStep ReportsMode v calls ∧
        Admissible modeStep KeepsReport v calls) ↔
      Admissible modeStep ModeSafe v calls := by
  intro v
  obtain ⟨hawake, hreport⟩ := awakeOpen_canOpen hzero
  have halong : Along modeStep ReportsMode v calls ↔
      Admissible modeStep ModeSafe v calls :=
    along_iff_admissible (I := AwakeOpen) (fun _ call h => h.step call)
      (fun _ call h hr => reportsMode_step_iff h hr call) hawake hreport calls
  rw [← halong]
  refine and_iff_left_of_imp fun h => ?_
  exact admissible_of_along (fun _ _ => keepsReport_of_reports) h

/-- The board after power-on with both mode registers at zero. -/
def CanSystem.zeroMode : CanSystem :=
  { CanSystem.powerOn with
    regs := fun _ =>
      { CanRegs.powerOn with canmod := ⟨false, false, false, false⟩ } }

/-- Listen-only mode, then operating mode: listen-only is reported. -/
theorem operating_reports_listenOnly :
    let v₀ : ModeView :=
      ⟨(canOpen Ctrl.can1.base .zeroMode).2.dev .can1, .operating⟩
    let calls : List ModeCall := [⟨3, 1, by decide⟩, ⟨3, 2, by decide⟩]
    let v := run modeStep v₀ calls
    v.expected = .operating ∧
      reportedMode v.dev = some CanMode.listenOnly.toInt ∧
      ¬Along modeStep ReportsMode v₀ calls := by
  intro v₀ calls v
  have hexpected : v.expected = .operating := by decide
  have hreported : reportedMode v.dev = some CanMode.listenOnly.toInt := by
    decide
  refine ⟨hexpected, hreported, ?_⟩
  intro h
  have hlast : ReportsMode v := h.last
  rw [ReportsMode, hreported, hexpected] at hlast
  exact absurd hlast (by decide)

/-- Self-test mode is still reported after a receive error was cleared. -/
theorem reportsSetMode_iff_selfTest :
    Along modeStep ReportsMode
      ⟨(canOpen Ctrl.can1.base .zeroMode).2.dev .can1, .operating⟩
      [⟨3, 0, by decide⟩, ⟨6, 0, by decide⟩] := by
  have hsafe : Admissible modeStep ModeSafe
      ⟨(canOpen Ctrl.can1.base .zeroMode).2.dev .can1, .operating⟩
      [⟨3, 0, by decide⟩, ⟨6, 0, by decide⟩] :=
    ⟨rfl, Or.inr rfl, trivial⟩
  exact ((reportsSetMode_iff rfl _).mpr hsafe).1

end EmbBoard.Can
