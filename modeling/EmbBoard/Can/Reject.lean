import EmbBoard.Can.Ownership

/-!
# Rejected control commands

`can_ioctl` answers `SMA_BAD_PARAMS` to an argument it does not support.  The
bad bit rate is the one it notices late: by then the controller has been put
into reset, and what follows initializes it again.
-/

namespace EmbBoard.Can

/-- The command, or its mode, status or bit rate argument, is not one of the
supported ones. -/
def Rejected (cmd arg : ℤ) : Prop :=
  match CanIoctlCmd.ofInt cmd with
  | none => True
  | some .setMode => CanMode.ofInt arg = none
  | some .setBaudRate => CanBaudRate.ofInt arg = none
  | some .getStatus => CanIoctlSts.ofInt arg = none
  | some _ => False

/-- Rings, interrupt enables, bit timing, mode and status are as before. -/
structure Untouched (d d' : CanDev) : Prop where
  rings : d'.cfg.rb = d.cfg.rb
  enables : d'.regs.canier = d.regs.canier
  timing : d'.regs.canbtr = d.regs.canbtr
  mode : d'.regs.canmod = d.regs.canmod
  status : d'.regs.cangsr = d.regs.cangsr

theorem Untouched.refl (d : CanDev) : Untouched d d :=
  ⟨rfl, rfl, rfl, rfl, rfl⟩

/-- The device is already as a change of the bit rate leaves it: rings
empty at index 0, interrupts on, default sample parameters, out of reset, and
a clear status. -/
structure FreshlySet (d : CanDev) : Prop where
  rings : d.cfg.rb.txHead = 0 ∧ d.cfg.rb.txTail = 0 ∧
    d.cfg.rb.rxHead = 0 ∧ d.cfg.rb.rxTail = 0
  enables : d.regs.canier.rie = true ∧ d.regs.canier.tie1 = true
  timing : d.regs.canbtr.sjw = 3 ∧ d.regs.canbtr.tseg1 = 10 ∧
    d.regs.canbtr.tseg2 = 5 ∧ d.regs.canbtr.sam = 0
  mode : d.regs.canmod.rm = false
  status : d.regs.cangsr =
    { d.regs.cangsr with
      rbs := false, dos := false, es := false, rs := false, rxerr := 0
      tbs := true, tcs := true, ts := false, txerr := 0 }

/-! ## The bad bit rate -/

/-- A bad bit rate is answered only after the device was initialized. -/
theorem setBaudRate_of_bad {arg : ℤ} (h : CanBaudRate.ofInt arg = none)
    (d : CanDev) :
    ∃ d', setBaudRate arg d = (smaBadParams, d') ∧
      d'.cfg.rb = d.cfg.rb.initialize ∧
      d'.regs.canier = { d.regs.canier with rie := true, tie1 := true } ∧
      d'.regs.canbtr =
        { d.regs.canbtr with sjw := 3, tseg1 := 10, tseg2 := 5, sam := 0 } ∧
      d'.regs.canmod = { d.regs.canmod with rm := false } ∧
      d'.regs.cangsr = d.regs.clearStatus.cangsr := by
  refine ⟨(setBaudRate arg d).2, ?_, ?_⟩
  · simp [setBaudRate, h]
  · simp [setBaudRate, h, CanRegs.setRm, CanRegs.setRie, CanRegs.setTie1,
      CanRegs.setDefaultTiming, CanRegs.clearStatus]

theorem untouched_iff_freshlySet {d d' : CanDev}
    (hrings : d'.cfg.rb = d.cfg.rb.initialize)
    (henables : d'.regs.canier =
      { d.regs.canier with rie := true, tie1 := true })
    (htiming : d'.regs.canbtr =
      { d.regs.canbtr with sjw := 3, tseg1 := 10, tseg2 := 5, sam := 0 })
    (hmode : d'.regs.canmod = { d.regs.canmod with rm := false })
    (hstatus : d'.regs.cangsr = d.regs.clearStatus.cangsr) :
    Untouched d d' ↔ FreshlySet d := by
  constructor
  · intro h
    have rings := h.rings
    have enables := h.enables
    have timing := h.timing
    have mode := h.mode
    have status := h.status
    rw [hrings] at rings
    rw [henables] at enables
    rw [htiming] at timing
    rw [hmode] at mode
    rw [hstatus] at status
    refine ⟨?_, ?_, ?_, ?_, status.symm⟩
    · rw [← rings]
      exact ⟨rfl, rfl, rfl, rfl⟩
    · rw [← enables]
      exact ⟨rfl, rfl⟩
    · rw [← timing]
      exact ⟨rfl, rfl, rfl, rfl⟩
    · rw [← mode]
  · intro h
    obtain ⟨htx, htx', hrx, hrx'⟩ := h.rings
    obtain ⟨hrie, htie⟩ := h.enables
    obtain ⟨hsjw, hseg1, hseg2, hsam⟩ := h.timing
    have hrm := h.mode
    have hclear := h.status
    refine ⟨?_, ?_, ?_, ?_, hstatus.trans hclear.symm⟩
    · rw [hrings, CanRingBuffer.initialize]
      cases hrb : d.cfg.rb
      simp_all
    · rw [henables]
      cases hier : d.regs.canier
      simp_all
    · rw [htiming]
      cases hbtr : d.regs.canbtr
      simp_all
    · rw [hmode]
      cases hmod : d.regs.canmod
      simp_all

/-! ## Every rejected command -/

/-- A rejected command other than a change of the bit rate is answered at
once. -/
theorem canIoctl_of_rejected {d : CanDev} (hinit : d.cfg.init = true)
    {cmd arg : ℤ} (h : Rejected cmd arg)
    (hcmd : CanIoctlCmd.ofInt cmd ≠ some .setBaudRate) (polls : List Bool) :
    canIoctl d cmd arg polls = some (smaBadParams, d) := by
  rw [canIoctl, if_pos hinit]
  unfold Rejected at h
  cases hofInt : CanIoctlCmd.ofInt cmd with
  | none => rfl
  | some command =>
      rw [hofInt] at h
      cases command with
      | setMode => simp [setMode, h]
      | getStatus => simp [getStatus, h]
      | setBaudRate => exact absurd hofInt hcmd
      | autoSetBaudRate | setFilter | forceBusOff | clearErrorCondition =>
          exact h.elim

/-- A rejected command is answered `SMA_BAD_PARAMS`, and leaves rings, enables,
timing, mode and status of an open controller alone exactly when it is not a
change of the bit rate or they already are as such a change leaves them. -/
theorem untouched_iff {d : CanDev} (hinit : d.cfg.init = true)
    {cmd arg : ℤ} (h : Rejected cmd arg) (polls : List Bool) :
    ∃ d', canIoctl d cmd arg polls = some (smaBadParams, d') ∧
      (Untouched d d' ↔
        CanIoctlCmd.ofInt cmd ≠ some .setBaudRate ∨ FreshlySet d) := by
  by_cases hcmd : CanIoctlCmd.ofInt cmd = some .setBaudRate
  · have hbad : CanBaudRate.ofInt arg = none := by
      simpa [Rejected, hcmd] using h
    obtain ⟨d', hrun, hrings, henables, htiming, hmode, hstatus⟩ :=
      setBaudRate_of_bad hbad d
    refine ⟨d', ?_, ?_⟩
    · rw [canIoctl, if_pos hinit, hcmd]
      exact congrArg some hrun
    · rw [untouched_iff_freshlySet hrings henables htiming hmode hstatus]
      simp [hcmd]
  · exact ⟨d, canIoctl_of_rejected hinit h hcmd polls,
      iff_of_true (.refl d) (Or.inl hcmd)⟩

/-- A telegram waits in the transmit ring when a bit rate that is not
supported is asked for: the call is rejected and the telegram is gone. -/
theorem rejected_rate_drops_telegram :
    let d := (canWrite (CanSystem.opened.dev .can1) (fun _ => .zero) 2).2
    d.cfg.init = true ∧ Rejected 0 99 ∧ d.cfg.rb.txHead = 2 ∧
      d.cfg.rb.txTail = 1 ∧
      ∃ d', canIoctl d 0 99 [] = some (smaBadParams, d') ∧
        d'.cfg.rb.txHead = 0 ∧ d'.cfg.rb.txTail = 0 ∧ ¬Untouched d d' := by
  intro d
  have hreject : Rejected 0 99 := rfl
  obtain ⟨d', hbad, hrings, henables, htiming, hmode, hstatus⟩ :=
    setBaudRate_of_bad (show CanBaudRate.ofInt 99 = none from rfl) d
  have hinit : d.cfg.init = true := by decide
  have hhead : d.cfg.rb.txHead = 2 := by decide
  refine ⟨hinit, hreject, hhead, by decide, d', ?_, ?_, ?_, ?_⟩
  · rw [canIoctl, if_pos hinit]
    exact congrArg some hbad
  · rw [hrings]
    rfl
  · rw [hrings]
    rfl
  · intro h
    have hsame := congrArg CanRingBuffer.txHead h.rings
    rw [hrings, hhead] at hsame
    exact absurd hsame (by decide)

theorem untouched_iff_bad_mode :
    ∃ d', canIoctl (CanSystem.opened.dev .can1) 3 99 [] =
        some (smaBadParams, d') ∧
      (Untouched (CanSystem.opened.dev .can1) d' ↔
        CanIoctlCmd.ofInt 3 ≠ some .setBaudRate ∨
          FreshlySet (CanSystem.opened.dev .can1)) :=
  untouched_iff rfl (show Rejected 3 99 from rfl) []

end EmbBoard.Can
