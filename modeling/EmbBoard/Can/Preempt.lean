import EmbBoard.Can.TxFifo
import EmbBoard.Can.TxProgress

/-!
# The write call under preemption

`can_write` and the `can_standard_transmit` at its end, one statement at a
time, with a frame in flight completing anywhere and the transmit interrupt
running between any two statements at which it is latched and enabled.  The
interrupt's own run is one step.  Run without interference, the statements
compute `canWrite`.
-/

namespace EmbBoard.Can

open EmbBoard.Runs

/-- A field of transmit buffer 1, in the order the driver writes them. -/
inductive TxField
  | dlc | rtr | ff | id29 | data1 | data2 | data3 | data4
  | data5 | data6 | data7 | data8
deriving DecidableEq, Repr

def TxField.all : List TxField :=
  [dlc, rtr, ff, id29, data1, data2, data3, data4, data5, data6, data7, data8]

/-- One of the twelve assignments that copy a ring slot into the buffer. -/
def CanRegs.loadField (m : CanMsg) (r : CanRegs) : TxField → CanRegs
  | .dlc => { r with cantfi1 := { r.cantfi1 with dlc := m.dlc } }
  | .rtr => { r with cantfi1 := { r.cantfi1 with rtr := m.rtr } }
  | .ff => { r with cantfi1 := { r.cantfi1 with ff := m.ff } }
  | .id29 => { r with cantid1 := m.msgId.setWidth 29 }
  | .data1 => { r with cantda1 :=
      { r.cantda1 with data1 := (CanDataA.ofArray m.data).data1 } }
  | .data2 => { r with cantda1 :=
      { r.cantda1 with data2 := (CanDataA.ofArray m.data).data2 } }
  | .data3 => { r with cantda1 :=
      { r.cantda1 with data3 := (CanDataA.ofArray m.data).data3 } }
  | .data4 => { r with cantda1 :=
      { r.cantda1 with data4 := (CanDataA.ofArray m.data).data4 } }
  | .data5 => { r with cantdb1 :=
      { r.cantdb1 with data5 := (CanDataB.ofArray m.data).data5 } }
  | .data6 => { r with cantdb1 :=
      { r.cantdb1 with data6 := (CanDataB.ofArray m.data).data6 } }
  | .data7 => { r with cantdb1 :=
      { r.cantdb1 with data7 := (CanDataB.ofArray m.data).data7 } }
  | .data8 => { r with cantdb1 :=
      { r.cantdb1 with data8 := (CanDataB.ofArray m.data).data8 } }

/-- The statement the main program executes next.  `load todo` writes the
first of the fields still `todo`, or `STB1` when there is none left. -/
inductive Pc
  | outside
  | initTest
  | saveTie1 | saveTie2 | saveTie3 | lockTies
  | loopTest | copy | dataInc | headInc | headWrap | bytesInc | telegramsDec
  | restoreTie1 | restoreTie2 | restoreTie3
  | emptyTest | disableTie1 | tbs1Test
  | load (todo : List TxField)
  | tailInc | tailWrap | enableTie1 | requestTr
deriving DecidableEq, Repr

/-- The main program inside `can_write`: the transmit history, the program
counter, and the call's arguments and locals. -/
structure WriteState where
  hist : TxHistory
  pc : Pc
  buffer : ℕ → CanMsg
  nTelegrams : ℤ
  data : ℕ
  bytes : ℕ
  savedTie1 : Bool
  savedTie2 : Bool
  savedTie3 : Bool

namespace WriteState

def dev (s : WriteState) : CanDev := s.hist.dev

def rb (s : WriteState) : CanRingBuffer := s.hist.dev.cfg.rb

def regs (s : WriteState) : CanRegs := s.hist.dev.regs

def setDev (s : WriteState) (d : CanDev) : WriteState :=
  { s with hist := { s.hist with dev := d } }

def setRb (s : WriteState) (rb : CanRingBuffer) : WriteState :=
  s.setDev { s.dev with cfg := { s.dev.cfg with rb := rb } }

def setRegs (s : WriteState) (r : CanRegs) : WriteState :=
  s.setDev { s.dev with regs := r }

def goto (s : WriteState) (pc : Pc) : WriteState :=
  { s with pc := pc }

/-- Entering `can_write`. -/
def call (s : WriteState) (buffer : ℕ → CanMsg) (n : ℤ) : WriteState :=
  { s with
    pc := .initTest
    buffer := buffer
    nTelegrams := n
    data := 0
    bytes := 0 }

end WriteState

/-- `if (i >= CAN_RING_BUFSIZE) i = 0;` -/
def wrapIndex (i : ℤ) : ℤ :=
  if i ≥ canRingBufsize then 0 else i

/-- The next statement of the main program.  A telegram counts as accepted
when `bytes` counts it. -/
def mainStep (s : WriteState) : WriteState :=
  match s.pc with
  | .outside => s
  | .initTest => s.goto (if s.dev.cfg.init then .saveTie1 else .outside)
  | .saveTie1 => { s with savedTie1 := s.regs.canier.tie1, pc := .saveTie2 }
  | .saveTie2 => { s with savedTie2 := s.regs.canier.tie2, pc := .saveTie3 }
  | .saveTie3 => { s with savedTie3 := s.regs.canier.tie3, pc := .lockTies }
  | .lockTies =>
      (s.setRegs (s.regs.setTies false false false)).goto .loopTest
  | .loopTest =>
      s.goto (if s.nTelegrams > 0 ∧ canGetFreeTxCount s.rb > 0 then .copy
        else .restoreTie1)
  | .copy =>
      (s.setRb { s.rb with
        tx := Function.update s.rb.tx s.rb.txHead.toNat
          (s.buffer s.data) }).goto .dataInc
  | .dataInc => { s with data := s.data + 1, pc := .headInc }
  | .headInc =>
      (s.setRb { s.rb with txHead := s.rb.txHead + 1 }).goto .headWrap
  | .headWrap =>
      (s.setRb { s.rb with txHead := wrapIndex s.rb.txHead }).goto .bytesInc
  | .bytesInc =>
      { s with
        hist := { s.hist with
          accepted := s.hist.accepted ++ [s.buffer s.bytes] }
        bytes := s.bytes + 1
        pc := .telegramsDec }
  | .telegramsDec => { s with nTelegrams := s.nTelegrams - 1, pc := .loopTest }
  | .restoreTie1 => (s.setRegs (s.regs.setTie1 s.savedTie1)).goto .restoreTie2
  | .restoreTie2 =>
      (s.setRegs { s.regs with
        canier := { s.regs.canier with tie2 := s.savedTie2 } }).goto .restoreTie3
  | .restoreTie3 =>
      (s.setRegs { s.regs with
        canier := { s.regs.canier with tie3 := s.savedTie3 } }).goto .emptyTest
  | .emptyTest =>
      s.goto (if s.rb.txHead = s.rb.txTail then .disableTie1 else .tbs1Test)
  | .disableTie1 => (s.setRegs (s.regs.setTie1 false)).goto .outside
  | .tbs1Test => s.goto (if s.regs.tbs1 then .load TxField.all else .outside)
  | .load [] => (s.setRegs s.regs.commandStb1).goto .tailInc
  | .load (f :: todo) =>
      (s.setRegs (s.regs.loadField (s.rb.tx s.rb.txTail.toNat) f)).goto
        (.load todo)
  | .tailInc =>
      (s.setRb { s.rb with txTail := s.rb.txTail + 1 }).goto .tailWrap
  | .tailWrap =>
      (s.setRb { s.rb with txTail := wrapIndex s.rb.txTail }).goto .enableTie1
  | .enableTie1 => (s.setRegs (s.regs.setTie1 true)).goto .requestTr
  | .requestTr => (s.setRegs s.regs.commandTr).goto .outside

section Branches

variable {s : WriteState}

theorem mainStep_initTest (hpc : s.pc = .initTest) :
    mainStep s = s.goto (if s.dev.cfg.init then .saveTie1 else .outside) := by
  rw [mainStep, hpc]

theorem mainStep_loopTest (hpc : s.pc = .loopTest) :
    mainStep s =
      s.goto (if s.nTelegrams > 0 ∧ canGetFreeTxCount s.rb > 0 then .copy
        else .restoreTie1) := by
  rw [mainStep, hpc]

theorem mainStep_emptyTest (hpc : s.pc = .emptyTest) :
    mainStep s =
      s.goto (if s.rb.txHead = s.rb.txTail then .disableTie1
        else .tbs1Test) := by
  rw [mainStep, hpc]

theorem mainStep_tbs1Test (hpc : s.pc = .tbs1Test) :
    mainStep s =
      s.goto (if s.regs.tbs1 then .load TxField.all else .outside) := by
  rw [mainStep, hpc]

end Branches

inductive PreemptEvent
  | call (buffer : ℕ → CanMsg) (n : ℤ)
  | main
  | frameCompletes
  | interrupt

/-- The transmit interrupt is latched and enabled. -/
def InterruptEnabled (s : WriteState) : Prop :=
  s.regs.canicr.ti1 = true ∧ s.regs.canier.tie1 = true

instance (s : WriteState) : Decidable (InterruptEnabled s) :=
  inferInstanceAs (Decidable (_ ∧ _))

/-- A call starts outside of one only; an interrupt runs where it is latched
and enabled. -/
def preemptStep (s : WriteState) : PreemptEvent → WriteState
  | .call buffer n => if s.pc = .outside then s.call buffer n else s
  | .main => mainStep s
  | .frameCompletes => s.setRegs s.regs.frameCompletes
  | .interrupt =>
      if InterruptEnabled s then s.setDev (transmitInterrupt s.dev) else s

/-- No call in progress on a controller that was just opened. -/
def WriteState.opened (ipbase : BitVec 32) (d : CanDev) : WriteState where
  hist := .fresh (openDevice ipbase d)
  pc := .outside
  buffer := fun _ => .zero
  nTelegrams := 0
  data := 0
  bytes := 0
  savedTie1 := false
  savedTie2 := false
  savedTie3 := false

/-! ## Without interference -/

/-- All twelve assignments together load the slot. -/
theorem foldl_loadField_all (m : CanMsg) (r : CanRegs) :
    TxField.all.foldl (CanRegs.loadField m) r = r.loadTx1 m := by
  simp only [TxField.all, List.foldl_cons, List.foldl_nil, CanRegs.loadField,
    CanRegs.loadTx1]

/-- `k` statements of the main program. -/
def mainSteps (k : ℕ) (s : WriteState) : WriteState :=
  run preemptStep s (List.replicate k .main)

@[simp] theorem mainSteps_zero (s : WriteState) : mainSteps 0 s = s := rfl

theorem mainSteps_succ (k : ℕ) (s : WriteState) :
    mainSteps (k + 1) s = mainSteps k (mainStep s) := rfl

theorem mainSteps_add (k l : ℕ) (s : WriteState) :
    mainSteps (k + l) s = mainSteps l (mainSteps k s) := by
  rw [mainSteps, List.replicate_add, run_append]
  rfl

/-- The statements of the load write the remaining fields, one each. -/
theorem mainSteps_load (todo : List TxField) (s : WriteState)
    (hpc : s.pc = .load todo) :
    mainSteps todo.length s =
      (s.setRegs (todo.foldl (CanRegs.loadField (s.rb.tx s.rb.txTail.toNat))
        s.regs)).goto (.load []) := by
  induction todo generalizing s with
  | nil =>
      cases s
      simp only at hpc
      subst hpc
      rfl
  | cons f todo ih =>
      rw [List.length_cons, mainSteps_succ, ih _ (by simp [mainStep, hpc,
        WriteState.goto])]
      simp only [mainStep, hpc]
      rfl

/-- The five statements after the load command the transmission. -/
theorem mainSteps_request (s : WriteState) (hpc : s.pc = .load []) :
    mainSteps 5 s =
      (s.setDev
        { cfg := { s.dev.cfg with rb := s.rb.dropTx }
          regs := ((s.regs.commandStb1).setTie1 true).commandTr }).goto
        .outside := by
  cases s
  simp only at hpc
  subst hpc
  rfl

/-- The statements from the emptiness test on are one run of
`can_standard_transmit`. -/
theorem mainSteps_transmit (s : WriteState) (hpc : s.pc = .emptyTest) :
    ∃ k, mainSteps k s =
      (s.setDev (canStandardTransmit s.dev)).goto .outside := by
  rcases canStandardTransmit_cases s.dev with
    ⟨hempty, h⟩ | ⟨hne, hfree, h⟩ | ⟨hne, hflight, h⟩
  · have htest : mainStep s = s.goto .disableTie1 := by
      rw [mainStep_emptyTest hpc]
      exact congrArg s.goto (if_pos hempty)
    refine ⟨2, ?_⟩
    rw [mainSteps_succ, htest, h]
    rfl
  · have htest : mainStep s = s.goto .tbs1Test := by
      rw [mainStep_emptyTest hpc]
      exact congrArg s.goto (if_neg hne)
    have hload : mainStep (s.goto .tbs1Test) =
        s.goto (.load TxField.all) :=
      congrArg s.goto (if_pos hfree)
    have hstart : mainSteps 2 s = s.goto (.load TxField.all) := by
      rw [mainSteps_succ, mainSteps_succ, mainSteps_zero, htest, hload]
    refine ⟨2 + (TxField.all.length + 5), ?_⟩
    rw [mainSteps_add 2, hstart, mainSteps_add, mainSteps_load _ _ rfl,
      mainSteps_request _ rfl, h]
    simp only [WriteState.goto, WriteState.setRegs, WriteState.regs,
      WriteState.setDev, foldl_loadField_all]
    rfl
  · have htest : mainStep s = s.goto .tbs1Test := by
      rw [mainStep_emptyTest hpc]
      exact congrArg s.goto (if_neg hne)
    have hbusy : mainStep (s.goto .tbs1Test) = s.goto .outside :=
      congrArg s.goto (if_neg (ne_true_of_eq_false hflight))
    refine ⟨2, ?_⟩
    rw [mainSteps_succ, mainSteps_succ, mainSteps_zero, htest, hbusy, h]
    rfl

/-- The state in which the loop is left, `taken` telegrams later. -/
def WriteState.afterLoop (s : WriteState) (taken : ℕ) (rb : CanRingBuffer) :
    WriteState :=
  { s with
    hist := { s.hist with
      dev := { s.dev with cfg := { s.dev.cfg with rb := rb } }
      accepted := s.hist.accepted ++
        (List.range taken).map fun i => s.buffer (s.bytes + i) }
    nTelegrams := s.nTelegrams - taken
    data := s.data + taken
    bytes := s.bytes + taken
    pc := .restoreTie1 }

/-- A loop that ends at its test has taken nothing. -/
theorem mainSteps_loopExit {s : WriteState}
    (htest : mainStep s = s.goto .restoreTie1) :
    mainSteps 1 s = s.afterLoop 0 s.rb := by
  rw [mainSteps_succ, htest]
  simp [WriteState.afterLoop, WriteState.goto, WriteState.dev, WriteState.rb]

/-- The loop's statements compute the write loop. -/
theorem mainSteps_loop (n : ℕ) (s : WriteState) (hpc : s.pc = .loopTest)
    (hn : s.nTelegrams.toNat = n) (hdata : s.data = s.bytes) :
    ∃ k taken, (canWriteLoop s.buffer n s.bytes s.rb).1 = s.bytes + taken ∧
      mainSteps k s =
        s.afterLoop taken (canWriteLoop s.buffer n s.bytes s.rb).2 := by
  induction n generalizing s with
  | zero =>
      have htest : mainStep s = s.goto .restoreTie1 := by
        rw [mainStep_loopTest hpc]
        exact congrArg s.goto (if_neg (by omega))
      exact ⟨1, 0, rfl, mainSteps_loopExit htest⟩
  | succ n ih =>
      by_cases hroom : canGetFreeTxCount s.rb > 0
      · have htest : mainStep s = s.goto .copy := by
          rw [mainStep_loopTest hpc]
          exact congrArg s.goto (if_pos ⟨by omega, hroom⟩)
        let s' : WriteState :=
          { s with
            hist := { s.hist with
              dev := { s.dev with
                cfg := { s.dev.cfg with
                  rb := s.rb.putTx (s.buffer s.data) } }
              accepted := s.hist.accepted ++ [s.buffer s.bytes] }
            nTelegrams := s.nTelegrams - 1
            data := s.data + 1
            bytes := s.bytes + 1
            pc := .loopTest }
        have hbody : mainSteps 6 (s.goto .copy) = s' := rfl
        have hput : s'.rb = s.rb.putTx (s.buffer s.bytes) := by
          rw [← hdata]
          rfl
        obtain ⟨k, taken, hcount, hrun⟩ :=
          ih s' rfl (by simp only [s']; omega) (by simp only [s', hdata])
        rw [hput] at hcount hrun
        refine ⟨1 + (6 + k), taken + 1, ?_, ?_⟩
        · rw [canWriteLoop, if_pos hroom]
          exact hcount.trans (by simp only [s']; omega)
        · rw [mainSteps_add, mainSteps_succ, mainSteps_zero, htest,
            mainSteps_add, hbody, hrun, canWriteLoop, if_pos hroom]
          simp only [WriteState.afterLoop, s', map_range_succ,
            List.append_assoc, List.singleton_append, WriteState.mk.injEq,
            TxHistory.mk.injEq, true_and, and_true, Nat.cast_succ]
          exact ⟨rfl, by omega, by omega, by omega⟩
      · have htest : mainStep s = s.goto .restoreTie1 := by
          rw [mainStep_loopTest hpc]
          exact congrArg s.goto (if_neg (fun h => hroom h.2))
        rw [canWriteLoop, if_neg hroom]
        exact ⟨1, 0, rfl, mainSteps_loopExit htest⟩

/-- Undisturbed, the statements of a call compute `canWrite`, and what they
accept is what its return value counts. -/
theorem mainSteps_call (s : WriteState) (hpc : s.pc = .outside)
    (buffer : ℕ → CanMsg) (n : ℤ) :
    ∃ k, let s' := mainSteps k (preemptStep s (.call buffer n))
      s'.pc = .outside ∧ s'.dev = (canWrite s.dev buffer n).2 ∧
      s'.hist.accepted = s.hist.accepted ++
        (List.range (canWrite s.dev buffer n).1).map buffer := by
  have hcall : preemptStep s (.call buffer n) = s.call buffer n := if_pos hpc
  rw [hcall]
  cases hinit : s.dev.cfg.init with
  | false =>
      have htest : mainStep (s.call buffer n) =
          (s.call buffer n).goto .outside :=
        congrArg (s.call buffer n).goto (if_neg (ne_true_of_eq_false hinit))
      refine ⟨1, ?_⟩
      rw [mainSteps_succ, mainSteps_zero, htest, canWrite_closed hinit]
      exact ⟨rfl, rfl, by simp [WriteState.call, WriteState.goto]⟩
  | true =>
      have htest : mainStep (s.call buffer n) =
          (s.call buffer n).goto .saveTie1 :=
        congrArg (s.call buffer n).goto (if_pos hinit)
      let locked := mainSteps 4 ((s.call buffer n).goto .saveTie1)
      obtain ⟨kLoop, taken, hcount, hloop⟩ :=
        mainSteps_loop n.toNat locked rfl rfl rfl
      let restored := mainSteps 3 (mainSteps kLoop locked)
      have hpcRestored : restored.pc = .emptyTest := by
        simp only [restored, hloop]
        rfl
      obtain ⟨kSend, hsend⟩ := mainSteps_transmit restored hpcRestored
      refine ⟨1 + (4 + (kLoop + (3 + kSend))), ?_⟩
      rw [mainSteps_add, mainSteps_succ, mainSteps_zero, htest, mainSteps_add,
        mainSteps_add, mainSteps_add, canWrite, if_pos hinit]
      change let s' := mainSteps kSend restored; _
      rw [hsend]
      refine ⟨rfl, ?_, ?_⟩
      · change canStandardTransmit restored.dev = canStandardTransmit _
        simp only [restored, hloop]
        rfl
      · change restored.hist.accepted = _
        change (canWriteLoop buffer n.toNat 0 s.rb).1 = 0 + taken at hcount
        simp only [restored, hloop]
        change s.hist.accepted ++
          (List.range taken).map (fun i => buffer (0 + i)) =
          s.hist.accepted ++ (List.range
            (canWriteLoop buffer n.toNat 0 s.rb).1).map buffer
        simp only [hcount, Nat.zero_add]

end EmbBoard.Can
