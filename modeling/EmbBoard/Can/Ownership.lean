import EmbBoard.Can.Session

/-!
# Who owns a CAN controller

`can_open` promises NULL when the init flag is already set, so that a handle
has one owner.  The code looks at the flag only after it has switched the
controller on, and returns the handle either way.
-/

namespace EmbBoard.Can

open EmbBoard.Runs

/-! ## The handles of a run -/

/-- The driver with the handles each controller has given out and those that
were closed again. -/
structure Ledger where
  sys : CanSystem
  obtained : Ctrl → ℕ
  closed : Ctrl → ℕ

def Ledger.start (s : CanSystem) : Ledger :=
  { sys := s, obtained := fun _ => 0, closed := fun _ => 0 }

/-- One more for the controller of a handle. -/
def tally (n : Ctrl → ℕ) (c : Ctrl) : Ctrl → ℕ :=
  Function.update n c (n c + 1)

def ledgerStep (l : Ledger) : SessionCall → Ledger
  | .canOpen ipbase =>
      { l with
        sys := (canOpen ipbase l.sys).2
        obtained := ((canOpen ipbase l.sys).1.map (tally l.obtained)).getD l.obtained }
  | .canClose devid =>
      { l with
        sys := (canClose devid l.sys).2
        closed :=
          if (canClose devid l.sys).1 = noError then tally l.closed devid
          else l.closed }

theorem ledgerStep_sys (l : Ledger) (call : SessionCall) :
    (ledgerStep l call).sys = sessionStep l.sys call := by
  cases call <;> rfl

/-- Handles obtained minus handles closed is 0 or 1. -/
def OneOwner (l : Ledger) : Prop :=
  ∀ c, l.obtained c = l.closed c ∨ l.obtained c = l.closed c + 1

/-- What the header comments promise of a call: a handle exactly for an
enabled controller that is not open, no effect of a refused open, and success
of a close exactly on an open controller. -/
def CallLawful (l : Ledger) : SessionCall → Prop
  | .canOpen ipbase =>
      (∀ c, (canOpen ipbase l.sys).1 = some c ↔
        ipbase = c.base ∧ (l.sys.cfg c).init = false) ∧
      ((canOpen ipbase l.sys).1 = none → (canOpen ipbase l.sys).2 = l.sys)
  | .canClose devid =>
      (canClose devid l.sys).1 = noError ↔ (l.sys.cfg devid).init = true

/-- The call does not open a controller that is open. -/
def NotOpenAgain (l : Ledger) : SessionCall → Prop
  | .canOpen ipbase => ∀ c, ipbase = c.base → (l.sys.cfg c).init = false
  | .canClose _ => True

/-! ## One call -/

theorem base_injective {c c' : Ctrl} (h : c.base = c'.base) : c = c' := by
  have hbase : Ctrl.ofBase c.base = some c' := ofBase_eq_some.mpr h
  rw [ofBase_base] at hbase
  exact Option.some_inj.mp hbase

theorem callLawful_canClose {l : Ledger} (h : Wired l.sys) (devid : Ctrl) :
    CallLawful l (.canClose devid) := by
  rcases h.canClose_cases devid with ⟨hinit, hrun⟩ | ⟨hinit, hrun⟩
  · simp [CallLawful, hrun, hinit, error, noError]
  · simp [CallLawful, hrun, hinit]

/-- Opening is lawful except on a controller that is open: there the handle
comes back although it should be NULL. -/
theorem callLawful_canOpen_iff (l : Ledger) (ipbase : BitVec 32) :
    CallLawful l (.canOpen ipbase) ↔ NotOpenAgain l (.canOpen ipbase) := by
  simp only [CallLawful, NotOpenAgain]
  rcases canOpen_cases ipbase l.sys with
    ⟨hbase, hrun⟩ | ⟨c, rfl, hinit, hrun⟩ | ⟨c, rfl, hinit, hrun⟩
  · have hno : ∀ c : Ctrl, ipbase ≠ c.base := by
      intro c hc
      rw [ofBase_eq_some.mpr hc] at hbase
      cases hbase
    simp [hrun, hno]
  · rw [hrun]
    refine iff_of_false ?_ fun hnot => ?_
    · rintro ⟨hhandle, _⟩
      have hclosed := ((hhandle c).mp rfl).2
      rw [hinit] at hclosed
      cases hclosed
    · have hclosed := hnot c rfl
      rw [hinit] at hclosed
      cases hclosed
  · rw [hrun]
    refine iff_of_true ⟨fun c' => ?_, fun hnone => ?_⟩ ?_
    · constructor
      · intro hsome
        obtain rfl := Option.some_inj.mp hsome
        exact ⟨rfl, hinit⟩
      · rintro ⟨hsame, _⟩
        rw [base_injective hsame]
    · cases hnone
    · intro c' hsame
      rw [← base_injective hsame]
      exact hinit

theorem callLawful_iff {l : Ledger} (h : Wired l.sys) (call : SessionCall) :
    CallLawful l call ↔ NotOpenAgain l call := by
  cases call with
  | canOpen ipbase => exact callLawful_canOpen_iff l ipbase
  | canClose devid => exact ⟨fun _ => trivial, fun _ => callLawful_canClose h devid⟩

/-! ## The balance of a run -/

/-- Exactly the open controllers have a handle outstanding. -/
structure Balanced (l : Ledger) : Prop where
  wired : Wired l.sys
  count : ∀ c, l.obtained c =
    l.closed c + (if (l.sys.cfg c).init then 1 else 0)

theorem Balanced.oneOwner {l : Ledger} (h : Balanced l) : OneOwner l := by
  intro c
  rw [h.count c]
  split
  · exact Or.inr rfl
  · exact Or.inl rfl

theorem balanced_start {s : CanSystem} (h : PowerUp s) :
    Balanced (.start s) := by
  refine ⟨h.wired, ?_⟩
  intro c
  rw [show (Ledger.start s).sys.cfg c = .powerOn from h c]
  rfl

theorem Balanced.canOpen {l : Ledger} (h : Balanced l) {ipbase : BitVec 32}
    (hnot : NotOpenAgain l (.canOpen ipbase)) :
    Balanced (ledgerStep l (.canOpen ipbase)) := by
  refine ⟨by rw [ledgerStep_sys]; exact h.wired.session _, ?_⟩
  rcases canOpen_cases ipbase l.sys with
    ⟨_, hrun⟩ | ⟨c, rfl, hinit, _⟩ | ⟨c, rfl, hinit, hrun⟩
  · simp only [ledgerStep, hrun]
    exact h.count
  · rw [hnot c rfl] at hinit
    cases hinit
  · have hcount := h.count c
    rw [hinit] at hcount
    intro c'
    simp only [ledgerStep, hrun, openFresh, Option.map_some, Option.getD_some,
      tally]
    by_cases hc : c' = c
    · subst hc
      simpa [CanCfg.opened] using hcount
    · simpa [hc] using h.count c'

theorem Balanced.canClose {l : Ledger} (h : Balanced l) (devid : Ctrl) :
    Balanced (ledgerStep l (.canClose devid)) := by
  refine ⟨by rw [ledgerStep_sys]; exact h.wired.session _, ?_⟩
  intro c
  rcases h.wired.canClose_cases devid with ⟨_, hrun⟩ | ⟨hinit, hrun⟩
  · simpa [ledgerStep, hrun, error, noError] using h.count c
  · simp only [ledgerStep, hrun, closeOpen, if_true, tally]
    have hcount := h.count devid
    rw [hinit] at hcount
    by_cases hc : c = devid
    · subst hc
      simpa using hcount
    · simpa [hc] using h.count c

theorem Balanced.step {l : Ledger} {call : SessionCall} (h : Balanced l)
    (hnot : NotOpenAgain l call) : Balanced (ledgerStep l call) := by
  cases call with
  | canOpen ipbase => exact h.canOpen hnot
  | canClose devid => exact h.canClose devid

/-- A controller has at most one owner, and every call does what its comment
says, in exactly the runs that never open a controller that is open. -/
theorem oneOwner_iff {s₀ : CanSystem} (h : PowerUp s₀)
    (calls : List SessionCall) :
    (Admissible ledgerStep CallLawful (.start s₀) calls ∧
        Along ledgerStep OneOwner (.start s₀) calls) ↔
      Admissible ledgerStep NotOpenAgain (.start s₀) calls := by
  have hlawful : Admissible ledgerStep CallLawful (.start s₀) calls ↔
      Admissible ledgerStep NotOpenAgain (.start s₀) calls := by
    apply admissible_congr (I := fun l => Wired l.sys)
    · intro l call hwired
      rw [ledgerStep_sys]
      exact hwired.session call
    · exact fun l call hwired => callLawful_iff hwired call
    · exact h.wired
  constructor
  · intro hrun
    exact hlawful.mp hrun.1
  · intro hnot
    refine ⟨hlawful.mpr hnot, ?_⟩
    have hbalanced : Along ledgerStep Balanced (.start s₀) calls :=
      along_of_admissible (fun _ _ hl hcall => hl.step hcall)
        (balanced_start h) hnot
    exact hbalanced.mono fun _ hl => hl.oneOwner

/-- The board after power-on. -/
def CanSystem.powerOn : CanSystem where
  cfg := fun _ => .powerOn
  regs := fun _ => .powerOn
  pconp := 0
  pinsel0 := 0
  canAfmr := 0
  handlerInstalled := false

theorem powerUp_powerOn : PowerUp .powerOn := fun _ => rfl

/-- The first controller opened twice: the second call returns the handle
again and two handles are out. -/
theorem canOpen_twice :
    let calls : List SessionCall :=
      [.canOpen Ctrl.can1.base, .canOpen Ctrl.can1.base]
    let l := run ledgerStep (.start .powerOn) calls
    PowerUp .powerOn ∧ l.obtained .can1 = 2 ∧ l.closed .can1 = 0 ∧
      ¬(Admissible ledgerStep CallLawful (.start .powerOn) calls ∧
        Along ledgerStep OneOwner (.start .powerOn) calls) := by
  intro calls l
  have hobtained : l.obtained .can1 = 2 := by decide
  have hclosed : l.closed .can1 = 0 := by decide
  refine ⟨powerUp_powerOn, hobtained, hclosed, ?_⟩
  rintro ⟨_, halong⟩
  have howner : OneOwner l := halong.last
  rcases howner .can1 with heq | heq
  · rw [hobtained, hclosed] at heq
    cases heq
  · rw [hobtained, hclosed] at heq
    cases heq

/-- Opened, closed and opened again, with an address that is no controller in
between. -/
theorem oneOwner_iff_reopened :
    let calls : List SessionCall :=
      [.canOpen Ctrl.can2.base, .canOpen 0, .canClose .can2,
        .canOpen Ctrl.can2.base]
    Admissible ledgerStep CallLawful (.start .powerOn) calls ∧
      Along ledgerStep OneOwner (.start .powerOn) calls := by
  intro calls
  refine (oneOwner_iff powerUp_powerOn calls).mpr ?_
  simp only [calls, Admissible, NotOpenAgain]
  refine ⟨?_, ?_, trivial, ?_, trivial⟩ <;> intro c hbase <;>
    cases c <;> revert hbase <;> decide

end EmbBoard.Can
