import EmbBoard.Support.Runs
import EmbBoard.Wishbone.Host

/-!
# The two-register output port

`WBO` with two registers behind one output.  The process that loads a register
also assigns the output from it, and a signal that is read after its
assignment still has the old value: the output shows what the registers held
before the write.
-/

namespace EmbBoard.Wishbone

open EmbBoard.Runs

/-! ## WBO -/

/-- `Revision_c`. -/
def revision : WbDat := 0x03E8

/-- `A_WBO_REG1`. -/
def aWboReg1 : WbLad := 0x00

/-- `A_WBO_REG2`. -/
def aWboReg2 : WbLad := 0x01

/-- The bus inputs of the port in one clock. -/
structure WboIn where
  cycI : Bool
  stbI : Bool
  weI : Bool
  datI : WbDat
  adrI : WbLad

/-- A signal of data width; `none` while it has no defined value. -/
abbrev WbSignal := Option WbDat

/-- `xor` of two signals. -/
def WbSignal.xor (a b : WbSignal) : WbSignal :=
  a.bind fun x => b.map fun y => x ^^^ y

/-- The signals of `WBO`. -/
structure Wbo where
  r1 : WbSignal
  r2 : WbSignal
  q : WbSignal

namespace Wbo

def portO (w : Wbo) : WbSignal := w.q

def datO (w : Wbo) : WbSignal := w.q

/-- The process `Reg`; the reset leaves the two registers alone. -/
def clock (rst : Bool) (x : WboIn) (w : Wbo) : Wbo :=
  if rst then { w with q := some revision }
  else if x.cycI && x.stbI then
    if x.weI then
      if x.adrI = aWboReg1 then { w with r1 := some x.datI, q := w.r1 }
      else if x.adrI = aWboReg2 then
        { w with r2 := some x.datI, q := w.r1.xor w.r2 }
      else w
    else w
  else w

end Wbo

/-- The register a clock writes, and the data. -/
def WboIn.write (x : WboIn) : Option (WbLad × WbDat) :=
  if x.cycI && x.stbI && x.weI then some (x.adrI, x.datI) else none

/-! ## What the port is for -/

/-- The last value written to the first register, zero if none, and the value
the port should show. -/
structure PortView where
  reg1 : WbDat
  shown : WbDat

def PortView.initial : PortView := { reg1 := 0, shown := revision }

/-- A write to the first register is shown, a write to the second one shows
the two combined, and nothing else changes the port. -/
def PortView.step (v : PortView) (x : WboIn) : PortView :=
  match x.write with
  | some (adr, d) =>
      if adr = aWboReg1 then { reg1 := d, shown := d }
      else if adr = aWboReg2 then { v with shown := v.reg1 ^^^ d }
      else v
  | none => v

/-- The port and what it should show, clock by clock. -/
def portStep (s : Wbo × PortView) (x : WboIn) : Wbo × PortView :=
  (s.1.clock false x, s.2.step x)

/-- Both outputs show what they should. -/
def Shows (s : Wbo × PortView) : Prop :=
  s.1.portO = some s.2.shown ∧ s.1.datO = some s.2.shown

/-- A write to a register finds there what it writes: the first register holds
the data already, or the two registers combined give what the write should
show. -/
def Repeats (s : Wbo × PortView) (x : WboIn) : Prop :=
  ∀ adr d, x.write = some (adr, d) →
    (adr = aWboReg1 → s.1.r1 = some d) ∧
      (adr = aWboReg2 → s.1.r1.xor s.1.r2 = some (s.2.reg1 ^^^ d))

/-! ## One clock -/

theorem Wbo.clock_of_write {x : WboIn} {adr : WbLad} {d : WbDat}
    (h : x.write = some (adr, d)) (w : Wbo) :
    w.clock false x =
      if adr = aWboReg1 then { w with r1 := some d, q := w.r1 }
      else if adr = aWboReg2 then { w with r2 := some d, q := w.r1.xor w.r2 }
      else w := by
  unfold WboIn.write at h
  split at h
  · rename_i hwrite
    rw [Bool.and_eq_true] at hwrite
    obtain ⟨rfl, rfl⟩ := Prod.mk.inj (Option.some_inj.mp h)
    simp [Wbo.clock, hwrite.1, hwrite.2]
  · cases h

theorem Wbo.clock_of_no_write {x : WboIn} (h : x.write = none) (w : Wbo) :
    w.clock false x = w := by
  unfold WboIn.write at h
  split at h
  · cases h
  · rename_i hwrite
    rw [Bool.and_eq_true, not_and] at hwrite
    unfold Wbo.clock
    simp only [Bool.false_eq_true, if_false]
    split
    · rename_i hcyc
      rw [if_neg (hwrite hcyc)]
    · rfl

/-- A clock keeps the outputs right exactly when a register write in it finds
what it writes. -/
theorem shows_portStep_iff {s : Wbo × PortView} (h : Shows s) (x : WboIn) :
    Shows (portStep s x) ↔ Repeats s x := by
  obtain ⟨w, v⟩ := s
  cases hwrite : x.write with
  | none =>
      have hview : v.step x = v := by rw [PortView.step, hwrite]
      rw [portStep, Wbo.clock_of_no_write hwrite, hview]
      exact iff_of_true h fun adr d hnone => by
        rw [hwrite] at hnone
        cases hnone
  | some write =>
      obtain ⟨adr, d⟩ := write
      have hrepeats : Repeats (w, v) x ↔
          (adr = aWboReg1 → w.r1 = some d) ∧
            (adr = aWboReg2 → w.r1.xor w.r2 = some (v.reg1 ^^^ d)) := by
        simp [Repeats, hwrite]
      rw [hrepeats, portStep, Wbo.clock_of_write hwrite]
      simp only [Shows, Wbo.portO, Wbo.datO, and_self, PortView.step, hwrite]
      by_cases hreg1 : adr = aWboReg1
      · simp [hreg1, show aWboReg1 ≠ aWboReg2 by decide]
      · by_cases hreg2 : adr = aWboReg2
        · simp [hreg2, show aWboReg2 ≠ aWboReg1 by decide]
        · simpa [hreg1, hreg2] using (show w.q = some v.shown from h.1)

/-! ## Every sequence of clocks -/

/-- From a reset of any state, the port shows what it should after every clock
exactly when every write to one of its registers finds there what it
writes. -/
theorem shows_iff (w₀ : Wbo) (x₀ : WboIn) (xs : List WboIn) :
    Along portStep Shows (w₀.clock true x₀, .initial) xs ↔
      Admissible portStep Repeats (w₀.clock true x₀, .initial) xs := by
  apply along_iff_admissible (I := fun _ => True)
  · exact fun _ _ _ => trivial
  · exact fun s x _ h => shows_portStep_iff h x
  · trivial
  · exact ⟨rfl, rfl⟩

/-- From the first write to it on, the first register holds the value last
written to it. -/
theorem reg1_portStep {s : Wbo × PortView} {x : WboIn}
    (h : s.1.r1 = some s.2.reg1 ∨ ∃ d, x.write = some (aWboReg1, d)) :
    (portStep s x).1.r1 = some (portStep s x).2.reg1 := by
  obtain ⟨w, v⟩ := s
  cases hwrite : x.write with
  | none =>
      have hold : w.r1 = some v.reg1 := by simpa [hwrite] using h
      simpa [portStep, Wbo.clock_of_no_write hwrite, PortView.step, hwrite]
        using hold
  | some write =>
      obtain ⟨adr, d⟩ := write
      simp only [portStep, Wbo.clock_of_write hwrite, PortView.step, hwrite]
      by_cases hreg1 : adr = aWboReg1
      · simp [hreg1]
      · have hold : w.r1 = some v.reg1 := by simpa [hwrite, hreg1] using h
        by_cases hreg2 : adr = aWboReg2
        · simpa [hreg2, show aWboReg2 ≠ aWboReg1 by decide] using hold
        · simpa [hreg1, hreg2] using hold

/-- From then on a write to the second register only has to find its own data
there. -/
theorem repeats_reg2_iff {s : Wbo × PortView} (h : s.1.r1 = some s.2.reg1)
    {x : WboIn} {d : WbDat} (hwrite : x.write = some (aWboReg2, d)) :
    Repeats s x ↔ s.1.r2 = some d := by
  have hxor : s.1.r1.xor s.1.r2 = some (s.2.reg1 ^^^ d) ↔ s.1.r2 = some d := by
    rw [h]
    cases s.1.r2 with
    | none => simp [WbSignal.xor]
    | some y => simp [WbSignal.xor]
  rw [← hxor]
  simp [Repeats, hwrite, show aWboReg2 ≠ aWboReg1 by decide]

/-- One write to the first register after reset: the port shows what the
register held at power-on. -/
theorem write_shows_old_value :
    let w₀ : Wbo := { r1 := some 0, r2 := some 0, q := none }
    let idle : WboIn := ⟨false, false, false, 0, 0⟩
    let write : WboIn := ⟨true, true, true, 0x001F, aWboReg1⟩
    let s := run portStep (w₀.clock true idle, .initial) [write, idle]
    s.1.portO = some 0 ∧ s.2.shown = 0x001F ∧
      ¬Along portStep Shows (w₀.clock true idle, .initial) [write, idle] := by
  intro w₀ idle write s
  have hport : s.1.portO = some 0 := by decide
  have hshown : s.2.shown = 0x001F := by decide
  refine ⟨hport, hshown, ?_⟩
  intro h
  have hlast : Shows s := h.last
  rw [Shows, hport, hshown] at hlast
  exact absurd hlast.1 (by decide)

end EmbBoard.Wishbone
