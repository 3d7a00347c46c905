import EmbBoard.Support.Clocked
import EmbBoard.Wishbone.OutputPort

/-!
# The output port with a duty cycle

The version of `WBO` whose second register is a duty cycle.  A counter of data
width runs freely; the output is the first register while the counter is below
the duty cycle, and zero otherwise.
-/

namespace EmbBoard.Wishbone

open EmbBoard.Clocked

/-! ## WBO -/

/-- The inputs of the port in one clock. -/
structure PwmIn where
  rst : Bool
  bus : WboIn

/-- The registers of the port. -/
structure PwmWbo where
  r1 : WbDat
  regPwm : WbDat
  cntPwm : WbDat
deriving DecidableEq, Repr

namespace PwmWbo

/-- The signal `pwm`. -/
def pwm (w : PwmWbo) : Bool := w.cntPwm < w.regPwm

/-- `Q`: every bit of `r1` and the same signal `pwm`. -/
def q (w : PwmWbo) : WbDat := w.r1 &&& BitVec.fill 16 w.pwm

def portO (w : PwmWbo) : WbDat := w.q

def datO (w : PwmWbo) : WbDat := w.q

/-- The process `Reg`.  The reset has no register to set. -/
def reg (x : PwmIn) (w : PwmWbo) : PwmWbo :=
  if x.rst then w
  else if x.bus.cycI && x.bus.stbI then
    if x.bus.weI then
      if x.bus.adrI = aWboReg1 then { w with r1 := x.bus.datI }
      else if x.bus.adrI = aWboReg2 then { w with regPwm := x.bus.datI }
      else w
    else w
  else w

/-- The processes `Reg` and `pwm`. -/
def clock (x : PwmIn) (w : PwmWbo) : PwmWbo :=
  { w.reg x with cntPwm := w.cntPwm + 1 }

end PwmWbo

/-! ## Without a write -/

theorem PwmWbo.reg_of_no_write {x : PwmIn} (h : x.bus.write = none)
    (w : PwmWbo) : w.reg x = w := by
  have hwrite : (x.bus.cycI && x.bus.stbI && x.bus.weI) = false := by
    unfold WboIn.write at h
    split at h
    · cases h
    · rename_i hno
      exact Bool.eq_false_of_not_eq_true hno
  unfold PwmWbo.reg
  split
  · rfl
  · split
    · rename_i hcyc
      rw [hcyc, Bool.true_and] at hwrite
      rw [hwrite]
      rfl
    · rfl

/-- Clocks without a write only advance the counter. -/
theorem trace_of_no_write {w : PwmWbo} {x : ℕ → PwmIn} {n : ℕ}
    (h : ∀ k < n, (x k).bus.write = none) :
    trace PwmWbo.clock w x n =
      { w with cntPwm := w.cntPwm + BitVec.ofNat 16 n } := by
  induction n with
  | zero => simp [trace]
  | succ n ih =>
      rw [trace_succ, ih fun k hk => h k (hk.trans (Nat.lt_succ_self n)),
        PwmWbo.clock, PwmWbo.reg_of_no_write (h n (Nat.lt_succ_self n)),
        BitVec.ofNat_add, ← BitVec.add_assoc]
      rfl

/-- The output bits in one clock. -/
theorem PwmWbo.getElem_portO (w : PwmWbo) (i : Fin 16) :
    w.portO[i] = true ↔
      w.r1[i] = true ∧ w.cntPwm.toNat < w.regPwm.toNat := by
  simp [PwmWbo.portO, PwmWbo.q, PwmWbo.pwm, BitVec.lt_def]

theorem portO_of_no_write {w : PwmWbo} {x : ℕ → PwmIn} {n : ℕ}
    (h : ∀ k < n, (x k).bus.write = none) (i : Fin 16) :
    (trace PwmWbo.clock w x n).portO[i] = true ↔
      w.r1[i] = true ∧ (w.cntPwm.toNat + n) % 2 ^ 16 < w.regPwm.toNat := by
  rw [trace_of_no_write h, PwmWbo.getElem_portO]
  simp [BitVec.toNat_add]

/-! ## Duty -/

/-- Over 65536 clocks without a write, from any state, an output bit whose
register bit is set is high in as many clocks as the duty cycle says, and
every other bit in none.  With a larger duty cycle and all else the same, no
bit is lower in any clock. -/
theorem pwm_duty_exact (w : PwmWbo) (x : ℕ → PwmIn)
    (hx : ∀ k < 2 ^ 16, (x k).bus.write = none) :
    (∀ i : Fin 16,
      Nat.count (fun k => (trace PwmWbo.clock w x k).portO[i] = true)
        (2 ^ 16) = if w.r1[i] then w.regPwm.toNat else 0) ∧
    ∀ (w' : PwmWbo) (x' : ℕ → PwmIn),
      w'.r1 = w.r1 → w'.cntPwm = w.cntPwm → w.regPwm ≤ w'.regPwm →
      (∀ k < 2 ^ 16, (x' k).bus.write = none) →
      ∀ k < 2 ^ 16, ∀ i : Fin 16,
        (trace PwmWbo.clock w x k).portO[i] = true →
          (trace PwmWbo.clock w' x' k).portO[i] = true := by
  have hbit : ∀ k < 2 ^ 16, ∀ i : Fin 16,
      (trace PwmWbo.clock w x k).portO[i] = true ↔
        w.r1[i] = true ∧ (w.cntPwm.toNat + k) % 2 ^ 16 < w.regPwm.toNat :=
    fun k hk i => portO_of_no_write (fun m hm => hx m (hm.trans hk)) i
  constructor
  · intro i
    cases hset : w.r1[i] with
    | false =>
        apply Nat.count_of_forall_not
        intro k hk hhigh
        rw [hbit k hk i, hset] at hhigh
        cases hhigh.1
    | true =>
        refine (count_congr fun k hk => ?_).trans
          (count_mod_lt w.regPwm.isLt.le w.cntPwm.toNat)
        rw [hbit k hk i, hset, eq_self, true_and]
  · intro w' x' hr1 hcnt hle hx' k hk i hhigh
    rw [hbit k hk i] at hhigh
    rw [portO_of_no_write (fun m hm => hx' m (hm.trans hk)) i, hr1, hcnt]
    exact ⟨hhigh.1, lt_of_lt_of_le hhigh.2 hle⟩

/-- With a duty cycle of one half and the counter about to wrap, an idle bus
has bit 0 high in half of the clocks. -/
theorem pwm_duty_exact_half :
    Nat.count (fun k => (trace PwmWbo.clock ⟨0x000F, 0x8000, 0xFFF0⟩
      (fun _ => ⟨false, ⟨false, false, false, 0, 0⟩⟩) k).portO[(0 : Fin 16)]
        = true) (2 ^ 16) = 0x8000 :=
  (pwm_duty_exact ⟨0x000F, 0x8000, 0xFFF0⟩
    (fun _ => ⟨false, ⟨false, false, false, 0, 0⟩⟩) fun _ _ => rfl).1 0

end EmbBoard.Wishbone
