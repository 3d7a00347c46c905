import Mathlib.Algebra.Order.Ring.Int
import Mathlib.Algebra.Order.Ring.Abs
import Mathlib.Tactic.Linarith

/-!
# Checked arithmetic of fixed-width signed integers

The signed arithmetic of C is exact or undefined.  `CInt w` is the outcome of
an expression over `w`-bit signed integers: its value, or nothing once an
operation has left the width or divided by zero.  `Evaluates e v B` says that
`e` is defined, has the exact value `v`, and that `v` is at most `B` in
absolute value; the rules compose such bounds through an expression.
-/

namespace EmbBoard

/-- The values that a `w`-bit two's complement integer can hold. -/
def InWidth (w : ℕ) (v : ℤ) : Prop :=
  -2 ^ (w - 1) ≤ v ∧ v < 2 ^ (w - 1)

instance InWidth.decidable (w : ℕ) (v : ℤ) : Decidable (InWidth w v) :=
  inferInstanceAs (Decidable (_ ∧ _))

theorem inWidth_of_abs_le {w : ℕ} {v B : ℤ} (hv : |v| ≤ B)
    (hB : B < 2 ^ (w - 1)) : InWidth w v := by
  obtain ⟨hlow, hhigh⟩ := abs_le.mp hv
  constructor
  · linarith
  · linarith

/-- The outcome of a `w`-bit signed expression. -/
@[ext] structure CInt (w : ℕ) where
  val : Option ℤ
deriving DecidableEq

namespace CInt

variable {w : ℕ}

instance : Coe ℤ (CInt w) := ⟨fun v => ⟨some v⟩⟩

/-- An operation on two outcomes: undefined where an operand or the exact
result is, or where the width cannot hold the result. -/
def arith (f : ℤ → ℤ → Option ℤ) (a b : CInt w) : CInt w :=
  ⟨do
    let x ← a.val
    let y ← b.val
    let v ← f x y
    if InWidth w v then some v else none⟩

instance : Add (CInt w) := ⟨arith fun x y => some (x + y)⟩

instance : Sub (CInt w) := ⟨arith fun x y => some (x - y)⟩

instance : Mul (CInt w) := ⟨arith fun x y => some (x * y)⟩

/-- Division truncates toward zero and is undefined at a zero divisor. -/
instance : Div (CInt w) :=
  ⟨arith fun x y => if y = 0 then none else some (x.tdiv y)⟩

/-- The expression is defined, has the exact value `v`, and `v` is at most
`B` in absolute value. -/
structure Evaluates (e : CInt w) (v B : ℤ) : Prop where
  val_eq : e.val = some v
  abs_le : |v| ≤ B

namespace Evaluates

variable {a b : CInt w} {x y A B : ℤ}

theorem nonneg (h : Evaluates a x A) : 0 ≤ A :=
  (abs_nonneg x).trans h.abs_le

theorem coe (h : |x| ≤ A) : Evaluates (x : CInt w) x A :=
  ⟨rfl, h⟩

theorem arith {f : ℤ → ℤ → Option ℤ} {v C : ℤ}
    (ha : Evaluates a x A) (hb : Evaluates b y B) (hf : f x y = some v)
    (hv : |v| ≤ C) (hC : C < 2 ^ (w - 1)) : Evaluates (arith f a b) v C := by
  refine ⟨?_, hv⟩
  have hwidth : InWidth w v := inWidth_of_abs_le hv hC
  simp [CInt.arith, ha.val_eq, hb.val_eq, hf, hwidth]

theorem add (ha : Evaluates a x A) (hb : Evaluates b y B)
    (hAB : A + B < 2 ^ (w - 1)) : Evaluates (a + b) (x + y) (A + B) := by
  have habs : |x + y| ≤ A + B :=
    (abs_add_le x y).trans (add_le_add ha.abs_le hb.abs_le)
  exact arith ha hb rfl habs hAB

theorem sub (ha : Evaluates a x A) (hb : Evaluates b y B)
    (hAB : A + B < 2 ^ (w - 1)) : Evaluates (a - b) (x - y) (A + B) := by
  have habs : |x - y| ≤ A + B :=
    (abs_sub x y).trans (add_le_add ha.abs_le hb.abs_le)
  exact arith ha hb rfl habs hAB

theorem mul (ha : Evaluates a x A) (hb : Evaluates b y B)
    (hAB : A * B < 2 ^ (w - 1)) : Evaluates (a * b) (x * y) (A * B) := by
  have habs : |x * y| ≤ A * B := by
    rw [abs_mul]
    exact mul_le_mul ha.abs_le hb.abs_le (abs_nonneg y) ha.nonneg
  exact arith ha hb rfl habs hAB

theorem div (ha : Evaluates a x A) (hb : Evaluates b y B) (hy : y ≠ 0)
    (hA : A < 2 ^ (w - 1)) : Evaluates (a / b) (x.tdiv y) A := by
  have habs : |x.tdiv y| ≤ A := by
    have hquot := Int.natAbs_tdiv_le_natAbs x y
    have hx := ha.abs_le
    rw [Int.abs_eq_natAbs] at hx ⊢
    omega
  exact arith ha hb (if_neg hy) habs hA

end Evaluates

end CInt

end EmbBoard
