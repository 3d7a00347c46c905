import Mathlib.Algebra.Order.Ring.Int
import Mathlib.Data.Set.Basic
import Mathlib.Tactic.Linarith
import Mathlib.Tactic.Ring

/-!
# Lines with a rounded slope

A line over `n` columns that rises by `d` is drawn with a slope that is rounded
down to a multiple of one `size`-th, and each point is rounded down again.  The
line stays below the exact one, and it meets the end of it exactly if the slope
was not rounded.
-/

namespace EmbBoard.Slope

/-- The rise per column in units of one `size`-th. -/
def step (size n d : ℤ) : ℤ := size * d / n

/-- The rise after `k` columns. -/
def offset (size n d k : ℤ) : ℤ := k * step size n d / size

section

variable {size n d k : ℤ}

theorem offset_zero (size n d : ℤ) : offset size n d 0 = 0 := by
  rw [offset, zero_mul, Int.zero_ediv]

theorem step_nonneg (hsize : 0 < size) (hn : 0 < n) (hd : 0 ≤ d) :
    0 ≤ step size n d :=
  Int.ediv_nonneg (mul_nonneg hsize.le hd) hn.le

theorem step_mul_le (hn : 0 < n) : step size n d * n ≤ size * d :=
  Int.ediv_mul_le _ hn.ne'

theorem lt_step_mul (hn : 0 < n) : size * d < (step size n d + 1) * n :=
  Int.lt_ediv_add_one_mul_self _ hn

theorem offset_mul_le (hsize : 0 < size) :
    offset size n d k * size ≤ k * step size n d :=
  Int.ediv_mul_le _ hsize.ne'

theorem lt_offset_mul (hsize : 0 < size) :
    k * step size n d < (offset size n d k + 1) * size :=
  Int.lt_ediv_add_one_mul_self _ hsize

theorem offset_nonneg (hsize : 0 < size) (hn : 0 < n) (hd : 0 ≤ d)
    (hk : 0 ≤ k) : 0 ≤ offset size n d k :=
  Int.ediv_nonneg (mul_nonneg hk (step_nonneg hsize hn hd)) hsize.le

theorem offset_mono (hsize : 0 < size) (hn : 0 < n) (hd : 0 ≤ d) {j : ℤ}
    (hjk : j ≤ k) : offset size n d j ≤ offset size n d k :=
  Int.ediv_le_ediv hsize
    (mul_le_mul_of_nonneg_right hjk (step_nonneg hsize hn hd))

/-- A point is not above the exact line. -/
theorem offset_le (hsize : 0 < size) (hn : 0 < n) (hk : 0 ≤ k) :
    n * offset size n d k ≤ k * d := by
  have hround := offset_mul_le (n := n) (d := d) (k := k) hsize
  have hslope : step size n d * n ≤ size * d := step_mul_le hn
  have hscaled : (n * offset size n d k) * size ≤ (k * d) * size := by
    calc (n * offset size n d k) * size
        = n * (offset size n d k * size) := by ring
      _ ≤ n * (k * step size n d) := mul_le_mul_of_nonneg_left hround hn.le
      _ = k * (step size n d * n) := by ring
      _ ≤ k * (size * d) := mul_le_mul_of_nonneg_left hslope hk
      _ = (k * d) * size := by ring
  exact le_of_mul_le_mul_right hscaled hsize

/-- It is less than one and one `size`-th for each column below it. -/
theorem lt_offset (hsize : 0 < size) (hn : 0 < n) (hk : 0 ≤ k) :
    k * d * size < n * ((offset size n d k + 1) * size + k) := by
  have hround := lt_offset_mul (n := n) (d := d) (k := k) hsize
  have hslope : size * d < (step size n d + 1) * n := lt_step_mul hn
  calc k * d * size = k * (size * d) := by ring
    _ ≤ k * ((step size n d + 1) * n) :=
        mul_le_mul_of_nonneg_left hslope.le hk
    _ = n * (k * step size n d + k) := by ring
    _ < n * ((offset size n d k + 1) * size + k) :=
        mul_lt_mul_of_pos_left (by omega) hn

theorem offset_end_le (hsize : 0 < size) (hn : 0 < n) :
    offset size n d n ≤ d :=
  le_of_mul_le_mul_left (offset_le hsize hn hn.le) hn

/-- The line meets the end of the exact one if and only if its slope is exact. -/
theorem offset_end_eq_iff (hsize : 0 < size) (hn : 0 < n) :
    offset size n d n = d ↔ n ∣ size * d := by
  constructor
  · intro heq
    have hround := offset_mul_le (n := n) (d := d) (k := n) hsize
    have hslope : step size n d * n ≤ size * d := step_mul_le hn
    rw [heq] at hround
    refine ⟨step size n d, le_antisymm ?_ ?_⟩
    · rwa [mul_comm]
    · rwa [mul_comm]
  · intro hdvd
    rw [offset, step, Int.mul_ediv_cancel' hdvd,
      Int.mul_ediv_cancel_left _ hsize.ne']

/-- The pixels of a line are one for each column, not above the exact line and
less than one and one `size`-th for each column below it.  The end is among them
if and only if the slope is exact. -/
structure Follows (size n d : ℤ) (L : Set (ℤ × ℤ)) : Prop where
  column : ∀ k, 0 ≤ k → k ≤ n → ∃! o, (k, o) ∈ L
  inside : ∀ q ∈ L, 0 ≤ q.1 ∧ q.1 ≤ n ∧ 0 ≤ q.2 ∧ q.2 ≤ d
  le : ∀ q ∈ L, n * q.2 ≤ q.1 * d
  lt : ∀ q ∈ L, q.1 * d * size < n * ((q.2 + 1) * size + q.1)
  end_mem_iff : (n, d) ∈ L ↔ n ∣ size * d

/-- The line with the rounded slope. -/
def line (size n d : ℤ) : Set (ℤ × ℤ) :=
  { q | 0 ≤ q.1 ∧ q.1 ≤ n ∧ q.2 = offset size n d q.1 }

theorem line_follows (hsize : 0 < size) (hn : 0 < n) (hd : 0 ≤ d) :
    Follows size n d (line size n d) where
  column k hk hkn := ⟨offset size n d k, ⟨hk, hkn, rfl⟩, fun _ ho => ho.2.2⟩
  inside := by
    rintro q ⟨hk, hkn, ho⟩
    rw [ho]
    refine ⟨hk, hkn, offset_nonneg hsize hn hd hk, ?_⟩
    calc offset size n d q.1 ≤ offset size n d n := offset_mono hsize hn hd hkn
      _ ≤ d := offset_end_le hsize hn
  le := by
    rintro q ⟨hk, _, ho⟩
    rw [ho]
    exact offset_le hsize hn hk
  lt := by
    rintro q ⟨hk, _, ho⟩
    rw [ho]
    exact lt_offset hsize hn hk
  end_mem_iff := by
    rw [← offset_end_eq_iff hsize hn]
    exact ⟨fun h => h.2.2.symm, fun h => ⟨hn.le, le_rfl, h.symm⟩⟩

/-- A line that goes on to the right does not rise in its first column. -/
theorem Follows.rise_nonpos {L : Set (ℤ × ℤ)} (h : Follows size n d L)
    (hn : 0 < n) (hmem : (0, d) ∈ L) : d ≤ 0 := by
  have hle := h.le (0, d) hmem
  rw [zero_mul] at hle
  exact nonpos_of_mul_nonpos_right hle hn

end

end EmbBoard.Slope
