import Mathlib.Algebra.Order.Ring.Int
import Mathlib.Data.Set.Insert
import Mathlib.Tactic.Linarith

/-!
# Drawing on a memory

A memory is a function from cells to values.  `paint R val m` has the values of
`val` on the cells of `R` and those of `m` elsewhere; a loop whose passes paint
parts of one picture paints their union, in whatever order they come.

A raster of width `w` puts the pixel `(x, y)` into the cell `x + y * w`.  With
its columns below the width, every integer is the cell of one pixel, so that a
memory is a strip of pixels without end, and a picture can be drawn on a set of
pixels.
-/

namespace EmbBoard.Canvas

variable {κ V σ : Type*}

/-! ## Painting -/

open scoped Classical in
/-- The values of `val` on the cells of `R`. -/
noncomputable def paint (R : Set κ) (val m : κ → V) : κ → V :=
  fun k => if k ∈ R then val k else m k

theorem paint_of_mem {R : Set κ} {k : κ} (h : k ∈ R) (val m : κ → V) :
    paint R val m k = val k :=
  if_pos h

theorem paint_of_notMem {R : Set κ} {k : κ} (h : k ∉ R) (val m : κ → V) :
    paint R val m k = m k :=
  if_neg h

@[simp] theorem paint_empty (val m : κ → V) : paint ∅ val m = m := by
  funext k
  exact paint_of_notMem (Set.notMem_empty k) val m

/-- Parts of one picture. -/
theorem paint_paint (R S : Set κ) (val m : κ → V) :
    paint R val (paint S val m) = paint (R ∪ S) val m := by
  funext k
  by_cases hR : k ∈ R
  · rw [paint_of_mem hR, paint_of_mem (Set.mem_union_left S hR)]
  · by_cases hS : k ∈ S
    · rw [paint_of_notMem hR, paint_of_mem hS,
        paint_of_mem (Set.mem_union_right R hS)]
    · rw [paint_of_notMem hR, paint_of_notMem hS,
        paint_of_notMem (by simp [hR, hS])]

theorem update_eq_paint [DecidableEq κ] (m : κ → V) (k : κ) (c : V) :
    Function.update m k c = paint {k} (fun _ => c) m := by
  funext j
  by_cases h : j = k
  · subst h
    rw [Function.update_self, paint_of_mem (Set.mem_singleton j)]
  · rw [Function.update_of_ne h,
      paint_of_notMem (fun hj => h (Set.mem_singleton_iff.mp hj))]

/-! ## Loops that count up -/

/-- `for (i = a; i <= b; i++)` -/
def forUp (body : ℤ → σ → σ) (a b : ℤ) (s : σ) : σ :=
  if a ≤ b then forUp body (a + 1) b (body a s) else s
termination_by (b + 1 - a).toNat
decreasing_by omega

theorem forUp_of_lt {body : ℤ → σ → σ} {a b : ℤ} (h : b < a) (s : σ) :
    forUp body a b s = s := by
  rw [forUp, if_neg (not_le.mpr h)]

theorem forUp_of_le {body : ℤ → σ → σ} {a b : ℤ} (h : a ≤ b) (s : σ) :
    forUp body a b s = forUp body (a + 1) b (body a s) := by
  rw [forUp, if_pos h]

/-- An invariant of the passes holds after the loop. -/
theorem forUp_invariant (body : ℤ → σ → σ) (P : ℤ → σ → Prop) {a b : ℤ}
    (hab : a ≤ b + 1) {s : σ} (hs : P a s)
    (hstep : ∀ i s, a ≤ i → i ≤ b → P i s → P (i + 1) (body i s)) :
    P (b + 1) (forUp body a b s) := by
  obtain ⟨n, hn⟩ : ∃ n : ℕ, b + 1 - a = n := Int.eq_ofNat_of_zero_le (by omega)
  induction n generalizing a s with
  | zero =>
      have hend : a = b + 1 := by omega
      subst hend
      rwa [forUp_of_lt (by omega)]
  | succ n ih =>
      rw [forUp_of_le (by omega)]
      exact ih (by omega) (hstep a s (le_refl a) (by omega) hs)
        (fun i s hi => hstep i s (by omega)) (by omega)

/-- Passes that paint parts of one picture paint their union. -/
theorem forUp_paint {body : ℤ → (κ → V) → κ → V} {R : ℤ → Set κ} {val : κ → V}
    {a b : ℤ}
    (hbody : ∀ i m, a ≤ i → i ≤ b → body i m = paint (R i) val m)
    (m : κ → V) :
    forUp body a b m = paint { k | ∃ i, a ≤ i ∧ i ≤ b ∧ k ∈ R i } val m := by
  have hempty : ∀ {a}, b < a → { k | ∃ i, a ≤ i ∧ i ≤ b ∧ k ∈ R i } = ∅ := by
    intro a hnone
    ext k
    simp only [Set.mem_ofPred_eq, Set.mem_empty_iff_false, iff_false]
    rintro ⟨i, hi, hib, _⟩
    omega
  obtain ⟨n, hn⟩ : ∃ n : ℕ, (b + 1 - a).toNat = n := ⟨_, rfl⟩
  induction n generalizing a m with
  | zero =>
      rw [forUp_of_lt (by omega), hempty (by omega), paint_empty]
  | succ n ih =>
      rw [forUp_of_le (by omega), hbody a m (le_refl a) (by omega),
        ih (fun i m hi => hbody i m (by omega)) _ (by omega), paint_paint]
      congr 1
      ext k
      simp only [Set.mem_union, Set.mem_ofPred_eq]
      constructor
      · rintro (⟨i, hi, hib, hk⟩ | hk)
        · exact ⟨i, by omega, hib, hk⟩
        · exact ⟨a, le_refl a, by omega, hk⟩
      · rintro ⟨i, hi, hib, hk⟩
        rcases hi.lt_or_eq with hlt | rfl
        · exact Or.inl ⟨i, hlt, hib, hk⟩
        · exact Or.inr hk

/-! ## Rasters -/

/-- The cell of a pixel. -/
def cell (w : ℤ) (p : ℤ × ℤ) : ℤ := p.1 + p.2 * w

/-- The pixel of a cell. -/
def pixel (w a : ℤ) : ℤ × ℤ := (a % w, a / w)

/-- A pixel whose column is in the raster. -/
def InStrip (w : ℤ) (p : ℤ × ℤ) : Prop := 0 ≤ p.1 ∧ p.1 < w

theorem pixel_cell {w : ℤ} {p : ℤ × ℤ} (h : InStrip w p) :
    pixel w (cell w p) = p := by
  obtain ⟨hlow, hhigh⟩ := h
  have hw : w ≠ 0 := by omega
  refine Prod.ext ?_ ?_
  · change (p.1 + p.2 * w) % w = p.1
    rw [Int.add_mul_emod_self_right, Int.emod_eq_of_lt hlow hhigh]
  · change (p.1 + p.2 * w) / w = p.2
    rw [Int.add_mul_ediv_right _ _ hw, Int.ediv_eq_zero_of_lt hlow hhigh,
      Int.zero_add]

theorem cell_pixel (w a : ℤ) : cell w (pixel w a) = a := by
  change a % w + a / w * w = a
  rw [Int.mul_comm, Int.emod_add_mul_ediv]

/-- A picture drawn on a set of pixels. -/
noncomputable def draw (w : ℤ) (R : Set (ℤ × ℤ)) (pic : ℤ × ℤ → V)
    (m : ℤ → V) : ℤ → V :=
  paint { a | pixel w a ∈ R } (fun a => pic (pixel w a)) m

variable {w : ℤ} {R S : Set (ℤ × ℤ)} {pic : ℤ × ℤ → V} {m : ℤ → V}

theorem draw_of_mem {a : ℤ} (h : pixel w a ∈ R) :
    draw w R pic m a = pic (pixel w a) :=
  paint_of_mem (show a ∈ { a | pixel w a ∈ R } from h) _ _

theorem draw_of_notMem {a : ℤ} (h : pixel w a ∉ R) : draw w R pic m a = m a :=
  paint_of_notMem (show a ∉ { a | pixel w a ∈ R } from h) _ _

theorem draw_cell_of_mem {p : ℤ × ℤ} (hp : InStrip w p) (h : p ∈ R) :
    draw w R pic m (cell w p) = pic p := by
  rw [draw_of_mem (by rwa [pixel_cell hp]), pixel_cell hp]

theorem draw_cell_of_notMem {p : ℤ × ℤ} (hp : InStrip w p) (h : p ∉ R) :
    draw w R pic m (cell w p) = m (cell w p) :=
  draw_of_notMem (by rwa [pixel_cell hp])

@[simp] theorem draw_empty : draw w ∅ pic m = m :=
  paint_empty _ _

theorem draw_draw : draw w R pic (draw w S pic m) = draw w (R ∪ S) pic m :=
  paint_paint _ _ _ _

/-- Only what the picture shows on the set counts. -/
theorem draw_congr (pic' : ℤ × ℤ → V) (h : ∀ p ∈ R, pic p = pic' p) :
    draw w R pic m = draw w R pic' m := by
  funext a
  by_cases ha : pixel w a ∈ R
  · rw [draw_of_mem ha, draw_of_mem ha, h _ ha]
  · rw [draw_of_notMem ha, draw_of_notMem ha]

/-- One write. -/
theorem update_cell {p : ℤ × ℤ} (hp : InStrip w p) (c : V) :
    Function.update m (cell w p) c = draw w {p} (fun _ => c) m := by
  rw [update_eq_paint, draw]
  congr 1
  ext a
  simp only [Set.mem_singleton_iff, Set.mem_ofPred_eq]
  constructor
  · rintro rfl
    exact pixel_cell hp
  · rintro h
    rw [← h, cell_pixel]

/-- A write that the picture asks for. -/
theorem update_cell_of_eq {p : ℤ × ℤ} (hp : InStrip w p) (pic : ℤ × ℤ → V)
    {c : V} (hc : pic p = c) :
    Function.update m (cell w p) c = draw w {p} pic m := by
  rw [update_cell hp]
  refine draw_congr pic ?_
  rintro q rfl
  exact hc.symm

/-- Passes that draw parts of one picture draw their union. -/
theorem forUp_draw {body : ℤ → (ℤ → V) → ℤ → V} {R : ℤ → Set (ℤ × ℤ)} {a b : ℤ}
    (hbody : ∀ i m, a ≤ i → i ≤ b → body i m = draw w (R i) pic m)
    (m : ℤ → V) :
    forUp body a b m =
      draw w { p | ∃ i, a ≤ i ∧ i ≤ b ∧ p ∈ R i } pic m :=
  forUp_paint hbody m

/-- The pixels of a rectangle, with its edges. -/
def rect (x1 y1 x2 y2 : ℤ) : Set (ℤ × ℤ) :=
  { p | x1 ≤ p.1 ∧ p.1 ≤ x2 ∧ y1 ≤ p.2 ∧ p.2 ≤ y2 }

end EmbBoard.Canvas
