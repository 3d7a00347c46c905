import EmbBoard.Support.Slope
import EmbBoard.Swim.Window
import Mathlib.Tactic.Ring

/-!
# Lines and boxes

What the lines of the library draw, as sets of pixels, and what a box and an
opened window look like.
-/

namespace EmbBoard.Swim

open Canvas

/-- The pixels of the draw area. -/
def Window.area (w : Window) : Set (ℤ × ℤ) :=
  rect w.xpvmin w.ypvmin w.xpvmax w.ypvmax

/-- The pixels of the display. -/
def Window.display (w : Window) : Set (ℤ × ℤ) :=
  rect 0 0 (w.xpsize - 1) (w.ypsize - 1)

/-- The draw area is not empty, and on the display, which the controller limits
to 1024 by 1024 pixels. -/
structure Window.Valid (w : Window) : Prop where
  xpvmin_nonneg : 0 ≤ w.xpvmin
  xpvmin_le : w.xpvmin ≤ w.xpvmax
  xpvmax_lt : w.xpvmax < w.xpsize
  ypvmin_nonneg : 0 ≤ w.ypvmin
  ypvmin_le : w.ypvmin ≤ w.ypvmax
  ypvmax_lt : w.ypvmax < w.ypsize
  size_le : w.xpsize ≤ 1024 ∧ w.ypsize ≤ 1024

/-- Coordinates of sixteen bits. -/
def Short (vs : List ℤ) : Prop := ∀ v ∈ vs, -2 ^ 15 ≤ v ∧ v < 2 ^ 15

theorem Window.put_eq {w : Window} {x y : ℤ} (hlow : 0 ≤ x)
    (hhigh : x < w.xpsize) (c : Color) (fb : FrameBuffer) :
    w.put x y c fb = draw w.xpsize {(x, y)} (fun _ => c) fb :=
  update_cell (p := (x, y)) ⟨hlow, hhigh⟩ c

/-- Two loops, one in the other, fill a rectangle, whichever is the outer
one. -/
theorem fillRows_eq {w : Window} {x1 y1 x2 y2 : ℤ} (hlow : 0 ≤ x1)
    (hhigh : x2 < w.xpsize) (c : Color) (fb : FrameBuffer) :
    forUp (fun y => forUp (fun x => w.put x y c) x1 x2) y1 y2 fb =
      draw w.xpsize (rect x1 y1 x2 y2) (fun _ => c) fb := by
  have hrow : ∀ y fb, forUp (fun x => w.put x y c) x1 x2 fb =
      draw w.xpsize { p | ∃ x, x1 ≤ x ∧ x ≤ x2 ∧ p ∈ ({(x, y)} : Set (ℤ × ℤ)) }
        (fun _ => c) fb := by
    intro y fb
    refine forUp_draw (fun x fb hx hx2 => ?_) fb
    exact Window.put_eq (by omega) (by omega) c fb
  rw [forUp_draw (fun y fb _ _ => hrow y fb)]
  congr 1
  ext ⟨x, y⟩
  simp only [Set.mem_ofPred_eq, Set.mem_singleton_iff, rect, Prod.mk.injEq]
  constructor
  · rintro ⟨j, hj1, hj2, i, hi1, hi2, rfl, rfl⟩
    exact ⟨hi1, hi2, hj1, hj2⟩
  · rintro ⟨hx1, hx2, hy1, hy2⟩
    exact ⟨y, hy1, hy2, x, hx1, hx2, rfl, rfl⟩

theorem fillColumns_eq {w : Window} {x1 y1 x2 y2 : ℤ} (hlow : 0 ≤ x1)
    (hhigh : x2 < w.xpsize) (c : Color) (fb : FrameBuffer) :
    forUp (fun x => forUp (fun y => w.put x y c) y1 y2) x1 x2 fb =
      draw w.xpsize (rect x1 y1 x2 y2) (fun _ => c) fb := by
  have hcolumn : ∀ x fb, x1 ≤ x → x ≤ x2 →
      forUp (fun y => w.put x y c) y1 y2 fb =
        draw w.xpsize
          { p | ∃ y, y1 ≤ y ∧ y ≤ y2 ∧ p ∈ ({(x, y)} : Set (ℤ × ℤ)) }
          (fun _ => c) fb := by
    intro x fb hx hx2
    refine forUp_draw (fun y fb _ _ => ?_) fb
    exact Window.put_eq (by omega) (by omega) c fb
  rw [forUp_draw hcolumn]
  congr 1
  ext ⟨x, y⟩
  simp only [Set.mem_ofPred_eq, Set.mem_singleton_iff, rect, Prod.mk.injEq]
  constructor
  · rintro ⟨i, hi1, hi2, j, hj1, hj2, rfl, rfl⟩
    exact ⟨hi1, hi2, hj1, hj2⟩
  · rintro ⟨hx1, hx2, hy1, hy2⟩
    exact ⟨x, hx1, hx2, y, hy1, hy2, rfl, rfl⟩

theorem clearScreen_eq {w : Window} (hw : w.Valid) (colr : Color)
    (fb : FrameBuffer) :
    clearScreen w colr fb = draw w.xpsize w.area (fun _ => colr) fb :=
  fillRows_eq hw.xpvmin_nonneg hw.xpvmax_lt colr fb

/-! ## Lines -/

/-- The pixel of a pass. -/
def linePixel (w : Window) (xinc yinc x1 y1 : ℤ) (k : ℕ) : ℤ × ℤ :=
  ((x1 + k * xinc).tdiv w.xpsize, (y1 + k * yinc).tdiv w.ypsize)

/-- The pixels of the first `n` passes, up to the first that is not inside. -/
def lineSet (w : Window) (inside : ℤ → ℤ → Bool) (xinc yinc : ℤ) (n : ℕ)
    (x1 y1 : ℤ) : Set (ℤ × ℤ) :=
  { p | ∃ k < n, p = linePixel w xinc yinc x1 y1 k ∧
    ∀ j ≤ k, inside (linePixel w xinc yinc x1 y1 j).1
      (linePixel w xinc yinc x1 y1 j).2 }

theorem linePixel_succ (w : Window) (xinc yinc x1 y1 : ℤ) (k : ℕ) :
    linePixel w xinc yinc (x1 + xinc) (y1 + yinc) k =
      linePixel w xinc yinc x1 y1 (k + 1) := by
  have hx : x1 + xinc + k * xinc = x1 + (k + 1 : ℕ) * xinc := by
    push_cast
    ring
  have hy : y1 + yinc + k * yinc = y1 + (k + 1 : ℕ) * yinc := by
    push_cast
    ring
  rw [linePixel, linePixel, hx, hy]

theorem lineLoop_eq {w : Window} {inside : ℤ → ℤ → Bool}
    (hinside : ∀ x y, inside x y → 0 ≤ x ∧ x < w.xpsize) (xinc yinc : ℤ)
    (n : ℕ) (x1 y1 : ℤ) (fb : FrameBuffer) :
    lineLoop w inside xinc yinc n x1 y1 fb =
      draw w.xpsize (lineSet w inside xinc yinc n x1 y1) (fun _ => w.pen) fb := by
  induction n generalizing x1 y1 fb with
  | zero =>
      have hempty : lineSet w inside xinc yinc 0 x1 y1 = ∅ := by
        ext p
        simp [lineSet]
      rw [hempty, draw_empty]
      rfl
  | succ n ih =>
      have hfirst : linePixel w xinc yinc x1 y1 0 =
          (x1.tdiv w.xpsize, y1.tdiv w.ypsize) := by
        simp [linePixel]
      rw [lineLoop]
      split
      · rename_i hin
        obtain ⟨hlow, hhigh⟩ := hinside _ _ hin
        rw [ih, Window.put_eq hlow hhigh, draw_draw]
        congr 1
        ext p
        constructor
        · rintro (⟨k, hk, rfl, hall⟩ | hp)
          · refine ⟨k + 1, by omega, linePixel_succ .., fun j hj => ?_⟩
            cases j with
            | zero =>
                rw [hfirst]
                exact hin
            | succ j =>
                rw [← linePixel_succ]
                exact hall j (by omega)
          · rw [Set.mem_singleton_iff.mp hp]
            refine ⟨0, Nat.succ_pos n, hfirst.symm, fun j hj => ?_⟩
            rw [Nat.le_zero.mp hj, hfirst]
            exact hin
        · rintro ⟨k, hk, rfl, hall⟩
          cases k with
          | zero => exact Or.inr hfirst
          | succ k =>
              refine Or.inl ⟨k, by omega, (linePixel_succ ..).symm, fun j hj => ?_⟩
              rw [linePixel_succ]
              exact hall (j + 1) (by omega)
      · rename_i hout
        have hempty : lineSet w inside xinc yinc (n + 1) x1 y1 = ∅ := by
          ext p
          refine iff_of_false ?_ (Set.notMem_empty p)
          rintro ⟨k, _, _, hall⟩
          have hzero := hall 0 (Nat.zero_le k)
          rw [hfirst] at hzero
          exact hout hzero
        rw [hempty, draw_empty]

/-- A line along a row, all of it inside. -/
theorem traceLine_row {w : Window} {inside : ℤ → ℤ → Bool}
    (hinside : ∀ x y, inside x y → 0 ≤ x ∧ x < w.xpsize) {x1 x2 y : ℤ}
    (hlt : x1 < x2) (hall : ∀ x, x1 ≤ x → x ≤ x2 → inside x y)
    (hheight : w.ypsize ≠ 0) (fb : FrameBuffer) :
    traceLine w inside x1 y x2 y fb =
      some (draw w.xpsize (rect x1 y x2 y) (fun _ => w.pen) fb) := by
  obtain ⟨hlow, hhigh⟩ := hinside x1 y (hall x1 (le_refl x1) hlt.le)
  have hwidth : w.xpsize ≠ 0 := by omega
  have hpixel : ∀ k : ℕ, linePixel w w.xpsize 0 (x1 * w.xpsize) (y * w.ypsize) k =
      (x1 + k, y) := by
    intro k
    have hx : x1 * w.xpsize + k * w.xpsize = (x1 + k) * w.xpsize := by ring
    rw [linePixel, hx, mul_zero, add_zero, Int.mul_tdiv_cancel _ hwidth,
      Int.mul_tdiv_cancel _ hheight]
  have hset : lineSet w inside w.xpsize 0 (x2 - x1 + 1).toNat (x1 * w.xpsize)
      (y * w.ypsize) = rect x1 y x2 y := by
    ext ⟨px, py⟩
    simp only [lineSet, hpixel, rect, Set.mem_ofPred_eq, Prod.mk.injEq]
    constructor
    · rintro ⟨k, hk, ⟨rfl, rfl⟩, _⟩
      omega
    · rintro ⟨hx1, hx2, hy1, hy2⟩
      refine ⟨(px - x1).toNat, by omega, ⟨by omega, by omega⟩, fun j hj => ?_⟩
      exact hall _ (by omega) (by omega)
  rw [traceLine, if_neg (by omega), if_pos (by omega), Int.sub_self, mul_zero,
    Int.zero_tdiv, lineLoop_eq hinside, hset]

/-- A line along a column, all of it inside. -/
theorem traceLine_column {w : Window} {inside : ℤ → ℤ → Bool}
    (hinside : ∀ x y, inside x y → 0 ≤ x ∧ x < w.xpsize) {x y1 y2 : ℤ}
    (hlt : y1 < y2) (hall : ∀ y, y1 ≤ y → y ≤ y2 → inside x y)
    (hheight : w.ypsize ≠ 0) (fb : FrameBuffer) :
    traceLine w inside x y1 x y2 fb =
      some (draw w.xpsize (rect x y1 x y2) (fun _ => w.pen) fb) := by
  obtain ⟨hlow, hhigh⟩ := hinside x y1 (hall y1 (le_refl y1) hlt.le)
  have hwidth : w.xpsize ≠ 0 := by omega
  have hpixel : ∀ k : ℕ, linePixel w 0 w.ypsize (x * w.xpsize) (y1 * w.ypsize) k =
      (x, y1 + k) := by
    intro k
    have hy : y1 * w.ypsize + k * w.ypsize = (y1 + k) * w.ypsize := by ring
    rw [linePixel, hy, mul_zero, add_zero, Int.mul_tdiv_cancel _ hwidth,
      Int.mul_tdiv_cancel _ hheight]
  have hset : lineSet w inside 0 w.ypsize (y2 - y1 + 1).toNat (x * w.xpsize)
      (y1 * w.ypsize) = rect x y1 x y2 := by
    ext ⟨px, py⟩
    simp only [lineSet, hpixel, rect, Set.mem_ofPred_eq, Prod.mk.injEq]
    constructor
    · rintro ⟨k, hk, ⟨rfl, rfl⟩, _⟩
      omega
    · rintro ⟨hx1, hx2, hy1, hy2⟩
      refine ⟨(py - y1).toNat, by omega, ⟨by omega, by omega⟩, fun j hj => ?_⟩
      exact hall _ (by omega) (by omega)
  rw [traceLine, if_neg (by omega), if_neg (by omega), Int.sub_self, mul_zero,
    Int.zero_tdiv, lineLoop_eq hinside, hset]

theorem Window.onDisplay_iff (w : Window) (x y : ℤ) :
    w.onDisplay x y = true ↔ (x, y) ∈ w.display := by
  simp only [Window.onDisplay, Window.display, rect, Bool.and_eq_true,
    decide_eq_true_eq, Set.mem_ofPred_eq]
  tauto

theorem Window.inArea_iff (w : Window) (x y : ℤ) :
    w.inArea x y = true ↔ (x, y) ∈ w.area := by
  simp only [Window.inArea, Window.area, rect, Bool.and_eq_true,
    decide_eq_true_eq, Set.mem_ofPred_eq]
  tauto

theorem Window.onDisplay_strip (w : Window) (x y : ℤ) (h : w.onDisplay x y) :
    0 ≤ x ∧ x < w.xpsize := by
  obtain ⟨hlow, hhigh, _⟩ := (w.onDisplay_iff x y).mp h
  exact ⟨hlow, Int.lt_of_le_sub_one hhigh⟩

/-- The swap at the start of a line or box sorts two coordinates. -/
theorem swap_eq (a b : ℤ) :
    (if a > b then (b, a) else (a, b)) = (min a b, max a b) := by
  split
  · rename_i h
    rw [min_eq_right h.le, max_eq_left h.le]
  · rename_i h
    rw [min_eq_left (not_lt.mp h), max_eq_right (not_lt.mp h)]

theorem putLineRaw_eq (w : Window) (x1 y1 x2 y2 : ℤ) (fb : FrameBuffer) :
    putLineRaw w x1 y1 x2 y2 fb =
      traceLine w w.onDisplay (min x1 x2) (min y1 y2) (max x1 x2) (max y1 y2)
        fb := by
  rw [putLineRaw, swap_eq, swap_eq]

/-- A raw line along a row of the display. -/
theorem putLineRaw_row {w : Window} {x1 x2 y : ℤ} (h1 : (x1, y) ∈ w.display)
    (h2 : (x2, y) ∈ w.display) (hne : x1 ≠ x2) (fb : FrameBuffer) :
    putLineRaw w x1 y x2 y fb =
      some (draw w.xpsize (rect (min x1 x2) y (max x1 x2) y) (fun _ => w.pen)
        fb) := by
  obtain ⟨hx1, hx1', hy, hy'⟩ := h1
  obtain ⟨hx2, hx2', _⟩ := h2
  simp only at hx1 hx1' hx2 hx2' hy hy'
  rw [putLineRaw_eq, min_self, max_self]
  refine traceLine_row w.onDisplay_strip (by omega) (fun x hlow hhigh => ?_)
    (by omega) fb
  exact (w.onDisplay_iff x y).mpr ⟨by omega, by omega, hy, hy'⟩

/-- A raw line along a column of the display. -/
theorem putLineRaw_column {w : Window} {x y1 y2 : ℤ} (h1 : (x, y1) ∈ w.display)
    (h2 : (x, y2) ∈ w.display) (hne : y1 ≠ y2) (fb : FrameBuffer) :
    putLineRaw w x y1 x y2 fb =
      some (draw w.xpsize (rect x (min y1 y2) x (max y1 y2)) (fun _ => w.pen)
        fb) := by
  obtain ⟨hx, hx', hy1, hy1'⟩ := h1
  obtain ⟨_, _, hy2, hy2'⟩ := h2
  simp only at hx hx' hy1 hy1' hy2 hy2'
  rw [putLineRaw_eq, min_self, max_self]
  refine traceLine_column w.onDisplay_strip (by omega) (fun y hlow hhigh => ?_)
    (by omega) fb
  exact (w.onDisplay_iff x y).mpr ⟨hx, hx', by omega, by omega⟩

/-- A raw line has a result unless it is a single point, and it stays on the
display. -/
theorem putLineRaw_cases {w : Window} (hwidth : w.xpsize ≠ 0)
    (hheight : w.ypsize ≠ 0) (x1 y1 x2 y2 : ℤ) (fb : FrameBuffer) :
    (x1 = x2 ∧ y1 = y2 ∧ putLineRaw w x1 y1 x2 y2 fb = none) ∨
      (¬(x1 = x2 ∧ y1 = y2) ∧ ∃ R ⊆ w.display,
        putLineRaw w x1 y1 x2 y2 fb =
          some (draw w.xpsize R (fun _ => w.pen) fb)) := by
  have hdisplay : ∀ xinc yinc n x y,
      lineSet w w.onDisplay xinc yinc n x y ⊆ w.display := by
    rintro xinc yinc n x y p ⟨k, _, rfl, hall⟩
    exact (w.onDisplay_iff _ _).mp (hall k (le_refl k))
  rw [putLineRaw_eq, traceLine]
  by_cases hpoint : x1 = x2 ∧ y1 = y2
  · obtain ⟨rfl, rfl⟩ := hpoint
    refine Or.inl ⟨rfl, rfl, if_pos (Or.inr (Or.inr ?_))⟩
    omega
  · refine Or.inr ⟨hpoint, ?_⟩
    rw [if_neg (by omega)]
    split
    · exact ⟨_, hdisplay _ _ _ _ _, by rw [lineLoop_eq w.onDisplay_strip]⟩
    · exact ⟨_, hdisplay _ _ _ _ _, by rw [lineLoop_eq w.onDisplay_strip]⟩

/-! ## Lines of a program -/

/-- The pixels of a line from `(x1, y1)` to the right and down to `(x2, y2)`,
on a display of the given size. -/
def raster (xpsize ypsize x1 y1 x2 y2 : ℤ) : Set (ℤ × ℤ) :=
  if x2 - x1 > y2 - y1 then
    { q | ∃ k, 0 ≤ k ∧ k ≤ x2 - x1 ∧
      q = (x1 + k, y1 + Slope.offset ypsize (x2 - x1) (y2 - y1) k) }
  else
    { q | ∃ k, 0 ≤ k ∧ k ≤ y2 - y1 ∧
      q = (x1 + Slope.offset xpsize (y2 - y1) (x2 - x1) k, y1 + k) }

theorem start_mem_raster {x1 y1 x2 y2 : ℤ} (hx : x1 ≤ x2) (hy : y1 ≤ y2)
    (xpsize ypsize : ℤ) : (x1, y1) ∈ raster xpsize ypsize x1 y1 x2 y2 := by
  rw [raster]
  split
  · refine ⟨0, le_refl 0, by omega, ?_⟩
    rw [Slope.offset_zero, add_zero, add_zero]
  · refine ⟨0, le_refl 0, by omega, ?_⟩
    rw [Slope.offset_zero, add_zero, add_zero]

theorem raster_point (xpsize ypsize x y : ℤ) :
    raster xpsize ypsize x y x y = {(x, y)} := by
  refine subset_antisymm ?_
    (Set.singleton_subset_iff.mpr (start_mem_raster le_rfl le_rfl _ _))
  rw [raster, if_neg (by omega)]
  rintro q ⟨k, hk, hk', rfl⟩
  have hzero : k = 0 := by omega
  rw [hzero, Slope.offset_zero, add_zero, add_zero]
  exact Set.mem_singleton _

/-- Passes that start in the draw area and go to the right and down stay in it
until they leave it for good. -/
theorem lineSet_eq {w : Window} {xinc yinc x1 y1 : ℤ} {n : ℕ} {R : Set (ℤ × ℤ)}
    (hfirst : linePixel w xinc yinc (x1 * w.xpsize) (y1 * w.ypsize) 0 = (x1, y1))
    (hmono : (x1, y1) ∈ w.area → ∀ j k, j ≤ k →
      (linePixel w xinc yinc (x1 * w.xpsize) (y1 * w.ypsize) j).1 ≤
          (linePixel w xinc yinc (x1 * w.xpsize) (y1 * w.ypsize) k).1 ∧
        (linePixel w xinc yinc (x1 * w.xpsize) (y1 * w.ypsize) j).2 ≤
          (linePixel w xinc yinc (x1 * w.xpsize) (y1 * w.ypsize) k).2)
    (hR : (x1, y1) ∈ w.area → ∀ q, q ∈ R ↔ ∃ k < n,
      q = linePixel w xinc yinc (x1 * w.xpsize) (y1 * w.ypsize) k) :
    lineSet w w.inArea xinc yinc n (x1 * w.xpsize) (y1 * w.ypsize) =
      { q | (x1, y1) ∈ w.area ∧ q ∈ w.area ∧ q ∈ R } := by
  ext q
  simp only [lineSet, Set.mem_ofPred_eq, Window.inArea_iff, Prod.mk.eta]
  constructor
  · rintro ⟨k, hk, rfl, hall⟩
    have hstart := hall 0 (Nat.zero_le k)
    rw [hfirst] at hstart
    exact ⟨hstart, hall k le_rfl, (hR hstart _).mpr ⟨k, hk, rfl⟩⟩
  · rintro ⟨hstart, hin, hq⟩
    obtain ⟨k, hk, rfl⟩ := (hR hstart q).mp hq
    refine ⟨k, hk, rfl, fun j hj => ?_⟩
    have hlow := hmono hstart 0 j (Nat.zero_le j)
    have hhigh := hmono hstart j k hj
    rw [hfirst] at hlow
    exact ⟨hstart.1.trans hlow.1, hhigh.1.trans hin.2.1,
      hstart.2.2.1.trans hlow.2, hhigh.2.trans hin.2.2.2⟩

/-- The coordinate that is scaled up and down again. -/
theorem scaled_tdiv {size c n d : ℤ} (hsize : 0 < size) (hc : 0 ≤ c)
    (hn : 0 < n) (hd : 0 ≤ d) (k : ℕ) :
    (c * size + k * (size * d).tdiv n).tdiv size = c + Slope.offset size n d k := by
  have hstep : (size * d).tdiv n = Slope.step size n d :=
    Int.tdiv_eq_ediv_of_nonneg (mul_nonneg hsize.le hd)
  have hnonneg : 0 ≤ c * size + k * Slope.step size n d :=
    add_nonneg (mul_nonneg hc hsize.le)
      (mul_nonneg (Int.natCast_nonneg k) (Slope.step_nonneg hsize hn hd))
  rw [hstep, Int.tdiv_eq_ediv_of_nonneg hnonneg, add_comm,
    Int.add_mul_ediv_right _ _ hsize.ne', add_comm]
  rfl

theorem linePixel_zero {w : Window} (hxsize : 0 < w.xpsize)
    (hysize : 0 < w.ypsize) (xinc yinc x1 y1 : ℤ) :
    linePixel w xinc yinc (x1 * w.xpsize) (y1 * w.ypsize) 0 = (x1, y1) := by
  rw [linePixel, Nat.cast_zero, zero_mul, zero_mul, add_zero, add_zero,
    Int.mul_tdiv_cancel _ hxsize.ne', Int.mul_tdiv_cancel _ hysize.ne']

theorem full_tdiv {size : ℤ} (hsize : 0 < size) (c : ℤ) (k : ℕ) :
    (c * size + k * size).tdiv size = c + k := by
  rw [← add_mul, Int.mul_tdiv_cancel _ hsize.ne']

theorem traceLine_area {w : Window} (hw : w.Valid) {x1 y1 x2 y2 : ℤ}
    (hx : x1 ≤ x2) (hy : y1 ≤ y2) (hdiff : ¬(x1 = x2 ∧ y1 = y2))
    (fb : FrameBuffer) :
    traceLine w w.inArea x1 y1 x2 y2 fb =
      some (draw w.xpsize
        { q | (x1, y1) ∈ w.area ∧ q ∈ w.area ∧
          q ∈ raster w.xpsize w.ypsize x1 y1 x2 y2 } (fun _ => w.pen) fb) := by
  obtain ⟨hxmin, hxle, hxmax, hymin, hyle, hymax, _⟩ := hw
  have hxsize : 0 < w.xpsize := by omega
  have hysize : 0 < w.ypsize := by omega
  have hstrip : ∀ x y, w.inArea x y → 0 ≤ x ∧ x < w.xpsize := by
    intro x y hin
    obtain ⟨hlow, hhigh, _⟩ := (w.inArea_iff x y).mp hin
    exact ⟨hxmin.trans hlow, hhigh.trans_lt hxmax⟩
  rw [traceLine, if_neg (by omega)]
  by_cases hwide : x2 - x1 > y2 - y1
  · have hpixel : (x1, y1) ∈ w.area → ∀ k : ℕ, linePixel w w.xpsize
        ((w.ypsize * (y2 - y1)).tdiv (x2 - x1)) (x1 * w.xpsize)
        (y1 * w.ypsize) k =
          (x1 + k, y1 + Slope.offset w.ypsize (x2 - x1) (y2 - y1) k) := by
      rintro ⟨_, _, hrow, _⟩ k
      rw [linePixel, full_tdiv hxsize,
        scaled_tdiv hysize (hymin.trans hrow) (by omega) (by omega)]
    rw [if_pos hwide, lineLoop_eq hstrip,
      lineSet_eq (linePixel_zero hxsize hysize _ _ _ _)]
    · intro hin j k hjk
      have hmono := Slope.offset_mono hysize (n := x2 - x1) (by omega)
        (d := y2 - y1) (by omega) (Nat.cast_le.mpr hjk)
      rw [hpixel hin, hpixel hin]
      exact ⟨by simp only; omega, by simp only; omega⟩
    · intro hin q
      rw [raster, if_pos hwide]
      constructor
      · rintro ⟨k, hk, hk', rfl⟩
        refine ⟨k.toNat, by omega, ?_⟩
        rw [hpixel hin, Int.toNat_of_nonneg hk]
      · rintro ⟨k, hk, rfl⟩
        exact ⟨k, by omega, by omega, hpixel hin k⟩
  · have hpixel : (x1, y1) ∈ w.area → ∀ k : ℕ, linePixel w
        ((w.xpsize * (x2 - x1)).tdiv (y2 - y1)) w.ypsize (x1 * w.xpsize)
        (y1 * w.ypsize) k =
          (x1 + Slope.offset w.xpsize (y2 - y1) (x2 - x1) k, y1 + k) := by
      rintro ⟨hcolumn, _⟩ k
      rw [linePixel, full_tdiv hysize,
        scaled_tdiv hxsize (hxmin.trans hcolumn) (by omega) (by omega)]
    rw [if_neg hwide, lineLoop_eq hstrip,
      lineSet_eq (linePixel_zero hxsize hysize _ _ _ _)]
    · intro hin j k hjk
      have hmono := Slope.offset_mono hxsize (n := y2 - y1) (by omega)
        (d := x2 - x1) (by omega) (Nat.cast_le.mpr hjk)
      rw [hpixel hin, hpixel hin]
      exact ⟨by simp only; omega, by simp only; omega⟩
    · intro hin q
      rw [raster, if_neg hwide]
      constructor
      · rintro ⟨k, hk, hk', rfl⟩
        refine ⟨k.toNat, by omega, ?_⟩
        rw [hpixel hin, Int.toNat_of_nonneg hk]
      · rintro ⟨k, hk, rfl⟩
        exact ⟨k, by omega, by omega, hpixel hin k⟩

/-- A line of a program: nothing if it starts outside the draw area, and
otherwise what is in it. -/
theorem putLine_eq {w : Window} (hw : w.Valid) {x1 y1 x2 y2 : ℤ}
    (fb : FrameBuffer) :
    let left := min x1 x2 + w.xpvmin
    let top := min y1 y2 + w.ypvmin
    let right := max x1 x2 + w.xpvmin
    let bottom := max y1 y2 + w.ypvmin
    (x1 = x2 → y1 = y2 → (left, top) ∈ w.area) →
      putLine w x1 y1 x2 y2 fb =
        some (draw w.xpsize
          { q | (left, top) ∈ w.area ∧ q ∈ w.area ∧
            q ∈ raster w.xpsize w.ypsize left top right bottom }
          (fun _ => w.pen) fb) := by
  intro left top right bottom hpoint
  have hline : putLine w x1 y1 x2 y2 fb =
      if right - left = 0 ∧ bottom - top = 0 then
        some (w.put left top w.pen fb)
      else traceLine w w.inArea left top right bottom fb := by
    simp only [putLine, swap_eq]
    rfl
  rw [hline]
  split
  · rename_i hsame
    have hright : right = left := by omega
    have hbottom : bottom = top := by omega
    have hin := hpoint (by omega) (by omega)
    have hset : { q | (left, top) ∈ w.area ∧ q ∈ w.area ∧
        q ∈ raster w.xpsize w.ypsize left top right bottom } = {(left, top)} := by
      rw [hright, hbottom, raster_point]
      ext q
      simp only [Set.mem_singleton_iff, Set.mem_ofPred_eq]
      constructor
      · rintro ⟨_, _, rfl⟩
        rfl
      · rintro rfl
        exact ⟨hin, hin, rfl⟩
    obtain ⟨hlow, hhigh, _⟩ := hin
    rw [hset, Window.put_eq (hw.xpvmin_nonneg.trans hlow)
      (hhigh.trans_lt hw.xpvmax_lt)]
  · exact traceLine_area hw (by omega) (by omega) (by omega) fb

/-- A raster that is wider than high, counted from its start. -/
theorem raster_wide {x1 y1 x2 y2 : ℤ} (hwide : y2 - y1 < x2 - x1)
    (xpsize ypsize : ℤ) :
    { q : ℤ × ℤ | (x1 + q.1, y1 + q.2) ∈ raster xpsize ypsize x1 y1 x2 y2 } =
      Slope.line ypsize (x2 - x1) (y2 - y1) := by
  ext ⟨k, o⟩
  simp only [raster, if_pos hwide, Slope.line, Set.mem_ofPred_eq, Prod.mk.injEq,
    add_right_inj]
  constructor
  · rintro ⟨j, hj, hj', rfl, rfl⟩
    exact ⟨hj, hj', rfl⟩
  · rintro ⟨hk, hk', rfl⟩
    exact ⟨k, hk, hk', rfl, rfl⟩

/-- One that is at least as high as wide. -/
theorem raster_high {x1 y1 x2 y2 : ℤ} (hhigh : x2 - x1 ≤ y2 - y1)
    (xpsize ypsize : ℤ) :
    { q : ℤ × ℤ | (x1 + q.2, y1 + q.1) ∈ raster xpsize ypsize x1 y1 x2 y2 } =
      Slope.line xpsize (y2 - y1) (x2 - x1) := by
  ext ⟨k, o⟩
  simp only [raster, if_neg (not_lt.mpr hhigh), Slope.line, Set.mem_ofPred_eq,
    Prod.mk.injEq, add_right_inj]
  constructor
  · rintro ⟨j, hj, hj', rfl, rfl⟩
    exact ⟨hj, hj', rfl⟩
  · rintro ⟨hk, hk', rfl⟩
    exact ⟨k, hk, hk', rfl, rfl⟩

/-- The slope of a line along its longer side is a multiple of one part in the
size of the display. -/
def ExactSlope (xpsize ypsize width height : ℤ) : Prop :=
  if height < width then width ∣ ypsize * height else height ∣ xpsize * width

/-- A raster of more than one pixel stays between its corners.  It meets the last
corner exactly if its slope is exact, and it meets both of the others only if
these are the first and the last. -/
theorem raster_corners {xpsize ypsize x1 y1 x2 y2 : ℤ} (hxsize : 0 < xpsize)
    (hysize : 0 < ypsize) (hx : x1 ≤ x2) (hy : y1 ≤ y2)
    (hdiff : ¬(x1 = x2 ∧ y1 = y2)) :
    let L := raster xpsize ypsize x1 y1 x2 y2
    L ⊆ rect x1 y1 x2 y2 ∧
      ((x2, y2) ∈ L ↔ ExactSlope xpsize ypsize (x2 - x1) (y2 - y1)) ∧
      ((x1, y2) ∈ L → (x2, y1) ∈ L → x1 = x2 ∨ y1 = y2) := by
  intro L
  by_cases hwide : y2 - y1 < x2 - x1
  · have hfollows := Slope.line_follows hysize (n := x2 - x1) (d := y2 - y1)
      (by omega) (by omega)
    rw [← raster_wide hwide xpsize] at hfollows
    refine ⟨fun q hq => ?_, ?_, fun hcorner _ => ?_⟩
    · have hinside := hfollows.inside (q.1 - x1, q.2 - y1) (by
        simpa only [Set.mem_ofPred_eq, add_sub_cancel] using hq)
      simp only at hinside
      exact ⟨by omega, by omega, by omega, by omega⟩
    · rw [ExactSlope, if_pos hwide, ← hfollows.end_mem_iff, Set.mem_ofPred_eq,
        add_sub_cancel, add_sub_cancel]
    · have hrise := hfollows.rise_nonpos (by omega) (by
        simpa only [Set.mem_ofPred_eq, add_zero, add_sub_cancel] using hcorner)
      exact Or.inr (by omega)
  · have hfollows := Slope.line_follows hxsize (n := y2 - y1) (d := x2 - x1)
      (by omega) (by omega)
    rw [← raster_high (not_lt.mp hwide) xpsize ypsize] at hfollows
    refine ⟨fun q hq => ?_, ?_, fun _ hcorner => ?_⟩
    · have hinside := hfollows.inside (q.2 - y1, q.1 - x1) (by
        simpa only [Set.mem_ofPred_eq, add_sub_cancel] using hq)
      simp only at hinside
      exact ⟨by omega, by omega, by omega, by omega⟩
    · rw [ExactSlope, if_neg hwide, ← hfollows.end_mem_iff, Set.mem_ofPred_eq,
        add_sub_cancel, add_sub_cancel]
    · have hrise := hfollows.rise_nonpos (by omega) (by
        simpa only [Set.mem_ofPred_eq, add_zero, add_sub_cancel] using hcorner)
      exact Or.inl (by omega)

/-- Opposite corners of a rectangle, in a set that has the left upper one, and the
other two only if they are the same pixels. -/
theorem corners_mem_iff {L : Set (ℤ × ℤ)} {x1 y1 x2 y2 : ℤ}
    (hfirst : (min x1 x2, min y1 y2) ∈ L)
    (hcross : (min x1 x2, max y1 y2) ∈ L → (max x1 x2, min y1 y2) ∈ L →
      x1 = x2 ∨ y1 = y2) :
    (x1, y1) ∈ L ∧ (x2, y2) ∈ L ↔
      (x1 < x2 → y1 ≤ y2) ∧ (x2 < x1 → y2 ≤ y1) ∧
        (max x1 x2, max y1 y2) ∈ L := by
  wlog hx : x1 ≤ x2 generalizing x1 y1 x2 y2
  · rw [and_comm, max_comm x1, max_comm y1, this
      (by rwa [min_comm x2, min_comm y2])
      (by rw [min_comm x2, min_comm y2, max_comm x2, max_comm y2]
          exact fun h h' => (hcross h h').imp Eq.symm Eq.symm)
      (not_le.mp hx).le]
    tauto
  rw [min_eq_left hx, max_eq_right hx] at hcross
  rw [min_eq_left hx] at hfirst
  rw [max_eq_right hx]
  rcases le_total y1 y2 with hy | hy
  · rw [min_eq_left hy] at hfirst
    rw [max_eq_right hy]
    exact ⟨fun h => ⟨fun _ => hy, fun hlt => absurd hlt (not_lt.mpr hx), h.2⟩,
      fun h => ⟨hfirst, h.2.2⟩⟩
  · rw [min_eq_right hy] at hfirst
    rw [max_eq_left hy, min_eq_right hy] at hcross
    rw [max_eq_left hy]
    constructor
    · rintro ⟨h1, h2⟩
      rcases hcross h1 h2 with rfl | rfl
      · exact ⟨fun hlt => absurd hlt (lt_irrefl _), fun _ => hy, h1⟩
      · exact ⟨fun _ => hy, fun _ => hy, h2⟩
    · rintro ⟨hup, _, hlast⟩
      rcases hx.eq_or_lt with rfl | hlt
      · exact ⟨hlast, hfirst⟩
      · rw [le_antisymm (hup hlt) hy] at hlast ⊢
        exact ⟨hfirst, hlast⟩

/-- A line between two points of the draw area is drawn from the left upper to the
right lower corner of their rectangle.  It has one pixel for each column, or for
each row if the rectangle is not wider than high, short of the exact line by less
than one pixel and, for each column or row, one part in the size of the display.
It meets both points exactly if it does not go up from left to right and its
slope is exact. -/
theorem putLine_follows {w : Window} (hw : w.Valid) {x1 y1 x2 y2 : ℤ}
    (h1 : (x1 + w.xpvmin, y1 + w.ypvmin) ∈ w.area)
    (h2 : (x2 + w.xpvmin, y2 + w.ypvmin) ∈ w.area)
    (hdiff : ¬(x1 = x2 ∧ y1 = y2)) (fb : FrameBuffer) :
    let left := min x1 x2 + w.xpvmin
    let top := min y1 y2 + w.ypvmin
    let width := max x1 x2 - min x1 x2
    let height := max y1 y2 - min y1 y2
    ∃ L : Set (ℤ × ℤ),
      putLine w x1 y1 x2 y2 fb =
        some (draw w.xpsize L (fun _ => w.pen) fb) ∧
      (height < width → Slope.Follows w.ypsize width height
        { q | (left + q.1, top + q.2) ∈ L }) ∧
      (width ≤ height → Slope.Follows w.xpsize height width
        { q | (left + q.2, top + q.1) ∈ L }) ∧
      ((x1 + w.xpvmin, y1 + w.ypvmin) ∈ L ∧
          (x2 + w.xpvmin, y2 + w.ypvmin) ∈ L ↔
        (x1 < x2 → y1 ≤ y2) ∧ (x2 < x1 → y2 ≤ y1) ∧
          ExactSlope w.xpsize w.ypsize width height) := by
  intro left top width height
  have hline := putLine_eq hw fb fun hx hy =>
    absurd ⟨hx, hy⟩ hdiff
  obtain ⟨hxmin, hxle, hxmax, hymin, hyle, hymax, _⟩ := hw
  obtain ⟨hx1, hx1', hy1, hy1'⟩ := h1
  obtain ⟨hx2, hx2', hy2, hy2'⟩ := h2
  simp only at hx1 hx1' hy1 hy1' hx2 hx2' hy2 hy2'
  generalize hright : max x1 x2 + w.xpvmin = right at hline
  generalize hbottom : max y1 y2 + w.ypvmin = bottom at hline
  have hwidth : right - left = width := by omega
  have hheight : bottom - top = height := by omega
  have hxlt : left ≤ right := by omega
  have hylt : top ≤ bottom := by omega
  obtain ⟨hrect, hlast, hcross⟩ := @raster_corners w.xpsize w.ypsize left top
    right bottom (by omega) (by omega) hxlt hylt (by omega)
  have hfirst := start_mem_raster hxlt hylt w.xpsize w.ypsize
  have hset : { q | (left, top) ∈ w.area ∧ q ∈ w.area ∧
      q ∈ raster w.xpsize w.ypsize left top right bottom } =
        raster w.xpsize w.ypsize left top right bottom := by
    ext q
    refine ⟨fun hq => hq.2.2, fun hq => ⟨⟨by omega, by omega, by omega, by omega⟩,
      ?_, hq⟩⟩
    obtain ⟨hleft, hright, htop, hbottom⟩ := hrect hq
    exact ⟨by omega, by omega, by omega, by omega⟩
  rw [hset] at hline
  refine ⟨_, hline, fun hwide => ?_, fun hhigh => ?_, ?_⟩
  · rw [raster_wide (by omega), hwidth, hheight]
    exact Slope.line_follows (by omega) (by omega) (by omega)
  · rw [raster_high (by omega), hwidth, hheight]
    exact Slope.line_follows (by omega) (by omega) (by omega)
  · rw [hwidth, hheight] at hlast
    refine (corners_mem_iff ?_ ?_).trans ?_
    · rw [min_add_add_right, min_add_add_right]
      exact hfirst
    · rw [min_add_add_right, min_add_add_right, max_add_add_right,
        max_add_add_right, hright, hbottom]
      intro hup hdown
      have hcorner := hcross hup hdown
      omega
    · rw [max_add_add_right, max_add_add_right, hright, hbottom, hlast]
      exact and_congr (by omega) (and_congr_left' (by omega))

/-- A font of eight by eight pixels. -/
def font8x8 : Font where
  fontHeight := 8
  firstChar := 0x00
  lastChar := 0xFF
  fontTable := fun i => if i % 8 = 7 then 0 else 0xFE00
  fontWidthTable := fun _ => 8

/-- A window with a border of one pixel on all of a display. -/
def plainWindow : Window :=
  ⟨320, 240, 0, 0, 319, 239, 317, 237, 1, 1, 318, 238, 1, 1, 0xFFFF, 0, 0,
    font8x8, true⟩

theorem plainWindow_valid : plainWindow.Valid :=
  ⟨by decide, by decide, by decide, by decide, by decide, by decide, by decide⟩

/-- Seven columns do not divide the slope of three rows: the line stops short of
its end. -/
theorem putLine_follows_stopsShort : ∃ L : Set (ℤ × ℤ),
    putLine plainWindow 0 0 7 3 (fun _ => 0) =
      some (draw 320 L (fun _ => 0xFFFF) fun _ => 0) ∧
    Slope.Follows 240 7 3 { q | (1 + q.1, 1 + q.2) ∈ L } ∧
    ¬((1, 1) ∈ L ∧ (8, 4) ∈ L) := by
  obtain ⟨L, hline, hwide, _, hends⟩ := @putLine_follows plainWindow
    plainWindow_valid 0 0 7 3 ⟨by decide, by decide, by decide, by decide⟩
    ⟨by decide, by decide, by decide, by decide⟩ (by decide) (fun _ => 0)
  refine ⟨L, hline, hwide (by decide), fun hboth => ?_⟩
  have hslope : ExactSlope 320 240 7 3 := (hends.mp hboth).2.2
  exact absurd hslope (by rw [ExactSlope]; decide)

/-! ## Boxes -/

/-- The edge of a rectangle. -/
def frame (x1 y1 x2 y2 : ℤ) : Set (ℤ × ℤ) :=
  rect x1 y1 x2 y1 ∪ rect x2 y1 x2 y2 ∪ rect x1 y2 x2 y2 ∪ rect x1 y1 x1 y2

theorem putEdges_eq {w : Window} {x1 y1 x2 y2 : ℤ}
    (h1 : (x1, y1) ∈ w.display) (h2 : (x2, y2) ∈ w.display) (hx : x1 < x2)
    (hy : y1 < y2) (fb : FrameBuffer) :
    putEdges w x1 y1 x2 y2 fb =
      some (draw w.xpsize (frame x1 y1 x2 y2) (fun _ => w.pen) fb) := by
  have h12 : (x1, y2) ∈ w.display := ⟨h1.1, h1.2.1, h2.2.2⟩
  have h21 : (x2, y1) ∈ w.display := ⟨h2.1, h2.2.1, h1.2.2⟩
  rw [putEdges, putLineRaw_row h1 h21 hx.ne, Option.bind_eq_bind,
    Option.bind_some, putLineRaw_column h21 h2 hy.ne, Option.bind_some,
    putLineRaw_row h2 h12 hx.ne', Option.bind_some,
    putLineRaw_column h12 h1 hy.ne', draw_draw, draw_draw, draw_draw,
    min_eq_left hx.le, max_eq_right hx.le, min_eq_left hy.le,
    max_eq_right hy.le, min_eq_right hx.le, max_eq_left hx.le,
    min_eq_right hy.le, max_eq_left hy.le]
  congr 2
  ext p
  simp only [frame, Set.mem_union]
  tauto

/-- Edges have a result unless they have no width or no height, and they stay
on the display. -/
theorem putEdges_cases {w : Window} (hwidth : w.xpsize ≠ 0)
    (hheight : w.ypsize ≠ 0) (x1 y1 x2 y2 : ℤ) (fb : FrameBuffer) :
    ((x1 = x2 ∨ y1 = y2) ∧ putEdges w x1 y1 x2 y2 fb = none) ∨
      (¬(x1 = x2 ∨ y1 = y2) ∧ ∃ R ⊆ w.display,
        putEdges w x1 y1 x2 y2 fb =
          some (draw w.xpsize R (fun _ => w.pen) fb)) := by
  have hcases := fun x1 y1 x2 y2 fb =>
    putLineRaw_cases hwidth hheight x1 y1 x2 y2 fb
  rw [putEdges, Option.bind_eq_bind]
  rcases hcases x1 y1 x2 y1 fb with ⟨hx, _, hnone⟩ | ⟨hx, R1, hR1, hsome⟩
  · exact Or.inl ⟨Or.inl hx, by rw [hnone]; rfl⟩
  · rw [hsome, Option.bind_some]
    rcases hcases x2 y1 x2 y2 _ with ⟨_, hy, hnone⟩ | ⟨hy, R2, hR2, hsome⟩
    · exact Or.inl ⟨Or.inr hy, by rw [hnone]; rfl⟩
    · rw [hsome, Option.bind_some]
      rcases hcases x2 y2 x1 y2 _ with ⟨h, _, _⟩ | ⟨_, R3, hR3, hsome⟩
      · exact absurd ⟨h.symm, rfl⟩ hx
      · rw [hsome, Option.bind_some]
        rcases hcases x1 y2 x1 y1 _ with ⟨_, h, _⟩ | ⟨_, R4, hR4, hsome⟩
        · exact absurd ⟨rfl, h.symm⟩ hy
        · rw [hsome, draw_draw, draw_draw, draw_draw]
          refine Or.inr ⟨by tauto, _, ?_, rfl⟩
          simp only [Set.union_subset_iff]
          exact ⟨⟨⟨hR4, hR3⟩, hR2⟩, hR1⟩

/-- The corners of a box. -/
theorem putBox_eq (w : Window) (x1 y1 x2 y2 : ℤ) (fb : FrameBuffer) :
    let left := max (min x1 x2 + w.xpvmin) w.xpvmin
    let top := max (min y1 y2 + w.ypvmin) w.ypvmin
    let right := min (max x1 x2 + w.xpvmin) w.xpvmax
    let bottom := min (max y1 y2 + w.ypvmin) w.ypvmax
    putBox w x1 y1 x2 y2 fb =
      (putEdges w left top right bottom fb).map
        (forUp (fun x => forUp (fun y => w.put x y w.fill) (top + 1)
          (bottom - 1)) (left + 1) (right - 1)) := by
  have hmax : ∀ a b : ℤ, (if a < b then b else a) = max a b := by
    intro a b
    split <;> omega
  have hmin : ∀ a b : ℤ, (if a > b then b else a) = min a b := by
    intro a b
    split <;> omega
  intro left top right bottom
  simp only [putBox, swap_eq, hmax, hmin]
  rw [Option.map_eq_bind]
  rfl

/-- The two loops inside a box. -/
theorem boxInside_eq {w : Window} (hw : w.Valid) (x1 y1 x2 y2 : ℤ)
    (hlow : w.xpvmin ≤ x1) (hhigh : x2 ≤ w.xpvmax) (fb : FrameBuffer) :
    forUp (fun x => forUp (fun y => w.put x y w.fill) (y1 + 1) (y2 - 1))
        (x1 + 1) (x2 - 1) fb =
      draw w.xpsize (rect (x1 + 1) (y1 + 1) (x2 - 1) (y2 - 1)) (fun _ => w.fill)
        fb := by
  have hxmin := hw.xpvmin_nonneg
  have hxmax := hw.xpvmax_lt
  exact fillColumns_eq (by omega) (by omega) w.fill fb

/-- A box with a width and a height in the draw area. -/
theorem putBox_drawn {w : Window} (hw : w.Valid) {x1 y1 x2 y2 : ℤ}
    (fb : FrameBuffer) :
    let left := max (min x1 x2 + w.xpvmin) w.xpvmin
    let top := max (min y1 y2 + w.ypvmin) w.ypvmin
    let right := min (max x1 x2 + w.xpvmin) w.xpvmax
    let bottom := min (max y1 y2 + w.ypvmin) w.ypvmax
    left < right → top < bottom →
      putBox w x1 y1 x2 y2 fb =
        some (draw w.xpsize (rect (left + 1) (top + 1) (right - 1) (bottom - 1))
          (fun _ => w.fill)
          (draw w.xpsize (frame left top right bottom) (fun _ => w.pen) fb)) := by
  intro left top right bottom hx hy
  have hbox := putBox_eq w x1 y1 x2 y2 fb
  have hinside := boxInside_eq hw left top right bottom (le_max_right _ _)
    (min_le_right _ _)
  obtain ⟨hxmin, hxle, hxmax, hymin, hyle, hymax, _⟩ := hw
  rw [show putBox w x1 y1 x2 y2 fb = _ from hbox,
    putEdges_eq ⟨by omega, by omega, by omega, by omega⟩
      ⟨by omega, by omega, by omega, by omega⟩ hx hy, Option.map_some, hinside]

/-- A box, for all coordinates of sixteen bits.  Clipped to the draw area it has a left and a
right column and an upper and a lower row.  There is no result, because of a
division by zero, exactly when two of these are the same.  In their order they
are the edge of the box, drawn with the pen around the fill colour; in any case
nothing outside the display changes. -/
theorem putBox_picture {w : Window} (hw : w.Valid) {x1 y1 x2 y2 : ℤ}
    (_hshort : Short [x1, y1, x2, y2]) (fb : FrameBuffer) :
    let left := max (min x1 x2 + w.xpvmin) w.xpvmin
    let top := max (min y1 y2 + w.ypvmin) w.ypvmin
    let right := min (max x1 x2 + w.xpvmin) w.xpvmax
    let bottom := min (max y1 y2 + w.ypvmin) w.ypvmax
    (putBox w x1 y1 x2 y2 fb = none ↔ left = right ∨ top = bottom) ∧
    (left < right → top < bottom →
      putBox w x1 y1 x2 y2 fb =
        some (draw w.xpsize (rect (left + 1) (top + 1) (right - 1) (bottom - 1))
          (fun _ => w.fill)
          (draw w.xpsize (frame left top right bottom) (fun _ => w.pen) fb))) ∧
    ∀ fb', putBox w x1 y1 x2 y2 fb = some fb' →
      ∀ a, pixel w.xpsize a ∉ w.display → fb' a = fb a := by
  intro left top right bottom
  have hbox := putBox_eq w x1 y1 x2 y2 fb
  have hinside := boxInside_eq hw left top right bottom (le_max_right _ _)
    (min_le_right _ _)
  refine ⟨?_, putBox_drawn hw fb, ?_⟩
  all_goals
    obtain ⟨hxmin, hxle, hxmax, hymin, hyle, hymax, _⟩ := hw
    have hcases := putEdges_cases (w := w) (by omega) (by omega) left top right
      bottom fb
    rw [show putBox w x1 y1 x2 y2 fb = _ from hbox]
  · rcases hcases with ⟨hsame, hnone⟩ | ⟨hdiff, R, hR, hsome⟩
    · rw [hnone]
      exact iff_of_true rfl hsame
    · rw [hsome]
      exact iff_of_false (by simp) hdiff
  · intro fb' hsome a ha
    rcases hcases with ⟨_, hnone⟩ | ⟨_, R, hR, hedges⟩
    · rw [hnone] at hsome
      cases hsome
    · rw [hedges, Option.map_some, hinside, Option.some_inj] at hsome
      have hinner : pixel w.xpsize a ∉
          rect (left + 1) (top + 1) (right - 1) (bottom - 1) := by
        rintro ⟨hx1, hx2, hy1, hy2⟩
        exact ha ⟨by omega, by omega, by omega, by omega⟩
      rw [← hsome, draw_of_notMem hinner, draw_of_notMem fun h => ha (hR h)]

/-- Two columns before the right edge of the window there is room for a box, and at
the edge there is none. -/
theorem putBox_picture_atEdge :
    putBox plainWindow 315 5 400 9 (fun _ => 0) =
        some (draw 320 (rect 317 7 317 9) (fun _ => 0)
          (draw 320 (frame 316 6 318 10) (fun _ => 0xFFFF) fun _ => 0)) ∧
      putBox plainWindow 317 5 400 9 (fun _ => 0) = none := by
  exact ⟨(putBox_picture plainWindow_valid (by simp [Short]) _).2.1 (by decide) (by decide),
    (putBox_picture plainWindow_valid (by simp [Short]) _).1.mpr (Or.inl rfl)⟩

/-! ## Opening a window -/

/-- The rings of a border. -/
theorem border_eq {w : Window} {xmin ymin xmax ymax border : ℤ}
    (hborder : 0 ≤ border) (hx : 0 ≤ xmin) (hx' : xmax < w.xpsize)
    (hy : 0 ≤ ymin) (hy' : ymax < w.ypsize)
    (hxarea : xmin + border ≤ xmax - border)
    (hyarea : ymin + border ≤ ymax - border) (fb : FrameBuffer) :
    forUp (fun i fb => Option.bind fb
        (putEdges w (xmin + i) (ymin + i) (xmax - i) (ymax - i)))
        0 (border - 1) (some fb) =
      some (draw w.xpsize (rect xmin ymin xmax ymax \
        rect (xmin + border) (ymin + border) (xmax - border) (ymax - border))
        (fun _ => w.pen) fb) := by
  -- After the passes below `i` the rings outside the rectangle `i` are drawn.
  have hrun := forUp_invariant (a := 0) (b := border - 1)
    (fun i fb => Option.bind fb
      (putEdges w (xmin + i) (ymin + i) (xmax - i) (ymax - i)))
    (fun i fb' => fb' = some (draw w.xpsize (rect xmin ymin xmax ymax \
      rect (xmin + i) (ymin + i) (xmax - i) (ymax - i)) (fun _ => w.pen) fb))
    (by omega) (s := some fb) ?_ ?_
  · rwa [Int.sub_add_cancel] at hrun
  · rw [Int.add_zero, Int.add_zero, Int.sub_zero, Int.sub_zero, Set.sdiff_self,
      draw_empty]
  · rintro i _ hi hib rfl
    rw [Option.bind_some, putEdges_eq
      ⟨by omega, by omega, by omega, by omega⟩
      ⟨by omega, by omega, by omega, by omega⟩ (by omega) (by omega), draw_draw]
    congr 2
    ext ⟨x, y⟩
    simp only [frame, rect, Set.mem_union, Set.mem_sdiff, Set.mem_ofPred_eq]
    omega

/-- A window that is opened with an area inside its border shows the border in
the pen colour around the background, and nothing else changes. -/
theorem windowOpenP_eq (w : Window) (fontHelvr10 : Font)
    {xsize ysize xmin ymin xmax ymax border : ℤ} (pcolor bkcolor fcolor : Color)
    (clear : Bool) (fb : FrameBuffer) (hsize : xsize ≤ 1024 ∧ ysize ≤ 1024)
    (hborder : 0 ≤ border) (hx : 0 ≤ xmin) (hx' : xmax < xsize) (hy : 0 ≤ ymin) (hy' : ymax < ysize)
    (hxarea : xmin + border ≤ xmax - border)
    (hyarea : ymin + border ≤ ymax - border) :
    let w' := (w.sized xsize ysize xmin ymin xmax ymax border pcolor bkcolor
      fcolor).started fontHelvr10
    w'.Valid ∧
      windowOpenP w fontHelvr10 xsize ysize xmin ymin xmax ymax border pcolor
          bkcolor fcolor clear fb =
        some (true, w',
          draw xsize (if clear then w'.area else ∅) (fun _ => bkcolor)
            (draw xsize (rect xmin ymin xmax ymax \ w'.area) (fun _ => pcolor)
              fb)) := by
  intro w'
  have hvalid : w'.Valid :=
    ⟨by simp only [w', Window.started, Window.sized]; omega, hxarea,
      by simp only [w', Window.started, Window.sized]; omega,
      by simp only [w', Window.started, Window.sized]; omega, hyarea,
      by simp only [w', Window.started, Window.sized]; omega, hsize⟩
  refine ⟨hvalid, ?_⟩
  have hborder := border_eq (w := w.sized xsize ysize xmin ymin xmax ymax border
    pcolor bkcolor fcolor) hborder hx hx' hy hy' hxarea hyarea fb
  rw [windowOpenP, if_pos ⟨hx, hy, hx', hy'⟩]
  simp only [hborder, Option.map_some]
  cases clear with
  | false =>
      simp only [Bool.false_eq_true, if_false, draw_empty]
      rfl
  | true =>
      have hclear := clearScreen_eq hvalid bkcolor
        (draw xsize (rect xmin ymin xmax ymax \ w'.area) (fun _ => pcolor) fb)
      exact congrArg (fun fb => some (true, w', fb)) hclear

end EmbBoard.Swim
