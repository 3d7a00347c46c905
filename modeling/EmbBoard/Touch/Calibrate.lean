import EmbBoard.Support.AffineFit
import EmbBoard.Support.Checked
import Mathlib.Tactic.NormNum

/-!
# The calibration matrix

`setCalibrationMatrix` and `getDisplayPoint` of the calibration module, over
checked 64-bit arithmetic: a call is `none` when one of its operations
overflows.  Samples and reference points of 16 bits keep every operation in
range; the matrix is then Cramer's rule for the affine map from the touch
screen to the display, and the display point its value truncated toward zero.
-/

namespace EmbBoard.Touch

open AffineFit

/-! ## The two functions -/

/-- The status of a calibration that was calculated. -/
def ok : ℤ := 0

/-- The status of a call that found the divider zero. -/
def notOk : ℤ := -1

/-- A point of the touch screen or of the display. -/
structure Point where
  x : ℤ
  y : ℤ
deriving DecidableEq, Repr

/-- The calibration factors, all over one divider. -/
structure Matrix where
  an : ℤ
  bn : ℤ
  cn : ℤ
  dn : ℤ
  en : ℤ
  fn : ℤ
  divider : ℤ
deriving DecidableEq, Repr

/-- Calculates the calibration factors from three reference points of the
display and the three touch screen points that correspond to them.  When the
divider is zero it has been written already and the other factors are left. -/
def setCalibrationMatrix (display screen : Fin 3 → Point) (matrix : Matrix) :
    Option (ℤ × Matrix) := do
  let divider ←
    (((screen 0).x - (screen 2).x) * ((screen 1).y - (screen 2).y) -
      ((screen 1).x - (screen 2).x) * ((screen 0).y - (screen 2).y) :
        CInt 64).val
  if divider = 0 then
    return (notOk, { matrix with divider := divider })
  else
    let an ←
      (((display 0).x - (display 2).x) * ((screen 1).y - (screen 2).y) -
        ((display 1).x - (display 2).x) * ((screen 0).y - (screen 2).y) :
          CInt 64).val
    let bn ←
      (((screen 0).x - (screen 2).x) * ((display 1).x - (display 2).x) -
        ((display 0).x - (display 2).x) * ((screen 1).x - (screen 2).x) :
          CInt 64).val
    let cn ←
      (((screen 2).x * (display 1).x - (screen 1).x * (display 2).x) *
          (screen 0).y +
        ((screen 0).x * (display 2).x - (screen 2).x * (display 0).x) *
          (screen 1).y +
        ((screen 1).x * (display 0).x - (screen 0).x * (display 1).x) *
          (screen 2).y : CInt 64).val
    let dn ←
      (((display 0).y - (display 2).y) * ((screen 1).y - (screen 2).y) -
        ((display 1).y - (display 2).y) * ((screen 0).y - (screen 2).y) :
          CInt 64).val
    let en ←
      (((screen 0).x - (screen 2).x) * ((display 1).y - (display 2).y) -
        ((display 0).y - (display 2).y) * ((screen 1).x - (screen 2).x) :
          CInt 64).val
    let fn ←
      (((screen 2).x * (display 1).y - (screen 1).x * (display 2).y) *
          (screen 0).y +
        ((screen 0).x * (display 2).y - (screen 2).x * (display 0).y) *
          (screen 1).y +
        ((screen 1).x * (display 0).y - (screen 0).x * (display 1).y) *
          (screen 2).y : CInt 64).val
    return (ok, ⟨an, bn, cn, dn, en, fn, divider⟩)

/-- Calculates the display point below a point of the touch screen.  A zero
divider leaves the output argument `display` as it was. -/
def getDisplayPoint (display screen : Point) (matrix : Matrix) :
    Option (ℤ × Point) :=
  if matrix.divider ≠ 0 then do
    let x ←
      ((matrix.an * screen.x + matrix.bn * screen.y + matrix.cn) /
        matrix.divider : CInt 64).val
    let y ←
      ((matrix.dn * screen.x + matrix.en * screen.y + matrix.fn) /
        matrix.divider : CInt 64).val
    return (ok, ⟨x, y⟩)
  else
    some (notOk, display)

example :
    (do
      let (_, matrix) ← setCalibrationMatrix
        ![⟨15, 282⟩, ⟨120, 62⟩, ⟨220, 262⟩]
        ![⟨800, 7000⟩, ⟨4000, 1500⟩, ⟨7200, 6500⟩] ⟨0, 0, 0, 0, 0, 0, 0⟩
      getDisplayPoint ⟨0, 0⟩ ⟨4000, 1500⟩ matrix) =
      some (ok, ⟨120, 62⟩) := by decide +kernel

/-! ## No operation overflows -/

namespace Point

/-- Both coordinates fit an unsigned 16-bit word. -/
structure Fits16 (p : Point) : Prop where
  x_le : |p.x| ≤ 65535
  y_le : |p.y| ≤ 65535

/-- The point as a pair of coordinates. -/
def pair (p : Point) : ℤ × ℤ := (p.x, p.y)

end Point

/-- The bound of the divider and of the linear factors. -/
def linearBound : ℤ := 2 * (131070 * 131070)

/-- The bound of the constant factors. -/
def constBound : ℤ := 3 * (2 * (65535 * 65535) * 65535)

/-- The shape of the divider and of the linear factors. -/
theorem evaluates_linear {a b c d e f g h : ℤ}
    (ha : |a| ≤ 65535) (hb : |b| ≤ 65535) (hc : |c| ≤ 65535)
    (hd : |d| ≤ 65535) (he : |e| ≤ 65535) (hf : |f| ≤ 65535)
    (hg : |g| ≤ 65535) (hh : |h| ≤ 65535) :
    CInt.Evaluates ((a - b) * (c - d) - (e - f) * (g - h) : CInt 64)
      ((a - b) * (c - d) - (e - f) * (g - h)) linearBound := by
  have hdiff {u v : ℤ} (hu : |u| ≤ 65535) (hv : |v| ≤ 65535) :
      CInt.Evaluates (u - v : CInt 64) (u - v) 131070 :=
    (CInt.Evaluates.coe hu).sub (.coe hv) (by norm_num)
  have hfirst := (hdiff ha hb).mul (hdiff hc hd) (by norm_num)
  have hsecond := (hdiff he hf).mul (hdiff hg hh) (by norm_num)
  exact hfirst.sub hsecond (by norm_num)

/-- The shape of one of the three terms of a constant factor. -/
theorem evaluates_constTerm {a b c d e : ℤ}
    (ha : |a| ≤ 65535) (hb : |b| ≤ 65535) (hc : |c| ≤ 65535)
    (hd : |d| ≤ 65535) (he : |e| ≤ 65535) :
    CInt.Evaluates ((a * b - c * d) * e : CInt 64) ((a * b - c * d) * e)
      (2 * (65535 * 65535) * 65535) := by
  have hprod {u v : ℤ} (hu : |u| ≤ 65535) (hv : |v| ≤ 65535) :
      CInt.Evaluates (u * v : CInt 64) (u * v) (65535 * 65535) :=
    (CInt.Evaluates.coe hu).mul (.coe hv) (by norm_num)
  have hdiff := (hprod ha hb).sub (hprod hc hd) (by norm_num)
  exact hdiff.mul (.coe he) (by norm_num)

/-- Cramer's rule for the affine map from the touch screen to the display. -/
def exactMatrix (display screen : Fin 3 → Point) : Matrix where
  an := coeffFst (fun i => (screen i).pair) fun i => (display i).x
  bn := coeffSnd (fun i => (screen i).pair) fun i => (display i).x
  cn := coeffConst (fun i => (screen i).pair) fun i => (display i).x
  dn := coeffFst (fun i => (screen i).pair) fun i => (display i).y
  en := coeffSnd (fun i => (screen i).pair) fun i => (display i).y
  fn := coeffConst (fun i => (screen i).pair) fun i => (display i).y
  divider := cross fun i => (screen i).pair

section Cramer

variable {display screen : Fin 3 → Point} {d : Fin 3 → ℤ}

theorem evaluates_cross (hscreen : ∀ i, (screen i).Fits16) :
    CInt.Evaluates
      (((screen 0).x - (screen 2).x) * ((screen 1).y - (screen 2).y) -
        ((screen 1).x - (screen 2).x) * ((screen 0).y - (screen 2).y) :
          CInt 64)
      (cross fun i => (screen i).pair) linearBound :=
  evaluates_linear (hscreen 0).x_le (hscreen 2).x_le (hscreen 1).y_le
    (hscreen 2).y_le (hscreen 1).x_le (hscreen 2).x_le (hscreen 0).y_le
    (hscreen 2).y_le

theorem evaluates_coeffFst (hscreen : ∀ i, (screen i).Fits16)
    (hd : ∀ i, |d i| ≤ 65535) :
    CInt.Evaluates
      ((d 0 - d 2) * ((screen 1).y - (screen 2).y) -
        (d 1 - d 2) * ((screen 0).y - (screen 2).y) : CInt 64)
      (coeffFst (fun i => (screen i).pair) d) linearBound :=
  evaluates_linear (hd 0) (hd 2) (hscreen 1).y_le (hscreen 2).y_le (hd 1)
    (hd 2) (hscreen 0).y_le (hscreen 2).y_le

theorem evaluates_coeffSnd (hscreen : ∀ i, (screen i).Fits16)
    (hd : ∀ i, |d i| ≤ 65535) :
    CInt.Evaluates
      (((screen 0).x - (screen 2).x) * (d 1 - d 2) -
        (d 0 - d 2) * ((screen 1).x - (screen 2).x) : CInt 64)
      (coeffSnd (fun i => (screen i).pair) d) linearBound :=
  evaluates_linear (hscreen 0).x_le (hscreen 2).x_le (hd 1) (hd 2) (hd 0)
    (hd 2) (hscreen 1).x_le (hscreen 2).x_le

theorem evaluates_coeffConst (hscreen : ∀ i, (screen i).Fits16)
    (hd : ∀ i, |d i| ≤ 65535) :
    CInt.Evaluates
      (((screen 2).x * d 1 - (screen 1).x * d 2) * (screen 0).y +
        ((screen 0).x * d 2 - (screen 2).x * d 0) * (screen 1).y +
        ((screen 1).x * d 0 - (screen 0).x * d 1) * (screen 2).y : CInt 64)
      (coeffConst (fun i => (screen i).pair) d) constBound := by
  have hfirst := evaluates_constTerm (hscreen 2).x_le (hd 1)
    (hscreen 1).x_le (hd 2) (hscreen 0).y_le
  have hsecond := evaluates_constTerm (hscreen 0).x_le (hd 2)
    (hscreen 2).x_le (hd 0) (hscreen 1).y_le
  have hthird := evaluates_constTerm (hscreen 1).x_le (hd 0)
    (hscreen 0).x_le (hd 1) (hscreen 2).y_le
  have hsum :=
    (hfirst.add hsecond (by norm_num)).add hthird (by norm_num)
  exact ⟨hsum.val_eq, hsum.abs_le.trans (by norm_num [constBound])⟩

/-- On 16-bit points the calculation never overflows. -/
theorem setCalibrationMatrix_eq (hdisplay : ∀ i, (display i).Fits16)
    (hscreen : ∀ i, (screen i).Fits16) (matrix : Matrix) :
    setCalibrationMatrix display screen matrix =
      some (if cross (fun i => (screen i).pair) = 0 then
        (notOk, { matrix with divider := 0 })
      else (ok, exactMatrix display screen)) := by
  have hx i := (hdisplay i).x_le
  have hy i := (hdisplay i).y_le
  have hdivider := (evaluates_cross hscreen).val_eq
  have han := (evaluates_coeffFst hscreen hx).val_eq
  have hbn := (evaluates_coeffSnd hscreen hx).val_eq
  have hcn := (evaluates_coeffConst hscreen hx).val_eq
  have hdn := (evaluates_coeffFst hscreen hy).val_eq
  have hen := (evaluates_coeffSnd hscreen hy).val_eq
  have hfn := (evaluates_coeffConst hscreen hy).val_eq
  unfold setCalibrationMatrix
  rw [hdivider]
  by_cases hzero : cross (fun i => (screen i).pair) = 0
  · simp [hzero]
  · simp [hzero, han, hbn, hcn, hdn, hen, hfn, exactMatrix]

/-- A matrix on which a touch screen point of 13 bits never overflows. -/
structure Matrix.Bounded (m : Matrix) : Prop where
  an_le : |m.an| ≤ linearBound
  bn_le : |m.bn| ≤ linearBound
  cn_le : |m.cn| ≤ constBound
  dn_le : |m.dn| ≤ linearBound
  en_le : |m.en| ≤ linearBound
  fn_le : |m.fn| ≤ constBound
  divider_le : |m.divider| ≤ linearBound

theorem exactMatrix_bounded (hdisplay : ∀ i, (display i).Fits16)
    (hscreen : ∀ i, (screen i).Fits16) :
    (exactMatrix display screen).Bounded where
  an_le := (evaluates_coeffFst hscreen fun i => (hdisplay i).x_le).abs_le
  bn_le := (evaluates_coeffSnd hscreen fun i => (hdisplay i).x_le).abs_le
  cn_le := (evaluates_coeffConst hscreen fun i => (hdisplay i).x_le).abs_le
  dn_le := (evaluates_coeffFst hscreen fun i => (hdisplay i).y_le).abs_le
  en_le := (evaluates_coeffSnd hscreen fun i => (hdisplay i).y_le).abs_le
  fn_le := (evaluates_coeffConst hscreen fun i => (hdisplay i).y_le).abs_le
  divider_le := (evaluates_cross hscreen).abs_le

end Cramer

/-- A touch screen point as the driver samples it, in 13 bits. -/
structure Point.Fits13 (p : Point) : Prop where
  x_le : |p.x| ≤ 8191
  y_le : |p.y| ≤ 8191

/-- The shape of a display coordinate. -/
theorem evaluates_coordinate {a b c e : ℤ} {p : Point} (hp : p.Fits13)
    (ha : |a| ≤ linearBound) (hb : |b| ≤ linearBound) (hc : |c| ≤ constBound)
    (he : |e| ≤ linearBound) (hne : e ≠ 0) :
    CInt.Evaluates ((a * p.x + b * p.y + c) / e : CInt 64)
      ((a * p.x + b * p.y + c).tdiv e)
      (linearBound * 8191 + linearBound * 8191 + constBound) := by
  have hax := (CInt.Evaluates.coe ha).mul (w := 64) (.coe hp.x_le)
    (by norm_num [linearBound])
  have hby := (CInt.Evaluates.coe hb).mul (w := 64) (.coe hp.y_le)
    (by norm_num [linearBound])
  have hsum := (hax.add hby (by norm_num [linearBound])).add (.coe hc)
    (by norm_num [linearBound, constBound])
  exact hsum.div (.coe he) hne (by norm_num [linearBound, constBound])

/-- On a bounded matrix no operation of `getDisplayPoint` overflows. -/
theorem getDisplayPoint_eq {m : Matrix} (hm : m.Bounded)
    (hne : m.divider ≠ 0) (display : Point) {p : Point} (hp : p.Fits13) :
    getDisplayPoint display p m =
      some (ok,
        ⟨(m.an * p.x + m.bn * p.y + m.cn).tdiv m.divider,
          (m.dn * p.x + m.en * p.y + m.fn).tdiv m.divider⟩) := by
  have hx := (evaluates_coordinate hp hm.an_le hm.bn_le hm.cn_le
    hm.divider_le hne).val_eq
  have hy := (evaluates_coordinate hp hm.dn_le hm.en_le hm.fn_le
    hm.divider_le hne).val_eq
  simp [getDisplayPoint, hne, hx, hy]

/-! ## The matrix is the affine map -/

/-- The point in the rational plane. -/
def Point.plane (p : Point) : ℚ × ℚ := toRat p.pair

/-- The affine map from the touch screen to the display. -/
noncomputable def displayMap (display screen : Fin 3 → Point) :
    ℚ × ℚ →ᵃ[ℚ] ℚ × ℚ :=
  fitPlane (fun i => (screen i).plane) fun i => (display i).plane

/-- The integer point nearest to a rational one on the side of the origin. -/
def Point.trunc (q : ℚ × ℚ) : Point := ⟨truncate q.1, truncate q.2⟩

theorem Point.trunc_plane (p : Point) : Point.trunc p.plane = p := by
  simp [Point.trunc, Point.plane, Point.pair, toRat, truncate_intCast]

section Exact

variable {display screen : Fin 3 → Point}

theorem exactMatrix_divider_ne_zero
    (hcol : ¬ Collinear ℚ (Set.range fun i => (screen i).plane)) :
    (exactMatrix display screen).divider ≠ 0 := by
  intro hzero
  exact hcol ((collinear_toRat_iff fun i => (screen i).pair).mpr hzero)

theorem displayMap_sample
    (hcol : ¬ Collinear ℚ (Set.range fun i => (screen i).plane)) (i : Fin 3) :
    displayMap display screen (screen i).plane = (display i).plane :=
  (fitPlane_unique hcol _ _).mpr rfl i

/-- The display point is the value of the affine map, truncated toward
zero. -/
theorem getDisplayPoint_exactMatrix (hdisplay : ∀ i, (display i).Fits16)
    (hscreen : ∀ i, (screen i).Fits16)
    (hcol : ¬ Collinear ℚ (Set.range fun i => (screen i).plane))
    (stack : Point) {p : Point} (hp : p.Fits13) :
    getDisplayPoint stack p (exactMatrix display screen) =
      some (ok, Point.trunc (displayMap display screen p.plane)) := by
  have hx := truncate_fit (fun i => (screen i).pair)
    (fun i => (display i).x) p.pair
  have hy := truncate_fit (fun i => (screen i).pair)
    (fun i => (display i).y) p.pair
  rw [getDisplayPoint_eq (exactMatrix_bounded hdisplay hscreen)
    (exactMatrix_divider_ne_zero hcol) stack hp]
  have hpoint : Point.trunc (displayMap display screen p.plane) =
      ⟨(numerator (fun i => (screen i).pair) (fun i => (display i).x)
          p.pair).tdiv (cross fun i => (screen i).pair),
        (numerator (fun i => (screen i).pair) (fun i => (display i).y)
          p.pair).tdiv (cross fun i => (screen i).pair)⟩ := by
    rw [← hx, ← hy]
    rfl
  rw [hpoint]
  rfl

end Exact

end EmbBoard.Touch
