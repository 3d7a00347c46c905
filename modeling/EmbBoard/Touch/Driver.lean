import EmbBoard.Touch.Calibrate

/-!
# The touch driver

The state of the touch driver is the stored matrix and the `calibrated` flag.
`touchCalibrate` replaces both; `touchXyz` turns four words of the panel into
a sample, through the matrix once the flag is set.  A sample is exact: the
calibration points come back as their reference points, and any other touch
as the value of the affine map of the calibration, truncated toward zero.
-/

namespace EmbBoard.Touch

open AffineFit

/-! ## State and functions -/

/-- A point in two unsigned 16-bit words. -/
structure TouchPoint where
  x : BitVec 16
  y : BitVec 16
deriving DecidableEq, Repr

/-- The coordinates widened to 64 bits. -/
def TouchPoint.point (p : TouchPoint) : Point := ⟨p.x.toNat, p.y.toNat⟩

/-- The static variables of the driver. -/
structure Driver where
  storedMatrix : Matrix
  calibrated : Bool
deriving DecidableEq, Repr

/-- Static storage before the first call. -/
def Driver.powerOn : Driver := ⟨⟨0, 0, 0, 0, 0, 0, 0⟩, false⟩

/-- Stores the calibration data.  The status of the calculation is not looked
at. -/
def touchCalibrate (ref1 ref2 ref3 scr1 scr2 scr3 : TouchPoint)
    (t : Driver) : Option Driver := do
  let disp := ![ref1.point, ref2.point, ref3.point]
  let scr := ![scr1.point, scr2.point, scr3.point]
  let (_, storedMatrix) ← setCalibrationMatrix disp scr t.storedMatrix
  return { storedMatrix := storedMatrix, calibrated := true }

/-- What one call of `touchXyz` meets: the four words of the panel, and what
the language leaves open, the quotient by zero and the initial contents of
the local variable for the display point. -/
structure Reading where
  wordX : BitVec 16
  wordY : BitVec 16
  wordZ1 : BitVec 16
  wordZ2 : BitVec 16
  quotByZero : BitVec 32
  stack : Point
deriving DecidableEq, Repr

namespace Reading

def ix (r : Reading) : ℤ := (r.wordX >>> 3).toNat

def iy (r : Reading) : ℤ := (r.wordY >>> 3).toNat

def iz1 (r : Reading) : ℤ := (r.wordZ1 >>> 3).toNat

def iz2 (r : Reading) : ℤ := (r.wordZ2 >>> 3).toNat

/-- The raw position. -/
def raw (r : Reading) : Point := ⟨r.ix, r.iy⟩

/-- The pressure expression over 32-bit integers. -/
def pressure (r : Reading) : CInt 32 := (r.ix * r.iz2 - r.iz1) / r.iz1

/-- The reported pressure. -/
def z (r : Reading) : ℤ :=
  let z := r.pressure.val.getD r.quotByZero.toInt
  if z > 40000 then 0 else z

end Reading

/-- The output arguments of `touchXyz`. -/
structure Sample where
  x : ℤ
  y : ℤ
  z : ℤ
deriving DecidableEq, Repr

/-- Assignment of a 64-bit value to a signed 32-bit variable. -/
def toS32 (v : ℤ) : ℤ := v.bmod (2 ^ 32)

/-- Reads the position and the pressure from the panel. -/
def touchXyz (t : Driver) (r : Reading) : Option Sample :=
  if t.calibrated then do
    let (_, displayPoint) ← getDisplayPoint r.stack r.raw t.storedMatrix
    return ⟨toS32 displayPoint.x, toS32 displayPoint.y, r.z⟩
  else
    some ⟨r.ix, r.iy, r.z⟩

/-! ## Ranges -/

theorem TouchPoint.point_fits16 (p : TouchPoint) : p.point.Fits16 where
  x_le := by
    have hlt := p.x.isLt
    rw [TouchPoint.point, Nat.abs_cast]
    omega
  y_le := by
    have hlt := p.y.isLt
    rw [TouchPoint.point, Nat.abs_cast]
    omega

theorem toNat_shiftRight_three_le (w : BitVec 16) :
    (w >>> 3).toNat ≤ 8191 := by
  have hlt := w.isLt
  rw [BitVec.toNat_ushiftRight, Nat.shiftRight_eq_div_pow]
  omega

theorem Reading.raw_fits13 (r : Reading) : r.raw.Fits13 where
  x_le := by
    have hle := toNat_shiftRight_three_le r.wordX
    rw [Reading.raw, Reading.ix, Nat.abs_cast]
    exact_mod_cast hle
  y_le := by
    have hle := toNat_shiftRight_three_le r.wordY
    rw [Reading.raw, Reading.iy, Nat.abs_cast]
    exact_mod_cast hle

theorem toS32_of_inWidth {v : ℤ} (hv : InWidth 32 v) : toS32 v = v := by
  obtain ⟨hlow, hhigh⟩ := hv
  exact Int.bmod_eq_of_le_mul_two (by norm_num at *; omega)
    (by norm_num at *; omega)

theorem toS32_natCast_of_lt {n : ℕ} (hn : n < 65536) :
    toS32 (n : ℤ) = n := by
  apply toS32_of_inWidth
  constructor
  · norm_num
  · norm_num
    omega

/-! ## One calibration -/

theorem vec_three {α : Type*} (f : Fin 3 → α) : ![f 0, f 1, f 2] = f := by
  funext i
  fin_cases i
  · rfl
  · rfl
  · rfl

section Calibrate

variable (ref scr : Fin 3 → TouchPoint) (t : Driver)

/-- A calibration never overflows, whatever the three samples are. -/
theorem touchCalibrate_eq :
    touchCalibrate (ref 0) (ref 1) (ref 2) (scr 0) (scr 1) (scr 2) t =
      some ⟨if cross (fun i => (scr i).point.pair) = 0 then
          { t.storedMatrix with divider := 0 }
        else exactMatrix (fun i => (ref i).point) fun i => (scr i).point,
        true⟩ := by
  have hdisp := vec_three fun i => (ref i).point
  have hscr := vec_three fun i => (scr i).point
  have hset := setCalibrationMatrix_eq
    (fun i => (ref i).point_fits16) (fun i => (scr i).point_fits16)
    t.storedMatrix
  unfold touchCalibrate
  simp only [hdisp, hscr, hset]
  by_cases hzero : cross (fun i => (scr i).point.pair) = 0
  · simp [hzero]
  · simp [hzero]

/-- The driver after a calibration from three samples that are not on one
line. -/
def exactDriver : Driver where
  storedMatrix := exactMatrix (fun i => (ref i).point) fun i => (scr i).point
  calibrated := true

variable {ref scr}

theorem touchCalibrate_exactDriver
    (hcol : ¬ Collinear ℚ (Set.range fun i => (scr i).point.plane)) :
    touchCalibrate (ref 0) (ref 1) (ref 2) (scr 0) (scr 1) (scr 2) t =
      some (exactDriver ref scr) := by
  have hcross : cross (fun i => (scr i).point.pair) ≠ 0 := by
    intro hzero
    exact hcol ((collinear_toRat_iff fun i => (scr i).point.pair).mpr hzero)
  rw [touchCalibrate_eq, if_neg hcross]
  rfl

/-- A sample of the calibrated driver is the value of the affine map,
truncated toward zero and reduced to 32 bits. -/
theorem touchXyz_exactDriver
    (hcol : ¬ Collinear ℚ (Set.range fun i => (scr i).point.plane))
    (r : Reading) :
    touchXyz (exactDriver ref scr) r =
      some ⟨toS32 (truncate (displayMap (fun i => (ref i).point)
            (fun i => (scr i).point) r.raw.plane).1),
        toS32 (truncate (displayMap (fun i => (ref i).point)
            (fun i => (scr i).point) r.raw.plane).2), r.z⟩ := by
  have hpoint := getDisplayPoint_exactMatrix
    (fun i => (ref i).point_fits16) (fun i => (scr i).point_fits16) hcol
    r.stack r.raw_fits13
  simp [touchXyz, exactDriver, hpoint, Point.trunc]

/-- A touch at a calibration point is reported at its reference point. -/
theorem touchXyz_exactDriver_sample
    (hcol : ¬ Collinear ℚ (Set.range fun i => (scr i).point.plane))
    {i : Fin 3} {r : Reading} (hr : r.raw = (scr i).point) :
    touchXyz (exactDriver ref scr) r =
      some ⟨(ref i).point.x, (ref i).point.y, r.z⟩ := by
  have hvalue : Point.trunc (displayMap (fun i => (ref i).point)
      (fun i => (scr i).point) r.raw.plane) = (ref i).point := by
    rw [hr, displayMap_sample hcol i, Point.trunc_plane]
  have hx : truncate (displayMap (fun i => (ref i).point)
      (fun i => (scr i).point) r.raw.plane).1 = ((ref i).x.toNat : ℤ) :=
    congrArg Point.x hvalue
  have hy : truncate (displayMap (fun i => (ref i).point)
      (fun i => (scr i).point) r.raw.plane).2 = ((ref i).y.toNat : ℤ) :=
    congrArg Point.y hvalue
  rw [touchXyz_exactDriver hcol, hx, hy,
    toS32_natCast_of_lt (ref i).x.isLt, toS32_natCast_of_lt (ref i).y.isLt]
  rfl

end Calibrate

/-- Calibration is exact.  From three samples that are not on one line and
any three reference points, nothing overflows, the divider is not zero, the
samples are reported at their reference points, and any other touch at the
value of the one affine map through the three pairs, truncated toward
zero. -/
theorem touchCalibrate_exact (t : Driver) (ref scr : Fin 3 → TouchPoint)
    (hcol : ¬ Collinear ℚ (Set.range fun i => (scr i).point.plane)) :
    ∃ t', touchCalibrate (ref 0) (ref 1) (ref 2) (scr 0) (scr 1) (scr 2) t =
        some t' ∧
      t'.storedMatrix.divider ≠ 0 ∧
      (∀ r, touchXyz t' r ≠ none) ∧
      (∀ i r, r.raw = (scr i).point →
        touchXyz t' r = some ⟨(ref i).point.x, (ref i).point.y, r.z⟩) ∧
      ∃ f : ℚ × ℚ →ᵃ[ℚ] ℚ × ℚ,
        (∀ g : ℚ × ℚ →ᵃ[ℚ] ℚ × ℚ,
          (∀ i, g (scr i).point.plane = (ref i).point.plane) ↔ g = f) ∧
        ∀ r s, touchXyz t' r = some s →
          (InWidth 32 (truncate (f r.raw.plane).1) →
            s.x = truncate (f r.raw.plane).1) ∧
          (InWidth 32 (truncate (f r.raw.plane).2) →
            s.y = truncate (f r.raw.plane).2) := by
  refine ⟨exactDriver ref scr, touchCalibrate_exactDriver t hcol,
    exactMatrix_divider_ne_zero hcol, ?_, ?_, ?_⟩
  · intro r
    rw [touchXyz_exactDriver hcol]
    exact Option.some_ne_none _
  · intro i r hr
    exact touchXyz_exactDriver_sample hcol hr
  · refine ⟨displayMap (fun i => (ref i).point) fun i => (scr i).point,
      fun g => fitPlane_unique hcol _ g, ?_⟩
    intro r s hs
    rw [touchXyz_exactDriver hcol, Option.some.injEq] at hs
    subst hs
    exact ⟨fun hx => toS32_of_inWidth hx, fun hy => toS32_of_inWidth hy⟩

/-- Three touches of a panel, with the reference points of the calibration
screen. -/
theorem touchCalibrate_exact_three_touches :
    ∃ t', touchCalibrate ⟨15, 282⟩ ⟨120, 62⟩ ⟨220, 262⟩
        ⟨800, 7000⟩ ⟨4000, 1500⟩ ⟨7200, 6500⟩ Driver.powerOn = some t' ∧
      ∀ r : Reading, r.raw = ⟨4000, 1500⟩ →
        touchXyz t' r = some ⟨120, 62, r.z⟩ := by
  have hcol : ¬ Collinear ℚ (Set.range fun i =>
      ((![⟨800, 7000⟩, ⟨4000, 1500⟩, ⟨7200, 6500⟩] : Fin 3 → TouchPoint)
        i).point.plane) := by
    intro hline
    exact absurd ((collinear_toRat_iff _).mp hline) (by decide)
  obtain ⟨t', hcal, -, -, hsample, -⟩ := touchCalibrate_exact Driver.powerOn
    ![⟨15, 282⟩, ⟨120, 62⟩, ⟨220, 262⟩]
    ![⟨800, 7000⟩, ⟨4000, 1500⟩, ⟨7200, 6500⟩] hcol
  refine ⟨t', hcal, ?_⟩
  intro r hr
  exact hsample 1 r hr

end EmbBoard.Touch
