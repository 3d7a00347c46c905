import Mathlib

/-!
# Affine maps through three points of a plane

Three points of a plane that are not on one line, and a value for each,
determine one affine map.  Cramer's rule gives it over any field: three
determinants over a common one.  Over a commutative ring the determinants
still satisfy the interpolation identity, which is the form that integer code
computes with.  The last section is division of integers that truncates
toward zero, as an operation on rationals.
-/

namespace EmbBoard.AffineFit

/-- The three points are numbered by the numerals of `Fin 3`. -/
scoped instance neZeroThree : NeZero 3 := ⟨by decide⟩

/-! ## Cramer's determinants -/

section Ring

variable {R : Type*} [CommRing R]

/-- The common determinant: twice the signed area of the triangle `p`. -/
def cross (p : Fin 3 → R × R) : R :=
  ((p 0).1 - (p 2).1) * ((p 1).2 - (p 2).2) -
    ((p 1).1 - (p 2).1) * ((p 0).2 - (p 2).2)

/-- The determinant of the first coordinate. -/
def coeffFst (p : Fin 3 → R × R) (d : Fin 3 → R) : R :=
  (d 0 - d 2) * ((p 1).2 - (p 2).2) - (d 1 - d 2) * ((p 0).2 - (p 2).2)

/-- The determinant of the second coordinate. -/
def coeffSnd (p : Fin 3 → R × R) (d : Fin 3 → R) : R :=
  ((p 0).1 - (p 2).1) * (d 1 - d 2) - (d 0 - d 2) * ((p 1).1 - (p 2).1)

/-- The determinant of the constant term. -/
def coeffConst (p : Fin 3 → R × R) (d : Fin 3 → R) : R :=
  ((p 2).1 * d 1 - (p 1).1 * d 2) * (p 0).2 +
    ((p 0).1 * d 2 - (p 2).1 * d 0) * (p 1).2 +
    ((p 1).1 * d 0 - (p 0).1 * d 1) * (p 2).2

/-- The fitted value at `q`, still multiplied by the common determinant. -/
def numerator (p : Fin 3 → R × R) (d : Fin 3 → R) (q : R × R) : R :=
  coeffFst p d * q.1 + coeffSnd p d * q.2 + coeffConst p d

/-- The fit takes the prescribed value at each of the three points. -/
theorem numerator_sample (p : Fin 3 → R × R) (d : Fin 3 → R) (i : Fin 3) :
    numerator p d (p i) = d i * cross p := by
  unfold numerator coeffFst coeffSnd coeffConst cross
  fin_cases i
  · simp only [Fin.zero_eta]
    ring
  · simp only [Fin.mk_one]
    ring
  · simp only [Fin.reduceFinMk]
    ring

/-- Values that are affine in the coordinates are fitted exactly
everywhere. -/
theorem numerator_affine (p : Fin 3 → R × R) (a b c : R) (q : R × R) :
    numerator p (fun i => a * (p i).1 + b * (p i).2 + c) q =
      (a * q.1 + b * q.2 + c) * cross p := by
  unfold numerator coeffFst coeffSnd coeffConst cross
  ring

end Ring

/-! ## The fitted affine map -/

section Field

variable {K : Type*} [Field K]

/-- Two vectors of the plane with determinant zero are multiples of one. -/
theorem exists_common_direction {u w : K × K}
    (hdet : u.1 * w.2 - w.1 * u.2 = 0) :
    ∃ (v : K × K) (r s : K), u = r • v ∧ w = s • v := by
  by_cases hfst : u.1 = 0
  · by_cases hsnd : u.2 = 0
    · refine ⟨w, 0, 1, ?_, (one_smul K w).symm⟩
      rw [zero_smul]
      exact Prod.ext hfst hsnd
    · refine ⟨u, 1, w.2 / u.2, (one_smul K u).symm, ?_⟩
      have hw : w.1 = 0 := by
        have hprod : w.1 * u.2 = 0 := by linear_combination w.2 * hfst - hdet
        exact (mul_eq_zero.mp hprod).resolve_right hsnd
      ext
      · simp [hw, hfst]
      · simp [hsnd]
  · refine ⟨u, 1, w.1 / u.1, (one_smul K u).symm, ?_⟩
    ext
    · simp [hfst]
    · rw [Prod.smul_snd, smul_eq_mul, div_mul_eq_mul_div, eq_div_iff hfst]
      linear_combination hdet

/-- Three points are on one line exactly when their determinant vanishes. -/
theorem collinear_iff_cross_eq_zero (p : Fin 3 → K × K) :
    Collinear K (Set.range p) ↔ cross p = 0 := by
  have hbase : p 2 ∈ Set.range p := Set.mem_range_self 2
  rw [collinear_iff_of_mem hbase]
  constructor
  · rintro ⟨v, hv⟩
    obtain ⟨r, hr⟩ := hv (p 0) (Set.mem_range_self 0)
    obtain ⟨s, hs⟩ := hv (p 1) (Set.mem_range_self 1)
    unfold cross
    rw [hr, hs]
    simp only [vadd_eq_add, Prod.fst_add, Prod.snd_add, Prod.smul_fst,
      Prod.smul_snd, smul_eq_mul]
    ring
  · intro hcross
    obtain ⟨v, r, s, hr, hs⟩ :=
      exists_common_direction (u := p 0 - p 2) (w := p 1 - p 2) hcross
    refine ⟨v, ?_⟩
    rintro q ⟨i, rfl⟩
    fin_cases i
    · exact ⟨r, sub_eq_iff_eq_add.mp hr⟩
    · exact ⟨s, sub_eq_iff_eq_add.mp hs⟩
    · exact ⟨0, by simp⟩

/-- An affine function of the plane in coordinates. -/
theorem affine_eq_coordinates (f : K × K →ᵃ[K] K) (q : K × K) :
    f q = f.linear (1, 0) * q.1 + f.linear (0, 1) * q.2 + f 0 := by
  have hsplit : q = q.1 • ((1, 0) : K × K) + q.2 • ((0, 1) : K × K) := by
    ext
    · simp
    · simp
  have hq : f q = f.linear q + f 0 := by
    have hmap := f.map_vadd 0 q
    simpa using hmap
  rw [hq]
  conv_lhs => rw [hsplit]
  rw [map_add, map_smul, map_smul, smul_eq_mul, smul_eq_mul]
  ring

/-- The affine function with the coefficients of Cramer's rule. -/
noncomputable def fit (p : Fin 3 → K × K) (d : Fin 3 → K) : K × K →ᵃ[K] K :=
  ((coeffFst p d / cross p) • LinearMap.fst K K K +
      (coeffSnd p d / cross p) • LinearMap.snd K K K).toAffineMap +
    AffineMap.const K (K × K) (coeffConst p d / cross p)

theorem fit_apply (p : Fin 3 → K × K) (d : Fin 3 → K) (q : K × K) :
    fit p d q = numerator p d q / cross p := by
  simp only [fit, numerator, AffineMap.coe_add, Pi.add_apply,
    LinearMap.coe_toAffineMap, LinearMap.add_apply, LinearMap.smul_apply,
    LinearMap.fst_apply, LinearMap.snd_apply, smul_eq_mul,
    AffineMap.const_apply]
  ring

theorem fit_sample {p : Fin 3 → K × K} (hp : cross p ≠ 0) (d : Fin 3 → K)
    (i : Fin 3) : fit p d (p i) = d i := by
  rw [fit_apply, numerator_sample, mul_div_cancel_right₀ _ hp]

/-- No other affine function takes the same values at the three points. -/
theorem eq_fit {p : Fin 3 → K × K} (hp : cross p ≠ 0) {d : Fin 3 → K}
    {f : K × K →ᵃ[K] K} (hf : ∀ i, f (p i) = d i) : f = fit p d := by
  ext q
  have hd : d = fun i =>
      f.linear (1, 0) * (p i).1 + f.linear (0, 1) * (p i).2 + f 0 := by
    funext i
    rw [← hf i, affine_eq_coordinates f (p i)]
  rw [fit_apply, hd, numerator_affine, mul_div_cancel_right₀ _ hp]
  exact affine_eq_coordinates f q

/-- The affine map of the plane to itself through three pairs of points. -/
noncomputable def fitPlane (p d : Fin 3 → K × K) : K × K →ᵃ[K] K × K :=
  (fit p fun i => (d i).1).prod (fit p fun i => (d i).2)

theorem fitPlane_apply (p d : Fin 3 → K × K) (q : K × K) :
    fitPlane p d q =
      (fit p (fun i => (d i).1) q, fit p (fun i => (d i).2) q) := rfl

/-- Three points that are not on one line have exactly one affine map that
sends them to three given points. -/
theorem fitPlane_unique {p : Fin 3 → K × K}
    (hp : ¬ Collinear K (Set.range p)) (d : Fin 3 → K × K)
    (f : K × K →ᵃ[K] K × K) :
    (∀ i, f (p i) = d i) ↔ f = fitPlane p d := by
  have hcross : cross p ≠ 0 := by
    rwa [Ne, ← collinear_iff_cross_eq_zero]
  constructor
  · intro hf
    have hfst : AffineMap.fst.comp f = fit p fun i => (d i).1 := by
      apply eq_fit hcross
      intro i
      simp [hf i]
    have hsnd : AffineMap.snd.comp f = fit p fun i => (d i).2 := by
      apply eq_fit hcross
      intro i
      simp [hf i]
    ext q
    · simp [fitPlane_apply, ← hfst]
    · simp [fitPlane_apply, ← hsnd]
  · rintro rfl i
    rw [fitPlane_apply, fit_sample hcross, fit_sample hcross]

end Field

/-! ## Truncating division -/

/-- A rational number rounded toward zero. -/
def truncate (q : ℚ) : ℤ :=
  if 0 ≤ q then ⌊q⌋ else ⌈q⌉

theorem truncate_div_natCast (a : ℤ) (n : ℕ) :
    truncate ((a : ℚ) / n) = a.tdiv n := by
  have hn : (0 : ℚ) ≤ n := Nat.cast_nonneg n
  unfold truncate
  by_cases ha : 0 ≤ a
  · have hquot : 0 ≤ (a : ℚ) / n := div_nonneg (Int.cast_nonneg ha) hn
    rw [if_pos hquot, Rat.floor_intCast_div_natCast,
      Int.tdiv_eq_ediv_of_nonneg ha]
  · by_cases hzero : n = 0
    · simp [hzero]
    · have hneg : (a : ℚ) / n < 0 := by
        apply div_neg_of_neg_of_pos
        · exact_mod_cast not_le.mp ha
        · exact_mod_cast Nat.pos_of_ne_zero hzero
      rw [if_neg (not_le.mpr hneg), Rat.ceil_intCast_div_natCast,
        ← Int.tdiv_eq_ediv_of_nonneg (by omega), Int.neg_tdiv, neg_neg]

/-- Truncating integer division is rational division rounded toward zero. -/
theorem truncate_div (a b : ℤ) : truncate ((a : ℚ) / b) = a.tdiv b := by
  obtain ⟨n, rfl | rfl⟩ := b.eq_nat_or_neg
  · exact_mod_cast truncate_div_natCast a n
  · have hflip : (a : ℚ) / ((-(n : ℤ) : ℤ) : ℚ) = ((-a : ℤ) : ℚ) / n := by
      push_cast
      rw [div_neg, neg_div]
    rw [hflip, truncate_div_natCast, Int.neg_tdiv, Int.tdiv_neg]

theorem truncate_intCast (a : ℤ) : truncate a = a := by
  simp [truncate]

/-! ## Fits of integer points -/

/-- An integer point of the rational plane. -/
def toRat (q : ℤ × ℤ) : ℚ × ℚ := (q.1, q.2)

theorem cross_toRat (p : Fin 3 → ℤ × ℤ) :
    cross (fun i => toRat (p i)) = (cross p : ℤ) := by
  simp [cross, toRat]

theorem numerator_toRat (p : Fin 3 → ℤ × ℤ) (d : Fin 3 → ℤ) (q : ℤ × ℤ) :
    numerator (fun i => toRat (p i)) (fun i => (d i : ℚ)) (toRat q) =
      (numerator p d q : ℤ) := by
  simp [numerator, coeffFst, coeffSnd, coeffConst, toRat]

/-- The fitted value rounded toward zero, computed with integers only. -/
theorem truncate_fit (p : Fin 3 → ℤ × ℤ) (d : Fin 3 → ℤ) (q : ℤ × ℤ) :
    truncate (fit (fun i => toRat (p i)) (fun i => (d i : ℚ)) (toRat q)) =
      (numerator p d q).tdiv (cross p) := by
  rw [fit_apply, numerator_toRat, cross_toRat, truncate_div]

/-- Integer points are on one line exactly when their integer determinant
vanishes. -/
theorem collinear_toRat_iff (p : Fin 3 → ℤ × ℤ) :
    Collinear ℚ (Set.range fun i => toRat (p i)) ↔ cross p = 0 := by
  rw [collinear_iff_cross_eq_zero, cross_toRat, Int.cast_eq_zero]

end EmbBoard.AffineFit
