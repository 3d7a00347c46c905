import EmbBoard.Touch.CalibApp

/-!
# The reported pressure

`touchXyz` divides by one of the panel's readings and clamps the quotient on
one side.  A reading of zero there is a division by zero; a reading without
contact gives the quotient -1, which the calibration loop takes for a touch.
-/

namespace EmbBoard.Touch

namespace Reading

/-- One of the two readings that carry the contact is zero. -/
def NoContact (r : Reading) : Prop := r.ix = 0 ∨ r.iz2 = 0

/-- The pressure is calculated without a division by zero or an overflow, and
what is reported is in range and zero without contact. -/
structure SoundPressure (r : Reading) : Prop where
  defined : r.pressure.val ≠ none
  nonneg : 0 ≤ r.z
  le : r.z ≤ 40000
  released : r.NoContact → r.z = 0

/-- The three words in the pressure expression are not below 8. -/
structure Contact (r : Reading) : Prop where
  x : 8 ≤ r.wordX.toNat
  z1 : 8 ≤ r.wordZ1.toNat
  z2 : 8 ≤ r.wordZ2.toNat

end Reading

/-! ## Readings -/

theorem toNat_shiftRight_three_pos_iff (w : BitVec 16) :
    0 < (w >>> 3).toNat ↔ 8 ≤ w.toNat := by
  rw [BitVec.toNat_ushiftRight, Nat.shiftRight_eq_div_pow]
  omega

/-- The four words as readings of 13 bits. -/
theorem Reading.readings_le (r : Reading) :
    (0 ≤ r.ix ∧ r.ix ≤ 8191) ∧ (0 ≤ r.iz1 ∧ r.iz1 ≤ 8191) ∧
      (0 ≤ r.iz2 ∧ r.iz2 ≤ 8191) := by
  have hx := toNat_shiftRight_three_le r.wordX
  have hz1 := toNat_shiftRight_three_le r.wordZ1
  have hz2 := toNat_shiftRight_three_le r.wordZ2
  unfold Reading.ix Reading.iz1 Reading.iz2
  omega

theorem Reading.contact_iff (r : Reading) :
    r.Contact ↔ 0 < r.ix ∧ 0 < r.iz1 ∧ 0 < r.iz2 := by
  unfold Reading.ix Reading.iz1 Reading.iz2
  simp only [Nat.cast_pos, toNat_shiftRight_three_pos_iff]
  exact ⟨fun h => ⟨h.x, h.z1, h.z2⟩, fun h => ⟨h.1, h.2.1, h.2.2⟩⟩

/-- Only a zero divisor keeps the pressure from being calculated. -/
theorem Reading.pressure_val (r : Reading) :
    r.pressure.val =
      if r.iz1 = 0 then none
      else some ((r.ix * r.iz2 - r.iz1).tdiv r.iz1) := by
  obtain ⟨⟨hx, hx'⟩, ⟨hz1, hz1'⟩, ⟨hz2, hz2'⟩⟩ := r.readings_le
  have hprod := (CInt.Evaluates.coe (abs_le.mpr ⟨by linarith, hx'⟩)).mul
    (w := 32) (.coe (abs_le.mpr ⟨by linarith, hz2'⟩)) (by norm_num)
  have hdivisor : CInt.Evaluates (r.iz1 : CInt 32) r.iz1 8191 :=
    .coe (abs_le.mpr ⟨by linarith, hz1'⟩)
  have hnum := hprod.sub hdivisor (by norm_num)
  by_cases hzero : r.iz1 = 0
  · rw [if_pos hzero]
    rw [hzero] at hnum
    simp [Reading.pressure, hzero, HDiv.hDiv, Div.div, CInt.arith]
  · rw [if_neg hzero]
    exact (hnum.div hdivisor hzero (by norm_num)).val_eq

/-! ## The quotient -/

section Quotient

variable {p d : ℤ}

theorem tdiv_sub_self_of_zero (hd : 0 < d) : (0 - d).tdiv d = -1 := by
  rw [zero_sub, Int.neg_tdiv, Int.tdiv_self hd.ne']

theorem tdiv_sub_self_nonneg (hp : 0 < p) (hd : 0 < d) :
    0 ≤ (p - d).tdiv d := by
  by_cases hle : d ≤ p
  · exact Int.tdiv_nonneg (by linarith) hd.le
  · have hneg : (p - d).tdiv d = -(d - p).tdiv d := by
      rw [← Int.neg_tdiv, neg_sub]
    rw [hneg, Int.tdiv_eq_zero_of_lt (by linarith) (by linarith), neg_zero]

end Quotient

/-! ## What is reported -/

theorem touchXyz_z {t : Driver} {r : Reading} {s : Sample}
    (hs : touchXyz t r = some s) : s.z = r.z := by
  unfold touchXyz at hs
  split at hs
  · obtain ⟨point, -, hpoint⟩ := Option.bind_eq_some_iff.mp hs
    rw [← Option.some_inj.mp hpoint]
  · rw [← Option.some_inj.mp hs]

theorem Reading.z_eq {r : Reading} (hz1 : r.iz1 ≠ 0) :
    r.z =
      if (r.ix * r.iz2 - r.iz1).tdiv r.iz1 > 40000 then 0
      else (r.ix * r.iz2 - r.iz1).tdiv r.iz1 := by
  rw [Reading.z, r.pressure_val, if_neg hz1]
  rfl

/-- Without contact the reported pressure is -1, which the calibration loop
does not take for a release. -/
theorem Reading.z_of_noContact {r : Reading} (hz1 : r.iz1 ≠ 0)
    (h : r.NoContact) : r.z = -1 := by
  have hprod : r.ix * r.iz2 = 0 := mul_eq_zero.mpr h
  have hpos : 0 < r.iz1 :=
    lt_of_le_of_ne r.readings_le.2.1.1 (Ne.symm hz1)
  rw [Reading.z_eq hz1, hprod, tdiv_sub_self_of_zero hpos]
  norm_num

theorem Reading.z_of_contact {r : Reading} (h : r.Contact) :
    0 ≤ r.z ∧ r.z ≤ 40000 := by
  obtain ⟨hx, hz1, hz2⟩ := r.contact_iff.mp h
  have hquot := tdiv_sub_self_nonneg (mul_pos hx hz2) hz1
  rw [Reading.z_eq hz1.ne']
  split
  · norm_num
  · constructor
    · exact hquot
    · linarith

/-- In every calibration state the pressure of `touchXyz` is sound exactly
when the three words it is calculated from are not below 8. -/
theorem soundPressure_iff (t : Driver) (r : Reading) :
    (∀ s, touchXyz t r = some s → s.z = r.z) ∧
      (r.SoundPressure ↔ r.Contact) := by
  refine ⟨fun s hs => touchXyz_z hs, ?_⟩
  constructor
  · intro h
    have hz1 : r.iz1 ≠ 0 := by
      intro hzero
      apply h.defined
      rw [r.pressure_val, if_pos hzero]
    have hcontact : ¬r.NoContact := by
      intro hno
      have hminus := Reading.z_of_noContact hz1 hno
      have hrelease := h.released hno
      omega
    obtain ⟨⟨hx, _⟩, ⟨hz1', _⟩, ⟨hz2, _⟩⟩ := r.readings_le
    obtain ⟨hxne, hz2ne⟩ := not_or.mp hcontact
    exact r.contact_iff.mpr
      ⟨lt_of_le_of_ne hx (Ne.symm hxne), lt_of_le_of_ne hz1' (Ne.symm hz1),
        lt_of_le_of_ne hz2 (Ne.symm hz2ne)⟩
  · intro h
    obtain ⟨hx, hz1, hz2⟩ := r.contact_iff.mp h
    obtain ⟨hnonneg, hle⟩ := Reading.z_of_contact h
    refine ⟨?_, hnonneg, hle, ?_⟩
    · rw [r.pressure_val, if_neg hz1.ne']
      exact Option.some_ne_none _
    · intro hno
      exact absurd hno (not_or.mpr ⟨hx.ne', hz2.ne'⟩)

/-- A panel that nobody touches: no position, a small first and a large second
reading across the layers.  The pressure is -1.  With the first of the two at
zero it is a division by zero. -/
theorem untouched_panel_reports_minus_one :
    let r : Reading := ⟨0, 0, 8, 64000, 0, ⟨0, 0⟩⟩
    (touchXyz Driver.powerOn r).map Sample.z = some (-1) ∧
      r.NoContact ∧ ¬r.SoundPressure ∧
      (⟨800, 800, 0, 64000, 0, ⟨0, 0⟩⟩ : Reading).pressure.val = none := by
  intro r
  have hz : r.z = -1 := by decide
  refine ⟨by decide, Or.inl (by decide), ?_, by decide⟩
  intro h
  have hnonneg := h.nonneg
  rw [hz] at hnonneg
  exact absurd hnonneg (by decide)

end EmbBoard.Touch
