import EmbBoard.Touch.Driver

/-!
# The cursor word

`lcd_test` puts both coordinates of a touch into one word, x below and y above.
It does not mask x: what x has above its low half is merged into y.
-/

namespace EmbBoard.Touch

open AffineFit

/-- The argument `lcd_test` makes of a sample for `LCD_CRSR_XY`. -/
def cursorWord (s : Sample) : BitVec 32 :=
  (BitVec.ofInt 32 s.y <<< 16) ||| BitVec.ofInt 32 s.x

/-- `lcd_test`, as the word it passes on. -/
def lcdTest (t : Driver) (r : Reading) : Option (BitVec 32) := do
  let s ← touchXyz t r
  return cursorWord s

/-- The word has x in its low half and y in its high half, each reduced to 16
bits. -/
def KeepsApart (s : Sample) (word : BitVec 32) : Prop :=
  word.extractLsb' 0 16 = BitVec.ofInt 16 s.x ∧
    word.extractLsb' 16 16 = BitVec.ofInt 16 s.y

/-- Every bit of the upper half of the first number is one of the lower half
of the second. -/
def UpperWithin (x y : ℤ) : Prop :=
  ∀ i < 16, (BitVec.ofInt 32 x).getLsbD (16 + i) = true →
    (BitVec.ofInt 32 y).getLsbD i = true

/-! ## The word -/

theorem ofInt_toS32 (v : ℤ) : BitVec.ofInt 32 (toS32 v) = BitVec.ofInt 32 v := by
  apply BitVec.eq_of_toInt_eq
  rw [BitVec.toInt_ofInt, BitVec.toInt_ofInt, toS32, Int.bmod_bmod]

theorem upperWithin_toS32 (x y : ℤ) :
    UpperWithin (toS32 x) (toS32 y) ↔ UpperWithin x y := by
  simp only [UpperWithin, ofInt_toS32]

theorem ofInt_16_eq (v : ℤ) :
    BitVec.ofInt 16 v = (BitVec.ofInt 32 v).setWidth 16 := by
  apply BitVec.eq_of_toNat_eq
  rw [BitVec.toNat_setWidth, BitVec.toNat_ofInt, BitVec.toNat_ofInt]
  omega

/-- x always arrives; y arrives when x has nothing above its low half that y
does not have itself. -/
theorem keepsApart_cursorWord_iff (s : Sample) :
    KeepsApart s (cursorWord s) ↔ UpperWithin s.x s.y := by
  have hlow : (cursorWord s).extractLsb' 0 16 = BitVec.ofInt 16 s.x := by
    rw [ofInt_16_eq]
    apply BitVec.eq_of_getLsbD_eq
    intro i hi
    simp [cursorWord, hi]
  have hhigh : ∀ i < 16, ((cursorWord s).extractLsb' 16 16).getLsbD i =
      ((BitVec.ofInt 32 s.y).getLsbD i ||
        (BitVec.ofInt 32 s.x).getLsbD (16 + i)) := by
    intro i hi
    have hy : i < 32 := by omega
    have hx : 16 + i < 32 := by omega
    simp [cursorWord, hi, hy, hx]
  rw [KeepsApart, and_iff_right hlow, ofInt_16_eq]
  constructor
  · intro h i hi hx
    have hbit := hhigh i hi
    rw [h, BitVec.getLsbD_setWidth, hx] at hbit
    simpa [hi] using hbit
  · intro h
    apply BitVec.eq_of_getLsbD_eq
    intro i hi
    have hwithin := h i hi
    rw [hhigh i hi, BitVec.getLsbD_setWidth]
    cases hx : (BitVec.ofInt 32 s.x).getLsbD (16 + i) with
    | false => simp [hi]
    | true => simp [hi, hwithin hx]

/-- A number of 16 bits has no upper half. -/
theorem upperWithin_of_fits {x : ℤ} (hx : 0 ≤ x) (hx' : x < 65536) (y : ℤ) :
    UpperWithin x y := by
  intro i hi hbit
  have hlt : (BitVec.ofInt 32 x).toNat < 2 ^ (16 + i) := by
    have hpow : 2 ^ 16 ≤ 2 ^ (16 + i) :=
      Nat.pow_le_pow_right (by decide) (Nat.le_add_right 16 i)
    rw [BitVec.toNat_ofInt]
    omega
  rw [BitVec.getLsbD, Nat.testBit_lt_two_pow hlt] at hbit
  cases hbit

/-! ## Calibrated driver -/

theorem lcdTest_eq {t : Driver} {r : Reading} {s : Sample}
    (hs : touchXyz t r = some s) : lcdTest t r = some (cursorWord s) := by
  rw [lcdTest, hs]
  rfl

/-- After a calibration from three samples that are not on one line, `lcd_test`
keeps the coordinates of a touch apart exactly when the upper half of x is
within y, for the point where the affine map of the calibration takes the
touch. -/
theorem lcdTest_keepsApart_iff (t : Driver) (ref scr : Fin 3 → TouchPoint)
    (hcol : ¬ Collinear ℚ (Set.range fun i => (scr i).point.plane))
    (r : Reading) :
    ∃ t' s word,
      touchCalibrate (ref 0) (ref 1) (ref 2) (scr 0) (scr 1) (scr 2) t =
          some t' ∧
        touchXyz t' r = some s ∧ lcdTest t' r = some word ∧
        (KeepsApart s word ↔
          let p := Point.trunc (displayMap (fun i => (ref i).point)
            (fun i => (scr i).point) r.raw.plane)
          UpperWithin p.x p.y) := by
  have hsample : touchXyz (exactDriver ref scr) r = some _ :=
    touchXyz_exactDriver hcol r
  refine ⟨_, _, _, touchCalibrate_exactDriver t hcol, hsample,
    lcdTest_eq hsample, ?_⟩
  rw [keepsApart_cursorWord_iff]
  exact upperWithin_toS32 _ _

/-- A panel calibrated by three touches; a touch left of the display, where x
is negative, is shown at its lower edge. -/
theorem left_touch_moves_y :
    ∃ t', touchCalibrate ⟨15, 282⟩ ⟨120, 62⟩ ⟨220, 262⟩
        ⟨800, 7000⟩ ⟨4000, 1500⟩ ⟨7200, 6500⟩ Driver.powerOn = some t' ∧
      touchXyz t' ⟨800, 24000, 8000, 8000, 0, ⟨0, 0⟩⟩ =
          some ⟨-5, 122, 99⟩ ∧
        lcdTest t' ⟨800, 24000, 8000, 8000, 0, ⟨0, 0⟩⟩ = some 0xFFFFFFFB ∧
        ¬KeepsApart ⟨-5, 122, 99⟩ 0xFFFFFFFB := by
  refine ⟨⟨exactMatrix
    ![⟨15, 282⟩, ⟨120, 62⟩, ⟨220, 262⟩]
    ![⟨800, 7000⟩, ⟨4000, 1500⟩, ⟨7200, 6500⟩], true⟩, ?_, ?_, ?_, ?_⟩
  · decide +kernel
  · decide +kernel
  · decide +kernel
  · rintro ⟨_, hhigh⟩
    exact absurd hhigh (by decide)

/-- On the same panel the second calibration touch is shown at its reference
point. -/
theorem lcdTest_keepsApart_iff_three_touches :
    ∃ t' s word,
      touchCalibrate ⟨15, 282⟩ ⟨120, 62⟩ ⟨220, 262⟩
          ⟨800, 7000⟩ ⟨4000, 1500⟩ ⟨7200, 6500⟩ Driver.powerOn = some t' ∧
        touchXyz t' ⟨32000, 12000, 8000, 8000, 0, ⟨0, 0⟩⟩ = some s ∧
        lcdTest t' ⟨32000, 12000, 8000, 8000, 0, ⟨0, 0⟩⟩ = some word ∧
        KeepsApart s word := by
  have hcol : ¬ Collinear ℚ (Set.range fun i =>
      ((![⟨800, 7000⟩, ⟨4000, 1500⟩, ⟨7200, 6500⟩] : Fin 3 → TouchPoint)
        i).point.plane) := by
    intro hline
    exact absurd ((collinear_toRat_iff _).mp hline) (by decide)
  obtain ⟨t', s, word, hcal, hsample, hword, happart⟩ :=
    lcdTest_keepsApart_iff Driver.powerOn
      ![⟨15, 282⟩, ⟨120, 62⟩, ⟨220, 262⟩]
      ![⟨800, 7000⟩, ⟨4000, 1500⟩, ⟨7200, 6500⟩] hcol
      ⟨32000, 12000, 8000, 8000, 0, ⟨0, 0⟩⟩
  refine ⟨t', s, word, hcal, hsample, hword, happart.mpr ?_⟩
  have hshown : displayMap (fun i =>
      ((![⟨15, 282⟩, ⟨120, 62⟩, ⟨220, 262⟩] : Fin 3 → TouchPoint) i).point)
      _ _ = _ := displayMap_sample hcol 1
  have hraw : Reading.raw ⟨32000, 12000, 8000, 8000, 0, ⟨0, 0⟩⟩ =
      ((![⟨800, 7000⟩, ⟨4000, 1500⟩, ⟨7200, 6500⟩] : Fin 3 → TouchPoint)
        1).point := by decide
  rw [hraw, hshown, Point.trunc_plane]
  exact upperWithin_of_fits (by decide) (by decide) _

end EmbBoard.Touch
