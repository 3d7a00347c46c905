import EmbBoard.Touch.Driver

/-!
# A calibration that fails

Three samples on one line give a zero divider.  It has been written into the
stored matrix when the calculation notices, and `touchCalibrate` sets the flag
without a look at the status, so that every later reading asks for a display
point that is not calculated.
-/

namespace EmbBoard.Touch

open AffineFit

/-- The reading uses the display point although `getDisplayPoint` has not
written it. -/
def ReadsUnwritten (t : Driver) (r : Reading) : Prop :=
  t.calibrated = true ∧
    ∃ displayPoint,
      getDisplayPoint r.stack r.raw t.storedMatrix = some (notOk, displayPoint)

/-- A call has left the driver as it was. -/
structure LeftAsWas (t t' : Driver) : Prop where
  calibrated : t'.calibrated = t.calibrated
  storedMatrix : t'.storedMatrix = t.storedMatrix
  coordinates : ∀ r, touchXyz t' r = touchXyz t r
  written : ∀ r, ¬ReadsUnwritten t' r

theorem getDisplayPoint_of_divider_zero {matrix : Matrix}
    (h : matrix.divider = 0) (display screen : Point) :
    getDisplayPoint display screen matrix = some (notOk, display) := by
  rw [getDisplayPoint, if_neg (not_not_intro h)]

/-- With the flag set over a zero divider every reading returns what the
local variable held before. -/
theorem touchXyz_of_divider_zero {t : Driver} (hflag : t.calibrated = true)
    (hzero : t.storedMatrix.divider = 0) (r : Reading) :
    ReadsUnwritten t r ∧
      touchXyz t r = some ⟨toS32 r.stack.x, toS32 r.stack.y, r.z⟩ := by
  have hpoint :=
    getDisplayPoint_of_divider_zero hzero r.stack r.raw
  refine ⟨⟨hflag, r.stack, hpoint⟩, ?_⟩
  simp [touchXyz, hflag, hpoint]

section Collinear

variable {ref scr : Fin 3 → TouchPoint}

theorem touchCalibrate_of_collinear
    (hcol : Collinear ℚ (Set.range fun i => (scr i).point.plane))
    (t : Driver) :
    touchCalibrate (ref 0) (ref 1) (ref 2) (scr 0) (scr 1) (scr 2) t =
      some ⟨{ t.storedMatrix with divider := 0 }, true⟩ := by
  have hcross : cross (fun i => (scr i).point.pair) = 0 :=
    (collinear_toRat_iff fun i => (scr i).point.pair).mp hcol
  rw [touchCalibrate_eq, if_pos hcross]

theorem divider_zero_eq_iff (matrix : Matrix) :
    { matrix with divider := 0 } = matrix ↔ matrix.divider = 0 := by
  constructor
  · intro h
    rw [← h]
  · intro h
    rw [← h]

/-- A failed calibration never leaves the driver as it was.  Every later
reading uses a display point that was not written, and flag and matrix are
unchanged only where the driver was in that state before. -/
theorem touchCalibrate_never_leftAsWas (ref scr : Fin 3 → TouchPoint)
    (hcol : Collinear ℚ (Set.range fun i => (scr i).point.plane))
    (t : Driver) :
    ∃ t', touchCalibrate (ref 0) (ref 1) (ref 2) (scr 0) (scr 1) (scr 2) t =
        some t' ∧
      ¬LeftAsWas t t' ∧
      (∀ r, ReadsUnwritten t' r ∧
        touchXyz t' r = some ⟨toS32 r.stack.x, toS32 r.stack.y, r.z⟩) ∧
      ((t'.calibrated = t.calibrated ∧ t'.storedMatrix = t.storedMatrix) ↔
        t.calibrated = true ∧ t.storedMatrix.divider = 0) := by
  have hlater := touchXyz_of_divider_zero
    (t := ⟨{ t.storedMatrix with divider := 0 }, true⟩) rfl rfl
  refine ⟨_, touchCalibrate_of_collinear hcol t, ?_, hlater, ?_⟩
  · intro h
    have r : Reading := ⟨0, 0, 0, 0, 0, ⟨0, 0⟩⟩
    exact h.written r (hlater r).1
  · rw [divider_zero_eq_iff]
    exact and_congr_left' eq_comm

end Collinear

/-- The panel is touched three times at one place before any calibration: the
flag is set, and the next reading returns what its local variable held. -/
theorem touchCalibrate_one_place :
    ∃ t', touchCalibrate ⟨15, 282⟩ ⟨120, 62⟩ ⟨220, 262⟩
        ⟨4000, 1500⟩ ⟨4000, 1500⟩ ⟨4000, 1500⟩ Driver.powerOn = some t' ∧
      Driver.powerOn.calibrated = false ∧ t'.calibrated = true ∧
      touchXyz t' ⟨32000, 12000, 8, 8, 0, ⟨7, 9⟩⟩ ≠
        touchXyz Driver.powerOn ⟨32000, 12000, 8, 8, 0, ⟨7, 9⟩⟩ ∧
      ¬LeftAsWas Driver.powerOn t' := by
  have hflag : Driver.powerOn.calibrated = false := rfl
  refine ⟨⟨⟨0, 0, 0, 0, 0, 0, 0⟩, true⟩, by decide +kernel, hflag, rfl,
    by decide +kernel, ?_⟩
  intro h
  have hsame := h.calibrated
  rw [hflag] at hsame
  cases hsame

/-- The same with three places on one line. -/
theorem touchCalibrate_never_leftAsWas_diagonal :
    ∃ t', touchCalibrate ⟨15, 282⟩ ⟨120, 62⟩ ⟨220, 262⟩
        ⟨100, 100⟩ ⟨200, 200⟩ ⟨300, 300⟩ Driver.powerOn = some t' ∧
      ¬LeftAsWas Driver.powerOn t' := by
  have hcol : Collinear ℚ (Set.range fun i =>
      ((![⟨100, 100⟩, ⟨200, 200⟩, ⟨300, 300⟩] : Fin 3 → TouchPoint)
        i).point.plane) := (collinear_toRat_iff _).mpr (by decide)
  obtain ⟨t', hcal, hleft, -⟩ := touchCalibrate_never_leftAsWas
    ![⟨15, 282⟩, ⟨120, 62⟩, ⟨220, 262⟩]
    ![⟨100, 100⟩, ⟨200, 200⟩, ⟨300, 300⟩] hcol Driver.powerOn
  exact ⟨t', hcal, hleft⟩

end EmbBoard.Touch
