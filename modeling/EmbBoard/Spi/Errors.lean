import EmbBoard.Support.Runs
import Mathlib.Data.BitVec
import Mathlib.Logic.Function.Basic

/-!
# The SPI port

`SpiXfer` moves one word over the port and has `SPIError` look at the status
register.  `SPIError` compares the masked status with 1.  None of its masks has
that bit, so that no error is ever counted or reported.
-/

namespace EmbBoard.Spi

open EmbBoard.Runs

/-! ## The driver -/

/-- `BIT3` to `BIT7`. -/
def bit3 : BitVec 32 := 0x00000008

def bit4 : BitVec 32 := 0x00000010

def bit5 : BitVec 32 := 0x00000020

def bit6 : BitVec 32 := 0x00000040

def bit7 : BitVec 32 := 0x00000080

/-- `wSPIErrors`, an array of `short`. -/
abbrev SpiErrors := Fin 4 → BitVec 16

/-- `SPISLAVEABORT` and the other three are elements of the array. -/
def spiSlaveAbort : Fin 4 := 0

def spiModeFault : Fin 4 := 1

def spiReadOverrun : Fin 4 := 2

def spiWriteCol : Fin 4 := 3

/-- One test of `SPIError`, on its local flag and the counters. -/
def testError (mask : BitVec 32) (counter : Fin 4) (s0spsr : BitVec 32)
    (e : Bool × SpiErrors) : Bool × SpiErrors :=
  if s0spsr &&& mask = 1 then
    (true, Function.update e.2 counter (e.2 counter + 1))
  else e

/-- `SPIError`; every one of its reads sees the same status. -/
def spiError (s0spsr : BitVec 32) (errors : SpiErrors) : Bool × SpiErrors :=
  let e := (false, errors)
  let e := testError bit3 spiSlaveAbort s0spsr e
  let e := testError bit4 spiModeFault s0spsr e
  let e := testError bit5 spiReadOverrun s0spsr e
  testError bit6 spiWriteCol s0spsr e

/-- What one call of `SpiXfer` meets: its argument, the status its wait loop
reads, the status at the end of the transfer, and the data register then. -/
structure Transfer where
  nData : BitVec 16
  polls : ℕ → BitVec 32
  s0spsr : BitVec 32
  s0spdr : BitVec 32

/-- The wait loop of `SpiXfer` from `i` on, as the number of status reads it
takes; `left` bounds the reads that are left. -/
def waitSent (polls : ℕ → BitVec 32) : ℕ → ℕ → ℕ
  | 0, i => i
  | left + 1, i =>
      if polls i &&& bit7 = 0 then
        if i > 500 then i + 1 else waitSent polls left (i + 1)
      else i + 1

/-- What a call of `SpiXfer` leaves: the word written to the data register,
the status reads of the wait, the result of `SPIError`, the counters and the
returned word. -/
structure Xfer where
  written : BitVec 32
  reads : ℕ
  anyError : Bool
  errors : SpiErrors
  returned : BitVec 16

/-- `SpiXfer`. -/
def spiXfer (t : Transfer) (errors : SpiErrors) : Xfer :=
  let (anyError, errors) := spiError t.s0spsr errors
  { written := t.nData.setWidth 32
    reads := waitSent t.polls 502 0
    anyError := anyError
    errors := errors
    returned := t.s0spdr.setWidth 16 }

/-! ## Transfers -/

theorem waitSent_spec (polls : ℕ → BitVec 32) {left i : ℕ}
    (hleft : left + i = 502) (hi : i ≤ 501)
    (hclear : ∀ m < i, polls m &&& bit7 = 0) :
    ∃ n, waitSent polls left i = n + 1 ∧ n ≤ 501 ∧
      (∀ m < n, polls m &&& bit7 = 0) ∧
      (polls n &&& bit7 = 0 → n = 501) := by
  induction left generalizing i with
  | zero => omega
  | succ left ih =>
      by_cases hset : polls i &&& bit7 = 0
      · by_cases hlast : i > 500
        · refine ⟨i, ?_, hi, hclear, fun _ => by omega⟩
          rw [waitSent, if_pos hset, if_pos hlast]
        · rw [waitSent, if_pos hset, if_neg hlast]
          apply ih
          · omega
          · omega
          · intro m hm
            rcases Nat.lt_succ_iff_lt_or_eq.mp hm with hlt | rfl
            · exact hclear m hlt
            · exact hset
      · refine ⟨i, ?_, hi, hclear, fun h => absurd h hset⟩
        rw [waitSent, if_neg hset]

/-- The wait ends at the first status with the bit set, or after 502 reads. -/
theorem spiXfer_reads (t : Transfer) (errors : SpiErrors) :
    ∃ n, (spiXfer t errors).reads = n + 1 ∧ n ≤ 501 ∧
      (∀ m < n, t.polls m &&& bit7 = 0) ∧
      (t.polls n &&& bit7 = 0 → n = 501) :=
  waitSent_spec t.polls rfl (Nat.zero_le _) fun _ hm => absurd hm (Nat.not_lt_zero _)

/-- The bit of the status register an error counter stands for. -/
def errorBit (counter : Fin 4) : ℕ := 3 + counter

/-- The transfer ended with this error. -/
def Transfer.HasError (t : Transfer) (counter : Fin 4) : Prop :=
  t.s0spsr.getLsbD (errorBit counter) = true

instance (t : Transfer) (counter : Fin 4) : Decidable (t.HasError counter) :=
  inferInstanceAs (Decidable (_ = _))

/-- The port after some transfers: the counters, and what `SPIError` returned
in each. -/
structure SpiLog where
  errors : SpiErrors
  results : List Bool

def spiStep (s : SpiLog) (t : Transfer) : SpiLog :=
  let x := spiXfer t s.errors
  { errors := x.errors, results := s.results ++ [x.anyError] }

/-- Every error counter has grown by the transfers that ended with its error,
and every result tells whether its transfer ended with one. -/
structure ErrorsCounted (errors : SpiErrors) (ts : List Transfer)
    (s : SpiLog) : Prop where
  counters : ∀ counter, s.errors counter =
    errors counter + BitVec.ofNat 16 (ts.countP fun t => t.HasError counter)
  results : s.results = ts.map fun t => decide (∃ counter, t.HasError counter)

/-! ## No error is seen -/

/-- A mask without the lowest bit never gives 1. -/
theorem testError_of_even {mask : BitVec 32} (hmask : mask.getLsbD 0 = false)
    (counter : Fin 4) (s0spsr : BitVec 32) (e : Bool × SpiErrors) :
    testError mask counter s0spsr e = e := by
  apply if_neg
  intro hone
  have hbit : (s0spsr &&& mask).getLsbD 0 = (1 : BitVec 32).getLsbD 0 := by
    rw [hone]
  rw [BitVec.getLsbD_and, hmask, Bool.and_false] at hbit
  exact absurd hbit (by decide)

theorem spiError_eq (s0spsr : BitVec 32) (errors : SpiErrors) :
    spiError s0spsr errors = (false, errors) := by
  simp only [spiError]
  rw [testError_of_even (by decide), testError_of_even (by decide),
    testError_of_even (by decide), testError_of_even (by decide)]

theorem run_spiStep (s : SpiLog) (ts : List Transfer) :
    run spiStep s ts =
      { errors := s.errors
        results := s.results ++ ts.map fun _ => false } := by
  induction ts generalizing s with
  | nil => simp
  | cons t ts ih =>
      rw [run_cons, ih]
      simp [spiStep, spiXfer, spiError_eq]

/-- Errors are counted and told exactly in the sequences of transfers without
any. -/
theorem errorsCounted_iff (errors : SpiErrors) (ts : List Transfer) :
    ErrorsCounted errors ts (run spiStep ⟨errors, []⟩ ts) ↔
      ∀ t ∈ ts, ∀ counter, ¬t.HasError counter := by
  rw [run_spiStep]
  constructor
  · intro h t ht counter herror
    have hresults := List.map_inj_left.mp h.results t ht
    exact absurd ⟨counter, herror⟩ (of_decide_eq_false hresults.symm)
  · intro hnone
    constructor
    · intro counter
      have hzero : (ts.countP fun t => t.HasError counter) = 0 := by
        apply List.countP_eq_zero.mpr
        intro t ht
        simpa using hnone t ht counter
      simp [hzero]
    · simp only [List.nil_append]
      apply List.map_congr_left
      intro t ht
      simpa using hnone t ht

/-- One transfer ends with a slave abort: the counter stays at zero. -/
theorem slaveAbort_not_counted :
    let t : Transfer :=
      { nData := 0x9F, polls := fun _ => 0x88, s0spsr := 0x88, s0spdr := 0 }
    let s := run spiStep ⟨fun _ => 0, []⟩ [t]
    t.HasError spiSlaveAbort ∧ s.errors spiSlaveAbort = 0 ∧
      s.results = [false] ∧ ¬ErrorsCounted (fun _ => 0) [t] s := by
  intro t s
  have herror : t.HasError spiSlaveAbort := by decide
  have hcount : s.errors spiSlaveAbort = 0 := by decide
  have hresult : s.results = [false] := by decide
  refine ⟨herror, hcount, hresult, ?_⟩
  intro h
  have htold := h.results
  rw [hresult] at htold
  simp only [List.map_cons, List.map_nil, List.cons.injEq, and_true] at htold
  exact absurd ⟨spiSlaveAbort, herror⟩ (of_decide_eq_false htold.symm)

end EmbBoard.Spi
