import Mathlib.Data.Nat.Digits.Lemmas

/-!
# Numerals

The numeral of a number in a base, most significant digit first, as a printed
number has it: zero has one digit, and no other numeral begins with a zero.
Cut to its last digits a numeral is the number modulo a power of the base, and
a field of fixed width is what is left of a long row of pad characters with the
numeral at its end.
-/

namespace EmbBoard.Numeral

/-- The digits of `n` in base `b`, most significant first. -/
def digits (b n : ℕ) : List ℕ :=
  if n = 0 then [0] else (Nat.digits b n).reverse

/-- The number that a list of digits stands for. -/
def value (b : ℕ) (ds : List ℕ) : ℕ :=
  ds.foldl (fun v d => v * b + d) 0

@[simp] theorem digits_zero (b : ℕ) : digits b 0 = [0] := rfl

@[simp] theorem value_nil (b : ℕ) : value b [] = 0 := rfl

@[simp] theorem value_append_singleton (b : ℕ) (ds : List ℕ) (d : ℕ) :
    value b (ds ++ [d]) = value b ds * b + d := by
  simp [value]

theorem value_eq_ofDigits (b : ℕ) (ds : List ℕ) :
    value b ds = Nat.ofDigits b ds.reverse := by
  induction ds using List.reverseRecOn with
  | nil => rfl
  | append_singleton ds d ih =>
      rw [value_append_singleton, ih, List.reverse_append, List.reverse_singleton,
        List.singleton_append, Nat.ofDigits_cons, Nat.mul_comm, Nat.add_comm]

/-- Leading zeros do not count. -/
theorem value_zeros_append (b n : ℕ) (ds : List ℕ) :
    value b (List.replicate n 0 ++ ds) = value b ds := by
  have hzeros : value b (List.replicate n 0) = 0 := by
    induction n with
    | zero => rfl
    | succ n ih =>
        rw [List.replicate_succ', value_append_singleton, ih]
        simp
  rw [value, List.foldl_append]
  change ds.foldl _ (value b (List.replicate n 0)) = _
  rw [hzeros]
  rfl

/-- A numeral stands for its number. -/
@[simp] theorem value_digits (b n : ℕ) : value b (digits b n) = n := by
  unfold digits
  split
  · rename_i hzero
    simp [value, hzero]
  · rw [value_eq_ofDigits, List.reverse_reverse, Nat.ofDigits_digits]

theorem lt_of_mem_digits {b n d : ℕ} (hb : 1 < b) (hd : d ∈ digits b n) :
    d < b := by
  unfold digits at hd
  split at hd
  · rw [List.mem_singleton.mp hd]
    omega
  · exact Nat.digits_lt_base hb (List.mem_reverse.mp hd)

theorem digits_ne_nil (b n : ℕ) : digits b n ≠ [] := by
  unfold digits
  split
  · exact List.cons_ne_nil 0 []
  · rename_i hpos
    simpa [Nat.digits_eq_nil_iff_eq_zero] using hpos

/-- The last digit, and the numeral of the rest if there is a rest. -/
theorem digits_eq (b n : ℕ) (hb : 1 < b) :
    digits b n =
      (if n / b = 0 then [] else digits b (n / b)) ++ [n % b] := by
  by_cases hn : n = 0
  · subst hn
    simp
  · rw [digits, if_neg hn, Nat.digits_def' hb (Nat.pos_of_ne_zero hn),
      List.reverse_cons]
    congr 1
    split
    · rename_i hrest
      rw [hrest, Nat.digits_zero, List.reverse_nil]
    · rename_i hrest
      rw [digits, if_neg hrest]

/-- A number has at most `k` digits exactly when it is below the power. -/
theorem length_digits_le_iff {b k : ℕ} (hb : 1 < b) (hk : 0 < k) (n : ℕ) :
    (digits b n).length ≤ k ↔ n < b ^ k := by
  unfold digits
  split
  · rename_i hzero
    rw [hzero]
    exact iff_of_true hk (Nat.pow_pos (by omega))
  · rw [List.length_reverse, Nat.digits_length_le_iff hb]

/-! ## Fields of fixed width -/

/-- The last `k` of a row of `k` pads with `xs` at its end. -/
def field {α : Type*} (k : ℕ) (pad : α) (xs : List α) : List α :=
  (List.replicate k pad ++ xs).drop xs.length

section Field

variable {α : Type*} (k : ℕ) (pad : α) (xs : List α)

@[simp] theorem length_field : (field k pad xs).length = k := by
  simp [field]

@[simp] theorem field_zero : field 0 pad xs = [] := by
  simp [field]

@[simp] theorem field_nil : field k pad [] = List.replicate k pad := by
  simp [field]

/-- Where the text fits it stands at the right of the pads. -/
theorem field_of_le {k : ℕ} {xs : List α} (h : xs.length ≤ k) :
    field k pad xs = List.replicate (k - xs.length) pad ++ xs := by
  rw [field, List.drop_append_of_le_length (by simpa using h),
    List.drop_replicate]

/-- A field is filled from the right. -/
theorem field_append_singleton (x : α) :
    field (k + 1) pad (xs ++ [x]) = field k pad xs ++ [x] := by
  have hshift : List.replicate (k + 1) pad ++ (xs ++ [x]) =
      pad :: ((List.replicate k pad ++ xs) ++ [x]) := by
    rw [List.replicate_succ, List.cons_append, List.append_assoc]
  rw [field, field, hshift, List.length_append, List.length_singleton,
    List.drop_succ_cons, List.drop_append_of_le_length (by simp)]

theorem map_field {β : Type*} (f : α → β) :
    (field k pad xs).map f = field k (f pad) (xs.map f) := by
  simp [field]

end Field

/-- A field of digits with zeros for pads, one digit after the other. -/
theorem field_digits_succ {b : ℕ} (hb : 1 < b) (k n : ℕ) :
    field (k + 1) 0 (digits b n) = field k 0 (digits b (n / b)) ++ [n % b] := by
  have hrest : field k 0 (if n / b = 0 then [] else digits b (n / b)) =
      field k 0 (digits b (n / b)) := by
    split
    · rename_i hzero
      rw [hzero, digits_zero, field_nil]
      cases k with
      | zero => rfl
      | succ k =>
          rw [field_of_le 0 (by simp)]
          simp [← List.replicate_succ']
    · rfl
  rw [digits_eq b n hb, field_append_singleton, hrest]

/-- It stands for the number modulo a power of the base. -/
theorem value_field_digits {b : ℕ} (hb : 1 < b) (k n : ℕ) :
    value b (field k 0 (digits b n)) = n % b ^ k := by
  induction k generalizing n with
  | zero => simp [Nat.mod_one]
  | succ k ih =>
      rw [field_digits_succ hb, value_append_singleton, ih, Nat.pow_succ,
        Nat.mul_comm (b ^ k) b, Nat.mod_mul]
      ring

/-- Two fields side by side. -/
theorem field_digits_add {b : ℕ} (hb : 1 < b) (k j n : ℕ) :
    field (k + j) 0 (digits b n) =
      field k 0 (digits b (n / b ^ j)) ++ field j 0 (digits b n) := by
  induction j generalizing n with
  | zero => simp
  | succ j ih =>
      rw [← Nat.add_assoc, field_digits_succ hb, ih, field_digits_succ hb,
        Nat.div_div_eq_div_mul, ← Nat.pow_succ', List.append_assoc]

/-- A field of `k` digits shows the number modulo the power only. -/
theorem field_digits_mod {b : ℕ} (hb : 1 < b) (k n : ℕ) :
    field k 0 (digits b (n % b ^ k)) = field k 0 (digits b n) := by
  induction k generalizing n with
  | zero => simp
  | succ k ih =>
      have hdiv : n % b ^ (k + 1) / b = n / b % b ^ k := by
        rw [Nat.pow_succ', Nat.mod_mul_right_div_self]
      have hmod : n % b ^ (k + 1) % b = n % b :=
        Nat.mod_mod_of_dvd n (Dvd.intro_left (b ^ k) rfl)
      rw [field_digits_succ hb, field_digits_succ hb, hdiv, hmod, ih]

end EmbBoard.Numeral
