import EmbBoard.Rprintf.Output

/-!
# The simple printf

`rprintf1RamRom`, the `rprintf` of the default build.  A decimal conversion
starts with the divisor 10000, so that it prints five digits at most.
-/

namespace EmbBoard.Rprintf

open EmbBoard.Numeral

/-- An argument behind the format. -/
inductive Arg
  | int (v : BitVec 32)
  | str (s : Option CString)

/-- `va_arg(ap, int)`; there is no result when the next argument is none. -/
def vaInt : List Arg → Option (BitVec 32 × List Arg)
  | .int v :: args => some (v, args)
  | _ => none

/-! ## rprintf1RamRom -/

/-- `while (div_val > 1 && div_val > u_val) div_val /= 10;` -/
def skipZeros (u div : ℕ) : ℕ :=
  if 1 < div ∧ u < div then skipZeros u (div / 10) else div
termination_by div
decreasing_by omega

/-- The conversion loop. -/
def conversionLoop (base : ℕ) (hbase : 1 < base) (u div : ℕ) : List Byte :=
  rprintfu04 (BitVec.ofNat 8 (u / div)) ++
    if 0 < div / base then conversionLoop base hbase (u % div) (div / base)
    else []
termination_by div
decreasing_by
  rename_i h
  exact Nat.div_lt_self (Nat.pos_of_div_pos h) hbase

/-- The conversion `%d`. -/
def simpleDecimal (v : BitVec 32) : List Byte :=
  if v.toInt < 0 then
    rprintfChar (ch '-') ++
      conversionLoop 10 (by decide) (-v).toNat (skipZeros (-v).toNat 10000)
  else conversionLoop 10 (by decide) v.toNat (skipZeros v.toNat 10000)

/-- The conversion `%x`. -/
def simpleHex (v : BitVec 32) : List Byte :=
  conversionLoop 16 (by decide) v.toNat 0x1000

/-- `rprintf1RamRom`.  A percent sign at the end of the format prints the
terminator and goes on behind it: there is no result. -/
def rprintf1 : List Byte → List Arg → Option (List Byte)
  | [], _ => some []
  | c :: f, args =>
      if c ≠ ch '%' then (rprintf1 f args).map (rprintfChar c ++ ·)
      else
        match f with
        | [] => none
        | flag :: f =>
            if flag = ch 'c' then
              (vaInt args).bind fun (v, args) =>
                (rprintf1 f args).map (rprintfChar (v.setWidth 8) ++ ·)
            else if flag = ch 'd' then
              (vaInt args).bind fun (v, args) =>
                (rprintf1 f args).map (simpleDecimal v ++ ·)
            else if flag = ch 'x' then
              (vaInt args).bind fun (v, args) =>
                (rprintf1 f args).map (simpleHex v ++ ·)
            else (rprintf1 f args).map (rprintfChar flag ++ ·)

/-! ## One conversion -/

/-- From a power of the base on, the loop prints the leading part as one digit
and then a field. -/
theorem conversionLoop_pow {base : ℕ} (hbase : 1 < base) (k u : ℕ) :
    conversionLoop base hbase u (base ^ k) =
      hexchar (u / base ^ k) :: (field k 0 (digits base u)).map hexchar := by
  have hfirst : ∀ x, rprintfu04 (BitVec.ofNat 8 x) = [hexchar x] := by
    intro x
    rw [rprintfu04_eq, BitVec.toNat_ofNat, ← hexchar_mod,
      Nat.mod_mod_of_dvd x (by decide : 16 ∣ 2 ^ 8), hexchar_mod]
  induction k generalizing u with
  | zero =>
      have hend : ¬0 < base ^ 0 / base := by
        rw [Nat.pow_zero, Nat.div_eq_of_lt hbase]
        exact lt_irrefl 0
      rw [conversionLoop, if_neg hend, hfirst, field_zero]
      rfl
  | succ k ih =>
      have hpos : 0 < base ^ k := Nat.pow_pos (by omega)
      have hnext : base ^ (k + 1) / base = base ^ k := by
        rw [Nat.pow_succ, Nat.mul_div_cancel _ (by omega)]
      have hdigit : u % base ^ (k + 1) / base ^ k = u / base ^ k % base := by
        rw [Nat.pow_succ, Nat.mod_mul_right_div_self]
      have hrest : field k 0 (digits base (u % base ^ (k + 1))) =
          field k 0 (digits base u) := by
        rw [← field_digits_mod hbase k (u % base ^ (k + 1)),
          Nat.mod_mod_of_dvd u (Nat.pow_dvd_pow base (Nat.le_succ k)),
          field_digits_mod hbase]
      rw [conversionLoop, hnext, if_pos hpos, hfirst, ih, hdigit, hrest,
        Nat.add_comm k 1, field_digits_add hbase, field_digits_succ hbase,
        field_zero, List.nil_append, List.map_append]
      rfl

/-- The divisor is the power for the first digit, but at most the one it
started with. -/
theorem skipZeros_pow (u j : ℕ) :
    ∃ k, k ≤ j ∧ skipZeros u (10 ^ j) = 10 ^ k ∧ (k = 0 ∨ 10 ^ k ≤ u) ∧
      (k = j ∨ u < 10 ^ (k + 1)) := by
  induction j with
  | zero =>
      refine ⟨0, le_refl 0, ?_, Or.inl rfl, Or.inl rfl⟩
      rw [skipZeros, if_neg (by simp)]
  | succ j ih =>
      by_cases hskip : u < 10 ^ (j + 1)
      · obtain ⟨k, hk, hdiv, hlow, hhigh⟩ := ih
        have hnext : 10 ^ (j + 1) / 10 = 10 ^ j := by
          rw [Nat.pow_succ, Nat.mul_div_cancel _ (by decide)]
        have hone : 1 < 10 ^ (j + 1) := Nat.one_lt_pow (by omega) (by decide)
        refine ⟨k, Nat.le_succ_of_le hk, ?_, hlow, Or.inr ?_⟩
        · rw [skipZeros, if_pos ⟨hone, hskip⟩, hnext, hdiv]
        · rcases hhigh with rfl | hlt
          · exact hskip
          · exact hlt
      · refine ⟨j + 1, le_refl _, ?_, Or.inr (not_lt.mp hskip), Or.inl rfl⟩
        rw [skipZeros, if_neg (fun h => hskip h.2)]

/-- The magnitude is printed as its numeral when it has five digits at most; a
larger one is printed in five characters. -/
theorem conversion_decimal (u : ℕ) :
    let printed := conversionLoop 10 (by decide) u (skipZeros u 10000)
    if u < 100000 then printed = (digits 10 u).map hexchar
    else printed.length = 5 := by
  intro printed
  obtain ⟨k, hk, hdiv, hlow, hhigh⟩ := skipZeros_pow u 4
  have hprinted : printed =
      hexchar (u / 10 ^ k) :: (field k 0 (digits 10 u)).map hexchar := by
    rw [← conversionLoop_pow (by decide), ← hdiv]
    rfl
  split
  · rename_i hlt
    have hfits : u < 10 ^ (k + 1) := by
      rcases hhigh with rfl | h
      · exact hlt
      · exact h
    have hlen : (digits 10 u).length = k + 1 := by
      apply le_antisymm
      · exact (length_digits_le_iff (by decide) (Nat.succ_pos k) u).mpr hfits
      · by_contra hshort
        rcases hlow with rfl | hpow
        · have hne := List.length_pos_iff.mpr (digits_ne_nil 10 u)
          omega
        · rcases Nat.eq_zero_or_pos k with rfl | hpos
          · have hne := List.length_pos_iff.mpr (digits_ne_nil 10 u)
            omega
          · have hbelow := (length_digits_le_iff (b := 10) (by decide) hpos
              u).mp (by omega)
            omega
    have hdigit : u / 10 ^ k = u / 10 ^ k % 10 := by
      rw [Nat.mod_eq_of_lt]
      rw [Nat.pow_succ, Nat.mul_comm] at hfits
      exact Nat.div_lt_of_lt_mul (by rwa [Nat.mul_comm] at hfits)
    have hwhole : digits 10 u = (u / 10 ^ k % 10) :: field k 0 (digits 10 u) := by
      have hfield : field (k + 1) 0 (digits 10 u) = digits 10 u := by
        rw [field_of_le 0 hlen.le, hlen, Nat.sub_self]
        rfl
      rw [Nat.add_comm, field_digits_add (by decide),
        field_digits_succ (by decide), field_zero] at hfield
      exact hfield.symm
    rw [hprinted, hdigit]
    conv_rhs => rw [hwhole]
    rfl
  · rename_i hge
    have hfour : k = 4 := by
      rcases hhigh with h | hlt
      · exact h
      · have hle : 10 ^ (k + 1) ≤ 10 ^ 5 :=
          Nat.pow_le_pow_right (by decide) (by omega)
        omega
    subst hfour
    rw [hprinted, List.length_cons, List.length_map, length_field]

/-- `%x` prints the last four digits, whatever is in front of them. -/
theorem simpleHex_eq (v : BitVec 32) : simpleHex v = hexField 4 v.toNat := by
  have hfour : hexField 4 v.toNat = hexField (1 + 3) v.toNat := rfl
  rw [hfour, hexField_add, hexField_one]
  exact conversionLoop_pow (by decide) 3 v.toNat

/-- The decimal numeral of an integer, with a minus sign where there is one. -/
def decimal (v : BitVec 32) : List Byte :=
  (if v.toInt < 0 then [ch '-'] else []) ++
    (digits 10 v.toInt.natAbs).map hexchar

/-- The magnitude of a negative number, as the code takes it. -/
theorem toNat_neg_of_neg {v : BitVec 32} (h : v.toInt < 0) :
    (-v).toNat = v.toInt.natAbs := by
  have hmagnitude := numMagnitude_eq true v
  rwa [numMagnitude, if_pos (by simpa using h), if_pos rfl] at hmagnitude

theorem toNat_of_not_neg {v : BitVec 32} (h : ¬v.toInt < 0) :
    v.toNat = v.toInt.natAbs := by
  have hmagnitude := numMagnitude_eq true v
  rwa [numMagnitude, if_neg (by simpa using h), if_pos rfl] at hmagnitude

theorem simpleDecimal_eq (v : BitVec 32) :
    simpleDecimal v = (if v.toInt < 0 then [ch '-'] else []) ++
      conversionLoop 10 (by decide) v.toInt.natAbs
        (skipZeros v.toInt.natAbs 10000) := by
  unfold simpleDecimal
  split
  · rename_i hneg
    rw [toNat_neg_of_neg hneg]
    rfl
  · rename_i hpos
    rw [toNat_of_not_neg hpos]
    rfl

/-- `%d` is right below 100000 in magnitude, and too short from there on. -/
theorem simpleDecimal_cases (v : BitVec 32) :
    (v.toInt.natAbs < 100000 ∧ simpleDecimal v = decimal v) ∨
      (100000 ≤ v.toInt.natAbs ∧
        (simpleDecimal v).length < (decimal v).length) := by
  have hconv := conversion_decimal v.toInt.natAbs
  simp only at hconv
  rw [simpleDecimal_eq, decimal]
  split at hconv
  · rename_i hlt
    exact Or.inl ⟨hlt, by rw [hconv]⟩
  · rename_i hge
    refine Or.inr ⟨not_lt.mp hge, ?_⟩
    have hlong : 5 < (digits 10 v.toInt.natAbs).length := by
      by_contra hshort
      exact hge ((length_digits_le_iff (b := 10) (by decide) (by decide)
        v.toInt.natAbs).mp (not_lt.mp hshort))
    rw [List.length_append, List.length_append, List.length_map, hconv]
    omega

/-! ## Formats -/

/-- A piece of a format of the simple printf. -/
inductive Item
  | lit (c : Byte) (noPercent : c ≠ ch '%')
  | char
  | dec
  | hex
  | other (flag : Byte)
      (unknown : flag ≠ ch 'c' ∧ flag ≠ ch 'd' ∧ flag ≠ ch 'x')

/-- The format a piece stands for. -/
def Item.format : Item → List Byte
  | .lit c _ => [c]
  | .char => [ch '%', ch 'c']
  | .dec => [ch '%', ch 'd']
  | .hex => [ch '%', ch 'x']
  | .other flag _ => [ch '%', flag]

/-- What pieces print, with `dec` for `%d`; there is no result without the
arguments they need. -/
def printItems (dec : BitVec 32 → List Byte) :
    List Item → List Arg → Option (List Byte)
  | [], _ => some []
  | .lit c _ :: items, args =>
      (printItems dec items args).map (rprintfChar c ++ ·)
  | .char :: items, args =>
      (vaInt args).bind fun (v, args) =>
        (printItems dec items args).map (rprintfChar (v.setWidth 8) ++ ·)
  | .dec :: items, args =>
      (vaInt args).bind fun (v, args) =>
        (printItems dec items args).map (dec v ++ ·)
  | .hex :: items, args =>
      (vaInt args).bind fun (v, args) =>
        (printItems dec items args).map (hexField 4 v.toNat ++ ·)
  | .other flag _ :: items, args =>
      (printItems dec items args).map (rprintfChar flag ++ ·)

/-- The arguments that `%d` takes. -/
def decArgs : List Item → List Arg → List (BitVec 32)
  | .dec :: items, .int v :: args => v :: decArgs items args
  | .char :: items, _ :: args | .hex :: items, _ :: args => decArgs items args
  | .lit _ _ :: items, args | .other _ _ :: items, args => decArgs items args
  | _, _ => []

theorem rprintf1_lit {c : Byte} (noPercent : c ≠ ch '%') (f : List Byte)
    (args : List Arg) :
    rprintf1 (c :: f) args = (rprintf1 f args).map (rprintfChar c ++ ·) := by
  cases f <;> simp [rprintf1, noPercent]

/-- The interpreter prints a format piece by piece. -/
theorem rprintf1_format (items : List Item) (args : List Arg) :
    rprintf1 (items.flatMap Item.format) args =
      printItems simpleDecimal items args := by
  induction items generalizing args with
  | nil => rfl
  | cons item items ih =>
      cases item with
      | lit c noPercent =>
          change rprintf1 (c :: items.flatMap Item.format) args = _
          rw [rprintf1_lit noPercent, ih, printItems]
      | char => simp [Item.format, rprintf1, printItems, ih]
      | dec =>
          have hd : ch 'd' ≠ ch 'c' := by decide
          simp [Item.format, rprintf1, printItems, ih, hd]
      | hex =>
          have hc : ch 'x' ≠ ch 'c' := by decide
          have hd : ch 'x' ≠ ch 'd' := by decide
          simp [Item.format, rprintf1, printItems, ih, hc, hd, simpleHex_eq]
      | other flag unknown =>
          simp [Item.format, rprintf1, printItems, ih, unknown]

/-- A percent sign at the end leads behind the terminator, unless an argument
is missing before. -/
theorem rprintf1_format_percent (items : List Item) (args : List Arg) :
    rprintf1 (items.flatMap Item.format ++ [ch '%']) args = none := by
  induction items generalizing args with
  | nil => rfl
  | cons item items ih =>
      cases item with
      | lit c noPercent =>
          change rprintf1 (c :: (items.flatMap Item.format ++ [ch '%'])) args = _
          rw [rprintf1_lit noPercent, ih]
          rfl
      | char => simp [Item.format, rprintf1, ih]
      | dec =>
          have hd : ch 'd' ≠ ch 'c' := by decide
          simp [Item.format, rprintf1, ih, hd]
      | hex =>
          have hc : ch 'x' ≠ ch 'c' := by decide
          have hd : ch 'x' ≠ ch 'd' := by decide
          simp [Item.format, rprintf1, ih, hc, hd]
      | other flag unknown => simp [Item.format, rprintf1, ih, unknown]

/-- A percent sign and the byte behind it are a piece. -/
theorem exists_item (flag : Byte) :
    ∃ item : Item, item.format = [ch '%', flag] := by
  by_cases hc : flag = ch 'c'
  · exact ⟨.char, by rw [hc]; rfl⟩
  · by_cases hd : flag = ch 'd'
    · exact ⟨.dec, by rw [hd]; rfl⟩
    · by_cases hx : flag = ch 'x'
      · exact ⟨.hex, by rw [hx]; rfl⟩
      · exact ⟨.other flag ⟨hc, hd, hx⟩, rfl⟩

/-- Every format is a list of pieces, up to a percent sign at its end. -/
theorem exists_items : ∀ f : List Byte,
    ∃ items : List Item, f = items.flatMap Item.format ∨
      f = items.flatMap Item.format ++ [ch '%']
  | [] => ⟨[], Or.inl rfl⟩
  | [c] => by
      by_cases hc : c = ch '%'
      · exact ⟨[], Or.inr (by rw [hc]; rfl)⟩
      · exact ⟨[.lit c hc], Or.inl rfl⟩
  | c :: flag :: f => by
      by_cases hc : c = ch '%'
      · obtain ⟨item, hitem⟩ := exists_item flag
        obtain ⟨items, hf | hf⟩ := exists_items f
        · exact ⟨item :: items, Or.inl (by simp [hitem, hc, ← hf])⟩
        · exact ⟨item :: items, Or.inr (by simp [hitem, hc, hf])⟩
      · obtain ⟨items, hf | hf⟩ := exists_items (flag :: f)
        · exact ⟨.lit c hc :: items, Or.inl (by simp [Item.format, ← hf])⟩
        · exact ⟨.lit c hc :: items, Or.inr (by simp [Item.format, hf])⟩

/-! ## What the formats print -/

/-- Where the arguments of `%d` are below 100000 in magnitude the output is
right, and otherwise it is too short. -/
theorem printItems_simpleDecimal {items : List Item} {args : List Arg}
    {out : List Byte} (h : printItems decimal items args = some out) :
    ∃ out', printItems simpleDecimal items args = some out' ∧
      (((∀ v ∈ decArgs items args, v.toInt.natAbs < 100000) ∧ out' = out) ∨
        ((∃ v ∈ decArgs items args, 100000 ≤ v.toInt.natAbs) ∧
          out'.length < out.length)) := by
  induction items generalizing args out with
  | nil =>
      refine ⟨out, h, Or.inl ⟨?_, rfl⟩⟩
      intro v hv
      cases args <;> cases hv
  | cons item items ih =>
      -- Pieces that print the same in both.
      have hsame : ∀ {rest : List Arg} {shown : List Byte},
          (printItems decimal items rest).map (shown ++ ·) = some out →
          decArgs (item :: items) args = decArgs items rest →
          ∃ out', (printItems simpleDecimal items rest).map (shown ++ ·) =
              some out' ∧
            (((∀ v ∈ decArgs (item :: items) args, v.toInt.natAbs < 100000) ∧
              out' = out) ∨
            ((∃ v ∈ decArgs (item :: items) args, 100000 ≤ v.toInt.natAbs) ∧
              out'.length < out.length)) := by
        intro rest shown hrest hargs
        obtain ⟨tail, htail, rfl⟩ := Option.map_eq_some_iff.mp hrest
        obtain ⟨tail', htail', hcases⟩ := ih htail
        refine ⟨shown ++ tail', by rw [htail']; rfl, ?_⟩
        rw [hargs]
        rcases hcases with ⟨hall, rfl⟩ | ⟨hex, hlt⟩
        · exact Or.inl ⟨hall, rfl⟩
        · exact Or.inr ⟨hex, by simpa using hlt⟩
      cases item with
      | lit c noPercent => exact hsame h rfl
      | other flag unknown => exact hsame h rfl
      | char =>
          match args, h with
          | .int v :: rest, h => exact hsame h rfl
      | hex =>
          match args, h with
          | .int v :: rest, h => exact hsame h rfl
      | dec =>
          match args, h with
          | .int v :: rest, h =>
              obtain ⟨tail, htail, rfl⟩ := Option.map_eq_some_iff.mp h
              obtain ⟨tail', htail', hcases⟩ := ih htail
              have hrun : printItems simpleDecimal (.dec :: items)
                  (.int v :: rest) = some (simpleDecimal v ++ tail') := by
                change (printItems simpleDecimal items rest).map
                  (simpleDecimal v ++ ·) = _
                rw [htail']
                rfl
              refine ⟨_, hrun, ?_⟩
              simp only [decArgs, List.mem_cons, forall_eq_or_imp,
                exists_eq_or_imp, List.length_append]
              rcases simpleDecimal_cases v with ⟨hlt, heq⟩ | ⟨hge, hshort⟩
              · rcases hcases with ⟨hall, rfl⟩ | ⟨hex, hless⟩
                · exact Or.inl ⟨⟨hlt, hall⟩, by rw [heq]⟩
                · refine Or.inr ⟨Or.inr hex, ?_⟩
                  rw [heq]
                  omega
              · refine Or.inr ⟨Or.inl hge, ?_⟩
                rcases hcases with ⟨_, rfl⟩ | ⟨_, hless⟩
                · omega
                · omega

/-- For every format and all arguments: a format that ends in a lone percent
sign leads behind its terminator; any other one is a list of pieces, and with
the arguments they need the simple printf prints these pieces, `%d` as the
decimal numeral and `%x` as the last four hexadecimal digits, exactly when
every argument of `%d` is below 100000 in magnitude; otherwise it prints
less. -/
theorem rprintf1_exact_iff (f : CString) (args : List Arg) :
    ∃ items : List Item,
      (f.bytes = items.flatMap Item.format ++ [ch '%'] ∧
        rprintf1 f.bytes args = none) ∨
      (f.bytes = items.flatMap Item.format ∧
        ∀ out, printItems decimal items args = some out →
          ∃ out', rprintf1 f.bytes args = some out' ∧
            (out' = out ↔
              ∀ v ∈ decArgs items args, v.toInt.natAbs < 100000) ∧
            (out' ≠ out → out'.length < out.length)) := by
  obtain ⟨items, hf | hf⟩ := exists_items f.bytes
  · refine ⟨items, Or.inr ⟨hf, ?_⟩⟩
    intro out hout
    obtain ⟨out', hrun, hcases⟩ := printItems_simpleDecimal hout
    refine ⟨out', by rw [hf, rprintf1_format, hrun], ?_⟩
    rcases hcases with ⟨hall, rfl⟩ | ⟨⟨v, hv, hge⟩, hlt⟩
    · exact ⟨iff_of_true rfl hall, fun hne => absurd rfl hne⟩
    · refine ⟨iff_of_false ?_ ?_, fun _ => hlt⟩
      · rintro rfl
        exact lt_irrefl _ hlt
      · intro hall
        exact absurd (hall v hv) (not_lt.mpr hge)
  · exact ⟨items, Or.inl ⟨hf, by rw [hf, rprintf1_format_percent]⟩⟩

end EmbBoard.Rprintf
