import EmbBoard.Support.Numeral
import Mathlib.Data.BitVec

/-!
# Output functions of rprintf

The functions of the printing library that print one thing: a character, a
string, a number in hexadecimal, a number in a field.  A function is the list
of bytes it hands to `rputchar`.  Strings are what stands before the
terminator, so that reading the head of an empty list reads the terminator.
-/

namespace EmbBoard.Rprintf

open EmbBoard.Numeral

abbrev Byte := BitVec 8

/-- The code of a character. -/
def ch (c : Char) : Byte := BitVec.ofNat 8 c.toNat

/-- A string in memory, without its terminator. -/
structure CString where
  bytes : List Byte
  noNul : 0 ∉ bytes

/-- `rprintfChar`: a line feed is preceded by a carriage return. -/
def rprintfChar (c : Byte) : List Byte :=
  if c = ch '\n' then [ch '\r', c] else [c]

/-- `rprintfChar` on each byte. -/
def rprintfChars (cs : List Byte) : List Byte :=
  cs.flatMap rprintfChar

@[simp] theorem rprintfChars_nil : rprintfChars [] = [] := rfl

@[simp] theorem rprintfChars_append (cs ds : List Byte) :
    rprintfChars (cs ++ ds) = rprintfChars cs ++ rprintfChars ds :=
  List.flatMap_append

@[simp] theorem rprintfChars_cons (c : Byte) (cs : List Byte) :
    rprintfChars (c :: cs) = rprintfChar c ++ rprintfChars cs := rfl

/-- `rprintfStr`; the null pointer prints nothing. -/
def rprintfStr : Option CString → List Byte
  | some str => rprintfChars str.bytes
  | none => []

/-- `rprintfCRLF`. -/
def rprintfCRLF : List Byte :=
  rprintfChar (ch '\r') ++ rprintfChar (ch '\n')

/-! ## A section of a string -/

/-- The loop that skips `start` characters.  The byte that ends it early is
skipped as well, and a skipped terminator leaves a pointer behind the string:
there is no result. -/
def skipChars : ℕ → List Byte → Option (List Byte)
  | 0, str => some str
  | _ + 1, [] => none
  | start + 1, _ :: str => skipChars start str

/-- The loop that prints `len` characters, blanks from the terminator on. -/
def printChars : ℕ → List Byte → List Byte
  | 0, _ => []
  | len + 1, [] => rprintfChar (ch ' ') ++ printChars len []
  | len + 1, c :: str => rprintfChar c ++ printChars len str

def rprintfStrLen (str : Option CString) (start len : Byte) :
    Option (List Byte) :=
  match str with
  | none => some []
  | some str => (skipChars start.toNat str.bytes).map (printChars len.toNat)

theorem skipChars_eq (start : ℕ) (str : List Byte) :
    skipChars start str =
      if start ≤ str.length then some (str.drop start) else none := by
  induction start generalizing str with
  | zero => simp [skipChars]
  | succ start ih =>
      cases str with
      | nil => rfl
      | cons c str => simp [skipChars, ih]

theorem printChars_eq (len : ℕ) (str : List Byte) :
    printChars len str =
      rprintfChars (str.take len ++ List.replicate (len - str.length) (ch ' ')) := by
  induction len generalizing str with
  | zero => simp [printChars]
  | succ len ih =>
      cases str with
      | nil => simp [printChars, ih, List.replicate_succ]
      | cons c str => simp [printChars, ih]

/-! ## Hexadecimal -/

/-- `HexChars`. -/
def hexChars : List Byte := "0123456789ABCDEF".toList.map ch

/-- `hexchar(x)`. -/
def hexchar (x : ℕ) : Byte := hexChars.getD (x % 16) 0

def rprintfu04 (data : BitVec 8) : List Byte :=
  rprintfChar (hexchar data.toNat)

def rprintfu08 (data : BitVec 8) : List Byte :=
  rprintfu04 (data >>> 4) ++ rprintfu04 data

def rprintfu16 (data : BitVec 16) : List Byte :=
  rprintfu08 ((data >>> 8).setWidth 8) ++ rprintfu08 (data.setWidth 8)

def rprintfu32 (data : BitVec 32) : List Byte :=
  rprintfu16 ((data >>> 16).setWidth 16) ++ rprintfu16 (data.setWidth 16)

theorem hexchar_mod (x : ℕ) : hexchar (x % 16) = hexchar x := by
  simp [hexchar]

/-- No hexadecimal digit is a line feed. -/
theorem hexchar_ne_lf (x : ℕ) : hexchar x ≠ ch '\n' := by
  have hlt : x % 16 < 16 := Nat.mod_lt x (by decide)
  unfold hexchar
  interval_cases x % 16 <;> decide

@[simp] theorem rprintfChar_hexchar (x : ℕ) :
    rprintfChar (hexchar x) = [hexchar x] :=
  if_neg (hexchar_ne_lf x)

/-! ## Numbers in a field -/

/-- The loop of `rprintfNum` that fills the buffer from the right. -/
def numLoop (base : ℕ) (padchar : Byte) :
    ℕ → ℕ → List Byte → List Byte
  | 0, _, buf => buf
  | count + 1, x, buf =>
      if x ≠ 0 then
        numLoop base padchar count (x / base) (hexchar (x % base) :: buf)
      else numLoop base padchar count x (padchar :: buf)

/-- The sign of a number: its character. -/
def signChar (n : BitVec 32) : Byte :=
  if n.toInt < 0 then ch '-' else if 0 < n.toInt then ch '+' else ch ' '

/-- The magnitude that is printed. -/
def numMagnitude (isSigned : Bool) (n : BitVec 32) : ℕ :=
  if isSigned && n.toInt < 0 then (-n).toNat else n.toNat

/-- `rprintfNum`.  The buffer of 32 bytes holds the terminator, `count + 1`
characters and the sign; there is no result when it is too small, or when the
base is zero. -/
def rprintfNum (base numDigits : Byte) (isSigned : Bool) (padchar : Byte)
    (n : BitVec 32) : Option (List Byte) :=
  let x := numMagnitude isSigned n
  let count := numDigits - 1 - (if isSigned then 1 else 0)
  if base = 0 ∨ 32 < 1 + (1 + count.toNat) + (if isSigned then 1 else 0) then
    none
  else
    let buf := [hexchar (x % base.toNat)]
    let buf := numLoop base.toNat padchar count.toNat (x / base.toNat) buf
    let buf := if isSigned then signChar n :: buf else buf
    some (rprintfChars (buf.take numDigits.toNat))

theorem numMagnitude_eq (isSigned : Bool) (n : BitVec 32) :
    numMagnitude isSigned n =
      if isSigned then n.toInt.natAbs else n.toNat := by
  cases isSigned with
  | false => rfl
  | true =>
      by_cases hneg : n.toInt < 0
      · have hcond : (true && decide (n.toInt < 0)) = true := by simp [hneg]
        rw [numMagnitude, if_pos hcond, if_pos rfl, BitVec.toNat_neg]
        rw [BitVec.toInt_eq_toNat_cond] at hneg ⊢
        have hlt := n.isLt
        split at hneg <;> omega
      · have hcond : ¬(true && decide (n.toInt < 0)) = true := by simp [hneg]
        rw [numMagnitude, if_neg hcond, if_pos rfl]
        rw [BitVec.toInt_eq_toNat_cond] at hneg ⊢
        have hlt := n.isLt
        split at hneg <;> omega

/-- The digits of a number; none for a number that has been printed. -/
def restDigits (base x : ℕ) : List Byte :=
  if x = 0 then [] else (digits base x).map hexchar

theorem restDigits_eq {base x : ℕ} (hbase : 1 < base) (hx : x ≠ 0) :
    restDigits base x = restDigits base (x / base) ++ [hexchar (x % base)] := by
  rw [restDigits, if_neg hx, digits_eq base x hbase, List.map_append,
    restDigits]
  split <;> rfl

/-- The loop fills a field. -/
theorem numLoop_eq {base : ℕ} (hbase : 1 < base) (padchar : Byte) (count x : ℕ)
    (buf : List Byte) :
    numLoop base padchar count x buf =
      field count padchar (restDigits base x) ++ buf := by
  induction count generalizing x buf with
  | zero => simp [numLoop]
  | succ count ih =>
      rw [numLoop]
      split
      · rename_i hx
        rw [ih, restDigits_eq hbase hx, field_append_singleton,
          List.append_assoc]
        rfl
      · rename_i hx
        have hzero : x = 0 := not_not.mp hx
        subst hzero
        rw [ih]
        simp [restDigits, List.replicate_succ']

theorem field_digits_eq {base : ℕ} (hbase : 1 < base) (padchar : Byte)
    (count x : ℕ) :
    field (count + 1) padchar ((digits base x).map hexchar) =
      field count padchar (restDigits base (x / base)) ++
        [hexchar (x % base)] := by
  rw [digits_eq base x hbase, List.map_append, List.map_cons, List.map_nil,
    field_append_singleton, restDigits]
  split <;> rfl

/-- The sign in front of a number, if it is asked for. -/
def numSign (isSigned : Bool) (n : BitVec 32) : List Byte :=
  if isSigned then [signChar n] else []

/-- The counter of the characters after the first digit. -/
def numCount (numDigits : Byte) (isSigned : Bool) : Byte :=
  numDigits - 1 - (if isSigned then 1 else 0)

theorem rprintfNum_run (base numDigits : Byte) (isSigned : Bool)
    (padchar : Byte) (n : BitVec 32) :
    rprintfNum base numDigits isSigned padchar n =
      if base = 0 ∨ 32 < 1 + (1 + (numCount numDigits isSigned).toNat) +
          (numSign isSigned n).length then none
      else
        some (rprintfChars ((numSign isSigned n ++
          numLoop base.toNat padchar (numCount numDigits isSigned).toNat
            (numMagnitude isSigned n / base.toNat)
            [hexchar (numMagnitude isSigned n % base.toNat)]).take
          numDigits.toNat)) := by
  cases isSigned <;> rfl

/-- The counter wraps when there is no room for the first digit. -/
theorem numCount_cases (numDigits : Byte) (isSigned : Bool) (n : BitVec 32) :
    ((numSign isSigned n).length < numDigits.toNat ∧
      (numCount numDigits isSigned).toNat + (numSign isSigned n).length + 1 =
        numDigits.toNat) ∨
    (numDigits.toNat ≤ (numSign isSigned n).length ∧
      254 ≤ (numCount numDigits isSigned).toNat) := by
  have hlt := numDigits.isLt
  cases isSigned with
  | false =>
      have hcount : (numCount numDigits false).toNat =
          (numDigits.toNat + 255) % 256 := by
        rw [numCount, if_neg (by decide), BitVec.toNat_sub, BitVec.toNat_sub]
        simp only [BitVec.reduceToNat]
        omega
      have hsign : (numSign false n).length = 0 := rfl
      omega
  | true =>
      have hcount : (numCount numDigits true).toNat =
          (numDigits.toNat + 254) % 256 := by
        rw [numCount, if_pos rfl, BitVec.toNat_sub, BitVec.toNat_sub]
        simp only [BitVec.reduceToNat]
        omega
      have hsign : (numSign true n).length = 1 := rfl
      omega

/-- What `rprintfNum` prints: the sign, if it is asked for, and the last digits
of the magnitude in a field of all remaining characters.  It prints nothing,
and writes outside its buffer, exactly when there is no room for a digit or the
field is wider than 31 characters. -/
theorem rprintfNum_eq {base : Byte} (hbase : 2 ≤ base.toNat)
    (numDigits : Byte) (isSigned : Bool) (padchar : Byte) (n : BitVec 32) :
    let magnitude := if isSigned then n.toInt.natAbs else n.toNat
    rprintfNum base numDigits isSigned padchar n =
      if (numSign isSigned n).length < numDigits.toNat ∧
          numDigits.toNat ≤ 31 then
        some (rprintfChars (numSign isSigned n ++
          field (numDigits.toNat - (numSign isSigned n).length) padchar
            ((digits base.toNat magnitude).map hexchar)))
      else none := by
  intro magnitude
  have hzero : base ≠ 0 := by
    rintro rfl
    exact absurd hbase (by decide)
  have hmagnitude : numMagnitude isSigned n = magnitude :=
    numMagnitude_eq isSigned n
  have hcases := numCount_cases numDigits isSigned n
  rw [rprintfNum_run, hmagnitude]
  generalize numCount numDigits isSigned = count at hcases ⊢
  generalize numSign isSigned n = sign at hcases ⊢
  rcases hcases with ⟨hroom, hcount⟩ | ⟨hnone, hwrap⟩
  · by_cases hfits : numDigits.toNat ≤ 31
    · have hlen : (sign ++ field (count.toNat + 1) padchar
          ((digits base.toNat magnitude).map hexchar)).length =
          numDigits.toNat := by
        rw [List.length_append, length_field]
        omega
      rw [if_neg (not_or.mpr ⟨hzero, by omega⟩), if_pos ⟨hroom, hfits⟩,
        numLoop_eq (by omega), ← field_digits_eq (by omega),
        List.take_of_length_le hlen.le,
        show numDigits.toNat - sign.length = count.toNat + 1 by omega]
    · rw [if_pos (Or.inr (by omega)), if_neg (fun h => hfits h.2)]
  · rw [if_pos (Or.inr (by omega)), if_neg (fun h => absurd h.1 (by omega))]

/-! ## Hexadecimal as numbers in a field -/

theorem rprintfu04_eq (data : BitVec 8) :
    rprintfu04 data = [hexchar data.toNat] :=
  rprintfChar_hexchar _

/-- The last `k` hexadecimal digits of a number. -/
def hexField (k x : ℕ) : List Byte := (field k 0 (digits 16 x)).map hexchar

@[simp] theorem rprintfChars_map_hexchar (ds : List ℕ) :
    rprintfChars (ds.map hexchar) = ds.map hexchar := by
  induction ds with
  | nil => rfl
  | cons d ds ih => simp [ih]

theorem hexField_add (k j x : ℕ) :
    hexField (k + j) x = hexField k (x / 16 ^ j) ++ hexField j x := by
  rw [hexField, field_digits_add (by decide), List.map_append]
  rfl

theorem hexField_mod (k x : ℕ) : hexField k (x % 16 ^ k) = hexField k x := by
  rw [hexField, field_digits_mod (by decide)]
  rfl

theorem hexField_one (x : ℕ) : hexField 1 x = [hexchar x] := by
  rw [hexField, field_digits_succ (by decide), field_zero, List.nil_append,
    List.map_singleton, hexchar_mod]

theorem rprintfu08_eq (data : BitVec 8) :
    rprintfu08 data = hexField 2 data.toNat := by
  rw [rprintfu08, rprintfu04_eq, rprintfu04_eq, hexField_add 1 1, hexField_one,
    hexField_one, BitVec.toNat_ushiftRight, Nat.shiftRight_eq_div_pow]
  rfl

theorem rprintfu16_eq (data : BitVec 16) :
    rprintfu16 data = hexField 4 data.toNat := by
  have hlt := data.isLt
  have hhigh : ((data >>> 8).setWidth 8).toNat = data.toNat / 16 ^ 2 := by
    rw [BitVec.toNat_setWidth, BitVec.toNat_ushiftRight,
      Nat.shiftRight_eq_div_pow]
    omega
  have hlow : (data.setWidth 8).toNat = data.toNat % 16 ^ 2 :=
    BitVec.toNat_setWidth 8 data
  rw [rprintfu16, rprintfu08_eq, rprintfu08_eq, hhigh, hlow, hexField_mod,
    hexField_add 2 2]

theorem rprintfu32_eq (data : BitVec 32) :
    rprintfu32 data = hexField 8 data.toNat := by
  have hlt := data.isLt
  have hhigh : ((data >>> 16).setWidth 16).toNat = data.toNat / 16 ^ 4 := by
    rw [BitVec.toNat_setWidth, BitVec.toNat_ushiftRight,
      Nat.shiftRight_eq_div_pow]
    omega
  have hlow : (data.setWidth 16).toNat = data.toNat % 16 ^ 4 :=
    BitVec.toNat_setWidth 16 data
  rw [rprintfu32, rprintfu16_eq, rprintfu16_eq, hhigh, hlow, hexField_mod,
    hexField_add 4 4]

/-- `rprintfu32` is `rprintfNum` for eight hexadecimal digits. -/
theorem rprintfu32_eq_rprintfNum (data : BitVec 32) :
    rprintfNum 16 8 false (ch '0') data = some (rprintfu32 data) := by
  have hpad : ch '0' = hexchar 0 := by decide
  have hroom : (numSign false data).length < (8 : Byte).toNat ∧
      (8 : Byte).toNat ≤ 31 := ⟨(by decide : 0 < 8), by decide⟩
  rw [rprintfNum_eq (by decide), if_pos hroom, rprintfu32_eq, hpad,
    ← map_field]
  simp [numSign, hexField]

/-! ## Numbers read back -/

/-- `rprintfNum` in a base up to sixteen prints the sign, if it is asked for,
and the last digits of the magnitude in a field of the remaining characters, and
it stays inside its buffer exactly when there is room for a digit and the field
has at most 31 characters.  Padded with zeros, the digits it prints stand for
the magnitude modulo a power of the base: for the magnitude itself where that
fits the field. -/
theorem rprintfNum_prints_field {base : Byte} (hbase : 2 ≤ base.toNat)
    (numDigits : Byte) (isSigned : Bool) (n : BitVec 32) :
    let sign := numSign isSigned n
    let magnitude := if isSigned then n.toInt.natAbs else n.toNat
    let k := numDigits.toNat - sign.length
    (∀ padchar, rprintfNum base numDigits isSigned padchar n =
      if sign.length < numDigits.toNat ∧ numDigits.toNat ≤ 31 then
        some (rprintfChars (sign ++
          field k padchar ((digits base.toNat magnitude).map hexchar)))
      else none) ∧
    (base.toNat ≤ 16 → ∀ out,
      rprintfNum base numDigits isSigned (ch '0') n = some out →
        ∃ ds : List ℕ, out = sign ++ ds.map hexchar ∧ ds.length = k ∧
          (∀ d ∈ ds, d < base.toNat) ∧
          value base.toNat ds = magnitude % base.toNat ^ k) := by
  intro sign magnitude k
  have heq := fun padchar =>
    rprintfNum_eq hbase numDigits isSigned padchar n
  refine ⟨heq, ?_⟩
  intro hhex out hout
  rw [heq] at hout
  split at hout
  · have hpad : ch '0' = hexchar 0 := by decide
    have hsign : rprintfChars sign = sign := by
      cases isSigned with
      | false => rfl
      | true =>
          simp only [sign, numSign, if_true, signChar]
          split
          · rfl
          · split <;> rfl
    rw [hpad, ← map_field, rprintfChars_append, rprintfChars_map_hexchar,
      hsign] at hout
    refine ⟨_, (Option.some_inj.mp hout).symm, length_field _ _ _, ?_,
      value_field_digits (by omega) _ _⟩
    intro d hd
    have hmem := List.mem_of_mem_drop hd
    rcases List.mem_append.mp hmem with hzero | hdigit
    · rw [List.eq_of_mem_replicate hzero]
      omega
    · exact lt_of_mem_digits (by omega) hdigit
  · cases hout

/-- A decimal number with a sign, in six characters with blanks: the sign comes
before the blanks. -/
theorem rprintfNum_prints_field_1234 :
    rprintfNum 10 6 true (ch ' ') 1234 = some ("+ 1234".toList.map ch) := by
  have hdigits : digits 10 1234 = [1, 2, 3, 4] := by simp [digits]
  have hprints := (rprintfNum_prints_field (by decide : 2 ≤ (10 : Byte).toNat) 6 true
    1234).1 (ch ' ')
  rw [hprints, if_pos (by decide)]
  change some (rprintfChars (_ ++ field _ _ ((digits 10 1234).map hexchar))) = _
  rw [hdigits]
  decide

end EmbBoard.Rprintf
