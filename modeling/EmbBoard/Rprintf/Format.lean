import EmbBoard.Rprintf.Simple
import EmbBoard.Support.Scanner

/-!
# The complex printf

`rprintf2RamRom`, the `rprintf` of a build with `RPRINTF_COMPLEX`.  The formats
are described by pieces: literal bytes and directives, whose flags, width and
precision are scanned one after the other.  The interpreter prints what the
pieces say.

An `int` is a bit vector of 32 bits whose arithmetic wraps.
-/

namespace EmbBoard.Rprintf

open EmbBoard.Numeral

/-! ## rprintf2RamRom -/

/-- `INF`: no precision. -/
def inf : BitVec 32 := 32766

/-- `Isdigit`. -/
abbrev IsDigit (c : Byte) : Prop := ch '0' ≤ c ∧ c ≤ ch '9'

/-- The loop of `atoiRamRom`. -/
def atoiLoop (num : BitVec 32) : List Byte → BitVec 32
  | [] => num
  | c :: str =>
      if IsDigit c then atoiLoop (num * 10 + (c.setWidth 32 - 0x30)) str
      else num

def atoiRamRom (str : List Byte) : BitVec 32 := atoiLoop 0 str

/-- `va_arg(ap, unsigned char *)`. -/
def vaStr : List Arg → Option (Option CString × List Arg)
  | .str s :: args => some (s, args)
  | _ => none

/-- The variables that a directive sets. -/
structure Spec where
  flushLeft : Bool
  pad : Byte
  fWidth : BitVec 32
  prec : BitVec 32
  hash : Bool
  doLong : Bool

/-- One character that sets a flag. -/
def readFlag (c : Byte) (f : List Byte) : Bool × List Byte :=
  if f.head? = some c then (true, f.tail) else (false, f)

/-- The padding character: zero after a zero or a period. -/
def readPad (f : List Byte) : Byte × List Byte :=
  if f.head? = some (ch '0') ∨ f.head? = some (ch '.') then (ch '0', f.tail)
  else (ch ' ', f)

/-- An asterisk or a number; `unset` when there is neither. -/
def readSize (unset : BitVec 32) (f : List Byte) (args : List Arg) :
    Option (BitVec 32 × List Byte × List Arg) :=
  if f.head? = some (ch '*') then
    (vaInt args).map fun (v, args) => (v, f.tail, args)
  else if ∃ c ∈ f.head?, IsDigit c then
    some (atoiRamRom f, f.dropWhile (decide <| IsDigit ·), args)
  else some (unset, f, args)

def readPrec (f : List Byte) (args : List Arg) :
    Option (BitVec 32 × List Byte × List Arg) :=
  if f.head? = some (ch '.') then readSize inf f.tail args
  else some (inf, f, args)

/-- What stands between the percent sign and the conversion character. -/
def readSpec (f : List Byte) (args : List Arg) :
    Option (Spec × List Byte × List Arg) :=
  let (flushLeft, f) := readFlag (ch '-') f
  let (pad, f) := readPad f
  (readSize 0 f args).bind fun (fWidth, f, args) =>
    (readPrec f args).bind fun (prec, f, args) =>
      let (hash, f) := readFlag (ch '#') f
      let (doLong, f) := readFlag (ch 'l') f
      some (⟨flushLeft, pad, fWidth, prec, hash, doLong⟩, f, args)

/-- The digits of an unsigned number.  The last byte written comes first. -/
def digitLoop (base : ℕ) (hbase : 1 < base) (digit : ℕ → Byte) (u : ℕ)
    (buf : List Byte) : List Byte :=
  let buf := digit (u % base) :: buf
  if 0 < u / base then digitLoop base hbase digit (u / base) buf else buf
termination_by u
decreasing_by
  rename_i h
  exact Nat.div_lt_self (Nat.pos_of_div_pos h) hbase

/-- The digits of `l`, for `%d`. -/
def signedLoop (l : ℤ) (buf : List Byte) : List Byte :=
  let buf := BitVec.ofInt 8 (l.tmod 10 + 48) :: buf
  if 0 < l.tdiv 10 then signedLoop (l.tdiv 10) buf else buf
termination_by l.natAbs
decreasing_by
  have hdiv : (l.tdiv 10).natAbs = l.natAbs / 10 := Int.natAbs_tdiv l 10
  omega

def decDigit (i : ℕ) : Byte := BitVec.ofNat 8 (i + 48)

/-- A digit of `%x`. -/
def hexDigit (i : ℕ) : Byte :=
  if i < 10 then BitVec.ofNat 8 (i + 48) else BitVec.ofNat 8 (i - 10 + 97)

/-- The conversion characters of numbers. -/
inductive Number
  | dec
  | oct
  | hex
  | uns
  deriving DecidableEq

def Number.letter : Number → Byte
  | .dec => ch 'd'
  | .oct => ch 'o'
  | .hex => ch 'x'
  | .uns => ch 'u'

theorem one_lt_eight : 1 < 8 := by decide

theorem one_lt_ten : 1 < 10 := by decide

theorem one_lt_sixteen : 1 < 16 := by decide

/-- The buffer of a number, the last byte written first. -/
def numberBuf (hash : Bool) (v : BitVec 32) : Number → List Byte
  | .dec =>
      if v.toInt < 0 then ch '-' :: signedLoop (-v).toInt []
      else signedLoop v.toInt []
  | .uns => digitLoop 10 one_lt_ten decDigit v.toNat []
  | .oct =>
      let buf := digitLoop 8 one_lt_eight decDigit v.toNat []
      if hash then ch '0' :: buf else buf
  | .hex =>
      let buf := digitLoop 16 one_lt_sixteen hexDigit v.toNat []
      if hash then ch '0' :: ch 'x' :: buf else buf

/-- `while (f_width-- > 0) rprintfChar(pad);` -/
def padLoop (pad : Byte) (w : BitVec 32) : List Byte :=
  if 0 < w.toInt then rprintfChar pad ++ padLoop pad (w - 1) else []
termination_by w.toInt.toNat
decreasing_by
  rename_i h
  have hlt := w.isLt
  have hsub := BitVec.toNat_sub w 1
  simp only [BitVec.toInt_eq_toNat_cond, BitVec.reduceToNat] at h hsub ⊢
  split at h <;> split <;> omega

/-- A text of `len` characters in the field. -/
def putField (spec : Spec) (len : ℕ) (body : List Byte) : List Byte :=
  let w := spec.fWidth - BitVec.ofNat 32 len
  (if spec.flushLeft then [] else padLoop spec.pad w) ++ body ++
    (if spec.flushLeft then padLoop (ch ' ') w else [])

/-- `for (i = 0; *bp && i < prec; i++)` -/
def strLoop (prec : BitVec 32) (i : ℕ) : List Byte → List Byte
  | [] => []
  | c :: bp =>
      if (i : ℤ) < prec.toInt then rprintfChar c ++ strLoop prec (i + 1) bp
      else []

/-- The string for the null pointer. -/
def nilString : List Byte := "(nil)".toList.map ch

/-- `va_arg(ap, long)`: a `long` is as wide as an `int`. -/
def vaLong : List Arg → Option (BitVec 32 × List Arg) := vaInt

/-- The switch over the conversion character. -/
def convert (spec : Spec) (fmt : Byte) (args : List Arg) :
    Option (List Byte × List Arg) :=
  let arg := if spec.doLong then vaLong args else vaInt args
  let number (k : Number) := arg.map fun (v, args) =>
    let buf := numberBuf spec.hash v k
    (putField spec buf.length (rprintfChars buf), args)
  if fmt = ch 'd' then number .dec
  else if fmt = ch 'o' then number .oct
  else if fmt = ch 'x' then number .hex
  else if fmt = ch 'u' then number .uns
  else if fmt = ch 'c' then
    (vaInt args).map fun (v, args) => (rprintfChar (v.setWidth 8), args)
  else if fmt = ch 's' then
    (vaStr args).map fun (s, args) =>
      let bp := s.elim nilString CString.bytes
      (putField spec bp.length (strLoop spec.prec 0 bp), args)
  else if fmt = ch '%' then some (rprintfChar (ch '%'), args)
  else some ([], args)

/-! ## Sizes and flags as texts -/

abbrev Digit := { c : Byte // IsDigit c }

/-- The number that a digit stands for. -/
def Digit.val (d : Digit) : ℕ := d.1.toNat - 48

/-- What a format says about a width or a precision: an asterisk (`none`), or
some digits, perhaps no digit. -/
abbrev Size := Option (List Digit)

def sizeScanner : Scanner Byte Size :=
  .tokenOr (ch '*') (.span IsDigit)

/-- What stands between the percent sign and the conversion character: whether
there is a minus sign, a zero or a period, a width, a precision behind a
period, a hash sign, and an `l`. -/
structure Flags where
  minus : Option { c // c = ch '-' }
  zero : Option { c // c = ch '0' ∨ c = ch '.' }
  width : Size
  prec : Option Size
  hash : Option { c // c = ch '#' }
  long : Option { c // c = ch 'l' }

/-- The flags in the order in which they are read. -/
def flagScanner : Scanner Byte Flags :=
  .map
    { toFun := fun (minus, zero, width, prec, hash, long) =>
        ⟨minus, zero, width, prec, hash, long⟩
      invFun := fun fl =>
        (fl.minus, fl.zero, fl.width, fl.prec, fl.hash, fl.long)
      left_inv := fun _ => rfl
      right_inv := fun _ => rfl }
    (.seq (.oneOf (· = ch '-')) <|
      .seq (.oneOf fun c => c = ch '0' ∨ c = ch '.') <|
      .seq sizeScanner <|
      .seq (.announced (ch '.') sizeScanner) <|
      .seq (.oneOf (· = ch '#')) <|
      .oneOf (· = ch 'l'))

/-- The number of a size, an argument for an asterisk. -/
def Size.take (unset : BitVec 32) : Size → List Arg →
    Option (BitVec 32 × List Arg)
  | none, args => vaInt args
  | some [], args => some (unset, args)
  | some ds, args => some (BitVec.ofNat 32 (value 10 (ds.map Digit.val)), args)

/-- What flags set, with the arguments they take. -/
def Flags.spec (fl : Flags) (args : List Arg) : Option (Spec × List Arg) :=
  (fl.width.take 0 args).bind fun (fWidth, args) =>
    ((fl.prec.getD (some [])).take inf args).map fun (prec, args) =>
      (⟨fl.minus.isSome, if fl.zero.isSome then ch '0' else ch ' ', fWidth,
        prec, fl.hash.isSome, fl.long.isSome⟩, args)

theorem readFlag_eq (c : Byte) (f : List Byte) :
    readFlag c f = (((Scanner.oneOf (· = c)).read f).1.isSome,
      ((Scanner.oneOf (· = c)).read f).2) := by
  cases f with
  | nil => rfl
  | cons x f =>
      by_cases h : x = c
      · simp [readFlag, Scanner.oneOf, h]
      · simp [readFlag, Scanner.oneOf, h]

theorem readPad_eq (f : List Byte) :
    let zero := (Scanner.oneOf fun c => c = ch '0' ∨ c = ch '.').read f
    readPad f = (if zero.1.isSome then ch '0' else ch ' ', zero.2) := by
  cases f with
  | nil => rfl
  | cons x f =>
      by_cases h : x = ch '0' ∨ x = ch '.'
      · simp [readPad, Scanner.oneOf, h]
      · simp [readPad, Scanner.oneOf, h]

theorem dropWhile_digits (f : List Byte) :
    f.dropWhile (decide <| IsDigit ·) = (Scanner.spanRead IsDigit f).2 := by
  induction f with
  | nil => rfl
  | cons c f ih =>
      by_cases h : IsDigit c
      · rw [List.dropWhile_cons_of_pos (by simpa using h), ih,
          Scanner.spanRead, dif_pos h]
      · rw [List.dropWhile_cons_of_neg (by simpa using h), Scanner.spanRead,
          dif_neg h]

theorem digit_toNat (d : Digit) : 48 ≤ d.1.toNat ∧ d.1.toNat ≤ 57 := d.2

/-- `atoiRamRom` reads the digits at the front of a text. -/
theorem atoiLoop_eq (n : ℕ) (f : List Byte) :
    atoiLoop (BitVec.ofNat 32 n) f = BitVec.ofNat 32
      (((Scanner.spanRead IsDigit f).1.map Digit.val).foldl
        (fun v d => v * 10 + d) n) := by
  induction f generalizing n with
  | nil => rfl
  | cons c f ih =>
      by_cases h : IsDigit c
      · have hd := digit_toNat ⟨c, h⟩
        have hstep : BitVec.ofNat 32 n * 10 + (c.setWidth 32 - 0x30) =
            BitVec.ofNat 32 (n * 10 + Digit.val ⟨c, h⟩) := by
          apply BitVec.eq_of_toNat_eq
          simp only [BitVec.toNat_add, BitVec.toNat_mul, BitVec.toNat_sub,
            BitVec.toNat_ofNat, BitVec.toNat_setWidth, BitVec.reduceToNat,
            Digit.val]
          simp only at hd
          omega
        rw [atoiLoop, if_pos h, hstep, ih, Scanner.spanRead, dif_pos h]
        rfl
      · rw [atoiLoop, if_neg h, Scanner.spanRead, dif_neg h]
        rfl

theorem readSize_eq (unset : BitVec 32) (f : List Byte) (args : List Arg) :
    readSize unset f args =
      ((sizeScanner.read f).1.take unset args).map fun (v, args) =>
        (v, (sizeScanner.read f).2, args) := by
  by_cases hstar : f.head? = some (ch '*')
  · have hread : sizeScanner.read f = (none, f.tail) := if_pos hstar
    rw [readSize, if_pos hstar, hread]
    rfl
  · have hread : sizeScanner.read f = (some (Scanner.spanRead IsDigit f).1,
        (Scanner.spanRead IsDigit f).2) := if_neg hstar
    rw [readSize, if_neg hstar, hread]
    cases f with
    | nil => rfl
    | cons c f =>
        by_cases h : IsDigit c
        · have hatoi := atoiLoop_eq 0 (c :: f)
          have hdrop := dropWhile_digits (c :: f)
          rw [if_pos ⟨c, rfl, h⟩, hdrop, atoiRamRom]
          change some (atoiLoop (BitVec.ofNat 32 0) (c :: f), _, args) = _
          rw [hatoi, Scanner.spanRead, dif_pos h]
          rfl
        · have hnone : ¬∃ x ∈ (c :: f).head?, IsDigit x := by
            rintro ⟨x, hx, hdigit⟩
            exact h (Option.some_inj.mp hx ▸ hdigit)
          rw [if_neg hnone, Scanner.spanRead, dif_neg h]
          rfl

theorem readPrec_eq (f : List Byte) (args : List Arg) :
    let prec := (Scanner.announced (ch '.') sizeScanner).read f
    readPrec f args = ((prec.1.getD (some [])).take inf args).map
      fun (v, args) => (v, prec.2, args) := by
  intro prec
  by_cases hdot : f.head? = some (ch '.')
  · have hread : prec = (some (sizeScanner.read f.tail).1,
        (sizeScanner.read f.tail).2) := if_pos hdot
    rw [readPrec, if_pos hdot, hread, readSize_eq]
    rfl
  · have hread : prec = (none, f) := if_neg hdot
    rw [readPrec, if_neg hdot, hread]
    rfl

/-- The code reads the flags and takes their arguments on the way. -/
theorem readSpec_eq (f : List Byte) (args : List Arg) :
    readSpec f args = ((flagScanner.read f).1.spec args).map
      fun (spec, args) => (spec, (flagScanner.read f).2, args) := by
  simp only [readSpec, readFlag_eq, readPad_eq, readSize_eq, readPrec_eq]
  simp only [flagScanner, Scanner.map, Scanner.seq, Flags.spec,
    Equiv.coe_fn_mk, Option.map_eq_bind, Option.bind_assoc, Function.comp_def,
    Option.bind_some]
  rfl

theorem length_readSpec_lt {f rest : List Byte} {args args' : List Arg}
    {spec : Spec} {fmt : Byte}
    (h : readSpec f args = some (spec, fmt :: rest, args')) :
    rest.length < f.length := by
  rw [readSpec_eq] at h
  obtain ⟨_, _, hread⟩ := Option.map_eq_some_iff.mp h
  have hrest : (flagScanner.read f).2 = fmt :: rest :=
    congrArg (fun x : Spec × List Byte × List Arg => x.2.1) hread
  have hle := flagScanner.length_read_le f
  rw [hrest] at hle
  exact hle

/-- `rprintf2RamRom`.  A format that ends inside a directive is read on behind
its terminator: there is no result. -/
def rprintf2 : List Byte → List Arg → Option (List Byte)
  | [], _ => some []
  | c :: f, args =>
      if c ≠ ch '%' then (rprintf2 f args).map (rprintfChar c ++ ·)
      else
        match _h : readSpec f args with
        | some (spec, fmt :: rest, args) =>
            (convert spec fmt args).bind fun (out, args) =>
              (rprintf2 rest args).map (out ++ ·)
        | _ => none
termination_by f => f.length
decreasing_by
  · simp
  · exact Nat.lt_succ_of_lt (length_readSpec_lt _h)

/-! ## One conversion -/

theorem digitLoop_eq {base : ℕ} (hbase : 1 < base) (digit : ℕ → Byte) (u : ℕ)
    (buf : List Byte) :
    digitLoop base hbase digit u buf = (digits base u).map digit ++ buf := by
  induction u using Nat.strong_induction_on generalizing buf with
  | h u ih =>
      rw [digitLoop, digits_eq base u hbase, List.map_append, List.append_assoc]
      by_cases hrest : 0 < u / base
      · have hlt := Nat.div_lt_self (Nat.pos_of_div_pos hrest) hbase
        rw [if_pos hrest, ih _ hlt, if_neg hrest.ne']
        rfl
      · have hzero : u / base = 0 := Nat.eq_zero_of_not_pos hrest
        rw [if_neg hrest, if_pos hzero]
        rfl

/-- For a number that is not negative the signed loop is the unsigned one. -/
theorem signedLoop_eq (n : ℕ) (buf : List Byte) :
    signedLoop (n : ℤ) buf = digitLoop 10 (by decide) decDigit n buf := by
  induction n using Nat.strong_induction_on generalizing buf with
  | h n ih =>
      have hdiv : ((n : ℤ).tdiv 10) = ((n / 10 : ℕ) : ℤ) := rfl
      have hmod : BitVec.ofInt 8 ((n : ℤ).tmod 10 + 48) = decDigit (n % 10) :=
        rfl
      rw [signedLoop, digitLoop, hdiv, hmod]
      simp only [Int.natCast_pos]
      split
      · exact ih _ (by omega) _
      · rfl

/-- The numeral of an unsigned number, with small letters. -/
def numeral (base n : ℕ) : List Byte := (digits base n).map hexDigit

theorem hexDigit_eq {i : ℕ} (h : i < 10) : hexDigit i = decDigit i :=
  if_pos h

theorem map_decDigit {base : ℕ} (hbase : 1 < base) (hten : base ≤ 10) (n : ℕ) :
    (digits base n).map decDigit = numeral base n := by
  refine List.map_congr_left fun i hi => ?_
  rw [hexDigit_eq (lt_of_lt_of_le (lt_of_mem_digits hbase hi) hten)]

/-- What a conversion means of a number, before it is put into a field. -/
def Number.text (hash : Bool) (v : BitVec 32) : Number → List Byte
  | .dec =>
      (if v.toInt < 0 then [ch '-'] else []) ++ numeral 10 v.toInt.natAbs
  | .uns => numeral 10 v.toNat
  | .oct => (if hash then [ch '0'] else []) ++ numeral 8 v.toNat
  | .hex => (if hash then [ch '0', ch 'x'] else []) ++ numeral 16 v.toNat

/-- The most negative number, which has no magnitude of its type. -/
def intMin : BitVec 32 := BitVec.intMin 32

/-- What a conversion prints of a number.  The most negative number is still
negative after its sign is changed; its last digit, eight below zero, comes out
as the character eight below `'0'`, and no other digit is printed. -/
def Number.printed (hash : Bool) (v : BitVec 32) (k : Number) : List Byte :=
  if k = .dec ∧ v = intMin then [ch '-', ch '('] else k.text hash v

theorem Number.printed_of_ne {k : Number} {v : BitVec 32}
    (h : ¬(k = .dec ∧ v = intMin)) (hash : Bool) :
    k.printed hash v = k.text hash v :=
  if_neg h

theorem Number.printed_intMin (hash : Bool) :
    Number.dec.printed hash intMin = [ch '-', ch '('] :=
  if_pos ⟨rfl, rfl⟩

theorem numberBuf_eq (hash : Bool) (v : BitVec 32) (k : Number) :
    numberBuf hash v k = k.printed hash v := by
  cases k with
  | dec =>
      have hnonneg : ∀ {w : BitVec 32} {n : ℕ}, w.toInt = n →
          signedLoop w.toInt [] = numeral 10 n := by
        intro w n h
        rw [h, signedLoop_eq, digitLoop_eq, List.append_nil,
          map_decDigit (by decide) (by decide)]
      rw [numberBuf]
      by_cases hmin : v = intMin
      · subst hmin
        have hmin : (-intMin).toInt = -2147483648 := by decide
        rw [Number.printed_intMin, if_pos (by decide), hmin, signedLoop]
        rfl
      · rw [Number.printed_of_ne (fun h => hmin h.2), Number.text]
        by_cases hneg : v.toInt < 0
        · have hneg' : (-v).toInt = v.toInt.natAbs := by
            rw [BitVec.toInt_neg_of_ne_intMin hmin]
            omega
          rw [if_pos hneg, if_pos hneg, hnonneg hneg']
          rfl
        · have habs : v.toInt = v.toInt.natAbs := by omega
          rw [if_neg hneg, if_neg hneg, hnonneg habs]
          rfl
  | oct =>
      rw [numberBuf, digitLoop_eq, map_decDigit (by decide) (by decide),
        List.append_nil, Number.printed_of_ne (by simp), Number.text]
      split <;> rfl
  | hex =>
      rw [numberBuf, digitLoop_eq, List.append_nil,
        Number.printed_of_ne (by simp), Number.text]
      split <;> rfl
  | uns =>
      rw [numberBuf, digitLoop_eq, map_decDigit (by decide) (by decide),
        List.append_nil, Number.printed_of_ne (by simp), Number.text]

/-- A number takes up to twelve characters. -/
theorem Number.length_text_le (hash : Bool) (v : BitVec 32) (k : Number) :
    (k.text hash v).length ≤ 12 := by
  have hdigits : ∀ {base n j : ℕ}, 1 < base → 0 < j → n < base ^ j →
      (numeral base n).length ≤ j := by
    intro base n j hbase hj hn
    rw [numeral, List.length_map]
    exact (length_digits_le_iff hbase hj n).mpr hn
  have hlt := v.isLt
  have habs : v.toInt.natAbs < 10 ^ 10 := by
    have hbound := BitVec.two_mul_toInt_lt (x := v)
    have hbound' := BitVec.le_two_mul_toInt (x := v)
    omega
  cases k with
  | dec =>
      have hlen := hdigits one_lt_ten (by decide : 0 < 10) habs
      rw [Number.text, List.length_append]
      split <;> simp <;> omega
  | oct =>
      have hlen := hdigits one_lt_eight (by decide : 0 < 11)
        (hlt.trans (by decide))
      rw [Number.text, List.length_append]
      split <;> simp <;> omega
  | hex =>
      have hlen := hdigits one_lt_sixteen (by decide : 0 < 8) hlt
      rw [Number.text, List.length_append]
      split <;> simp <;> omega
  | uns =>
      have hlen := hdigits one_lt_ten (by decide : 0 < 10)
        (hlt.trans (by decide))
      rw [Number.text]
      omega

/-- The 128 bytes of the buffer are enough. -/
theorem Number.length_printed_le (hash : Bool) (v : BitVec 32) (k : Number) :
    (k.printed hash v).length ≤ 12 := by
  by_cases hmin : k = .dec ∧ v = intMin
  · obtain ⟨rfl, rfl⟩ := hmin
    rw [Number.printed_intMin]
    exact Nat.le_add_left 2 10
  · rw [Number.printed_of_ne hmin]
    exact k.length_text_le hash v

/-- The pads of a field for a text of `len` characters. -/
def Spec.pads (spec : Spec) (len : ℕ) : ℕ :=
  (spec.fWidth - BitVec.ofNat 32 len).toInt.toNat

/-- A text in its field: `len` is the length the field reckons with. -/
def Spec.justify (spec : Spec) (len : ℕ) (text : List Byte) : List Byte :=
  if spec.flushLeft then text ++ List.replicate (spec.pads len) (ch ' ')
  else List.replicate (spec.pads len) spec.pad ++ text

theorem padLoop_eq (pad : Byte) (w : BitVec 32) :
    padLoop pad w = rprintfChars (List.replicate w.toInt.toNat pad) := by
  generalize hn : w.toInt.toNat = n
  induction n generalizing w with
  | zero =>
      rw [padLoop, if_neg (by omega)]
      rfl
  | succ n ih =>
      have hpos : 0 < w.toInt := by omega
      have hnext : (w - 1).toInt.toNat = n := by
        have hlt := w.isLt
        have hsub := BitVec.toNat_sub w 1
        rw [BitVec.toInt_eq_toNat_cond] at hn hpos ⊢
        simp only [BitVec.reduceToNat] at hsub
        split at hn <;> split <;> omega
      rw [padLoop, if_pos hpos, ih _ hnext, List.replicate_succ,
        rprintfChars_cons]

theorem putField_eq (spec : Spec) (len : ℕ) (text : List Byte) :
    putField spec len (rprintfChars text) =
      rprintfChars (spec.justify len text) := by
  rw [putField, Spec.justify, Spec.pads]
  split
  · rw [padLoop_eq, rprintfChars_append, List.nil_append]
  · rw [padLoop_eq, rprintfChars_append, List.append_nil]

theorem strLoop_eq (prec : BitVec 32) (i : ℕ) (bp : List Byte) :
    strLoop prec i bp = rprintfChars (bp.take (prec.toInt.toNat - i)) := by
  induction bp generalizing i with
  | nil => simp [strLoop]
  | cons c bp ih =>
      rw [strLoop]
      split
      · rename_i hlt
        have hnext : prec.toInt.toNat - i = prec.toInt.toNat - (i + 1) + 1 := by
          omega
        rw [ih, hnext, List.take_succ_cons, rprintfChars_cons]
      · rename_i hge
        have hnone : prec.toInt.toNat - i = 0 := by omega
        rw [hnone]
        rfl

/-! ## What a format prints -/

/-- The conversions.  Other characters take no argument and print nothing. -/
inductive Conv
  | number (k : Number)
  | char
  | str
  | percent
  | other (c : Byte) (unknown : c ∉ "doxucs%".toList.map ch)

def Conv.letter : Conv → Byte
  | .number k => k.letter
  | .char => ch 'c'
  | .str => ch 's'
  | .percent => ch '%'
  | .other c _ => c

/-- What a conversion prints with the texts `num` of the numbers, before a line
feed becomes two characters, and the arguments it leaves.  The width of a
string counts all its characters, the precision cuts it. -/
def Conv.print (num : Bool → BitVec 32 → Number → List Byte) (spec : Spec) :
    Conv → List Arg → Option (List Byte × List Arg)
  | .number k, args => (vaInt args).map fun (v, args) =>
      let text := num spec.hash v k
      (spec.justify text.length text, args)
  | .char, args => (vaInt args).map fun (v, args) => ([v.setWidth 8], args)
  | .str, args => (vaStr args).map fun (s, args) =>
      let text := s.elim nilString CString.bytes
      (spec.justify text.length (text.take spec.prec.toInt.toNat), args)
  | .percent, args => some ([ch '%'], args)
  | .other _ _, args => some ([], args)

theorem convert_eq (spec : Spec) (conv : Conv) (args : List Arg) :
    convert spec conv.letter args =
      (conv.print Number.printed spec args).map fun (out, args) =>
        (rprintfChars out, args) := by
  have harg : (if spec.doLong then vaLong args else vaInt args) = vaInt args :=
    ite_self _
  unfold convert
  rw [harg]
  cases conv with
  | number k =>
      have hnumber : ∀ v : BitVec 32,
          putField spec (numberBuf spec.hash v k).length
              (rprintfChars (numberBuf spec.hash v k)) =
            rprintfChars (spec.justify (k.printed spec.hash v).length
              (k.printed spec.hash v)) := by
        intro v
        rw [numberBuf_eq, putField_eq]
      simp only [Conv.print, Option.map_map, Function.comp_def, ← hnumber]
      cases k <;> rfl
  | char =>
      simp only [Conv.print, Option.map_map, Function.comp_def,
        rprintfChars_cons, rprintfChars_nil, List.append_nil]
      rfl
  | str =>
      have hstr : ∀ bp : List Byte,
          putField spec bp.length (strLoop spec.prec 0 bp) =
            rprintfChars (spec.justify bp.length
              (bp.take spec.prec.toInt.toNat)) := by
        intro bp
        rw [strLoop_eq, Nat.sub_zero, putField_eq]
      simp only [Conv.print, Option.map_map, Function.comp_def, ← hstr]
      rfl
  | percent => rfl
  | other c unknown =>
      have hne : ∀ x ∈ "doxucs%".toList.map ch,
          (Conv.other c unknown).letter ≠ x := by
        rintro x hx rfl
        exact unknown hx
      rw [if_neg (hne _ (by decide)), if_neg (hne _ (by decide)),
        if_neg (hne _ (by decide)), if_neg (hne _ (by decide)),
        if_neg (hne _ (by decide)), if_neg (hne _ (by decide)),
        if_neg (hne _ (by decide))]
      rfl

/-- A piece of a format: a byte that is no percent sign, or a directive whose
conversion character does not continue its flags. -/
inductive Piece
  | lit (c : Byte) (noPercent : c ≠ ch '%')
  | directive (fl : Flags) (conv : Conv)
      (ends : flagScanner.Before fl [conv.letter])

def Piece.format : Piece → List Byte
  | .lit c _ => [c]
  | .directive fl conv _ => ch '%' :: flagScanner.text fl ++ [conv.letter]

/-- What pieces print with the texts `num` of the numbers, before a line feed
becomes two characters. -/
def printPieces (num : Bool → BitVec 32 → Number → List Byte) :
    List Piece → List Arg → Option (List Byte)
  | [], _ => some []
  | .lit c _ :: pieces, args => (printPieces num pieces args).map (c :: ·)
  | .directive fl conv _ :: pieces, args =>
      (fl.spec args).bind fun (spec, args) =>
        (conv.print num spec args).bind fun (out, args) =>
          (printPieces num pieces args).map (out ++ ·)

/-- The argument that a conversion takes for `%d`. -/
def Conv.decimals : Conv → List Arg → List (BitVec 32)
  | .number .dec, .int v :: _ => [v]
  | _, _ => []

/-- The arguments that `%d` takes. -/
def decimals : List Piece → List Arg → List (BitVec 32)
  | [], _ => []
  | .lit _ _ :: pieces, args => decimals pieces args
  | .directive fl conv _ :: pieces, args =>
      ((fl.spec args).bind fun (spec, args) =>
        (conv.print Number.text spec args).map fun (_, rest) =>
          conv.decimals args ++ decimals pieces rest).getD []

theorem rprintf2_lit {c : Byte} (noPercent : c ≠ ch '%') (f : List Byte)
    (args : List Arg) :
    rprintf2 (c :: f) args = (rprintf2 f args).map (rprintfChar c ++ ·) := by
  rw [rprintf2, if_pos noPercent]

theorem rprintf2_directive {fl : Flags} {fmt : Byte}
    (ends : flagScanner.Before fl [fmt]) (f : List Byte) (args : List Arg) :
    rprintf2 (ch '%' :: flagScanner.text fl ++ fmt :: f) args =
      (fl.spec args).bind fun (spec, args) =>
        (convert spec fmt args).bind fun (out, args) =>
          (rprintf2 f args).map (out ++ ·) := by
  have hread : flagScanner.read (flagScanner.text fl ++ fmt :: f) =
      (fl, fmt :: f) :=
    flagScanner.read_text (flagScanner.lookahead
      (show [fmt].head? = (fmt :: f).head? from rfl) ends)
  have hspec := readSpec_eq (flagScanner.text fl ++ fmt :: f) args
  rw [hread] at hspec
  rw [List.cons_append, rprintf2, if_neg (not_not.mpr rfl)]
  split
  · rename_i spec fmt' rest args' hsome
    obtain ⟨⟨spec, args⟩, htake, heq⟩ :=
      Option.map_eq_some_iff.mp (hspec.symm.trans hsome)
    cases heq
    rw [htake]
    rfl
  · rename_i hnone
    cases htake : fl.spec args with
    | none => rfl
    | some taken =>
        rw [htake] at hspec
        exact absurd hspec (hnone _ _ _ _)

/-- A format that ends inside a directive. -/
theorem rprintf2_unfinished {fl : Flags} (ends : flagScanner.Before fl [])
    (args : List Arg) :
    rprintf2 (ch '%' :: flagScanner.text fl) args = none := by
  have hread : flagScanner.read (flagScanner.text fl ++ []) = (fl, []) :=
    flagScanner.read_text ends
  have hspec := readSpec_eq (flagScanner.text fl ++ []) args
  rw [hread, List.append_nil] at hspec
  rw [rprintf2, if_neg (not_not.mpr rfl)]
  split
  · rename_i spec fmt rest args' hsome
    obtain ⟨_, _, heq⟩ := Option.map_eq_some_iff.mp (hspec.symm.trans hsome)
    cases heq
  · rfl

/-- The interpreter prints a format piece by piece. -/
theorem rprintf2_format (pieces : List Piece) (args : List Arg) :
    rprintf2 (pieces.flatMap Piece.format) args =
      (printPieces Number.printed pieces args).map rprintfChars := by
  induction pieces generalizing args with
  | nil => simp [rprintf2, printPieces]
  | cons piece pieces ih =>
      rw [List.flatMap_cons]
      cases piece with
      | lit c noPercent =>
          rw [Piece.format, List.singleton_append, rprintf2_lit noPercent, ih]
          simp [printPieces, Function.comp_def]
      | directive fl conv ends =>
          rw [Piece.format, List.append_assoc, List.singleton_append,
            rprintf2_directive ends]
          simp only [convert_eq, ih, printPieces, Option.map_bind,
            Option.bind_map, Option.map_map, Function.comp_def,
            rprintfChars_append]

/-- A format that ends inside a directive is read on behind its end. -/
theorem rprintf2_format_unfinished (pieces : List Piece) {fl : Flags}
    (ends : flagScanner.Before fl []) (args : List Arg) :
    rprintf2 (pieces.flatMap Piece.format ++ ch '%' :: flagScanner.text fl)
      args = none := by
  induction pieces generalizing args with
  | nil => exact rprintf2_unfinished ends args
  | cons piece pieces ih =>
      rw [List.flatMap_cons, List.append_assoc]
      cases piece with
      | lit c noPercent =>
          rw [Piece.format, List.singleton_append, rprintf2_lit noPercent, ih]
          rfl
      | directive fl' conv ends' =>
          rw [Piece.format, List.append_assoc, List.singleton_append,
            rprintf2_directive ends']
          simp only [ih]
          simp

/-- Every conversion character has its conversion. -/
theorem exists_conv (c : Byte) : ∃ conv : Conv, conv.letter = c := by
  by_cases hmem : c ∈ "doxucs%".toList.map ch
  · change c ∈ [ch 'd', ch 'o', ch 'x', ch 'u', ch 'c', ch 's', ch '%'] at hmem
    simp only [List.mem_cons, List.not_mem_nil, or_false] at hmem
    rcases hmem with rfl | rfl | rfl | rfl | rfl | rfl | rfl
    · exact ⟨.number .dec, rfl⟩
    · exact ⟨.number .oct, rfl⟩
    · exact ⟨.number .hex, rfl⟩
    · exact ⟨.number .uns, rfl⟩
    · exact ⟨.char, rfl⟩
    · exact ⟨.str, rfl⟩
    · exact ⟨.percent, rfl⟩
  · exact ⟨.other c hmem, rfl⟩

/-- Every format is a list of pieces, up to an unfinished directive. -/
theorem exists_pieces (f : List Byte) :
    ∃ pieces : List Piece, f = pieces.flatMap Piece.format ∨
      ∃ fl, flagScanner.Before fl [] ∧
        f = pieces.flatMap Piece.format ++ ch '%' :: flagScanner.text fl := by
  induction hn : f.length using Nat.strong_induction_on generalizing f with
  | h n ih =>
      -- One piece in front of the pieces of a shorter rest.
      have hcons : ∀ (piece : Piece) (rest : List Byte), rest.length < n →
          f = piece.format ++ rest → ∃ pieces : List Piece,
            f = pieces.flatMap Piece.format ∨
              ∃ fl, flagScanner.Before fl [] ∧
                f = pieces.flatMap Piece.format ++
                  ch '%' :: flagScanner.text fl := by
        intro piece rest hlt hf
        obtain ⟨pieces, hrest⟩ := ih _ hlt rest rfl
        refine ⟨piece :: pieces, ?_⟩
        rw [List.flatMap_cons, hf]
        rcases hrest with hrest | ⟨fl, ends, hrest⟩
        · exact Or.inl (by rw [← hrest])
        · exact Or.inr ⟨fl, ends, by rw [List.append_assoc, ← hrest]⟩
      cases f with
      | nil => exact ⟨[], Or.inl rfl⟩
      | cons c f =>
          rw [List.length_cons] at hn
          by_cases hpercent : c = ch '%'
          · subst hpercent
            have htext := flagScanner.text_read f
            have hbefore := flagScanner.before_read f
            have hle := flagScanner.length_read_le f
            generalize (flagScanner.read f).1 = fl at htext hbefore
            generalize (flagScanner.read f).2 = rest at htext hbefore hle
            cases rest with
            | nil =>
                refine ⟨[], Or.inr ⟨fl, hbefore, ?_⟩⟩
                rw [← htext, List.append_nil]
                rfl
            | cons x rest =>
                obtain ⟨conv, rfl⟩ := exists_conv x
                refine hcons (.directive fl conv (flagScanner.lookahead (show
                  (conv.letter :: rest).head? = [conv.letter].head? from rfl)
                  hbefore)) rest ?_ ?_
                · rw [List.length_cons] at hle
                  omega
                · rw [Piece.format, List.append_assoc, List.singleton_append,
                    List.cons_append, htext]
          · exact hcons (.lit c hpercent) f (by omega) rfl

/-! ## The most negative number -/

theorem Flags.spec_pad {fl : Flags} {args args' : List Arg} {spec : Spec}
    (h : fl.spec args = some (spec, args')) :
    spec.pad = ch ' ' ∨ spec.pad = ch '0' := by
  obtain ⟨_, _, h⟩ := Option.bind_eq_some_iff.mp h
  obtain ⟨_, _, h⟩ := Option.map_eq_some_iff.mp h
  have hpad := congrArg (fun x : Spec × List Arg => x.1.pad) h
  simp only at hpad
  rw [← hpad]
  split
  · exact Or.inr rfl
  · exact Or.inl rfl

/-- Only the text of a field can have a character that is no pad. -/
theorem Spec.count_justify {spec : Spec}
    (hpad : spec.pad = ch ' ' ∨ spec.pad = ch '0') {c : Byte}
    (hblank : ch ' ' ≠ c) (hzero : ch '0' ≠ c) (len : ℕ) (text : List Byte) :
    (spec.justify len text).count c = text.count c := by
  have hne : spec.pad ≠ c := by
    rcases hpad with hpad | hpad
    · rwa [hpad]
    · rwa [hpad]
  rw [Spec.justify]
  split
  · rw [List.count_append, List.count_replicate, if_neg (by simpa using hblank),
      Nat.add_zero]
  · rw [List.count_append, List.count_replicate, if_neg (by simpa using hne),
      Nat.zero_add]

theorem paren_notMem_numeral {base : ℕ} (hbase : 1 < base) (hle : base ≤ 16)
    (n : ℕ) : ch '(' ∉ numeral base n := by
  have hdigit : ∀ i < 16, hexDigit i ≠ ch '(' := by decide
  intro hmem
  obtain ⟨i, hi, heq⟩ := List.mem_map.mp hmem
  exact hdigit i ((lt_of_mem_digits hbase hi).trans_le hle) heq

theorem count_paren_text_intMin (hash : Bool) :
    (Number.dec.text hash intMin).count (ch '(') = 0 := by
  have hnumeral := paren_notMem_numeral one_lt_ten (by decide)
    intMin.toInt.natAbs
  rw [Number.text, if_pos (by decide), List.count_append,
    List.count_eq_zero.mpr hnumeral]
  decide

theorem count_paren_rprintfChars (cs : List Byte) :
    (rprintfChars cs).count (ch '(') = cs.count (ch '(') := by
  induction cs with
  | nil => rfl
  | cons c cs ih =>
      have hone : (rprintfChar c).count (ch '(') = [c].count (ch '(') := by
        unfold rprintfChar
        split
        · rename_i hlf
          rw [hlf]
          decide
        · rfl
      rw [rprintfChars_cons, List.count_append, hone, ih, ← List.count_append,
        List.singleton_append]

/-- What a conversion prints is what it means, but for a parenthesis in place of
the digits of the most negative number. -/
theorem Conv.print_printed {spec : Spec}
    (hpad : spec.pad = ch ' ' ∨ spec.pad = ch '0') (conv : Conv)
    {args rest : List Arg} {out : List Byte}
    (h : conv.print Number.text spec args = some (out, rest)) :
    ∃ out', conv.print Number.printed spec args = some (out', rest) ∧
      out'.count (ch '(') =
        out.count (ch '(') + (conv.decimals args).count intMin ∧
      (intMin ∉ conv.decimals args → out' = out) := by
  cases conv with
  | number k =>
      match args, h with
      | .int v :: args, h =>
          obtain ⟨rfl, rfl⟩ := Prod.mk.inj (Option.some_inj.mp h)
          refine ⟨_, rfl, ?_⟩
          by_cases hmin : k = .dec ∧ v = intMin
          · obtain ⟨rfl, rfl⟩ := hmin
            simp only [Number.printed_intMin, Conv.decimals]
            rw [Spec.count_justify hpad (by decide) (by decide),
              Spec.count_justify hpad (by decide) (by decide),
              count_paren_text_intMin]
            exact ⟨by decide, fun hnot => absurd List.mem_cons_self hnot⟩
          · have hnone : intMin ∉ (Conv.number k).decimals
                (.int v :: args) := by
              intro hmem
              cases k with
              | dec => exact hmin ⟨rfl, (List.mem_singleton.mp hmem).symm⟩
              | _ => cases hmem
            rw [List.count_eq_zero.mpr hnone]
            rw [Number.printed_of_ne hmin]
            exact ⟨rfl, fun _ => rfl⟩
  | char => exact ⟨out, h, rfl, fun _ => rfl⟩
  | str => exact ⟨out, h, rfl, fun _ => rfl⟩
  | percent => exact ⟨out, h, rfl, fun _ => rfl⟩
  | other c unknown => exact ⟨out, h, rfl, fun _ => rfl⟩

theorem Conv.print_printed_none {spec : Spec} {conv : Conv} {args : List Arg}
    (h : conv.print Number.text spec args = none) :
    conv.print Number.printed spec args = none := by
  cases conv with
  | number k =>
      have hnone : vaInt args = none := Option.map_eq_none_iff.mp h
      simp only [Conv.print, hnone]
      rfl
  | char => exact h
  | str => exact h
  | percent => exact h
  | other c unknown => exact h

/-- The same for whole formats. -/
theorem printPieces_printed {pieces : List Piece} {args : List Arg}
    {out : List Byte} (h : printPieces Number.text pieces args = some out) :
    ∃ out', printPieces Number.printed pieces args = some out' ∧
      out'.count (ch '(') =
        out.count (ch '(') + (decimals pieces args).count intMin ∧
      (intMin ∉ decimals pieces args → out' = out) := by
  induction pieces generalizing args out with
  | nil => exact ⟨out, h, rfl, fun _ => rfl⟩
  | cons piece pieces ih =>
      cases piece with
      | lit c noPercent =>
          obtain ⟨tail, htail, rfl⟩ := Option.map_eq_some_iff.mp h
          obtain ⟨tail', htail', hcount, hsame⟩ := ih htail
          refine ⟨c :: tail', by rw [printPieces, htail']; rfl, ?_, ?_⟩
          · rw [List.count_cons, List.count_cons, hcount, Nat.add_right_comm]
            rfl
          · exact fun hnot => congrArg (c :: ·) (hsame hnot)
      | directive fl conv ends =>
          obtain ⟨⟨spec, args'⟩, hspec, h⟩ := Option.bind_eq_some_iff.mp h
          obtain ⟨⟨shown, rest⟩, hshown, h⟩ := Option.bind_eq_some_iff.mp h
          obtain ⟨tail, htail, rfl⟩ := Option.map_eq_some_iff.mp h
          obtain ⟨shown', hshown', hcount, hsame⟩ :=
            Conv.print_printed (Flags.spec_pad hspec) conv hshown
          obtain ⟨tail', htail', htailCount, htailSame⟩ := ih htail
          have hdecimals : decimals (.directive fl conv ends :: pieces) args =
              conv.decimals args' ++ decimals pieces rest := by
            simp only [decimals, hspec, Option.bind_some, hshown,
              Option.map_some, Option.getD_some]
          refine ⟨shown' ++ tail', ?_, ?_, ?_⟩
          · simp only [printPieces, hspec, Option.bind_some, hshown', htail',
              Option.map_some]
          · rw [hdecimals, List.count_append, List.count_append,
              List.count_append, hcount, htailCount]
            omega
          · rw [hdecimals]
            intro hnot
            rw [List.mem_append, not_or] at hnot
            rw [hsame hnot.1, htailSame hnot.2]

theorem printPieces_printed_none {pieces : List Piece} {args : List Arg}
    (h : printPieces Number.text pieces args = none) :
    printPieces Number.printed pieces args = none := by
  induction pieces generalizing args with
  | nil => cases h
  | cons piece pieces ih =>
      cases piece with
      | lit c noPercent =>
          rw [printPieces, ih (Option.map_eq_none_iff.mp h)]
          rfl
      | directive fl conv ends =>
          rw [printPieces] at h ⊢
          cases hspec : fl.spec args with
          | none => rfl
          | some taken =>
              obtain ⟨spec, args'⟩ := taken
              rw [hspec, Option.bind_some] at h
              rw [Option.bind_some]
              cases hshown : conv.print Number.text spec args' with
              | none =>
                  simp only [Conv.print_printed_none hshown]
                  rfl
              | some shown =>
                  obtain ⟨shown, rest⟩ := shown
                  obtain ⟨shown', hshown', _⟩ :=
                    Conv.print_printed (Flags.spec_pad hspec) conv hshown
                  simp only [hshown, Option.bind_some] at h
                  simp only [hshown', Option.bind_some]
                  rw [ih (Option.map_eq_none_iff.mp h)]
                  rfl

/-- Every format is a list of pieces, perhaps with an unfinished directive
behind them.  With the arguments they need, a list of pieces is printed as it
means, with a carriage return in front of every line feed, exactly when `%d`
never takes the most negative number, for which a minus sign and a parenthesis
are printed; an unfinished directive leads behind the end of the format. -/
theorem rprintf2_prints_pieces (f : CString) (args : List Arg) :
    (∃ pieces : List Piece, f.bytes = pieces.flatMap Piece.format ∨
      ∃ fl, flagScanner.Before fl [] ∧
        f.bytes = pieces.flatMap Piece.format ++
          ch '%' :: flagScanner.text fl) ∧
    (∀ pieces : List Piece, f.bytes = pieces.flatMap Piece.format →
      rprintf2 f.bytes args =
        (printPieces Number.printed pieces args).map rprintfChars ∧
      (printPieces Number.text pieces args = none →
        rprintf2 f.bytes args = none) ∧
      ∀ out, printPieces Number.text pieces args = some out →
        (rprintf2 f.bytes args = some (rprintfChars out) ↔
          intMin ∉ decimals pieces args)) ∧
    ∀ (pieces : List Piece) (fl : Flags), flagScanner.Before fl [] →
      f.bytes = pieces.flatMap Piece.format ++
          ch '%' :: flagScanner.text fl →
        rprintf2 f.bytes args = none := by
  refine ⟨exists_pieces f.bytes, ?_, ?_⟩
  · intro pieces hf
    have hrun := rprintf2_format pieces args
    rw [← hf] at hrun
    refine ⟨hrun, ?_, ?_⟩
    · intro hnone
      rw [hrun, printPieces_printed_none hnone]
      rfl
    · intro out hout
      obtain ⟨out', hout', hcount, hsame⟩ := printPieces_printed hout
      rw [hrun, hout', Option.map_some, Option.some_inj]
      constructor
      · intro heq
        have hparens := congrArg (List.count (ch '(')) heq
        rw [count_paren_rprintfChars, count_paren_rprintfChars] at hparens
        exact List.count_eq_zero.mp (by omega)
      · exact fun hnot => congrArg rprintfChars (hsame hnot)
  · intro pieces fl ends hf
    rw [hf, rprintf2_format_unfinished pieces ends]

end EmbBoard.Rprintf
