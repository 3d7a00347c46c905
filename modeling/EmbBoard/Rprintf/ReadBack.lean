import EmbBoard.Rprintf.Format

/-!
# Printed numbers read back

A number that the complex printf prints in a field is read back by the standard
reader of numbers: blanks, a minus sign, `0x` in base sixteen, digits.  Zeros in
front of a minus sign or of `0x` end the number before it has begun.
-/

namespace EmbBoard.Rprintf

open EmbBoard.Numeral

/-- The value of a digit of the bases up to sixteen. -/
def digitValue (c : Byte) : Option ℕ :=
  if ch '0' ≤ c ∧ c ≤ ch '9' then some (c.toNat - 48)
  else if ch 'a' ≤ c ∧ c ≤ ch 'f' then some (c.toNat - 87)
  else if ch 'A' ≤ c ∧ c ≤ ch 'F' then some (c.toNat - 55)
  else none

/-- The number whose digits stand at the front of a text. -/
def scanDigits (base v : ℕ) : List Byte → ℕ
  | [] => v
  | c :: s =>
      match digitValue c with
      | some d => if d < base then scanDigits base (v * base + d) s else v
      | none => v

def readNat (base : ℕ) (s : List Byte) : ℕ :=
  if base = 16 ∧ s.take 2 = [ch '0', ch 'x'] then scanDigits base 0 (s.drop 2)
  else scanDigits base 0 s

/-- The number at the front of a text, as `strtol` reads it but without bounds;
zero when there is none. -/
def readNumber (base : ℕ) (s : List Byte) : ℤ :=
  let s := s.dropWhile (· == ch ' ')
  if s.head? = some (ch '-') then -(readNat base s.tail : ℤ)
  else readNat base s

/-! ## Reading digits -/

theorem digitValue_hexDigit {i : ℕ} (h : i < 16) :
    digitValue (hexDigit i) = some i := by
  have hall : ∀ i < 16, digitValue (hexDigit i) = some i := by decide
  exact hall i h

/-- The digits are read up to the first character that is none. -/
theorem scanDigits_digits {base : ℕ} (hbase : base ≤ 16) {ds : List ℕ}
    (hds : ∀ d ∈ ds, d < base) {rest : List Byte}
    (hrest : ∀ c ∈ rest.head?, digitValue c = none) (v : ℕ) :
    scanDigits base v (ds.map hexDigit ++ rest) =
      ds.foldl (fun v d => v * base + d) v := by
  induction ds generalizing v with
  | nil =>
      cases rest with
      | nil => rfl
      | cons c rest =>
          have hnone := hrest c rfl
          simp [scanDigits, hnone]
  | cons d ds ih =>
      have hd := hds d List.mem_cons_self
      rw [List.map_cons, List.cons_append, scanDigits,
        digitValue_hexDigit (hd.trans_le hbase)]
      simp only [hd, if_true, List.foldl_cons]
      exact ih (fun d hd => hds d (List.mem_cons_of_mem _ hd)) _

theorem hexDigit_ne_x {i : ℕ} (h : i < 16) : hexDigit i ≠ ch 'x' := by
  intro heq
  have hvalue := digitValue_hexDigit h
  have hnone : digitValue (ch 'x') = none := by decide
  rw [heq, hnone] at hvalue
  cases hvalue

/-- Digits are read as their number, if no `x` follows a lone zero. -/
theorem readNat_digits {base : ℕ} (hbase : base ≤ 16) {ds : List ℕ}
    (hds : ∀ d ∈ ds, d < base) {rest : List Byte}
    (hrest : ∀ c ∈ rest.head?, digitValue c = none)
    (hx : rest.head? = some (ch 'x') → 2 ≤ ds.length) :
    readNat base (ds.map hexDigit ++ rest) = value base ds := by
  have hno0x : (ds.map hexDigit ++ rest).take 2 ≠ [ch '0', ch 'x'] := by
    intro htake
    match ds, hds, hx with
    | [], _, hx =>
        cases rest with
        | nil => cases htake
        | cons c rest =>
            have hzero : c = ch '0' := (List.cons.inj htake).1
            have hnone := hrest c rfl
            rw [hzero] at hnone
            exact absurd hnone (by decide)
    | [d], _, hx =>
        cases rest with
        | nil => exact absurd (congrArg List.length htake) (by simp)
        | cons c rest =>
            have hc : c = ch 'x' :=
              (List.cons.inj (List.cons.inj htake).2).1
            have htwo := hx (by rw [hc]; rfl)
            simp at htwo
    | d :: e :: ds, hds, _ =>
        have he : hexDigit e = ch 'x' :=
          (List.cons.inj (List.cons.inj htake).2).1
        have hlt := hds e (by simp)
        exact hexDigit_ne_x (hlt.trans_le hbase) he
  rw [readNat, if_neg (fun h => hno0x h.2), scanDigits_digits hbase hds hrest]
  rfl

theorem readNumber_blanks (base n : ℕ) (s : List Byte) :
    readNumber base (List.replicate n (ch ' ') ++ s) = readNumber base s := by
  have hdrop : (List.replicate n (ch ' ') ++ s).dropWhile (· == ch ' ') =
      s.dropWhile (· == ch ' ') := by
    induction n with
    | zero => rfl
    | succ n ih => exact ih
  unfold readNumber
  rw [hdrop]

theorem readNumber_minus (base : ℕ) (s : List Byte) :
    readNumber base (ch '-' :: s) = -(readNat base s : ℤ) := rfl

theorem readNumber_digit (base : ℕ) {c : Byte} (hc : digitValue c ≠ none)
    (s : List Byte) : readNumber base (c :: s) = readNat base (c :: s) := by
  have hblank : (c == ch ' ') = false := by
    refine beq_eq_false_iff_ne.mpr ?_
    rintro rfl
    exact hc (by decide)
  have hminus : (c :: s).head? ≠ some (ch '-') := by
    rintro h
    rw [Option.some_inj.mp h] at hc
    exact hc (by decide)
  unfold readNumber
  rw [List.dropWhile_cons_of_neg (by simp [hblank])]
  exact if_neg hminus

/-! ## Numbers in their fields -/

/-- What stands in front of the digits of a number. -/
def Number.mark (hash : Bool) (v : BitVec 32) : Number → List Byte
  | .dec => if v.toInt < 0 then [ch '-'] else []
  | .hex => if hash then [ch '0', ch 'x'] else []
  | .oct | .uns => []

/-- The number that a conversion shows. -/
def Number.shown (v : BitVec 32) : Number → ℤ
  | .dec => v.toInt
  | .oct | .hex | .uns => v.toNat

def Number.base : Number → ℕ
  | .dec | .uns => 10
  | .oct => 8
  | .hex => 16

theorem Number.base_bounds (k : Number) : 1 < k.base ∧ k.base ≤ 16 := by
  cases k <;> decide

/-- The text of a number is its mark and digits. -/
theorem Number.text_eq (hash : Bool) (v : BitVec 32) (k : Number) :
    ∃ ds : List ℕ, k.text hash v = k.mark hash v ++ ds.map hexDigit ∧
      ds ≠ [] ∧ (∀ d ∈ ds, d < k.base) ∧
      value k.base ds = (k.shown v).natAbs := by
  have hdigits : ∀ n, ∀ d ∈ digits k.base n, d < k.base :=
    fun n d hd => lt_of_mem_digits k.base_bounds.1 hd
  cases k with
  | dec =>
      exact ⟨digits 10 v.toInt.natAbs, rfl, digits_ne_nil _ _, hdigits _,
        value_digits _ _⟩
  | oct =>
      refine ⟨(if hash then [0] else []) ++ digits 8 v.toNat, ?_, ?_, ?_, ?_⟩
      · rw [Number.text, List.map_append]
        cases hash <;> rfl
      · exact List.append_ne_nil_of_right_ne_nil _ (digits_ne_nil _ _)
      · intro d hd
        rcases List.mem_append.mp hd with hzero | hd
        · cases hash with
          | false => cases hzero
          | true =>
              rw [List.mem_singleton.mp hzero]
              decide
        · exact hdigits _ d hd
      · have hvalue := value_digits 8 v.toNat
        cases hash with
        | false => exact hvalue
        | true => exact (value_zeros_append 8 1 _).trans hvalue
  | hex =>
      exact ⟨digits 16 v.toNat, rfl, digits_ne_nil _ _, hdigits _,
        value_digits _ _⟩
  | uns =>
      exact ⟨digits 10 v.toNat, rfl, digits_ne_nil _ _, hdigits _,
        value_digits _ _⟩

theorem Number.mark_cases (hash : Bool) (v : BitVec 32) (k : Number) :
    (k.mark hash v = [] ∧ 0 ≤ k.shown v) ∨
      (k.mark hash v = [ch '-'] ∧ k.shown v < 0) ∨
      (k = .hex ∧ k.mark hash v = [ch '0', ch 'x']) := by
  cases k with
  | dec =>
      by_cases hneg : v.toInt < 0
      · exact Or.inr (Or.inl ⟨if_pos hneg, hneg⟩)
      · exact Or.inl ⟨if_neg hneg, not_lt.mp hneg⟩
  | oct => exact Or.inl ⟨rfl, Int.natCast_nonneg _⟩
  | hex =>
      cases hash with
      | true => exact Or.inr (Or.inr ⟨rfl, rfl⟩)
      | false => exact Or.inl ⟨rfl, Int.natCast_nonneg _⟩
  | uns => exact Or.inl ⟨rfl, Int.natCast_nonneg _⟩

/-- Digits without a mark. -/
theorem readNumber_digits {base : ℕ} (hbase : base ≤ 16) {ds : List ℕ}
    (hne : ds ≠ []) (hds : ∀ d ∈ ds, d < base) {rest : List Byte}
    (hrest : ∀ c ∈ rest.head?, digitValue c = none)
    (hx : rest.head? = some (ch 'x') → 2 ≤ ds.length) :
    readNumber base (ds.map hexDigit ++ rest) = value base ds := by
  rw [← readNat_digits hbase hds hrest hx]
  match ds, hne with
  | d :: ds, _ =>
      have hd := hds d List.mem_cons_self
      refine readNumber_digit base ?_ _
      rw [digitValue_hexDigit (hd.trans_le hbase)]
      exact Option.some_ne_none d

/-- A number is read back behind blanks and before them. -/
theorem readNumber_text (hash : Bool) (v : BitVec 32) (k : Number) (n m : ℕ) :
    readNumber k.base (List.replicate n (ch ' ') ++ k.text hash v ++
      List.replicate m (ch ' ')) = k.shown v := by
  obtain ⟨ds, htext, hne, hds, hvalue⟩ := k.text_eq hash v
  have hbase := k.base_bounds.2
  have hrest : ∀ c ∈ (List.replicate m (ch ' ')).head?, digitValue c = none := by
    intro c hc
    rw [List.eq_of_mem_replicate (List.mem_of_mem_head? hc)]
    decide
  have hx : (List.replicate m (ch ' ')).head? = some (ch 'x') →
      2 ≤ ds.length := by
    intro hc
    have heq := List.eq_of_mem_replicate (List.mem_of_mem_head? hc)
    exact absurd heq (by decide)
  rw [List.append_assoc, readNumber_blanks, htext, List.append_assoc]
  rcases k.mark_cases hash v with ⟨hmark, hpos⟩ | ⟨hmark, hneg⟩ | ⟨rfl, hmark⟩
  · rw [hmark, List.nil_append, readNumber_digits hbase hne hds hrest hx, hvalue]
    omega
  · rw [hmark, List.singleton_append, readNumber_minus,
      readNat_digits hbase hds hrest hx, hvalue]
    omega
  · have hread : readNat 16 ([ch '0', ch 'x'] ++
        (ds.map hexDigit ++ List.replicate m (ch ' '))) = value 16 ds := by
      rw [readNat, if_pos ⟨rfl, rfl⟩]
      exact scanDigits_digits hbase hds hrest 0
    rw [hmark]
    refine (readNumber_digit 16 (by decide) _).trans ?_
    exact congrArg Nat.cast (hread.trans hvalue)

theorem replicate_zero_char (n : ℕ) :
    List.replicate n (ch '0') = (List.replicate n 0).map hexDigit := by
  rw [List.map_replicate]
  rfl

/-- A mark ends the number that zeros begin. -/
theorem readNumber_zeros_stop {base : ℕ} (hpos : 0 < base) (hbase : base ≤ 16)
    {n : ℕ} (hn : 0 < n) {c : Byte} (hc : digitValue c = none)
    (hx : c = ch 'x' → 2 ≤ n) (s : List Byte) :
    readNumber base (List.replicate n (ch '0') ++ c :: s) = 0 := by
  have hzero := value_zeros_append base n []
  rw [List.append_nil] at hzero
  rw [replicate_zero_char, readNumber_digits hbase, hzero]
  · rfl
  · exact List.ne_nil_of_length_pos (by simpa using hn)
  · intro d hd
    rwa [List.eq_of_mem_replicate hd]
  · intro x hx
    rwa [← Option.some_inj.mp hx]
  · intro hhead
    rw [List.length_replicate]
    exact hx (Option.some_inj.mp hhead)

/-- Behind zeros a number is read back if it has no mark, or is zero. -/
theorem readNumber_zeros (hash : Bool) (v : BitVec 32) (k : Number) (n : ℕ) :
    readNumber k.base (List.replicate n (ch '0') ++ k.text hash v) =
        k.shown v ↔
      (0 < n → k.mark hash v = [] ∨ k.shown v = 0) := by
  obtain ⟨ds, htext, hne, hds, hvalue⟩ := k.text_eq hash v
  have hbase := k.base_bounds
  have hpos : 0 < k.base := by omega
  rcases Nat.eq_zero_or_pos n with rfl | hn
  · have hread := readNumber_text hash v k 0 0
    rw [List.replicate_zero, List.nil_append, List.append_nil] at hread
    exact iff_of_true hread fun hn => absurd hn (lt_irrefl 0)
  · rcases k.mark_cases hash v with ⟨hmark, hsign⟩ | ⟨hmark, hneg⟩ | ⟨rfl, hmark⟩
    · refine iff_of_true ?_ (fun _ => Or.inl hmark)
      have hall : ∀ d ∈ List.replicate n 0 ++ ds, d < k.base := by
        intro d hd
        rcases List.mem_append.mp hd with hzero | hd
        · rwa [List.eq_of_mem_replicate hzero]
        · exact hds d hd
      have hread := readNumber_digits hbase.2
        (List.append_ne_nil_of_right_ne_nil (List.replicate n 0) hne) hall
        (show ∀ c ∈ ([] : List Byte).head?, digitValue c = none by simp)
        (by simp)
      rw [List.append_nil, List.map_append, ← replicate_zero_char,
        value_zeros_append, hvalue] at hread
      rw [htext, hmark, List.nil_append, hread]
      omega
    · have hread := readNumber_zeros_stop hpos hbase.2 hn
        (show digitValue (ch '-') = none by decide)
        (fun hx => absurd hx (by decide)) (ds.map hexDigit)
      rw [htext, hmark, List.singleton_append, hread]
      refine iff_of_false hneg.ne' fun hback => ?_
      rcases hback hn with hnil | hzero
      · cases hnil
      · exact hneg.ne hzero
    · have hread := readNumber_zeros_stop hpos hbase.2 (Nat.succ_pos n)
        (show digitValue (ch 'x') = none by decide)
        (fun _ => Nat.succ_le_succ hn) (ds.map hexDigit)
      rw [List.replicate_succ', List.append_assoc] at hread
      rw [htext, hmark, show [ch '0', ch 'x'] ++ ds.map hexDigit =
        [ch '0'] ++ ch 'x' :: ds.map hexDigit from rfl, hread]
      constructor
      · intro hzero _
        exact Or.inr hzero.symm
      · intro hback
        rcases hback hn with hnil | hzero
        · cases hnil
        · exact hzero.symm

/-- What is printed of the most negative number is read as zero. -/
theorem readNumber_intMin {c : Byte} (hc : c = ch ' ' ∨ c = ch '0') (n m : ℕ)
    (hash : Bool) :
    readNumber 10 (List.replicate n c ++ Number.dec.printed hash intMin ++
      List.replicate m (ch ' ')) = 0 := by
  have hminus : ∀ s, readNumber 10 (ch '-' :: ch '(' :: s) = 0 := by
    intro s
    have hread := readNat_digits (by decide : 10 ≤ 16)
      (show ∀ d ∈ ([] : List ℕ), d < 10 by simp)
      (show ∀ c ∈ (ch '(' :: s).head?, digitValue c = none by
        intro c hc
        rw [← Option.some_inj.mp hc]
        decide)
      (fun hx => absurd (Option.some_inj.mp hx) (by decide))
    rw [readNumber_minus]
    rw [List.map_nil, List.nil_append, value_nil] at hread
    rw [hread]
    rfl
  rw [Number.printed_intMin, List.append_assoc]
  rcases hc with rfl | rfl
  · rw [readNumber_blanks]
    exact hminus _
  · rcases Nat.eq_zero_or_pos n with rfl | hn
    · exact hminus _
    · exact readNumber_zeros_stop (by decide) (by decide) hn (by decide)
        (fun hx => absurd hx (by decide)) _

/-! ## Directives -/

theorem rprintfChars_eq_self {cs : List Byte} (h : ch '\n' ∉ cs) :
    rprintfChars cs = cs := by
  induction cs with
  | nil => rfl
  | cons c cs ih =>
      have hc : c ≠ ch '\n' := fun hc => h (hc ▸ List.mem_cons_self)
      rw [rprintfChars_cons, ih fun hmem => h (List.mem_cons_of_mem c hmem),
        rprintfChar, if_neg hc]
      rfl

theorem Number.lf_notMem_text (hash : Bool) (v : BitVec 32) (k : Number) :
    ch '\n' ∉ k.text hash v := by
  obtain ⟨ds, htext, _, hds, _⟩ := k.text_eq hash v
  rw [htext, List.mem_append]
  rintro (hmark | hdigit)
  · rcases k.mark_cases hash v with ⟨h, _⟩ | ⟨h, _⟩ | ⟨_, h⟩
    · rw [h] at hmark
      cases hmark
    · rw [h] at hmark
      exact absurd hmark (by decide)
    · rw [h] at hmark
      exact absurd hmark (by decide)
  · obtain ⟨d, hd, heq⟩ := List.mem_map.mp hdigit
    have hvalue := digitValue_hexDigit ((hds d hd).trans_le k.base_bounds.2)
    rw [heq] at hvalue
    cases hvalue

theorem Number.lf_notMem_printed (hash : Bool) (v : BitVec 32) (k : Number) :
    ch '\n' ∉ k.printed hash v := by
  by_cases hmin : k = .dec ∧ v = intMin
  · obtain ⟨rfl, rfl⟩ := hmin
    rw [Number.printed_intMin]
    decide
  · rw [Number.printed_of_ne hmin]
    exact k.lf_notMem_text hash v

theorem Spec.lf_notMem_justify {spec : Spec}
    (hpad : spec.pad = ch ' ' ∨ spec.pad = ch '0') {text : List Byte}
    (htext : ch '\n' ∉ text) (len : ℕ) : ch '\n' ∉ spec.justify len text := by
  have hpads : ∀ c : Byte, c = ch ' ' ∨ c = ch '0' →
      ch '\n' ∉ List.replicate (spec.pads len) c := by
    intro c hc hmem
    have heq := List.eq_of_mem_replicate hmem
    rcases hc with rfl | rfl
    · exact absurd heq (by decide)
    · exact absurd heq (by decide)
  rw [Spec.justify]
  split
  · rw [List.mem_append]
    exact not_or.mpr ⟨htext, hpads _ (Or.inl rfl)⟩
  · rw [List.mem_append]
    exact not_or.mpr ⟨hpads _ hpad, htext⟩

theorem Spec.length_justify (spec : Spec) (len : ℕ) (text : List Byte) :
    (spec.justify len text).length = spec.pads len + text.length := by
  rw [Spec.justify]
  split
  · rw [List.length_append, List.length_replicate, Nat.add_comm]
  · rw [List.length_append, List.length_replicate]

/-- The pads of a width that does not wrap. -/
theorem Spec.pads_eq (spec : Spec) {len : ℕ} (hlen : len < 2 ^ 31)
    (hwidth : -2 ^ 31 + (len : ℤ) ≤ spec.fWidth.toInt) :
    spec.pads len = spec.fWidth.toInt.toNat - len := by
  have hsmall : (BitVec.ofNat 32 len).toInt = len := by
    rw [BitVec.toInt_eq_toNat_cond, BitVec.toNat_ofNat]
    split <;> omega
  have hlt := BitVec.two_mul_toInt_lt (x := spec.fWidth)
  have hsub : (spec.fWidth - BitVec.ofNat 32 len).toInt =
      spec.fWidth.toInt - len := by
    rw [BitVec.toInt_sub, hsmall, Int.bmod_def]
    omega
  rw [Spec.pads, hsub]
  omega

/-- A number in its field is read back as the field without pads would be,
unless a mark stands behind zeros. -/
theorem readNumber_justify {spec : Spec}
    (hpad : spec.pad = ch ' ' ∨ spec.pad = ch '0') (k : Number)
    (v : BitVec 32) (len : ℕ) :
    readNumber k.base (spec.justify len (k.printed spec.hash v)) =
        k.shown v ↔
      ¬(k = .dec ∧ v = intMin) ∧
        (spec.flushLeft = false → spec.pad = ch '0' → 0 < spec.pads len →
          k.mark spec.hash v = [] ∨ k.shown v = 0) := by
  rw [Spec.justify]
  by_cases hmin : k = .dec ∧ v = intMin
  · refine iff_of_false ?_ fun h => h.1 hmin
    obtain ⟨rfl, rfl⟩ := hmin
    have hne : Number.dec.shown intMin ≠ 0 := by decide
    split
    · have hread := readNumber_intMin (Or.inl rfl) 0 (spec.pads len) spec.hash
      exact fun h => hne (h.symm.trans hread)
    · have hread := readNumber_intMin hpad (spec.pads len) 0 spec.hash
      rw [List.replicate_zero, List.append_nil] at hread
      exact fun h => hne (h.symm.trans hread)
  · rw [Number.printed_of_ne hmin]
    cases hleft : spec.flushLeft with
    | true =>
        have hread := readNumber_text spec.hash v k 0 (spec.pads len)
        exact iff_of_true hread ⟨hmin, fun h => by cases h⟩
    | false =>
        rw [if_neg (by decide)]
        rcases hpad with hblank | hzero
        · have hread := readNumber_text spec.hash v k (spec.pads len) 0
          rw [List.replicate_zero, List.append_nil, ← hblank] at hread
          refine iff_of_true hread ⟨hmin, fun _ hzero => ?_⟩
          rw [hblank] at hzero
          exact absurd hzero (by decide)
        · have hread := readNumber_zeros spec.hash v k (spec.pads len)
          rw [hzero, hread]
          simp [hmin]

/-- A directive for a number prints it, in a field of the width or of the
length of what is printed, whichever is larger, unless the width is within
twelve of the most negative one.  The number is read back unless it is the most
negative one for `%d`, or a mark stands behind zeros. -/
theorem rprintf2_reads_back_iff {fl : Flags} {k : Number}
    (ends : flagScanner.Before fl [k.letter]) {args rest : List Arg}
    {spec : Spec} {v : BitVec 32}
    (hspec : fl.spec args = some (spec, .int v :: rest)) :
    let text := k.printed spec.hash v
    ∃ out,
      rprintf2 (ch '%' :: flagScanner.text fl ++ [k.letter]) args = some out ∧
      (-2 ^ 31 + 12 ≤ spec.fWidth.toInt →
        out.length = max spec.fWidth.toInt.toNat text.length) ∧
      (readNumber k.base out = k.shown v ↔
        ¬(k = .dec ∧ v = intMin) ∧
          (spec.flushLeft = false → spec.pad = ch '0' →
            0 < spec.pads text.length →
              k.mark spec.hash v = [] ∨ k.shown v = 0)) := by
  intro text
  have hpad := Flags.spec_pad hspec
  have hlf : ch '\n' ∉ spec.justify text.length text :=
    Spec.lf_notMem_justify hpad (k.lf_notMem_printed spec.hash v) text.length
  have hlen : text.length ≤ 12 := k.length_printed_le spec.hash v
  refine ⟨spec.justify text.length text, ?_, ?_, readNumber_justify hpad k v _⟩
  · have hrun := rprintf2_format [.directive fl (.number k) ends] args
    rw [List.flatMap_singleton] at hrun
    refine hrun.trans ?_
    simp only [printPieces, hspec, Option.bind_some, Conv.print, vaInt,
      Option.map_some, List.append_nil]
    rw [rprintfChars_eq_self hlf]
  · intro hwidth
    rw [Spec.length_justify, Spec.pads_eq spec (by omega) (by omega)]
    omega

/-- `%05d` of a negative number prints zeros in front of the minus sign. -/
theorem rprintf2_reads_back_iff_padded : ∃ out,
    rprintf2 ("%05d".toList.map ch) [.int (-12)] = some out ∧
      out.length = 5 ∧ readNumber 10 out ≠ -12 := by
  let fl : Flags :=
    ⟨none, some ⟨ch '0', Or.inl rfl⟩, some [⟨ch '5', by decide⟩], none, none,
      none⟩
  have hread : flagScanner.read ("05d".toList.map ch) =
      (fl, [Number.dec.letter]) := rfl
  have hends := (flagScanner.read_eq_iff.mp hread).1
  have hspec : fl.spec [.int (-12)] =
      some (⟨false, ch '0', 5, inf, false, false⟩, [.int (-12)]) := rfl
  have htext : Number.dec.printed false (-12) = "-12".toList.map ch := by
    have hdigits : digits 10 12 = [1, 2] := by simp [digits]
    rw [Number.printed_of_ne (by decide), Number.text, if_pos (by decide)]
    change [ch '-'] ++ (digits 10 12).map hexDigit = _
    rw [hdigits]
    rfl
  obtain ⟨out, hout, hlen, hback⟩ := rprintf2_reads_back_iff hends hspec
  rw [htext] at hlen hback
  refine ⟨out, hout, hlen (by decide), fun h => ?_⟩
  rcases (hback.mp h).2 rfl rfl (by decide) with hnil | hzero
  · exact absurd hnil (by decide)
  · exact absurd hzero (by decide)

end EmbBoard.Rprintf
