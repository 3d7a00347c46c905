import Mathlib.Data.List.Basic
import Mathlib.Logic.Equiv.Defs

/-!
# Scanners

A scanner reads a value from the front of a list of tokens and never fails: an
optional part that is not there is a value too.  Each value has one text.  What
follows a text can change how it is read, since an optional part is taken where
it can be; `Before a rest` says that `rest` does not continue `a`.  The laws
make reading and writing inverse, on every list of tokens, and they hold again
for scanners in sequence.
-/

namespace EmbBoard

variable {τ α β : Type*}

structure Scanner (τ α : Type*) where
  read : List τ → α × List τ
  text : α → List τ
  Before : α → List τ → Prop
  read_text : ∀ {a rest}, Before a rest → read (text a ++ rest) = (a, rest)
  text_read : ∀ s, text (read s).1 ++ (read s).2 = s
  before_read : ∀ s, Before (read s).1 (read s).2
  lookahead : ∀ {a rest rest'}, rest.head? = rest'.head? → Before a rest →
    Before a rest'

namespace Scanner

/-- A scanner reads exactly the texts that what follows does not continue. -/
theorem read_eq_iff (S : Scanner τ α) {s rest : List τ} {a : α} :
    S.read s = (a, rest) ↔ S.Before a rest ∧ s = S.text a ++ rest := by
  constructor
  · intro h
    have hbefore := S.before_read s
    have htext := S.text_read s
    rw [h] at hbefore htext
    exact ⟨hbefore, htext.symm⟩
  · rintro ⟨hbefore, rfl⟩
    exact S.read_text hbefore

theorem length_read_le (S : Scanner τ α) (s : List τ) :
    (S.read s).2.length ≤ s.length := by
  conv_rhs => rw [← S.text_read s, List.length_append]
  exact Nat.le_add_left _ _

/-- What is in front of a rest hides it from a lookahead, or shows its head. -/
theorem head?_append_congr {rest rest' : List τ} (h : rest.head? = rest'.head?)
    (s : List τ) : (s ++ rest).head? = (s ++ rest').head? := by
  cases s with
  | nil => exact h
  | cons x s => rfl

/-- An optional token with a property. -/
def oneOf (p : τ → Prop) [DecidablePred p] :
    Scanner τ (Option { x // p x }) where
  read
    | [] => (none, [])
    | x :: s => if h : p x then (some ⟨x, h⟩, s) else (none, x :: s)
  text a := (a.map Subtype.val).toList
  Before a rest := a = none → ∀ x ∈ rest.head?, ¬p x
  read_text := by
    intro a rest hbefore
    cases a with
    | some x => simp [x.2]
    | none =>
        cases rest with
        | nil => rfl
        | cons x rest =>
            exact dif_neg (hbefore rfl x rfl)
  text_read s := by
    cases s with
    | nil => rfl
    | cons x s =>
        by_cases h : p x
        · simp [h]
        · simp [h]
  before_read s := by
    cases s with
    | nil => simp
    | cons x s =>
        by_cases h : p x
        · simp [h]
        · simp [h]
  lookahead := by
    intro a rest rest' hhead hbefore hnone
    rw [← hhead]
    exact hbefore hnone

/-- The longest run of tokens with a property. -/
def spanRead (p : τ → Prop) [DecidablePred p] :
    List τ → List { x // p x } × List τ
  | [] => ([], [])
  | x :: s =>
      if h : p x then (⟨x, h⟩ :: (spanRead p s).1, (spanRead p s).2)
      else ([], x :: s)

def span (p : τ → Prop) [DecidablePred p] :
    Scanner τ (List { x // p x }) where
  read := spanRead p
  text a := a.map Subtype.val
  Before _ rest := ∀ x ∈ rest.head?, ¬p x
  read_text := by
    intro a rest hbefore
    induction a with
    | nil =>
        cases rest with
        | nil => rfl
        | cons x rest => exact dif_neg (hbefore x rfl)
    | cons x a ih =>
        rw [List.map_cons, List.cons_append, spanRead, dif_pos x.2, ih]
  text_read s := by
    induction s with
    | nil => rfl
    | cons x s ih =>
        rw [spanRead]
        split
        · rw [List.map_cons, List.cons_append, ih]
        · rfl
  before_read s := by
    induction s with
    | nil => simp [spanRead]
    | cons x s ih =>
        by_cases h : p x
        · simpa [spanRead, h] using ih
        · simp [spanRead, h]
  lookahead := by
    intro a rest rest' hhead hbefore
    rw [← hhead]
    exact hbefore

/-- A token for itself, or else what another scanner reads. -/
def tokenOr [DecidableEq τ] (c : τ) (A : Scanner τ α) :
    Scanner τ (Option α) where
  read s :=
    if s.head? = some c then (none, s.tail)
    else (some (A.read s).1, (A.read s).2)
  text
    | none => [c]
    | some a => A.text a
  Before
    | none, _ => True
    | some a, rest => A.Before a rest ∧ (A.text a ++ rest).head? ≠ some c
  read_text := by
    intro a rest hbefore
    cases a with
    | none => exact if_pos rfl
    | some a =>
        rw [if_neg hbefore.2, A.read_text hbefore.1]
  text_read s := by
    by_cases h : s.head? = some c
    · simp only [if_pos h]
      exact List.cons_head?_tail h
    · simp only [if_neg h]
      exact A.text_read s
  before_read s := by
    by_cases h : s.head? = some c
    · simp only [if_pos h]
    · simp only [if_neg h]
      exact ⟨A.before_read s, by rwa [A.text_read]⟩
  lookahead := by
    intro a rest rest' hhead hbefore
    cases a with
    | none => trivial
    | some a =>
        refine ⟨A.lookahead hhead hbefore.1, ?_⟩
        rw [← head?_append_congr hhead]
        exact hbefore.2

/-- An optional part that a token announces. -/
def announced [DecidableEq τ] (c : τ) (A : Scanner τ α) :
    Scanner τ (Option α) where
  read s :=
    if s.head? = some c then (some (A.read s.tail).1, (A.read s.tail).2)
    else (none, s)
  text
    | none => []
    | some a => c :: A.text a
  Before
    | none, rest => rest.head? ≠ some c
    | some a, rest => A.Before a rest
  read_text := by
    intro a rest hbefore
    cases a with
    | none => exact if_neg hbefore
    | some a =>
        refine (if_pos rfl).trans ?_
        rw [List.cons_append, List.tail_cons, A.read_text hbefore]
  text_read s := by
    by_cases h : s.head? = some c
    · simp only [if_pos h, List.cons_append]
      rw [A.text_read]
      exact List.cons_head?_tail h
    · simp only [if_neg h]
      rfl
  before_read s := by
    by_cases h : s.head? = some c
    · simp only [if_pos h]
      exact A.before_read s.tail
    · simp only [if_neg h]
      exact h
  lookahead := by
    intro a rest rest' hhead hbefore
    cases a with
    | none =>
        change rest'.head? ≠ some c
        rw [← hhead]
        exact hbefore
    | some a => exact A.lookahead hhead hbefore

/-- Two scanners in sequence. -/
def seq (A : Scanner τ α) (B : Scanner τ β) : Scanner τ (α × β) where
  read s := (((A.read s).1, (B.read (A.read s).2).1), (B.read (A.read s).2).2)
  text ab := A.text ab.1 ++ B.text ab.2
  Before ab rest := A.Before ab.1 (B.text ab.2 ++ rest) ∧ B.Before ab.2 rest
  read_text := by
    rintro ⟨a, b⟩ rest ⟨ha, hb⟩
    rw [List.append_assoc, A.read_text ha, B.read_text hb]
  text_read s := by
    rw [List.append_assoc, B.text_read, A.text_read]
  before_read s := by
    refine ⟨?_, B.before_read _⟩
    rw [B.text_read]
    exact A.before_read s
  lookahead := by
    rintro ⟨a, b⟩ rest rest' hhead ⟨ha, hb⟩
    exact ⟨A.lookahead (head?_append_congr hhead _) ha, B.lookahead hhead hb⟩

/-- A scanner for values in another form. -/
def map (e : α ≃ β) (A : Scanner τ α) : Scanner τ β where
  read s := (e (A.read s).1, (A.read s).2)
  text b := A.text (e.symm b)
  Before b rest := A.Before (e.symm b) rest
  read_text := by
    intro b rest hbefore
    rw [A.read_text hbefore, e.apply_symm_apply]
  text_read s := by
    rw [e.symm_apply_apply, A.text_read]
  before_read s := by
    rw [e.symm_apply_apply]
    exact A.before_read s
  lookahead := A.lookahead

end Scanner

end EmbBoard
