import Mathlib.Data.List.Induction
import Mathlib.Data.Nat.ModEq
import Mathlib.Logic.Function.Basic
import Mathlib.Tactic.Ring

/-!
# Ring buffers with one slot kept empty

A ring of `size` slots is a memory `slots : ℕ → α` with the indices `head`
(next slot to write) and `tail` (next slot to read).  Equal indices mean an
empty ring, so at most `size - 1` slots are ever filled.  The contents, oldest
first, are read off by walking from `tail`; the lemmas say what storing at
`head` and dropping at `tail` do to them.

The last section treats writers that never test for a full ring: an overrun
writer leaves the newest entries, as many as the number written modulo `size`.
-/

namespace EmbBoard.Ring

variable {α : Type*}

/-- The slot after slot `i`; the last slot is followed by slot zero. -/
def next (size i : ℕ) : ℕ :=
  if size ≤ i + 1 then 0 else i + 1

/-- The number of filled slots. -/
def count (size head tail : ℕ) : ℕ :=
  if tail ≤ head then head - tail else size - tail + head

/-- The `n` slots from `tail` on, wrapping at `size`. -/
def window (slots : ℕ → α) (size tail n : ℕ) : List α :=
  (List.range n).map fun i => slots ((tail + i) % size)

/-- The filled slots, oldest first. -/
def contents (slots : ℕ → α) (size head tail : ℕ) : List α :=
  window slots size tail (count size head tail)

/-! ## Index arithmetic -/

theorem next_lt {size i : ℕ} (hi : i < size) : next size i < size := by
  unfold next
  split
  · omega
  · omega

theorem next_eq_mod {size i : ℕ} (hi : i < size) :
    next size i = (i + 1) % size := by
  unfold next
  split
  · have hlast : i + 1 = size := by omega
    rw [hlast, Nat.mod_self]
  · rw [Nat.mod_eq_of_lt (by omega)]

theorem count_lt {size head tail : ℕ} (hh : head < size) (ht : tail < size) :
    count size head tail < size := by
  unfold count
  split <;> omega

theorem count_eq_zero_iff {size head tail : ℕ} (ht : tail < size) :
    count size head tail = 0 ↔ head = tail := by
  unfold count
  split <;> omega

/-- A store that leaves one slot empty adds one to the count. -/
theorem count_next_head {size head tail : ℕ} (hh : head < size)
    (ht : tail < size) (hroom : count size head tail + 1 < size) :
    count size (next size head) tail = count size head tail + 1 := by
  unfold count next at *
  split at hroom <;> split <;> split <;> omega

/-- Dropping the oldest slot of a nonempty ring takes one from the count. -/
theorem count_next_tail {size head tail : ℕ} (hh : head < size)
    (ht : tail < size) (hne : head ≠ tail) :
    count size head tail = count size head (next size tail) + 1 := by
  unfold count next
  split <;> split <;> split <;> omega

/-- The head lies `count` slots after the tail. -/
theorem tail_add_count_mod {size head tail : ℕ} (hh : head < size)
    (ht : tail < size) : (tail + count size head tail) % size = head := by
  unfold count
  split
  · rw [Nat.add_sub_cancel' ‹_›, Nat.mod_eq_of_lt hh]
  · have hsum : tail + (size - tail + head) = size + head := by omega
    rw [hsum, Nat.add_mod_left, Nat.mod_eq_of_lt hh]

/-! ## The contents under a store and a drop -/

@[simp] theorem length_window (slots : ℕ → α) (size tail n : ℕ) :
    (window slots size tail n).length = n := by
  simp [window]

@[simp] theorem length_contents (slots : ℕ → α) (size head tail : ℕ) :
    (contents slots size head tail).length = count size head tail := by
  simp [contents]

theorem contents_eq_nil_iff {slots : ℕ → α} {size head tail : ℕ}
    (ht : tail < size) :
    contents slots size head tail = [] ↔ head = tail := by
  rw [← count_eq_zero_iff ht, ← length_contents slots, List.length_eq_zero_iff]

theorem window_succ (slots : ℕ → α) (size tail n : ℕ) :
    window slots size tail (n + 1) =
      window slots size tail n ++ [slots ((tail + n) % size)] := by
  simp [window, List.range_succ]

/-- Fewer than `size` slots from `tail` on are pairwise different, so a store
in the next slot leaves them as they were. -/
theorem window_update_next {slots : ℕ → α} {size tail n : ℕ} (x : α)
    (hn : n < size) :
    window (Function.update slots ((tail + n) % size) x) size tail n =
      window slots size tail n := by
  apply List.map_congr_left
  intro i hi
  have hin : i < n := List.mem_range.mp hi
  have hne : (tail + i) % size ≠ (tail + n) % size := by
    intro heq
    have hmod : i ≡ n [MOD size] := Nat.ModEq.add_left_cancel' tail heq
    have : i = n := Nat.ModEq.eq_of_lt_of_lt hmod (hin.trans hn) hn
    omega
  exact Function.update_of_ne hne x slots

/-- The slot at the head is outside the contents. -/
theorem contents_update_head {slots : ℕ → α} {size head tail : ℕ} (x : α)
    (hh : head < size) (ht : tail < size) :
    contents (Function.update slots head x) size head tail =
      contents slots size head tail := by
  have hkept :
      window (Function.update slots ((tail + count size head tail) % size) x)
          size tail (count size head tail) =
        window slots size tail (count size head tail) :=
    window_update_next x (count_lt hh ht)
  rwa [tail_add_count_mod hh ht] at hkept

/-- Storing at the head of a ring that is not full appends to its contents. -/
theorem contents_push {slots : ℕ → α} {size head tail : ℕ} (x : α)
    (hh : head < size) (ht : tail < size)
    (hroom : count size head tail + 1 < size) :
    contents (Function.update slots head x) size (next size head) tail =
      contents slots size head tail ++ [x] := by
  have hkept : window (Function.update slots head x) size tail
      (count size head tail) = contents slots size head tail :=
    contents_update_head x hh ht
  rw [contents, count_next_head hh ht hroom, window_succ,
    tail_add_count_mod hh ht, hkept, Function.update_self]

/-- The oldest slot of a nonempty ring heads its contents. -/
theorem contents_pop {slots : ℕ → α} {size head tail : ℕ}
    (hh : head < size) (ht : tail < size) (hne : head ≠ tail) :
    contents slots size head tail =
      slots tail :: contents slots size head (next size tail) := by
  rw [contents, count_next_tail hh ht hne, window, List.range_succ_eq_map]
  simp only [List.map_cons, List.map_map, Nat.add_zero]
  rw [Nat.mod_eq_of_lt ht, contents, window]
  congr 1
  apply List.map_congr_left
  intro i _
  simp only [Function.comp_apply, Nat.succ_eq_add_one]
  rw [next_eq_mod ht, Nat.mod_add_mod]
  congr 2
  omega

/-! ## Writers without a full test -/

/-- Store each entry at the head, moving the head on, whatever the tail is. -/
def writeAll (size : ℕ) : (ℕ → α) → ℕ → List α → (ℕ → α) × ℕ
  | slots, head, [] => (slots, head)
  | slots, head, x :: xs =>
      writeAll size (Function.update slots head x) (next size head) xs

theorem writeAll_append (size : ℕ) (slots : ℕ → α) (head : ℕ)
    (xs ys : List α) :
    writeAll size slots head (xs ++ ys) =
      writeAll size (writeAll size slots head xs).1
        (writeAll size slots head xs).2 ys := by
  induction xs generalizing slots head with
  | nil => rfl
  | cons x xs ih => exact ih _ _

theorem writeAll_head {size head : ℕ} (slots : ℕ → α) (hh : head < size)
    (xs : List α) :
    (writeAll size slots head xs).2 = (head + xs.length) % size := by
  induction xs generalizing slots head with
  | nil => simp [writeAll, Nat.mod_eq_of_lt hh]
  | cons x xs ih =>
      rw [writeAll, ih _ (next_lt hh), next_eq_mod hh, Nat.mod_add_mod,
        List.length_cons]
      congr 1
      omega

/-- Each of the `size` newest entries stands in the slot it was written to. -/
theorem writeAll_slot {size head : ℕ} (slots : ℕ → α) (hh : head < size)
    (xs : List α) (i : ℕ) (hi : i < xs.length)
    (hnew : xs.length ≤ i + size) :
    (writeAll size slots head xs).1 ((head + i) % size) = xs[i] := by
  induction xs using List.reverseRecOn with
  | nil => simp at hi
  | append_singleton xs x ih =>
      rw [List.length_append, List.length_singleton] at hi hnew
      rw [writeAll_append]
      simp only [writeAll]
      rw [writeAll_head slots hh]
      by_cases hlast : i = xs.length
      · subst i
        simp
      · have hold : i < xs.length := by omega
        have hne : (head + i) % size ≠ (head + xs.length) % size := by
          intro heq
          have hmod : i ≡ xs.length [MOD size] :=
            Nat.ModEq.add_left_cancel' head heq
          have hdvd : size ∣ xs.length - i :=
            (Nat.modEq_iff_dvd' hold.le).mp hmod
          have hle : size ≤ xs.length - i :=
            Nat.le_of_dvd (by omega) hdvd
          omega
        rw [Function.update_of_ne hne, ih hold (by omega)]
        simp [List.getElem_append_left hold]

/-- Entries written into an empty ring without a full test: what the ring
then holds are the newest ones, their number reduced modulo `size`. -/
theorem contents_writeAll {size head : ℕ} (slots : ℕ → α)
    (hh : head < size) (xs : List α) :
    contents (writeAll size slots head xs).1 size
        (writeAll size slots head xs).2 head =
      xs.drop (xs.length - xs.length % size) := by
  have hsize : 0 < size := by omega
  have hcount : count size (writeAll size slots head xs).2 head =
      xs.length % size := by
    rw [writeAll_head slots hh]
    have hr : xs.length % size < size := Nat.mod_lt _ hsize
    rw [← Nat.add_mod_mod]
    generalize xs.length % size = r at hr
    unfold count
    rcases Nat.lt_or_ge (head + r) size with hlt | hge
    · rw [Nat.mod_eq_of_lt hlt]
      split <;> omega
    · rw [Nat.mod_eq_sub_mod hge, Nat.mod_eq_of_lt (by omega)]
      split <;> omega
  have hmodle : xs.length % size ≤ xs.length := Nat.mod_le _ _
  apply List.ext_getElem
  · rw [length_contents, hcount, List.length_drop]
    omega
  · intro j hj hj'
    rw [length_contents, hcount] at hj
    have hsplit : xs.length - xs.length % size = size * (xs.length / size) := by
      have := Nat.div_add_mod xs.length size
      omega
    have hslot : (head + j) % size =
        (head + (xs.length - xs.length % size + j)) % size := by
      rw [hsplit]
      have : head + (size * (xs.length / size) + j) =
          head + j + size * (xs.length / size) := by ring
      rw [this, Nat.add_mul_mod_self_left]
    have hr : xs.length % size < size := Nat.mod_lt _ hsize
    simp only [contents, window, List.getElem_map, List.getElem_range,
      List.getElem_drop]
    rw [hslot]
    exact writeAll_slot slots hh xs _ (by omega) (by omega)

end EmbBoard.Ring
