import Mathlib.Data.List.Basic
import Mathlib.Data.Nat.Count
import Mathlib.Order.Nat

/-!
# Clocked machines

A synchronous machine is a function from an input and a state to the next
state.  Its trace under an infinite input sequence starts in a given state;
the state at `n` is the one clock `n` begins with, after the edges `0` to
`n - 1`.  A log collects what is observed in single clocks, and an event
observed some clocks after its cause is logged in the order of the causes as
long as none overtakes another.
-/

namespace EmbBoard.Clocked

variable {ι σ α : Type*}

/-- The states of a machine, clock by clock. -/
def trace (clock : ι → σ → σ) (s₀ : σ) (i : ℕ → ι) : ℕ → σ
  | 0 => s₀
  | n + 1 => clock (i n) (trace clock s₀ i n)

@[simp] theorem trace_succ (clock : ι → σ → σ) (s₀ : σ) (i : ℕ → ι)
    (n : ℕ) :
    trace clock s₀ i (n + 1) = clock (i n) (trace clock s₀ i n) := rfl

/-- The trace after the first clock. -/
theorem trace_succ_left (clock : ι → σ → σ) (s₀ : σ) (i : ℕ → ι) (n : ℕ) :
    trace clock s₀ i (n + 1) =
      trace clock (clock (i 0) s₀) (fun m => i (m + 1)) n := by
  induction n with
  | zero => rfl
  | succ n ih => rw [trace_succ, ih, trace_succ]

/-! ## Free-running counters -/

/-- The number of clocks with a property depends on those clocks only. -/
theorem count_congr {p q : ℕ → Prop} [DecidablePred p] [DecidablePred q]
    {n : ℕ} (h : ∀ k < n, p k ↔ q k) : Nat.count p n = Nat.count q n :=
  le_antisymm (Nat.count_mono_left fun k hk => (h k hk).mp)
    (Nat.count_mono_left fun k hk => (h k hk).mpr)

/-- In any `N` consecutive clocks a counter modulo `N` is below `v` in exactly
`v` of them. -/
theorem count_mod_lt {N v : ℕ} (hv : v ≤ N) (c : ℕ) :
    Nat.count (fun k => (c + k) % N < v) N = v := by
  have hstart : Nat.count (fun k => (c + k) % N < v) N =
      Nat.count (fun n => n % N < v) N := by
    have hafter := Nat.count_add (fun n => n % N < v) c N
    have hbefore := Nat.count_add (fun n => n % N < v) N c
    have hperiod : Nat.count (fun k => (N + k) % N < v) c =
        Nat.count (fun n => n % N < v) c := by
      simp only [Nat.add_mod_left]
    rw [Nat.add_comm N c] at hbefore
    omega
  have hbelow : Nat.count (fun n => n % N < v) v = v := by
    apply Nat.count_of_forall
    intro n hn
    rwa [Nat.mod_eq_of_lt (by omega)]
  have habove : Nat.count (fun k => (v + k) % N < v) (N - v) = 0 := by
    apply Nat.count_of_forall_not
    intro k hk
    rw [Nat.mod_eq_of_lt (by omega)]
    omega
  rw [hstart]
  obtain ⟨d, rfl⟩ := Nat.exists_eq_add_of_le hv
  rw [Nat.add_sub_cancel_left] at habove
  rw [Nat.count_add, hbelow, habove]
  rfl

/-! ## Logs -/

/-- What is observed in the clocks before `n`, in order. -/
def log (observe : ℕ → Option α) (n : ℕ) : List α :=
  (List.range n).filterMap observe

theorem log_succ (observe : ℕ → Option α) (n : ℕ) :
    log observe (n + 1) = log observe n ++ (observe n).toList := by
  rw [log, List.range_succ, List.filterMap_append]
  cases h : observe n <;> simp [h, log]

/-- Logs agree at every clock when and only when the observations do. -/
theorem log_eq_iff {f g : ℕ → Option α} :
    (∀ n, log f n = log g n) ↔ ∀ n, f n = g n := by
  constructor
  · intro h n
    have hnext := h (n + 1)
    rw [log_succ, log_succ, h n] at hnext
    have hlast := List.append_cancel_left hnext
    cases hf : f n <;> cases hg : g n <;> simp_all
  · intro h n
    rw [funext h]

theorem log_congr {f g : ℕ → Option α} {n : ℕ}
    (h : ∀ t, t < n → f t = g t) : log f n = log g n := by
  apply List.filterMap_congr
  intro t ht
  exact h t (List.mem_range.mp ht)

/-- A log ends with its last observation. -/
theorem log_eq_of_none_after {f : ℕ → Option α} {m n : ℕ} (hmn : m ≤ n)
    (hnone : ∀ t, m ≤ t → t < n → f t = none) : log f n = log f m := by
  induction n, hmn using Nat.le_induction with
  | base => rfl
  | succ n hmn ih =>
      rw [log_succ, hnone n hmn (Nat.lt_succ_self n), Option.toList_none,
        List.append_nil]
      exact ih fun t ht htn => hnone t ht (htn.trans (Nat.lt_succ_self n))

section Causes

/-! `cause t k` says that what is observed at `k` began at `t`, and `seen n t`
that this happened before `n`. -/

variable {cause : ℕ → ℕ → Prop} {seen : ℕ → ℕ → Prop} {n t₀ : ℕ}

/-- A clock without an observation adds nothing to what is seen. -/
theorem seen_succ_iff_of_none
    (hseen : ∀ n t, seen n t ↔ ∃ k, k < n ∧ cause t k)
    (hnow : ¬∃ t, cause t n) (t : ℕ) : seen (n + 1) t ↔ seen n t := by
  rw [hseen, hseen]
  constructor
  · rintro ⟨k, hk, htk⟩
    refine ⟨k, lt_of_le_of_ne (Nat.lt_succ_iff.mp hk) ?_, htk⟩
    rintro rfl
    exact hnow ⟨t, htk⟩
  · rintro ⟨k, hk, htk⟩
    exact ⟨k, hk.trans (Nat.lt_succ_self n), htk⟩

variable (horder : ∀ t t' k k', cause t k → cause t' k' → (t < t' ↔ k < k'))
  (hseen : ∀ n t, seen n t ↔ ∃ k, k < n ∧ cause t k) (hcause : cause t₀ n)
include horder hseen hcause

/-- What is seen before the observation of `t₀` began earlier. -/
theorem lt_of_seen {t : ℕ} (h : seen n t) : t < t₀ := by
  obtain ⟨k, hk, htk⟩ := (hseen n t).mp h
  exact (horder t t₀ k n htk hcause).mpr hk

theorem le_of_seen_succ {t : ℕ} (h : seen (n + 1) t) : t ≤ t₀ := by
  obtain ⟨k, hk, htk⟩ := (hseen (n + 1) t).mp h
  by_contra hlt
  have hafter := (horder t₀ t n k hcause htk).mp (not_le.mp hlt)
  omega

/-- What began earlier than `t₀` is observed earlier. -/
theorem seen_succ_iff_of_lt {t : ℕ} (ht : t < t₀) :
    seen (n + 1) t ↔ seen n t := by
  rw [hseen, hseen]
  constructor
  · rintro ⟨k, _, htk⟩
    exact ⟨k, (horder t t₀ k n htk hcause).mp ht, htk⟩
  · rintro ⟨k, hk, htk⟩
    exact ⟨k, hk.trans (Nat.lt_succ_self n), htk⟩

end Causes

/-- If causes come no later than their observations, and in the same order, the
log lists the causes that were observed. -/
theorem log_eq_causes (cause : ℕ → ℕ → Prop) {observe : ℕ → Option α}
    {what : ℕ → α} (hle : ∀ t k, cause t k → t ≤ k)
    (horder : ∀ t t' k k', cause t k → cause t' k' → (t < t' ↔ k < k'))
    (hsome : ∀ t k, cause t k → observe k = some (what t))
    (hnone : ∀ k, (∀ t, ¬cause t k) → observe k = none)
    (seen : ℕ → ℕ → Prop) [∀ n t, Decidable (seen n t)]
    (hseen : ∀ n t, seen n t ↔ ∃ k, k < n ∧ cause t k) (n : ℕ) :
    log observe n =
      log (fun t => if seen n t then some (what t) else none) n := by
  induction n with
  | zero => rfl
  | succ n ih =>
      rw [log_succ, ih]
      by_cases hnow : ∃ t, cause t n
      · obtain ⟨t₀, hcause⟩ := hnow
        have hold : ∀ t, t₀ ≤ t → ¬seen n t := fun t ht hs =>
          absurd (lt_of_seen horder hseen hcause hs) (not_lt.mpr ht)
        have hlater : ∀ t, t₀ + 1 ≤ t → ¬seen (n + 1) t := fun t ht hs =>
          absurd (le_of_seen_succ horder hseen hcause hs) (not_le.mpr ht)
        have hnew : seen (n + 1) t₀ :=
          (hseen (n + 1) t₀).mpr ⟨n, Nat.lt_succ_self n, hcause⟩
        rw [log_eq_of_none_after (hle t₀ n hcause)
            (fun t ht _ => if_neg (hold t ht)),
          log_eq_of_none_after (Nat.succ_le_succ (hle t₀ n hcause))
            (fun t ht _ => if_neg (hlater t ht)),
          log_succ, if_pos hnew, hsome t₀ n hcause]
        congr 1
        apply log_congr
        intro t ht
        simp only [seen_succ_iff_of_lt horder hseen hcause ht]
      · have hlast : ¬seen n n := by
          intro hs
          obtain ⟨k, hk, hnk⟩ := (hseen n n).mp hs
          exact absurd (hle n k hnk) (not_le.mpr hk)
        rw [hnone n (fun t ht => hnow ⟨t, ht⟩), log_succ]
        simp only [seen_succ_iff_of_none hseen hnow, if_neg hlast,
          Option.toList_none, List.append_nil]

end EmbBoard.Clocked
