import EmbBoard.Support.Clocked
import EmbBoard.Wishbone.Host

/-!
# Schedules of the CPU bus

The CPU bus as a sequence of samples, one for each clock.  A schedule keeps
every access steady for at least two samples and leaves at least one sample
without a strobe between accesses.  The data pins need to be steady in a write
only: in a read the other side drives them.  An access is due on the Wishbone side a
fixed number of clocks after its first sample when it reads, and after the
first sample without its strobe when it writes.
-/

namespace EmbBoard.Wishbone

/-- What the CPU asks for: a read of an address, or a write of data to it. -/
inductive Access
  | read (a : WbAdr)
  | write (a : WbAdr) (d : WbDat)
deriving DecidableEq, Repr

def CpuBus.access (b : CpuBus) : Access :=
  if b.reads then .read b.a else .write b.a b.d

/-- Two samples of one access. -/
structure CpuBus.SameAccess (b b' : CpuBus) : Prop where
  a : b'.a = b.a
  reads : b'.reads = b.reads
  writes : b'.writes = b.writes
  d : b.writes = true → b'.d = b.d

instance (b b' : CpuBus) : Decidable (b.SameAccess b') :=
  decidable_of_iff (b'.a = b.a ∧ b'.reads = b.reads ∧
      b'.writes = b.writes ∧ (b.writes = true → b'.d = b.d))
    ⟨fun ⟨ha, hr, hw, hd⟩ => ⟨ha, hr, hw, hd⟩,
      fun h => ⟨h.a, h.reads, h.writes, h.d⟩⟩

theorem CpuBus.SameAccess.refl (b : CpuBus) : b.SameAccess b :=
  ⟨rfl, rfl, rfl, fun _ => rfl⟩

theorem CpuBus.SameAccess.trans {b b' b'' : CpuBus} (h : b.SameAccess b')
    (h' : b'.SameAccess b'') : b.SameAccess b'' where
  a := h'.a.trans h.a
  reads := h'.reads.trans h.reads
  writes := h'.writes.trans h.writes
  d := fun hw => (h'.d (h.writes.trans hw)).trans (h.d hw)

/-- The bus sequences a CPU may produce. -/
structure Schedule (b : ℕ → CpuBus) : Prop where
  oneWay : ∀ n, (b n).reads = true → (b n).writes = false
  steady : ∀ n, (b n).strobe = true → (b (n + 1)).strobe = true →
    (b n).SameAccess (b (n + 1))
  long : ∀ n, (b n).strobe = true → (n = 0 ∨ (b (n - 1)).strobe = false) →
    (b (n + 1)).strobe = true

/-- An access begins with sample `t`. -/
def Starts (b : ℕ → CpuBus) (t : ℕ) : Prop :=
  (b t).strobe = true ∧ (t = 0 ∨ (b (t - 1)).strobe = false)

/-- Sample `e` is the first one after `t` without a strobe. -/
def FirstIdle (b : ℕ → CpuBus) (t e : ℕ) : Prop :=
  t < e ∧ (b e).strobe = false ∧ ∀ j, t ≤ j → j < e → (b j).strobe = true

/-- The cycle of the access that begins at `t` is due in clock `k`. -/
def DueAt (b : ℕ → CpuBus) (t k : ℕ) : Prop :=
  Starts b t ∧
    (((b t).reads = true ∧ k = t + 3) ∨
      ((b t).writes = true ∧ ∃ e, FirstIdle b t e ∧ k = e + 2))

/-- The cycle of the access that begins at `t` is due before clock `n`. -/
def Reached (b : ℕ → CpuBus) (n t : ℕ) : Prop :=
  Starts b t ∧
    (((b t).reads = true ∧ t + 3 < n) ∨
      ((b t).writes = true ∧ ∃ e, e < n ∧ t < e ∧ (b e).strobe = false ∧
        e + 2 < n))

instance (b : ℕ → CpuBus) (t : ℕ) : Decidable (Starts b t) :=
  inferInstanceAs (Decidable (_ ∧ _))

instance (b : ℕ → CpuBus) (n t : ℕ) : Decidable (Reached b n t) :=
  inferInstanceAs (Decidable (_ ∧ _))

/-- The accesses whose cycle is due before clock `n`, in the order of the
CPU. -/
def accesses (b : ℕ → CpuBus) (n : ℕ) : List Access :=
  Clocked.log (fun t => if Reached b n t then some (b t).access else none) n

section

variable {b : ℕ → CpuBus}

theorem strobe_of_reads {c : CpuBus} (h : c.reads = true) :
    c.strobe = true := by
  rw [CpuBus.strobe, h, Bool.true_or]

theorem strobe_of_writes {c : CpuBus} (h : c.writes = true) :
    c.strobe = true := by
  rw [CpuBus.strobe, h, Bool.or_true]

/-- A sequence that is idle from sample `m` on is a schedule when its first
samples are those of one. -/
theorem Schedule.of_idle (m : ℕ)
    (hidle : ∀ n, m ≤ n → (b n).strobe = false)
    (hfirst : ∀ n < m,
      ((b n).reads = true → (b n).writes = false) ∧
      ((b n).strobe = true → (b (n + 1)).strobe = true →
        (b n).SameAccess (b (n + 1))) ∧
      ((b n).strobe = true → (n = 0 ∨ (b (n - 1)).strobe = false) →
        (b (n + 1)).strobe = true)) : Schedule b := by
  have hlow : ∀ n, (b n).strobe = true → n < m := by
    intro n hn
    by_contra hge
    rw [hidle n (Nat.le_of_not_lt hge)] at hn
    cases hn
  constructor
  · intro n hread
    exact (hfirst n (hlow n (strobe_of_reads hread))).1 hread
  · intro n hup
    exact (hfirst n (hlow n hup)).2.1 hup
  · intro n hup
    exact (hfirst n (hlow n hup)).2.2 hup

/-- An access does not change while its strobe is up. -/
theorem Schedule.same (hs : Schedule b) {t j : ℕ} (htj : t ≤ j)
    (hup : ∀ k, t ≤ k → k ≤ j → (b k).strobe = true) :
    (b t).SameAccess (b j) := by
  induction j, htj using Nat.le_induction with
  | base => exact .refl (b t)
  | succ j htj ih =>
      have hbefore := ih fun k hk hkj => hup k hk (hkj.trans (Nat.le_succ j))
      exact hbefore.trans (hs.steady j (hup j htj (Nat.le_succ j))
        (hup (j + 1) (htj.trans (Nat.le_succ j)) (le_refl _)))

/-- Every sample with a strobe belongs to an access. -/
theorem exists_starts {p : ℕ} (hp : (b p).strobe = true) :
    ∃ t, t ≤ p ∧ Starts b t ∧
      ∀ j, t ≤ j → j ≤ p → (b j).strobe = true := by
  induction p with
  | zero =>
      refine ⟨0, le_refl 0, ⟨hp, Or.inl rfl⟩, ?_⟩
      intro j _ hj
      rwa [Nat.le_zero.mp hj]
  | succ p ih =>
      cases hprev : (b p).strobe with
      | false =>
          refine ⟨p + 1, le_refl _, ⟨hp, Or.inr hprev⟩, ?_⟩
          intro j hj hjp
          rwa [le_antisymm hjp hj]
      | true =>
          obtain ⟨t, htp, hstart, hup⟩ := ih hprev
          refine ⟨t, htp.trans (Nat.le_succ p), hstart, ?_⟩
          intro j hj hjp
          rcases hjp.eq_or_lt with rfl | hlt
          · exact hp
          · exact hup j hj (Nat.lt_succ_iff.mp hlt)

theorem FirstIdle.unique {t e e' : ℕ} (h : FirstIdle b t e)
    (h' : FirstIdle b t e') : e = e' := by
  rcases lt_trichotomy e e' with hlt | heq | hgt
  · have hup := h'.2.2 e h.1.le hlt
    rw [h.2.1] at hup
    cases hup
  · exact heq
  · have hup := h.2.2 e' h'.1.le hgt
    rw [h'.2.1] at hup
    cases hup

/-- The sample before the first idle one still belongs to the access. -/
theorem FirstIdle.last (hs : Schedule b) {t e : ℕ} (h : FirstIdle b t e) :
    ∃ p, e = p + 1 ∧ t ≤ p ∧ (b t).SameAccess (b p) := by
  obtain ⟨p, rfl⟩ := Nat.exists_eq_succ_of_ne_zero (Nat.ne_zero_of_lt h.1)
  have htp : t ≤ p := Nat.lt_succ_iff.mp h.1
  refine ⟨p, rfl, htp, hs.same htp ?_⟩
  intro k hk hkp
  exact h.2.2 k hk (Nat.lt_succ_of_le hkp)

theorem exists_firstIdle {t e : ℕ} (ht : (b t).strobe = true) (hte : t < e)
    (he : (b e).strobe = false) : ∃ e', FirstIdle b t e' ∧ e' ≤ e := by
  have hex : ∃ e, t < e ∧ (b e).strobe = false := ⟨e, hte, he⟩
  refine ⟨Nat.find hex, ⟨(Nat.find_spec hex).1, (Nat.find_spec hex).2, ?_⟩,
    Nat.find_min' hex ⟨hte, he⟩⟩
  intro j htj hj
  rcases htj.eq_or_lt with rfl | hlt
  · exact ht
  · have hnot := Nat.find_min hex hj
    by_contra hlow
    rw [Bool.not_eq_true] at hlow
    exact hnot ⟨hlt, hlow⟩

theorem Starts.long (hs : Schedule b) {t : ℕ} (h : Starts b t) :
    (b (t + 1)).strobe = true :=
  hs.long t h.1 h.2

/-- A cycle is due three clocks after its access begins, or later. -/
theorem DueAt.after (hs : Schedule b) {t k : ℕ} (h : DueAt b t k) :
    t + 3 ≤ k := by
  obtain ⟨hstart, ⟨-, rfl⟩ | ⟨-, e, hidle, rfl⟩⟩ := h
  · exact le_refl _
  · have hlong := hstart.long hs
    have hne : e ≠ t + 1 := by
      rintro rfl
      rw [hidle.2.1] at hlong
      cases hlong
    have := hidle.1
    omega

/-- A cycle is due at the latest one clock after the next access begins. -/
theorem DueAt.before (hs : Schedule b) {t t' k : ℕ} (h : DueAt b t k)
    (hnext : Starts b t') (htt : t < t') : k ≤ t' + 1 := by
  obtain ⟨p, rfl⟩ := Nat.exists_eq_succ_of_ne_zero (Nat.ne_zero_of_lt htt)
  have hgap : (b p).strobe = false := by
    rcases hnext.2 with h0 | hgap
    · cases h0
    · exact hgap
  obtain ⟨hstart, hdue⟩ := h
  have hpt : p ≠ t := by
    rintro rfl
    rw [hstart.1] at hgap
    cases hgap
  have hpt1 : p ≠ t + 1 := by
    rintro rfl
    rw [hstart.long hs] at hgap
    cases hgap
  rcases hdue with ⟨-, rfl⟩ | ⟨-, e, hidle, rfl⟩
  · omega
  · obtain ⟨e', hidle', he'⟩ :=
      exists_firstIdle (e := p) hstart.1 (by omega) hgap
    have := hidle.unique hidle'
    omega

theorem DueAt.unique (hs : Schedule b) {t k k' : ℕ} (h : DueAt b t k)
    (h' : DueAt b t k') : k = k' := by
  obtain ⟨-, ⟨hr, rfl⟩ | ⟨hw, e, hidle, rfl⟩⟩ := h
  · obtain ⟨-, ⟨-, rfl⟩ | ⟨hw, -⟩⟩ := h'
    · rfl
    · rw [hs.oneWay t hr] at hw
      cases hw
  · obtain ⟨-, ⟨hr, -⟩ | ⟨-, e', hidle', rfl⟩⟩ := h'
    · rw [hs.oneWay t hr] at hw
      cases hw
    · rw [hidle.unique hidle']

/-- Cycles are due in the order of the accesses. -/
theorem DueAt.order (hs : Schedule b) {t t' k k' : ℕ} (h : DueAt b t k)
    (h' : DueAt b t' k') : t < t' ↔ k < k' := by
  have hforward : ∀ {t t' k k'}, DueAt b t k → DueAt b t' k' → t < t' →
      k < k' := by
    intro t t' k k' h h' htt
    have := h.before hs h'.1 htt
    have := h'.after hs
    omega
  constructor
  · exact hforward h h'
  · intro hkk
    rcases lt_trichotomy t t' with hlt | rfl | hgt
    · exact hlt
    · have := h.unique hs h'
      omega
    · have := hforward h' h hgt
      omega

theorem reached_iff (n t : ℕ) :
    Reached b n t ↔ ∃ k, k < n ∧ DueAt b t k := by
  constructor
  · rintro ⟨hstart, ⟨hr, hn⟩ | ⟨hw, e, -, hte, he, hn⟩⟩
    · exact ⟨t + 3, hn, hstart, Or.inl ⟨hr, rfl⟩⟩
    · obtain ⟨e', hidle, hle⟩ := exists_firstIdle hstart.1 hte he
      exact ⟨e' + 2, by omega, hstart, Or.inr ⟨hw, e', hidle, rfl⟩⟩
  · rintro ⟨k, hk, hstart, ⟨hr, rfl⟩ | ⟨hw, e, hidle, rfl⟩⟩
    · exact ⟨hstart, Or.inl ⟨hr, hk⟩⟩
    · exact ⟨hstart, Or.inr ⟨hw, e, by omega, hidle.1, hidle.2.1, hk⟩⟩

end

end EmbBoard.Wishbone
