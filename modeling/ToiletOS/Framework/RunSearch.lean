import Mathlib.Data.Nat.Find

/-!
# The search for a run

A **run** of length `n` at `i` is a block of positions `i, …, i + n - 1` that all have a property
`p` (`RunAt`). The search goes through the positions one by one, counts those with `p` since
the last one without, and ends where the count reaches `n` (`search`).

The count is the length of the longest run that ends where the search is (`Counts`). So the run
that is found is the first one (`FirstRun`), and if none is found then there is none within the
positions that the search was allowed to look at (`search_spec`).
-/

namespace ToiletOS

/-- All of the `n` positions from `i` on have the property. -/
def RunAt (p : ℕ → Prop) (n i : ℕ) : Prop := ∀ k < n, p (i + k)

/-- The first run of length `n` that does not start before `b`. -/
structure FirstRun (p : ℕ → Prop) (n b i : ℕ) : Prop where
  ge : b ≤ i
  run : RunAt p n i
  first : ∀ j, b ≤ j → j < i → ¬ RunAt p n j

/-- The length of the longest run that starts at `b` or later and ends before `e`. -/
structure Counts (p : ℕ → Prop) (b e c : ℕ) : Prop where
  le : b + c ≤ e
  run : RunAt p c (e - c)
  maximal : b + c < e → ¬ p (e - c - 1)

/-- The search, with `left` positions to look at from `e` on and `c` counted. It returns the last
position of the run. -/
def search (p : ℕ → Prop) [DecidablePred p] (n : ℕ) : ℕ → ℕ → ℕ → Option ℕ
  | 0, _, _ => none
  | left + 1, e, c =>
    let c := if p e then c + 1 else 0
    if c = n then some e else search p n left (e + 1) c

variable {p : ℕ → Prop} {n b e c i j : ℕ}

/-! ### Runs -/

theorem RunAt.at (h : RunAt p n i) (h_ge : i ≤ j) (h_lt : j < i + n) : p j := by
  have h_j := h (j - i) (by omega)
  rwa [Nat.add_sub_cancel' h_ge] at h_j

theorem FirstRun.unique (h : FirstRun p n b i) (h' : FirstRun p n b j) : i = j := by
  rcases Nat.lt_trichotomy i j with h_lt | h_eq | h_gt
  · exact absurd h.run (h'.first i h.ge h_lt)
  · exact h_eq
  · exact absurd h'.run (h.first j h'.ge h_gt)

/-- There is a first run, if there is any. -/
theorem RunAt.exists_first (h : RunAt p n i) (h_ge : b ≤ i) : ∃ j ≤ i, FirstRun p n b j := by
  classical
  have h_some : ∃ j, b ≤ j ∧ RunAt p n j := ⟨i, h_ge, h⟩
  refine ⟨Nat.find h_some, Nat.find_min' h_some ⟨h_ge, h⟩, (Nat.find_spec h_some).1,
    (Nat.find_spec h_some).2, fun j hj h_lt h_run => ?_⟩
  exact Nat.find_min h_some h_lt ⟨hj, h_run⟩

/-! ### Counting -/

theorem Counts.start (h : p b) : Counts p b (b + 1) 1 where
  le := Nat.le_refl _
  run k hk := by
    obtain rfl : k = 0 := by omega
    exact h
  maximal h_lt := absurd h_lt (Nat.lt_irrefl _)

/-- One more position of the run. -/
theorem Counts.succ (h : Counts p b e c) (h_p : p e) : Counts p b (e + 1) (c + 1) where
  le := by have := h.le; omega
  run k hk := by
    have h_le := h.le
    rw [Nat.add_sub_add_right]
    by_cases h_k : k < c
    · exact h.run k h_k
    · rwa [show e - c + k = e by omega]
  maximal h_lt := by
    rw [Nat.add_sub_add_right]
    exact h.maximal (by omega)

/-- The run is over. -/
theorem Counts.reset (h : Counts p b e c) (h_p : ¬ p e) : Counts p b (e + 1) 0 where
  le := by have := h.le; omega
  run k hk := absurd hk (Nat.not_lt_zero k)
  maximal _ := h_p

/-- A run that ends here is not longer than the count. -/
theorem Counts.not_runAt (h : Counts p b e c) (h_c : c < n) (h_ge : b ≤ i) (h_end : i + n = e) :
    ¬ RunAt p n i := by
  intro h_run
  exact h.maximal (by omega) (h_run.at (by omega) (by omega))

/-! ### The search -/

/-- The search does not go back. -/
theorem le_of_search [DecidablePred p] {x left : ℕ} (h : search p n left e c = some x) : e ≤ x := by
  induction left generalizing e c with
  | zero => cases h
  | succ left ih =>
    rw [search] at h
    generalize (if p e then c + 1 else 0) = c' at h
    split at h
    · exact Nat.le_of_eq (Option.some.inj h)
    · exact Nat.le_of_succ_le (ih h)

/-- **What the search finds.** The count at its start is too small, and no run has ended before. -/
theorem search_spec [DecidablePred p] (h : Counts p b e c) (h_c : c < n)
    (h_none : ∀ i, b ≤ i → i + n ≤ e → ¬ RunAt p n i) (left : ℕ) :
    (∃ x i, search p n left e c = some x ∧ e ≤ x ∧ x < e + left ∧ FirstRun p n b i ∧
      x + 1 = i + n) ∨
    search p n left e c = none ∧ ∀ i, b ≤ i → i + n ≤ e + left → ¬ RunAt p n i := by
  induction left generalizing e c with
  | zero => exact .inr ⟨rfl, h_none⟩
  | succ left ih =>
    -- the count with the next position
    obtain ⟨c', h_c', h_counts, h_le'⟩ : ∃ c', (if p e then c + 1 else 0) = c' ∧
        Counts p b (e + 1) c' ∧ c' ≤ n := by
      by_cases h_p : p e
      · exact ⟨c + 1, if_pos h_p, h.succ h_p, h_c⟩
      · exact ⟨0, if_neg h_p, h.reset h_p, Nat.zero_le n⟩
    have h_le := h_counts.le
    rw [search, h_c']
    by_cases h_eq : c' = n
    · -- the count is reached: the run ends here, and the ones before did not end
      subst h_eq
      rw [if_pos rfl]
      refine .inl ⟨e, e + 1 - c', rfl, Nat.le_refl e, by omega,
        ⟨by omega, h_counts.run, ?_⟩, by omega⟩
      intro j h_ge h_lt
      exact h_none j h_ge (by omega)
    · rw [if_neg h_eq]
      -- not yet: no run ends here either
      have h_lt : c' < n := Nat.lt_of_le_of_ne h_le' h_eq
      have h_none' (i : ℕ) (h_ge : b ≤ i) (h_end : i + n ≤ e + 1) : ¬ RunAt p n i := by
        rcases Nat.lt_or_eq_of_le h_end with h_before | h_here
        · exact h_none i h_ge (by omega)
        · exact h_counts.not_runAt h_lt h_ge h_here
      rcases ih h_counts h_lt h_none' with ⟨x, i, h_x, h_ge, h_end, h_first⟩ | ⟨h_x, h_all⟩
      · exact .inl ⟨x, i, h_x, by omega, by omega, h_first⟩
      · refine .inr ⟨h_x, fun i h_ge h_end => h_all i h_ge (by omega)⟩

end ToiletOS
