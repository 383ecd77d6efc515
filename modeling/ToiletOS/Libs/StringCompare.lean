import ToiletOS.Libs.Strings

/-!
# Two ways to compare strings

`strcmp` compares the characters of two strings as signed bytes, `memcmp` the same bytes as unsigned
ones. Both look at the first position in which the strings, with their zeros, differ
(`strcmp_run`, `memcmp_run`), and they agree if and only if the two bytes there are on the same side
of `0x80` (`comparisons_agree_iff`).
-/

namespace ToiletOS

/-- The first two elements that differ. -/
def firstDiff {β : Type*} [DecidableEq β] : List β → List β → Option (β × β)
  | x :: xs, y :: ys => if x = y then firstDiff xs ys else some (x, y)
  | _, _ => none

theorem firstDiff_ne {β : Type*} [DecidableEq β] {xs ys : List β} {x y : β}
    (h : firstDiff xs ys = some (x, y)) : x ≠ y := by
  induction xs generalizing ys with
  | nil => cases h
  | cons u xs ih =>
    cases ys with
    | nil => cases h
    | cons v ys =>
      rw [firstDiff] at h
      split at h
      · exact ih h
      · next h_ne =>
        obtain ⟨rfl, rfl⟩ := Prod.mk.inj (Option.some.inj h)
        exact h_ne

/-- What `strcmp` returns, given the bytes that differ. -/
def strcmpResult : Option (BitVec 8 × BitVec 8) → ℤ
  | none => 0
  | some (x, y) => if x.toInt > y.toInt then 1 else -1

/-- What `memcmp` returns, given the bytes that differ. -/
def memcmpResult : Option (BitVec 8 × BitVec 8) → ℤ
  | none => 0
  | some (x, y) => x.toNat - y.toNat

namespace CLib

open CCode

variable {ι : Type} {size : ι → ℕ} {m : Objects size} {array₁ array₂ : CArray ι} {k₁ k₂ left : ℕ}
  {a b : List (BitVec 8)} {x y : BitVec 8}

/-- A round of `strcmp` at bytes that differ. -/
theorem strcmpLoop_differ (h₁ : (m.content array₁)[k₁]? = some x)
    (h₂ : (m.content array₂)[k₂]? = some y) (h_ne : x ≠ y) :
    (strcmpLoop (left + 1) (.into array₁ k₁) (.into array₂ k₂)).run m
      = .ok (strcmpResult (some (x, y)), m) := by
  have h_int : x.toInt ≠ y.toInt := fun h_eq => h_ne (BitVec.eq_of_toInt_eq h_eq)
  have h_zero : ¬ (x = 0#8 ∧ y = 0#8) := fun h => h_ne (h.1.trans h.2.symm)
  rw [strcmpLoop, run_bind_ok (run_load h₁), run_bind_ok (run_load h₂), if_neg h_zero, strcmpResult]
  by_cases h_gt : x.toInt > y.toInt
  · rw [if_pos h_gt, if_pos h_gt]
    rfl
  · rw [if_neg h_gt, if_neg h_gt, if_pos (by omega)]
    rfl

/-- A round at bytes that are the same. -/
theorem strcmpLoop_same (h₁ : (m.content array₁)[k₁]? = some x)
    (h₂ : (m.content array₂)[k₂]? = some x) (h_x : x ≠ 0#8) :
    (strcmpLoop (left + 1) (.into array₁ k₁) (.into array₂ k₂)).run m
      = (strcmpLoop left (.into array₁ (k₁ + 1 : ℕ)) (.into array₂ (k₂ + 1 : ℕ))).run m := by
  rw [strcmpLoop, run_bind_ok (run_load h₁), run_bind_ok (run_load h₂),
    if_neg (fun h => h_x h.1), if_neg (lt_irrefl _), if_neg (lt_irrefl _), CPtr.add_one,
    CPtr.add_one]

theorem strcmpLoop_run (h₁ : IsStr (m.content array₁) k₁ a) (h₂ : IsStr (m.content array₂) k₂ b)
    (h_left : a.length < left) :
    (strcmpLoop left (.into array₁ k₁) (.into array₂ k₂)).run m
      = .ok (strcmpResult (firstDiff (a ++ [0#8]) (b ++ [0#8])), m) := by
  obtain ⟨left, rfl⟩ := Nat.exists_eq_succ_of_ne_zero (show left ≠ 0 by omega)
  induction a generalizing b k₁ k₂ left with
  | nil =>
    cases b with
    | nil =>
      -- both strings end here: they are equal
      rw [strcmpLoop, run_bind_ok (run_load (isStr_nil.mp h₁)),
        run_bind_ok (run_load (isStr_nil.mp h₂)), if_pos ⟨rfl, rfl⟩]
      rfl
    | cons y b =>
      obtain ⟨h_y, h_k₂, -⟩ := isStr_cons.mp h₂
      rw [strcmpLoop_differ (isStr_nil.mp h₁) h_k₂ h_y.symm, List.nil_append, List.cons_append,
        firstDiff, if_neg h_y.symm]
  | cons x a ih =>
    obtain ⟨h_x, h_k₁, h_a⟩ := isStr_cons.mp h₁
    rw [List.length_cons] at h_left
    cases b with
    | nil =>
      -- only the second one ends: its zero is the difference
      rw [strcmpLoop_differ h_k₁ (isStr_nil.mp h₂) h_x, List.nil_append, List.cons_append,
        firstDiff, if_neg h_x]
    | cons y b =>
      obtain ⟨h_y, h_k₂, h_b⟩ := isStr_cons.mp h₂
      rw [List.cons_append, List.cons_append, firstDiff]
      by_cases h_eq : x = y
      · subst h_eq
        obtain ⟨left, rfl⟩ := Nat.exists_eq_succ_of_ne_zero (show left ≠ 0 by omega)
        rw [if_pos rfl, strcmpLoop_same h_k₁ h_k₂ h_x, ih h_a h_b left (by omega)]
      · rw [if_neg h_eq, strcmpLoop_differ h_k₁ h_k₂ h_eq]

/-- `strcmp`, on any two strings. -/
theorem strcmp_run (h₁ : IsStr (m.content array₁) k₁ a) (h₂ : IsStr (m.content array₂) k₂ b) :
    (strcmp (.into array₁ k₁) (.into array₂ k₂)).run m
      = .ok (strcmpResult (firstDiff (a ++ [0#8]) (b ++ [0#8])), m) := by
  rw [strcmp, run_bind_ok (run_assert ⟨CPtr.into_ne_null _ _, CPtr.into_ne_null _ _⟩),
    run_bind_ok (run_rounds _), strcmpLoop_run h₁ h₂ (lt_rounds h₁)]

/-- A round of `memcmp` at bytes that differ. -/
theorem memcmpLoop_differ {n : ℕ} (h₁ : (m.content array₁)[k₁]? = some x)
    (h₂ : (m.content array₂)[k₂]? = some y) (h_ne : x ≠ y) :
    (memcmpLoop (n + 1) (.into array₁ k₁) (.into array₂ k₂)).run m
      = .ok (memcmpResult (some (x, y)), m) := by
  rw [memcmpLoop, run_bind_ok (run_load h₁), run_bind_ok (run_load h₂), if_pos h_ne]
  rfl

/-- A round at bytes that are the same. -/
theorem memcmpLoop_same {n : ℕ} (h₁ : (m.content array₁)[k₁]? = some x)
    (h₂ : (m.content array₂)[k₂]? = some x) :
    (memcmpLoop (n + 1) (.into array₁ k₁) (.into array₂ k₂)).run m
      = (memcmpLoop n (.into array₁ (k₁ + 1 : ℕ)) (.into array₂ (k₂ + 1 : ℕ))).run m := by
  rw [memcmpLoop, run_bind_ok (run_load h₁), run_bind_ok (run_load h₂), if_neg (not_not.mpr rfl),
    CPtr.add_one, CPtr.add_one]

theorem memcmpLoop_run (h₁ : IsStr (m.content array₁) k₁ a) (h₂ : IsStr (m.content array₂) k₂ b) :
    (memcmpLoop (min a.length b.length + 1) (.into array₁ k₁) (.into array₂ k₂)).run m
      = .ok (memcmpResult (firstDiff (a ++ [0#8]) (b ++ [0#8])), m) := by
  induction a generalizing b k₁ k₂ with
  | nil =>
    rw [List.length_nil, Nat.zero_min]
    cases b with
    | nil =>
      -- both strings end here, and the zero is compared too
      rw [memcmpLoop_same (isStr_nil.mp h₁) (isStr_nil.mp h₂)]
      rfl
    | cons y b =>
      obtain ⟨h_y, h_k₂, -⟩ := isStr_cons.mp h₂
      rw [memcmpLoop_differ (isStr_nil.mp h₁) h_k₂ h_y.symm, List.nil_append, List.cons_append,
        firstDiff, if_neg h_y.symm]
  | cons x a ih =>
    obtain ⟨h_x, h_k₁, h_a⟩ := isStr_cons.mp h₁
    cases b with
    | nil =>
      rw [List.length_nil, Nat.min_zero, memcmpLoop_differ h_k₁ (isStr_nil.mp h₂) h_x,
        List.nil_append, List.cons_append, firstDiff, if_neg h_x]
    | cons y b =>
      obtain ⟨h_y, h_k₂, h_b⟩ := isStr_cons.mp h₂
      rw [List.length_cons, List.length_cons, Nat.succ_min_succ, List.cons_append, List.cons_append,
        firstDiff]
      by_cases h_eq : x = y
      · subst h_eq
        rw [if_pos rfl, memcmpLoop_same h_k₁ h_k₂, ih h_a h_b]
      · rw [if_neg h_eq, memcmpLoop_differ h_k₁ h_k₂ h_eq]

/-- `memcmp`, on two strings up to the end of the shorter one. -/
theorem memcmp_run (h₁ : IsStr (m.content array₁) k₁ a) (h₂ : IsStr (m.content array₂) k₂ b) :
    (memcmp (.into array₁ k₁) (.into array₂ k₂) (min a.length b.length + 1)).run m
      = .ok (memcmpResult (firstDiff (a ++ [0#8]) (b ++ [0#8])), m) := by
  rw [memcmp, run_bind_ok (run_assert ⟨CPtr.into_ne_null _ _, CPtr.into_ne_null _ _⟩),
    memcmpLoop_run h₁ h₂]

end CLib

/-! ### Agreement -/

open CLib

/-- Wherever the two strings are, `strcmp` returns and so does `memcmp` up to the end of the shorter
one, and the results have the same sign. The arrays may end with the strings, so that nothing
behind these is read. -/
def ComparisonsAgree (a b : List (BitVec 8)) : Prop :=
  ∃ r q : ℤ, r.sign = q.sign ∧
    ∀ (ι : Type) (size : ι → ℕ) (m : Objects size) (array₁ array₂ : CArray ι) (k₁ k₂ : ℕ),
      IsStr (m.content array₁) k₁ a → IsStr (m.content array₂) k₂ b →
      (strcmp (.into array₁ k₁) (.into array₂ k₂)).run m = .ok (r, m) ∧
        (memcmp (.into array₁ k₁) (.into array₂ k₂) (min a.length b.length + 1)).run m = .ok (q, m)

/-- The signs, for two bytes that differ. -/
theorem sign_eq_iff {x y : BitVec 8} (h : x ≠ y) :
    (strcmpResult (some (x, y))).sign = (memcmpResult (some (x, y))).sign ↔
      (x.toNat < 0x80 ↔ y.toNat < 0x80) := by
  have h_x := x.isLt
  have h_y := y.isLt
  have h_nat : x.toNat ≠ y.toNat := fun h_eq => h (BitVec.eq_of_toNat_eq h_eq)
  have h_memcmp : (memcmpResult (some (x, y))).sign = if x.toNat > y.toNat then 1 else -1 := by
    rw [memcmpResult]
    split
    · exact Int.sign_eq_one_of_pos (by omega)
    · exact Int.sign_eq_neg_one_of_neg (by omega)
  have h_strcmp : (strcmpResult (some (x, y))).sign = if x.toInt > y.toInt then 1 else -1 := by
    rw [strcmpResult]
    split <;> rfl
  -- one compares the bytes as signed numbers, and the other as unsigned ones
  have h_iff : (if x.toInt > y.toInt then (1 : ℤ) else -1) = (if x.toNat > y.toNat then 1 else -1) ↔
      (x.toInt > y.toInt ↔ x.toNat > y.toNat) := by
    by_cases h_int : x.toInt > y.toInt <;> by_cases h_gt : x.toNat > y.toNat <;>
      simp [h_int, h_gt]
  rw [h_strcmp, h_memcmp, h_iff, BitVec.toInt_eq_toNat_cond, BitVec.toInt_eq_toNat_cond]
  split <;> split <;> omega

/-- **The comparisons agree** if and only if the first bytes that differ are both below `0x80` or
both not. -/
theorem comparisons_agree_iff {a b : List (BitVec 8)} (h_a : 0#8 ∉ a) (h_b : 0#8 ∉ b) :
    ComparisonsAgree a b ↔ ∀ x y, firstDiff (a ++ [0#8]) (b ++ [0#8]) = some (x, y) →
      (x.toNat < 0x80 ↔ y.toNat < 0x80) := by
  constructor
  · rintro ⟨r, q, h_sign, h_runs⟩ x y h_diff
    obtain ⟨h_strcmp, h_memcmp⟩ := h_runs Empty _ noVariables (.const (a ++ [0#8]))
      (.const (b ++ [0#8])) 0 0 (isStr_literal h_a) (isStr_literal h_b)
    -- the two results are those of the loops, on any memory that holds the strings
    have h_r := h_strcmp.symm.trans (strcmp_run (isStr_literal h_a) (isStr_literal h_b))
    have h_q := h_memcmp.symm.trans (memcmp_run (isStr_literal h_a) (isStr_literal h_b))
    rw [h_diff] at h_r h_q
    obtain rfl : r = strcmpResult (some (x, y)) := congrArg Prod.fst (Except.ok.inj h_r)
    obtain rfl : q = memcmpResult (some (x, y)) := congrArg Prod.fst (Except.ok.inj h_q)
    exact (sign_eq_iff (firstDiff_ne h_diff)).mp h_sign
  · intro h_half
    refine ⟨strcmpResult (firstDiff (a ++ [0#8]) (b ++ [0#8])),
      memcmpResult (firstDiff (a ++ [0#8]) (b ++ [0#8])), ?_,
      fun ι size m array₁ array₂ k₁ k₂ h₁ h₂ => ⟨strcmp_run h₁ h₂, memcmp_run h₁ h₂⟩⟩
    cases h_diff : firstDiff (a ++ [0#8]) (b ++ [0#8]) with
    | none => rfl
    | some p => exact (sign_eq_iff (firstDiff_ne h_diff)).mpr (h_half _ _ h_diff)

/-- Two strings of letters. -/
theorem comparisons_agree_letters : ComparisonsAgree [0x61#8, 0x62#8] [0x61#8, 0x63#8] := by
  refine (comparisons_agree_iff (by decide) (by decide)).mpr fun x y h_diff => ?_
  obtain ⟨rfl, rfl⟩ := Prod.mk.inj (Option.some.inj h_diff)
  decide

/-- A letter and a byte of the upper half. -/
theorem comparisons_disagree :
    (strcmp (literal [0x61#8]) (literal [0xe9#8])).run noVariables = .ok (1, noVariables) ∧
      (memcmp (literal [0x61#8]) (literal [0xe9#8]) 2).run noVariables
        = .ok (0x61 - 0xe9, noVariables) ∧
      ¬ ComparisonsAgree [0x61#8] [0xe9#8] := by
  refine ⟨rfl, rfl, ?_⟩
  rintro ⟨r, q, h_sign, h_runs⟩
  obtain ⟨h_strcmp, h_memcmp⟩ := h_runs Empty _ noVariables (.const [0x61#8, 0#8])
    (.const [0xe9#8, 0#8]) 0 0 (isStr_literal (s := [0x61#8]) (by decide))
    (isStr_literal (s := [0xe9#8]) (by decide))
  obtain rfl : 1 = r := congrArg Prod.fst (Except.ok.inj h_strcmp)
  obtain rfl : 0x61 - 0xe9 = q := congrArg Prod.fst (Except.ok.inj h_memcmp)
  revert h_sign
  decide

end ToiletOS
