import ToiletOS.Libs.Strings

/-!
# Searching a string for a byte

`strchr`, `strrchr` and `strchrs` compare a `char`, which is signed, with a `uint8_t`: both become
`int`, and from `0x80` on they are never the same (`charEq_iff`). So what the three loops
agree on is where the string has a `char` that compares equal, and that is where it has
the byte if and only if the byte is below `0x80` or is not there at all (`string_search_iff`).
-/

namespace ToiletOS

/-! ### Positions -/

section Positions

variable {β : Type*} {P : β → Prop} {s : List β} {c : β} {i : ℕ}

/-- The first position of an element with the property. -/
structure FirstAt (P : β → Prop) (s : List β) (i : ℕ) : Prop where
  here : ∃ c, s[i]? = some c ∧ P c
  before : ∀ j < i, ∀ c, s[j]? = some c → ¬ P c

/-- The last position of such an element. -/
structure LastAt (P : β → Prop) (s : List β) (i : ℕ) : Prop where
  here : ∃ c, s[i]? = some c ∧ P c
  behind : ∀ j, i < j → ∀ c, s[j]? = some c → ¬ P c

theorem firstAt_zero (h : P c) : FirstAt P (c :: s) 0 :=
  ⟨⟨c, rfl, h⟩, fun j hj => absurd hj (Nat.not_lt_zero j)⟩

theorem FirstAt.cons (h : FirstAt P s i) (h_c : ¬ P c) : FirstAt P (c :: s) (i + 1) := by
  refine ⟨h.here, fun j hj d h_d => ?_⟩
  cases j with
  | zero =>
    obtain rfl : c = d := Option.some.inj h_d
    exact h_c
  | succ j => exact h.before j (Nat.lt_of_succ_lt_succ hj) d h_d

theorem lastAt_zero (h : P c) (h_none : ∀ d ∈ s, ¬ P d) : LastAt P (c :: s) 0 := by
  refine ⟨⟨c, rfl, h⟩, fun j hj d h_d => ?_⟩
  obtain ⟨j, rfl⟩ := Nat.exists_eq_succ_of_ne_zero (Nat.ne_of_gt hj)
  exact h_none d (List.mem_of_getElem? h_d)

theorem LastAt.cons (h : LastAt P s i) : LastAt P (c :: s) (i + 1) := by
  refine ⟨h.here, fun j hj d h_d => ?_⟩
  obtain ⟨j, rfl⟩ := Nat.exists_eq_succ_of_ne_zero (show j ≠ 0 by omega)
  exact h.behind j (Nat.lt_of_succ_lt_succ hj) d h_d

/-- Properties that agree on the list have the same positions. -/
theorem FirstAt.congr {Q : β → Prop} (h : FirstAt P s i) (h_iff : ∀ c ∈ s, P c ↔ Q c) :
    FirstAt Q s i := by
  obtain ⟨c, h_c, h_p⟩ := h.here
  refine ⟨⟨c, h_c, (h_iff c (List.mem_of_getElem? h_c)).mp h_p⟩, fun j hj d h_d h_q => ?_⟩
  exact h.before j hj d h_d ((h_iff d (List.mem_of_getElem? h_d)).mpr h_q)

theorem LastAt.congr {Q : β → Prop} (h : LastAt P s i) (h_iff : ∀ c ∈ s, P c ↔ Q c) :
    LastAt Q s i := by
  obtain ⟨c, h_c, h_p⟩ := h.here
  refine ⟨⟨c, h_c, (h_iff c (List.mem_of_getElem? h_c)).mp h_p⟩, fun j hj d h_d h_q => ?_⟩
  exact h.behind j hj d h_d ((h_iff d (List.mem_of_getElem? h_d)).mpr h_q)

end Positions

variable {ι : Type} {size : ι → ℕ} {m : Objects size} {array : CArray ι} {k left : ℕ}
  {s : List (BitVec 8)} {ch : BitVec 8}

/-- The pointer is to the position, or null where no element has the property. -/
def Finds (s : List (BitVec 8)) (P : BitVec 8 → Prop) (IsAt : ℕ → Prop) (str p : CPtr ι) : Prop :=
  (∃ i, IsAt i ∧ p = str.add i) ∨ (∀ c ∈ s, ¬ P c) ∧ p = .null

/-- `*str==ch`, as `int`. -/
def CharEq (ch c : BitVec 8) : Prop := c.toInt = ch.toNat

instance (ch : BitVec 8) : DecidablePred (CharEq ch) := fun c =>
  inferInstanceAs (Decidable (c.toInt = ch.toNat))

/-- A signed and an unsigned byte are the same number only below `0x80`. -/
theorem charEq_iff {c : BitVec 8} : CharEq ch c ↔ c = ch ∧ ch.toNat < 0x80 := by
  have h_c := c.isLt
  have h_ch := ch.isLt
  rw [CharEq, BitVec.toInt_eq_toNat_cond, ← BitVec.toNat_inj]
  split
  · omega
  · omega

/-! ### The loops -/

namespace CLib

open CCode

theorem strchrLoop_run (ch : BitVec 8) (h : IsStr (m.content array) k s)
    (h_left : s.length < left) :
    ∃ p, (strchrLoop ch left (.into array k)).run m = .ok (p, m) ∧
      Finds s (CharEq ch) (FirstAt (CharEq ch) s) (.into array k) p := by
  induction s generalizing left k with
  | nil =>
    obtain ⟨left, rfl⟩ := Nat.exists_eq_succ_of_ne_zero (Nat.ne_of_gt h_left)
    refine ⟨.null, ?_, .inr ⟨fun c hc => absurd hc List.not_mem_nil, rfl⟩⟩
    rw [strchrLoop, run_bind_ok (run_load (isStr_nil.mp h))]
    rfl
  | cons c s ih =>
    obtain ⟨h_c, h_k, h_s⟩ := isStr_cons.mp h
    rw [List.length_cons] at h_left
    obtain ⟨left, rfl⟩ := Nat.exists_eq_succ_of_ne_zero (show left ≠ 0 by omega)
    rw [strchrLoop, run_bind_ok (run_load h_k), if_pos h_c]
    by_cases h_eq : CharEq ch c
    · -- the first match is here
      refine ⟨.into array k, ?_, .inl ⟨0, firstAt_zero h_eq, ?_⟩⟩
      · rw [if_pos (show c.toInt = ch.toNat from h_eq)]
        rfl
      · rw [CPtr.add_nat, Nat.add_zero]
    · -- no match here, so it is one further than in the rest
      obtain ⟨p, h_run, h_finds⟩ := ih h_s (show s.length < left by omega)
      refine ⟨p, ?_, ?_⟩
      · rw [if_neg (show ¬ c.toInt = ch.toNat from h_eq), CPtr.add_one]
        exact h_run
      · rcases h_finds with ⟨i, h_at, rfl⟩ | ⟨h_none, rfl⟩
        · refine .inl ⟨i + 1, h_at.cons h_eq, ?_⟩
          rw [CPtr.add_nat, CPtr.add_nat, Nat.add_assoc, Nat.add_comm 1]
        · exact .inr ⟨List.forall_mem_cons.mpr ⟨h_eq, h_none⟩, rfl⟩

theorem strrchrLoop_run (ch : BitVec 8) (lastChar : CPtr ι) (h : IsStr (m.content array) k s)
    (h_left : s.length < left) :
    ∃ p, (strrchrLoop ch left lastChar (.into array k)).run m = .ok (p, m) ∧
      ((∃ i, LastAt (CharEq ch) s i ∧ p = (CPtr.into array k).add i) ∨
        (∀ c ∈ s, ¬ CharEq ch c) ∧ p = lastChar) := by
  induction s generalizing left k lastChar with
  | nil =>
    obtain ⟨left, rfl⟩ := Nat.exists_eq_succ_of_ne_zero (Nat.ne_of_gt h_left)
    refine ⟨lastChar, ?_, .inr ⟨fun c hc => absurd hc List.not_mem_nil, rfl⟩⟩
    rw [strrchrLoop, run_bind_ok (run_load (isStr_nil.mp h))]
    rfl
  | cons c s ih =>
    obtain ⟨h_c, h_k, h_s⟩ := isStr_cons.mp h
    rw [List.length_cons] at h_left
    obtain ⟨left, rfl⟩ := Nat.exists_eq_succ_of_ne_zero (show left ≠ 0 by omega)
    -- the loop remembers this byte if it matches
    obtain ⟨p, h_run, h_finds⟩ := ih (if CharEq ch c then .into array k else lastChar) h_s
      (show s.length < left by omega)
    refine ⟨p, ?_, ?_⟩
    · rw [strrchrLoop, run_bind_ok (run_load h_k), if_pos h_c, CPtr.add_one]
      exact h_run
    · rcases h_finds with ⟨i, h_at, rfl⟩ | ⟨h_none, rfl⟩
      · refine .inl ⟨i + 1, h_at.cons, ?_⟩
        rw [CPtr.add_nat, CPtr.add_nat, Nat.add_assoc, Nat.add_comm 1]
      · -- no match in the rest: this byte is the last one, or there is none
        by_cases h_eq : CharEq ch c
        · refine .inl ⟨0, lastAt_zero h_eq h_none, ?_⟩
          rw [if_pos h_eq, CPtr.add_nat, Nat.add_zero]
        · exact .inr ⟨List.forall_mem_cons.mpr ⟨h_eq, h_none⟩, if_neg h_eq⟩

theorem strchrsLoop_run (ch : BitVec 8) (count : ℕ) (h : IsStr (m.content array) k s)
    (h_left : s.length < left) :
    (strchrsLoop ch left count (.into array k)).run m
      = .ok (count + s.countP (fun c => decide (CharEq ch c)), m) := by
  induction s generalizing left k count with
  | nil =>
    obtain ⟨left, rfl⟩ := Nat.exists_eq_succ_of_ne_zero (Nat.ne_of_gt h_left)
    rw [strchrsLoop, run_bind_ok (run_load (isStr_nil.mp h))]
    rfl
  | cons c s ih =>
    obtain ⟨h_c, h_k, h_s⟩ := isStr_cons.mp h
    rw [List.length_cons] at h_left
    obtain ⟨left, rfl⟩ := Nat.exists_eq_succ_of_ne_zero (show left ≠ 0 by omega)
    rw [strchrsLoop, run_bind_ok (run_load h_k), if_pos h_c, CPtr.add_one]
    change (strchrsLoop ch left (if CharEq ch c then count + 1 else count) _).run m = _
    rw [ih _ h_s (by omega), List.countP_cons]
    -- the byte is counted if it compares equal
    by_cases h_eq : CharEq ch c
    · rw [if_pos h_eq, if_pos (decide_eq_true h_eq), Nat.add_right_comm, Nat.add_assoc]
    · rw [if_neg h_eq, if_neg (by rw [decide_eq_true_iff]; exact h_eq), Nat.add_zero]

/-- What the three functions return, on any string. -/
theorem string_search_run (h : IsStr (m.content array) k s) (ch : BitVec 8) :
    ∃ p q, (strchr (.into array k) ch).run m = .ok (p, m) ∧
      (strrchr (.into array k) ch).run m = .ok (q, m) ∧
      (strchrs (.into array k) ch).run m
        = .ok (s.countP (fun c => decide (CharEq ch c)), m) ∧
      Finds s (CharEq ch) (FirstAt (CharEq ch) s) (.into array k) p ∧
      Finds s (CharEq ch) (LastAt (CharEq ch) s) (.into array k) q := by
  have h_null := CPtr.into_ne_null array k
  obtain ⟨p, h_first, h_p⟩ := strchrLoop_run ch h (lt_rounds h)
  obtain ⟨q, h_last, h_q⟩ := strrchrLoop_run ch .null h (lt_rounds h)
  have h_count := strchrsLoop_run ch 0 h (lt_rounds h)
  refine ⟨p, q, ?_, ?_, ?_, h_p, h_q⟩
  · rw [strchr, run_bind_ok (run_assert h_null), run_bind_ok (run_rounds _), h_first]
  · rw [strrchr, run_bind_ok (run_assert h_null), run_bind_ok (run_rounds _), h_last]
  · rw [strchrs, run_bind_ok (run_assert h_null), run_bind_ok (run_rounds _), h_count, Nat.zero_add]

end CLib

/-! ### The byte -/

open CLib

/-- `strchr` returns the first position of the byte, `strrchr` the last one and `strchrs` the
number, and the pointers are null exactly when the number is 0. -/
def SearchesAgree (m : Objects size) (str : CPtr ι) (s : List (BitVec 8)) (ch : BitVec 8) : Prop :=
  ∃ p q n, (strchr str ch).run m = .ok (p, m) ∧ (strrchr str ch).run m = .ok (q, m) ∧
    (strchrs str ch).run m = .ok (n, m) ∧ Finds s (· = ch) (FirstAt (· = ch) s) str p ∧
    Finds s (· = ch) (LastAt (· = ch) s) str q ∧ n = s.count ch ∧
    (p = .null ↔ n = 0) ∧ (q = .null ↔ n = 0)

theorem Finds.congr {P Q : BitVec 8 → Prop} {IsAt IsAt' : ℕ → Prop} {str p : CPtr ι}
    (h : Finds s P IsAt str p) (h_iff : ∀ c ∈ s, P c ↔ Q c) (h_at : ∀ i, IsAt i → IsAt' i) :
    Finds s Q IsAt' str p := by
  rcases h with ⟨i, h_i, rfl⟩ | ⟨h_none, rfl⟩
  · exact .inl ⟨i, h_at i h_i, rfl⟩
  · exact .inr ⟨fun c hc h_q => h_none c hc ((h_iff c hc).mpr h_q), rfl⟩

/-- A pointer is null where the byte is not found. -/
theorem Finds.null_iff {IsAt : ℕ → Prop} {p : CPtr ι}
    (h : Finds s (· = ch) IsAt (.into array k) p) (h_at : ∀ i, IsAt i → ch ∈ s) :
    p = .null ↔ s.count ch = 0 := by
  rw [List.count_eq_zero]
  rcases h with ⟨i, h_i, rfl⟩ | ⟨h_none, rfl⟩
  · rw [CPtr.add_nat]
    exact ⟨fun h_eq => absurd h_eq (CPtr.into_ne_null _ _), fun h_not => absurd (h_at i h_i) h_not⟩
  · exact ⟨fun _ h_mem => h_none ch h_mem rfl, fun _ => rfl⟩

/-- **The searches find the byte** if and only if it is below `0x80` or not in the string. -/
theorem string_search_iff (h : IsStr (m.content array) k s) (ch : BitVec 8) :
    SearchesAgree m (.into array k) s ch ↔ ch.toNat < 0x80 ∨ ch ∉ s := by
  obtain ⟨p, q, h_first, h_last, h_count, h_p, h_q⟩ := string_search_run h ch
  constructor
  · rintro ⟨-, -, n, -, -, h_run, -, -, h_n, -, -⟩
    by_contra h_not
    rw [not_or, not_not] at h_not
    -- nothing compares equal, so the count is 0
    have h_zero : s.countP (fun c => decide (CharEq ch c)) = 0 := by
      refine List.countP_eq_zero.mpr fun c _ h_eq => h_not.1 ?_
      exact (charEq_iff.mp (of_decide_eq_true h_eq)).2
    rw [h_count, h_zero] at h_run
    obtain rfl : 0 = n := congrArg Prod.fst (Except.ok.inj h_run)
    exact List.count_eq_zero.mp h_n.symm h_not.2
  · intro h_ok
    -- on the bytes of the string the comparison is equality
    have h_iff : ∀ c ∈ s, CharEq ch c ↔ c = ch := by
      intro c hc
      rw [charEq_iff, and_iff_left_iff_imp]
      rintro rfl
      exact h_ok.resolve_right (not_not.mpr hc)
    have h_n : s.countP (fun c => decide (CharEq ch c)) = s.count ch := by
      rw [List.count]
      exact List.countP_congr fun c hc => by rw [decide_eq_true_iff, h_iff c hc, beq_iff_eq]
    have h_p' := h_p.congr h_iff fun i h_i => h_i.congr h_iff
    have h_q' := h_q.congr h_iff fun i h_i => h_i.congr h_iff
    have h_mem {i : ℕ} {c : BitVec 8} (h_i : s[i]? = some c ∧ c = ch) : ch ∈ s :=
      h_i.2 ▸ List.mem_of_getElem? h_i.1
    rw [h_n] at h_count
    refine ⟨p, q, _, h_first, h_last, h_count, h_p', h_q', rfl, ?_, ?_⟩
    · exact h_p'.null_iff fun i h_i => h_i.here.elim fun c h_c => h_mem h_c
    · exact h_q'.null_iff fun i h_i => h_i.here.elim fun c h_c => h_mem h_c

/-- A byte of the lower half. -/
theorem string_search_letter :
    SearchesAgree noVariables (literal [0x61#8, 0xe9#8, 0x61#8]) [0x61#8, 0xe9#8, 0x61#8] 0x61#8 :=
  (string_search_iff (isStr_literal (by decide)) 0x61#8).mpr (.inl (by decide))

/-- A byte of the upper half is not found. -/
theorem string_search_upper :
    (strchr (literal [0xe9#8]) 0xe9#8).run noVariables = .ok (.null, noVariables) ∧
      ¬ SearchesAgree noVariables (literal [0xe9#8]) [0xe9#8] 0xe9#8 := by
  refine ⟨rfl, ?_⟩
  rintro ⟨p, q, n, h_run, -, -, h_p, -, -, -, -⟩
  have h_null : (.null : CPtr Empty) = p := congrArg Prod.fst (Except.ok.inj h_run)
  subst h_null
  rcases h_p with ⟨i, -, h_eq⟩ | ⟨h_none, -⟩
  · cases h_eq
  · exact h_none 0xe9#8 List.mem_cons_self rfl

end ToiletOS
