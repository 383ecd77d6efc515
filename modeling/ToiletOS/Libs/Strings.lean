import ToiletOS.Framework.CObjects

/-!
# The strings of `libs/string.c`

The functions of `string.c` that go through an array up to a zero or up to a count, on any objects
(`ToiletOS/Framework/CObjects.lean`), and for each of those that others call what it does on a
string. A `char` is a signed byte, so that it becomes a negative `int` from `0x80` on.

None of them is told a size. So the rules ask for room in the array that is written
(`strcpy_run`, `memcpy_run`, `strcat_run`), and without it the run ends in a fault
(`memcpy_overrun`).
-/

namespace ToiletOS

variable {ι : Type} {size : ι → ℕ}

/-- The next places of an array. -/
theorem CPtr.add_nat (array : CArray ι) (k i : ℕ) :
    (CPtr.into array k).add i = .into array (k + i : ℕ) := by
  rw [CPtr.add, Nat.cast_add]

theorem CPtr.add_one (array : CArray ι) (k : ℕ) :
    (CPtr.into array k).add 1 = .into array (k + 1 : ℕ) := CPtr.add_nat array k 1

/-- A string constant. -/
def literal (s : List (BitVec 8)) : CPtr ι := .into (.const (s ++ [0#8])) (0 : ℕ)

theorem isStr_literal {s : List (BitVec 8)} (h : 0#8 ∉ s) : IsStr (s ++ [0#8]) 0 s :=
  ⟨h, listAt_self _⟩

/-- A memory in which there are only constants. -/
def noVariables : Objects fun _ : Empty => 0 := ⟨fun o => o.elim, fun o => o.elim⟩

namespace CLib

open CCode

/-! ### Reading -/

/-- The loop of `strlen`. -/
def strlenLoop (src : CPtr ι) : ℕ → ℕ → CCode size ℕ
  | 0, _ => throw .outOfBounds
  | left + 1, i => do
    let c ← load (src.add i)
    if c ≠ 0#8 then strlenLoop src left (i + 1) else return i

/-- `strlen`. -/
def strlen (src : CPtr ι) : CCode size ℕ := do
  assert (src ≠ .null)
  strlenLoop src (← rounds src) 0

/-- The loop of `strchr`. -/
def strchrLoop (ch : BitVec 8) : ℕ → CPtr ι → CCode size (CPtr ι)
  | 0, _ => throw .outOfBounds
  | left + 1, str => do
    let c ← load str
    if c ≠ 0#8 then
      if c.toInt = ch.toNat then return str else strchrLoop ch left (str.add 1)
    else return .null

/-- `strchr`. -/
def strchr (str : CPtr ι) (ch : BitVec 8) : CCode size (CPtr ι) := do
  assert (str ≠ .null)
  strchrLoop ch (← rounds str) str

/-- The loop of `strrchr`. -/
def strrchrLoop (ch : BitVec 8) : ℕ → CPtr ι → CPtr ι → CCode size (CPtr ι)
  | 0, _, _ => throw .outOfBounds
  | left + 1, lastChar, str => do
    let c ← load str
    if c ≠ 0#8 then
      let lastChar := if c.toInt = ch.toNat then str else lastChar
      strrchrLoop ch left lastChar (str.add 1)
    else return lastChar

/-- `strrchr`. -/
def strrchr (str : CPtr ι) (ch : BitVec 8) : CCode size (CPtr ι) := do
  assert (str ≠ .null)
  strrchrLoop ch (← rounds str) .null str

/-- The loop of `strchrs`. -/
def strchrsLoop (ch : BitVec 8) : ℕ → ℕ → CPtr ι → CCode size ℕ
  | 0, _, _ => throw .outOfBounds
  | left + 1, count, p => do
    let c ← load p
    if c ≠ 0#8 then
      let count := if c.toInt = ch.toNat then count + 1 else count
      strchrsLoop ch left count (p.add 1)
    else return count

/-- `strchrs`. -/
def strchrs (str : CPtr ι) (ch : BitVec 8) : CCode size ℕ := do
  assert (str ≠ .null)
  strchrsLoop ch (← rounds str) 0 str

/-- The loop of `strcmp`. -/
def strcmpLoop : ℕ → CPtr ι → CPtr ι → CCode size ℤ
  | 0, _, _ => throw .outOfBounds
  | left + 1, str1, str2 => do
    let c1 ← load str1
    let c2 ← load str2
    if c1 = 0#8 ∧ c2 = 0#8 then return 0
    else if c1.toInt > c2.toInt then return 1
    else if c1.toInt < c2.toInt then return -1
    else strcmpLoop left (str1.add 1) (str2.add 1)

/-- `strcmp`. -/
def strcmp (str1 str2 : CPtr ι) : CCode size ℤ := do
  assert (str1 ≠ .null ∧ str2 ≠ .null)
  strcmpLoop (← rounds str1) str1 str2

/-- The loop of `memcmp`, with `size` bytes to go. -/
def memcmpLoop : ℕ → CPtr ι → CPtr ι → CCode size ℤ
  | 0, _, _ => return 0
  | n + 1, a, b => do
    let x ← load a
    let y ← load b
    if x ≠ y then return x.toNat - y.toNat else memcmpLoop n (a.add 1) (b.add 1)

/-- `memcmp`. -/
def memcmp (a b : CPtr ι) (n : ℕ) : CCode size ℤ := do
  assert (a ≠ .null ∧ b ≠ .null)
  memcmpLoop n a b

/-- The loop of `strcat`, which returns its pointer. -/
def strcatLoop : ℕ → CPtr ι → CCode size (CPtr ι)
  | 0, _ => throw .outOfBounds
  | left + 1, pointer => do
    let c ← load pointer
    if c ≠ 0#8 then strcatLoop left (pointer.add 1) else return pointer

section Reading

variable {m : Objects size} {array : CArray ι} {k : ℕ} {s : List (BitVec 8)}

/-- The rounds that a string takes. -/
theorem lt_rounds (h : IsStr (m.content array) k s) : s.length < m.room (.into array k) := by
  have h_lt := h.lt_length
  rw [Objects.room_into]
  omega

theorem strlenLoop_run {left i : ℕ} (h : IsStr (m.content array) (k + i) s)
    (h_left : s.length < left) :
    (strlenLoop (.into array k) left i).run m = .ok (i + s.length, m) := by
  induction s generalizing left i with
  | nil =>
    obtain ⟨left, rfl⟩ := Nat.exists_eq_succ_of_ne_zero (Nat.ne_of_gt h_left)
    rw [strlenLoop, CPtr.add_nat, run_bind_ok (run_load (isStr_nil.mp h))]
    rfl
  | cons c s ih =>
    obtain ⟨h_c, h_k, h_s⟩ := isStr_cons.mp h
    rw [List.length_cons] at h_left
    obtain ⟨left, rfl⟩ := Nat.exists_eq_succ_of_ne_zero (show left ≠ 0 by omega)
    rw [strlenLoop, CPtr.add_nat, run_bind_ok (run_load h_k), if_pos h_c, ih h_s (by omega),
      List.length_cons, Nat.add_right_comm, Nat.add_assoc]

theorem strlen_run (h : IsStr (m.content array) k s) :
    (strlen (.into array k)).run m = .ok (s.length, m) := by
  rw [strlen, run_bind_ok (run_assert (CPtr.into_ne_null _ _)), run_bind_ok (run_rounds _),
    strlenLoop_run h (lt_rounds h), Nat.zero_add]

theorem strlen_var_run {o : ι} (h : IsStr (m.bytes o) k s) :
    (strlen (.into (.var o) k)).run m = .ok (s.length, m) := strlen_run h

theorem strcatLoop_run {left : ℕ} (h : IsStr (m.content array) k s) (h_left : s.length < left) :
    (strcatLoop left (.into array k)).run m = .ok (.into array (k + s.length : ℕ), m) := by
  induction s generalizing left k with
  | nil =>
    obtain ⟨left, rfl⟩ := Nat.exists_eq_succ_of_ne_zero (Nat.ne_of_gt h_left)
    rw [strcatLoop, run_bind_ok (run_load (isStr_nil.mp h))]
    rfl
  | cons c s ih =>
    obtain ⟨h_c, h_k, h_s⟩ := isStr_cons.mp h
    rw [List.length_cons] at h_left
    obtain ⟨left, rfl⟩ := Nat.exists_eq_succ_of_ne_zero (show left ≠ 0 by omega)
    rw [strcatLoop, run_bind_ok (run_load h_k), if_pos h_c, CPtr.add_one, ih h_s (by omega),
      List.length_cons, Nat.add_right_comm, Nat.add_assoc]

end Reading

/-! ### Writing -/

variable [DecidableEq ι]

/-- The loop of `memcpy`, with `len` bytes to go. -/
def memcpyLoop : ℕ → CPtr ι → CPtr ι → CCode size Unit
  | 0, _, _ => return ()
  | len + 1, dest, src => do
    store dest (← load src)
    memcpyLoop len (dest.add 1) (src.add 1)

/-- `memcpy`. -/
def memcpy (dest src : CPtr ι) (len : ℕ) : CCode size Unit := do
  assert (dest ≠ .null ∧ src ≠ .null)
  memcpyLoop len dest src

/-- The loop of `strcpy`, with the zero that is written after it. -/
def strcpyLoop : ℕ → CPtr ι → CPtr ι → CCode size Unit
  | 0, _, _ => throw .outOfBounds
  | left + 1, dest, src => do
    let c ← load src
    if c ≠ 0#8 then
      store dest c
      strcpyLoop left (dest.add 1) (src.add 1)
    else store dest 0#8

/-- `strcpy`. -/
def strcpy (dest src : CPtr ι) : CCode size (CPtr ι) := do
  assert (dest ≠ .null ∧ src ≠ .null)
  strcpyLoop (← rounds src) dest src
  return dest

/-- `strcat`. -/
def strcat (dest src : CPtr ι) : CCode size (CPtr ι) := do
  assert (dest ≠ .null ∧ src ≠ .null)
  let pointer ← strcatLoop (← rounds dest) dest
  let _ ← strcpy pointer src
  return dest

section Writing

variable {m : Objects size} {array : CArray ι} {o : ι} {j k : ℕ} {s t bs : List (BitVec 8)}
  {c : BitVec 8}

/-- What stands behind a byte that is written is left alone, and so is another array. -/
theorem listAt_write (h : ListAt (m.content array) (k + 1) bs) (h_over : array = .var o → j ≤ k) :
    ListAt ((m.write o j [c]).content array) (k + 1) bs := by
  by_cases h_array : array = .var o
  · subst h_array
    have h_le := h_over rfl
    rw [Objects.content_var, Objects.bytes_write]
    exact h.overwrite_of_disjoint (.inr (by rw [List.length_singleton]; omega))
  · rw [Objects.content_write_of_ne h_array]
    exact h

theorem isStr_write (h : IsStr (m.content array) (k + 1) s) (h_over : array = .var o → j ≤ k) :
    IsStr ((m.write o j [c]).content array) (k + 1) s :=
  ⟨h.nonzero, listAt_write h.at_place h_over⟩

theorem strcpyLoop_run {left : ℕ} (h : IsStr (m.content array) k s) (h_left : s.length < left)
    (h_fits : j + s.length < size o) (h_over : array = .var o → j ≤ k) :
    (strcpyLoop left (.into (.var o) j) (.into array k)).run m
      = .ok ((), m.write o j (s ++ [0#8])) := by
  induction s generalizing m left j k with
  | nil =>
    obtain ⟨left, rfl⟩ := Nat.exists_eq_succ_of_ne_zero (Nat.ne_of_gt h_left)
    rw [strcpyLoop, run_bind_ok (run_load (isStr_nil.mp h)), if_neg (not_not.mpr rfl)]
    exact run_store h_fits 0#8
  | cons c s ih =>
    obtain ⟨h_c, h_k, h_s⟩ := isStr_cons.mp h
    rw [List.length_cons] at h_left h_fits
    obtain ⟨left, rfl⟩ := Nat.exists_eq_succ_of_ne_zero (show left ≠ 0 by omega)
    -- the byte that is written lies in front of what is still to be read
    rw [strcpyLoop, run_bind_ok (run_load h_k), if_pos h_c,
      run_bind_ok (run_store (show j < size o by omega) c), CPtr.add_one, CPtr.add_one,
      ih (isStr_write h_s h_over) (by omega) (by omega)
        (fun h_eq => Nat.succ_le_succ (h_over h_eq)),
      Objects.write_cons]
    rfl

/-- `strcpy` writes a string over an array that has room for it. The array may be the one it reads,
if it writes in front of what it has still to read. -/
theorem strcpy_run (h : IsStr (m.content array) k s) (h_fits : j + s.length < size o)
    (h_over : array = .var o → j ≤ k) :
    (strcpy (.into (.var o) j) (.into array k)).run m
      = .ok (.into (.var o) j, m.write o j (s ++ [0#8])) := by
  rw [strcpy, run_bind_ok (run_assert ⟨CPtr.into_ne_null _ _, CPtr.into_ne_null _ _⟩),
    run_bind_ok (run_rounds _), run_bind_ok (strcpyLoop_run h (lt_rounds h) h_fits h_over)]
  rfl

theorem strcpy_literal_run (h : 0#8 ∉ s) (h_fits : j + s.length < size o) :
    (strcpy (.into (.var o) j) (literal s)).run m
      = .ok (.into (.var o) j, m.write o j (s ++ [0#8])) :=
  strcpy_run (m := m) (k := 0) (isStr_literal h) h_fits fun h_eq => by cases h_eq

theorem memcpyLoop_run (h : ListAt (m.content array) k bs) (h_fits : j + bs.length ≤ size o)
    (h_over : array = .var o → j ≤ k) :
    (memcpyLoop bs.length (.into (.var o) j) (.into array k)).run m
      = .ok ((), m.write o j bs) := by
  induction bs generalizing m j k with
  | nil =>
    rw [Objects.write_nil]
    rfl
  | cons c bs ih =>
    obtain ⟨h_k, h_bs⟩ := listAt_cons.mp h
    rw [List.length_cons] at h_fits
    rw [List.length_cons, memcpyLoop, run_bind_ok (run_load h_k),
      run_bind_ok (run_store (show j < size o by omega) c), CPtr.add_one, CPtr.add_one,
      ih (listAt_write h_bs h_over) (by omega) (fun h_eq => Nat.succ_le_succ (h_over h_eq)),
      Objects.write_cons]

/-- `memcpy` writes bytes over an array that has room for them. -/
theorem memcpy_run (h : ListAt (m.content array) k bs) (h_fits : j + bs.length ≤ size o)
    (h_over : array = .var o → j ≤ k) :
    (memcpy (.into (.var o) j) (.into array k) bs.length).run m = .ok ((), m.write o j bs) := by
  rw [memcpy, run_bind_ok (run_assert ⟨CPtr.into_ne_null _ _, CPtr.into_ne_null _ _⟩)]
  exact memcpyLoop_run h h_fits h_over

/-- Without room, `memcpy` writes behind the array. -/
theorem memcpy_overrun (h : ListAt (m.content array) k bs) (h_size : j ≤ size o)
    (h_over : size o < j + bs.length) (h_array : array ≠ .var o) :
    (memcpy (.into (.var o) j) (.into array k) bs.length).run m = .error .outOfBounds := by
  have h_loop : (memcpyLoop bs.length (.into (.var o) j) (.into array k)).run m
      = .error .outOfBounds := by
    induction bs generalizing m j k with
    | nil =>
      rw [List.length_nil] at h_over
      omega
    | cons c bs ih =>
      obtain ⟨h_k, h_bs⟩ := listAt_cons.mp h
      rw [List.length_cons] at h_over
      rw [List.length_cons, memcpyLoop, run_bind_ok (run_load h_k)]
      by_cases h_j : j < size o
      · rw [run_bind_ok (run_store h_j c), CPtr.add_one, CPtr.add_one]
        exact ih (listAt_write h_bs fun h_eq => absurd h_eq h_array) (by omega) (by omega)
      · -- this is the first byte past the end
        exact run_bind_error (run_store_error (by omega) c)
  rw [memcpy, run_bind_ok (run_assert ⟨CPtr.into_ne_null _ _, CPtr.into_ne_null _ _⟩)]
  exact h_loop

/-- `strcat` writes a string from another array behind the one that is there. -/
theorem strcat_run (h_dest : IsStr (m.bytes o) j t) (h : IsStr (m.content array) k s)
    (h_fits : j + t.length + s.length < size o) (h_array : array ≠ .var o) :
    (strcat (.into (.var o) j) (.into array k)).run m
      = .ok (.into (.var o) j, m.write o (j + t.length) (s ++ [0#8])) := by
  have h_dest' : IsStr (m.content (.var o)) j t := h_dest
  rw [strcat, run_bind_ok (run_assert ⟨CPtr.into_ne_null _ _, CPtr.into_ne_null _ _⟩),
    run_bind_ok (run_rounds _), run_bind_ok (strcatLoop_run h_dest' (lt_rounds h_dest')),
    run_bind_ok (strcpy_run h h_fits fun h_eq => absurd h_eq h_array)]
  rfl

end Writing

end CLib
end ToiletOS
