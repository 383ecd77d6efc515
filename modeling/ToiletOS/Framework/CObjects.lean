import Mathlib.Data.BitVec
import Mathlib.Data.List.Basic
import Mathlib.Logic.Function.Basic
import Mathlib.Tactic.TypeStar

/-!
# Arrays of bytes and code that works on them

C code that works on strings, in a memory of objects. An object is an array whose size is fixed;
a pointer is a place in an object, or in a constant array, or null. An access outside the object
that the pointer is in is a fault, and so is a failed assertion: code that returns has stayed within
its objects.

`ListAt` says that some bytes stand at a place of an array, and `IsStr` that they are a string, with
the zero that ends it. What a loop writes is `overwrite`.
-/

namespace ToiletOS

/-! ### Places in a list -/

section Lists

variable {β : Type*} {buf bs cs : List β} {c : β} {j k : ℕ}

/-- The elements `bs` stand in the list from place `k` on. -/
def ListAt (buf : List β) (k : ℕ) (bs : List β) : Prop := ∀ i < bs.length, buf[k + i]? = bs[i]?

/-- The list with elements written over it from place `k` on. -/
def overwrite (buf : List β) (k : ℕ) : List β → List β
  | [] => buf
  | c :: cs => overwrite (buf.set k c) (k + 1) cs

theorem listAt_nil (buf : List β) (k : ℕ) : ListAt buf k [] := fun _ hi =>
  absurd hi (Nat.not_lt_zero _)

theorem listAt_self (buf : List β) : ListAt buf 0 buf := fun i _ => by rw [Nat.zero_add]

theorem listAt_append :
    ListAt buf k (bs ++ cs) ↔ ListAt buf k bs ∧ ListAt buf (k + bs.length) cs := by
  constructor
  · intro h
    refine ⟨fun i hi => ?_, fun i hi => ?_⟩
    · rw [h i (by rw [List.length_append]; omega), List.getElem?_append_left hi]
    · rw [Nat.add_assoc, h _ (by rw [List.length_append]; omega),
        List.getElem?_append_right (by omega), Nat.add_sub_cancel_left]
  · rintro ⟨h_bs, h_cs⟩ i hi
    rw [List.length_append] at hi
    by_cases h_i : i < bs.length
    · rw [h_bs i h_i, List.getElem?_append_left h_i]
    · obtain ⟨d, rfl⟩ := Nat.exists_eq_add_of_le (Nat.le_of_not_lt h_i)
      rw [← Nat.add_assoc, h_cs d (by omega), List.getElem?_append_right (by omega),
        Nat.add_sub_cancel_left]

theorem listAt_singleton : ListAt buf k [c] ↔ buf[k]? = some c := by
  constructor
  · intro h
    exact h 0 Nat.one_pos
  · intro h i hi
    obtain rfl : i = 0 := by simpa using hi
    exact h

theorem listAt_cons : ListAt buf k (c :: cs) ↔ buf[k]? = some c ∧ ListAt buf (k + 1) cs := by
  rw [← List.singleton_append, listAt_append, listAt_singleton]
  rfl

/-- What stands in a list ends within it. -/
theorem ListAt.le_length (h : ListAt buf k bs) (h_ne : bs ≠ []) : k + bs.length ≤ buf.length := by
  have h_pos := List.length_pos_of_ne_nil h_ne
  have h_last := h (bs.length - 1) (by omega)
  rw [List.getElem?_eq_getElem (l := bs) (by omega)] at h_last
  have h_lt := (List.getElem?_eq_some_iff.mp h_last).1
  omega

theorem ListAt.congr {buf' : List β} (h : ListAt buf k bs)
    (h_same : ∀ i < bs.length, buf'[k + i]? = buf[k + i]?) : ListAt buf' k bs := fun i hi => by
  rw [h_same i hi, h i hi]

@[simp] theorem length_overwrite (buf : List β) (k : ℕ) (bs : List β) :
    (overwrite buf k bs).length = buf.length := by
  induction bs generalizing buf k with
  | nil => rfl
  | cons c cs ih => rw [overwrite, ih, List.length_set]

/-- Places before and behind are left alone. -/
theorem overwrite_of_outside (h : j < k ∨ k + bs.length ≤ j) :
    (overwrite buf k bs)[j]? = buf[j]? := by
  induction bs generalizing buf k with
  | nil => rfl
  | cons c cs ih =>
    rw [List.length_cons] at h
    rw [overwrite, ih (by omega), List.getElem?_set_ne (by omega)]

/-- What is written stands there. -/
theorem listAt_overwrite (h : k + bs.length ≤ buf.length) : ListAt (overwrite buf k bs) k bs := by
  induction bs generalizing buf k with
  | nil => exact listAt_nil _ _
  | cons c cs ih =>
    rw [List.length_cons] at h
    rw [listAt_cons, overwrite]
    refine ⟨?_, ih (by rw [List.length_set]; omega)⟩
    rw [overwrite_of_outside (.inl (Nat.lt_succ_self k)), List.getElem?_set_self (by omega)]

/-- What stands elsewhere stays. -/
theorem ListAt.overwrite_of_disjoint (h : ListAt buf j bs)
    (h_out : j + bs.length ≤ k ∨ k + cs.length ≤ j) : ListAt (overwrite buf k cs) j bs :=
  h.congr fun i hi => overwrite_of_outside (by omega)

theorem overwrite_append : overwrite buf k (bs ++ cs)
    = overwrite (overwrite buf k bs) (k + bs.length) cs := by
  induction bs generalizing buf k with
  | nil => rfl
  | cons b bs ih =>
    rw [List.cons_append, overwrite, ih, overwrite, List.length_cons, Nat.add_right_comm,
      Nat.add_assoc]

end Lists

/-! ### Strings -/

section Strings

variable {buf s t : List (BitVec 8)} {c : BitVec 8} {k : ℕ}

/-- At place `k` there is a string: its characters, none of which is zero, and a zero. -/
structure IsStr (buf : List (BitVec 8)) (k : ℕ) (s : List (BitVec 8)) : Prop where
  nonzero : 0#8 ∉ s
  at_place : ListAt buf k (s ++ [0#8])

theorem isStr_nil : IsStr buf k [] ↔ buf[k]? = some 0#8 :=
  ⟨fun h => listAt_singleton.mp h.at_place, fun h => ⟨List.not_mem_nil, listAt_singleton.mpr h⟩⟩

theorem isStr_cons : IsStr buf k (c :: s) ↔ c ≠ 0#8 ∧ buf[k]? = some c ∧ IsStr buf (k + 1) s := by
  constructor
  · rintro ⟨h_nonzero, h_at⟩
    rw [List.mem_cons, not_or] at h_nonzero
    rw [List.cons_append, listAt_cons] at h_at
    exact ⟨Ne.symm h_nonzero.1, h_at.1, h_nonzero.2, h_at.2⟩
  · rintro ⟨h_c, h_k, h_nonzero, h_at⟩
    refine ⟨?_, listAt_cons.mpr ⟨h_k, h_at⟩⟩
    rw [List.mem_cons, not_or]
    exact ⟨h_c.symm, h_nonzero⟩

/-- A string after some characters that are not zero. -/
theorem isStr_append : IsStr buf k (s ++ t) ↔
    0#8 ∉ s ∧ ListAt buf k s ∧ IsStr buf (k + s.length) t := by
  constructor
  · rintro ⟨h_nonzero, h_at⟩
    rw [List.mem_append, not_or] at h_nonzero
    rw [List.append_assoc, listAt_append] at h_at
    exact ⟨h_nonzero.1, h_at.1, h_nonzero.2, h_at.2⟩
  · rintro ⟨h_s, h_at, h_t, h_rest⟩
    refine ⟨?_, ?_⟩
    · rw [List.mem_append, not_or]
      exact ⟨h_s, h_t⟩
    · rw [List.append_assoc, listAt_append]
      exact ⟨h_at, h_rest⟩

/-- A string and its zero end within the array. -/
theorem IsStr.lt_length (h : IsStr buf k s) : k + s.length < buf.length := by
  have h_le := h.at_place.le_length (by simp)
  rw [List.length_append, List.length_singleton] at h_le
  omega

/-- A string that has been written. -/
theorem isStr_overwrite (h_nonzero : 0#8 ∉ s) (h_fits : k + s.length < buf.length) :
    IsStr (overwrite buf k (s ++ [0#8])) k s :=
  ⟨h_nonzero, listAt_overwrite (by rw [List.length_append, List.length_singleton]; omega)⟩

end Strings

/-! ### Objects -/

/-- An array that a pointer may point into: a variable, or a constant. -/
inductive CArray (ι : Type)
  | var (o : ι)
  | const (bytes : List (BitVec 8))
  deriving DecidableEq

/-- A pointer. -/
inductive CPtr (ι : Type)
  | null
  | into (array : CArray ι) (off : ℤ)
  deriving DecidableEq

theorem CPtr.into_ne_null {ι : Type} (array : CArray ι) (off : ℤ) :
    CPtr.into array off ≠ .null := by
  intro h
  cases h

instance {ι : Type} : (p : CPtr ι) → Decidable (p = .null)
  | .null => isTrue rfl
  | .into array off => isFalse (CPtr.into_ne_null array off)

/-- Pointer arithmetic. -/
def CPtr.add {ι : Type} : CPtr ι → ℤ → CPtr ι
  | null, _ => null
  | into array off, i => into array (off + i)

/-- The content of the variables, each of which has its size. -/
structure Objects {ι : Type} (size : ι → ℕ) where
  bytes : ι → List (BitVec 8)
  length_bytes : ∀ o, (bytes o).length = size o

namespace Objects

variable {ι : Type} {size : ι → ℕ} (m : Objects size)

/-- The content of an array. -/
def content : CArray ι → List (BitVec 8)
  | .var o => m.bytes o
  | .const bytes => bytes

/-- The byte at a pointer. -/
def read : CPtr ι → Option (BitVec 8)
  | .null => none
  | .into array off => if 0 ≤ off then (m.content array)[off.toNat]? else none

/-- The number of bytes from a pointer to the end of its array. -/
def room : CPtr ι → ℕ
  | .null => 0
  | .into array off => ((m.content array).length - off).toNat

variable {m}

@[simp] theorem read_into (array : CArray ι) (k : ℕ) :
    m.read (.into array k) = (m.content array)[k]? := by
  rw [read, if_pos (Int.natCast_nonneg k), Int.toNat_natCast]

@[simp] theorem room_into (array : CArray ι) (k : ℕ) :
    m.room (.into array k) = (m.content array).length - k := by
  rw [room]
  omega

@[simp] theorem content_var (o : ι) : m.content (.var o) = m.bytes o := rfl

@[simp] theorem content_const (bytes : List (BitVec 8)) : m.content (.const bytes) = bytes := rfl

@[ext] theorem ext_bytes {m m' : Objects size} (h : ∀ o, m.bytes o = m'.bytes o) : m = m' := by
  cases m
  cases m'
  congr
  exact funext h

variable [DecidableEq ι] (m)

/-- Bytes written over a variable from place `k` on. -/
def write (o : ι) (k : ℕ) (bs : List (BitVec 8)) : Objects size where
  bytes := Function.update m.bytes o (overwrite (m.bytes o) k bs)
  length_bytes o' := by
    by_cases h : o' = o
    · subst h
      rw [Function.update_self, length_overwrite, m.length_bytes]
    · rw [Function.update_of_ne h, m.length_bytes]

/-- A variable filled with zeros. -/
def clear (o : ι) : Objects size where
  bytes := Function.update m.bytes o (List.replicate (size o) 0#8)
  length_bytes o' := by
    by_cases h : o' = o
    · subst h
      rw [Function.update_self, List.length_replicate]
    · rw [Function.update_of_ne h, m.length_bytes]

variable {m}

@[simp] theorem bytes_write (o : ι) (k : ℕ) (bs : List (BitVec 8)) :
    (m.write o k bs).bytes o = overwrite (m.bytes o) k bs := Function.update_self ..

@[simp] theorem bytes_clear (o : ι) : (m.clear o).bytes o = List.replicate (size o) 0#8 :=
  Function.update_self ..

theorem content_write_of_ne {array : CArray ι} {o : ι} (h : array ≠ .var o) (k : ℕ)
    (bs : List (BitVec 8)) : (m.write o k bs).content array = m.content array := by
  cases array with
  | var o' => exact Function.update_of_ne (fun h_eq => h (congrArg _ h_eq)) ..
  | const bytes => rfl

theorem content_clear_of_ne {array : CArray ι} {o : ι} (h : array ≠ .var o) :
    (m.clear o).content array = m.content array := by
  cases array with
  | var o' => exact Function.update_of_ne (fun h_eq => h (congrArg _ h_eq)) ..
  | const bytes => rfl

theorem bytes_write_of_ne {o o' : ι} (h : o' ≠ o) (k : ℕ) (bs : List (BitVec 8)) :
    (m.write o k bs).bytes o' = m.bytes o' := Function.update_of_ne h ..

theorem bytes_clear_of_ne {o o' : ι} (h : o' ≠ o) : (m.clear o).bytes o' = m.bytes o' :=
  Function.update_of_ne h ..

@[simp] theorem write_nil (o : ι) (k : ℕ) : m.write o k [] = m := by
  ext o' : 1
  by_cases h : o' = o
  · subst h
    exact bytes_write ..
  · exact bytes_write_of_ne h ..

theorem write_write (o : ι) (k : ℕ) (bs cs : List (BitVec 8)) :
    (m.write o k bs).write o (k + bs.length) cs = m.write o k (bs ++ cs) := by
  ext o' : 1
  by_cases h : o' = o
  · subst h
    rw [bytes_write, bytes_write, bytes_write, overwrite_append]
  · rw [bytes_write_of_ne h, bytes_write_of_ne h, bytes_write_of_ne h]

/-- One byte, and the bytes behind it. -/
theorem write_cons (o : ι) (k : ℕ) (c : BitVec 8) (cs : List (BitVec 8)) :
    (m.write o k [c]).write o (k + 1) cs = m.write o k (c :: cs) := write_write o k [c] cs

end Objects

/-! ### Code -/

/-- How code goes wrong. -/
inductive CFault
  | outOfBounds | assertion
  deriving DecidableEq, Repr

/-- Code that works on the objects. -/
abbrev CCode {ι : Type} (size : ι → ℕ) : Type → Type := StateT (Objects size) (Except CFault)

namespace CCode

variable {ι : Type} {size : ι → ℕ} {α β : Type}

/-- `*p`. -/
def load (p : CPtr ι) : CCode size (BitVec 8) := fun m =>
  match m.read p with
  | some c => .ok (c, m)
  | none => .error .outOfBounds

/-- `ASSERT`. -/
def assert (c : Prop) [Decidable c] : CCode size Unit := if c then pure () else throw .assertion

/-- A bound for the rounds of a loop that goes through an array from `p` on: the access after these
is outside. -/
def rounds (p : CPtr ι) : CCode size ℕ := fun m => .ok (m.room p, m)

variable {x : CCode size α} {f : α → CCode size β} {m m' : Objects size} {a : α}

theorem run_bind_ok (h : x.run m = .ok (a, m')) : (x >>= f).run m = (f a).run m' := by
  rw [StateT.run_bind, h]
  rfl

theorem run_bind_error {e : CFault} (h : x.run m = .error e) : (x >>= f).run m = .error e := by
  rw [StateT.run_bind, h]
  rfl

/-- Code that starts with code that runs in the same way. -/
theorem run_bind_congr {y : CCode size α} {m' : Objects size} (h : x.run m = y.run m') :
    (x >>= f).run m = (y >>= f).run m' := by
  rw [StateT.run_bind, StateT.run_bind, h]

theorem run_load {array : CArray ι} {k : ℕ} {c : BitVec 8} (h : (m.content array)[k]? = some c) :
    (load (.into array k)).run m = .ok (c, m) := by
  have h_read : m.read (.into array k) = some c := by rw [Objects.read_into, h]
  change (match m.read (.into array k) with | some c => _ | none => _) = _
  rw [h_read]

theorem run_load_var {o : ι} {k : ℕ} {c : BitVec 8} (h : (m.bytes o)[k]? = some c) :
    (load (.into (.var o) k)).run m = .ok (c, m) := run_load h

theorem run_load_error {p : CPtr ι} (h : m.read p = none) :
    (load p).run m = .error .outOfBounds := by
  change (match m.read p with | some c => _ | none => _) = _
  rw [h]

theorem run_assert {c : Prop} [Decidable c] (h : c) : (assert c).run m = .ok ((), m) := by
  rw [assert, if_pos h]
  rfl

theorem run_rounds (p : CPtr ι) : (rounds p).run m = .ok (m.room p, m) := rfl

variable [DecidableEq ι]

/-- `*p = c`. A constant array is not written. -/
def store (p : CPtr ι) (c : BitVec 8) : CCode size Unit := fun m =>
  match p with
  | .into (.var o) off =>
    if 0 ≤ off ∧ off < size o then .ok ((), m.write o off.toNat [c]) else .error .outOfBounds
  | _ => .error .outOfBounds

/-- The definition of a local array, which fills it with zeros. -/
def define (o : ι) : CCode size Unit := fun m => .ok ((), m.clear o)

theorem run_store {o : ι} {k : ℕ} (h : k < size o) (c : BitVec 8) :
    (store (.into (.var o) k) c).run m = .ok ((), m.write o k [c]) := by
  have h_in : (0 : ℤ) ≤ k ∧ (k : ℤ) < size o := by omega
  change (if _ then _ else _) = _
  rw [if_pos h_in, Int.toNat_natCast]

theorem run_store_error {o : ι} {k : ℕ} (h : size o ≤ k) (c : BitVec 8) :
    (store (.into (.var o) k) c).run m = .error .outOfBounds := by
  have h_out : ¬ ((0 : ℤ) ≤ k ∧ (k : ℤ) < size o) := by omega
  change (if _ then _ else _) = _
  rw [if_neg h_out]

theorem run_define (o : ι) : (define o).run m = .ok ((), m.clear o) := rfl

end CCode
end ToiletOS
