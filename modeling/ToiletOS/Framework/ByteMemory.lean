import Mathlib.Data.BitVec
import Mathlib.Logic.Function.Basic
import Mathlib.Tactic.SplitIfs

/-!
# Byte-addressed memory and the layout of C structures

A 32-bit memory of bytes with little-endian word access, and the offsets that a C
compiler gives the members of a structure: each member comes at the first position
after the previous one that its alignment allows, and the size of the structure
is rounded up to its own alignment.

The address arithmetic wraps at `2 ^ 32`, but within one object it is that of the
offsets: `addr_ne` and the lemmas after it reduce a load after a store to a
comparison of offsets.
-/

namespace ToiletOS

/-! ### Structures -/

/-- Size and alignment of a C type. -/
structure CType where
  size : ℕ
  align : ℕ
  deriving DecidableEq, Repr

namespace CType

/-- The first multiple of `a` that is not below `n`. -/
def alignUp (n a : ℕ) : ℕ := (n + a - 1) / a * a

def char : CType := ⟨1, 1⟩

/-- `int32_t`, `uint32_t`. -/
def int : CType := ⟨4, 4⟩

def pointer : CType := ⟨4, 4⟩

def array (n : ℕ) (t : CType) : CType := ⟨n * t.size, t.align⟩

/-- The offsets of members that follow the position `pos`. -/
def offsetsFrom (pos : ℕ) : List CType → List ℕ
  | [] => []
  | t :: ts => alignUp pos t.align :: offsetsFrom (alignUp pos t.align + t.size) ts

/-- The offset of member `i` of a structure. -/
def offset (members : List CType) (i : ℕ) : ℕ := (offsetsFrom 0 members).getD i 0

/-- The end of the members that follow the position `pos`. -/
def endFrom (pos : ℕ) : List CType → ℕ
  | [] => pos
  | t :: ts => endFrom (alignUp pos t.align + t.size) ts

/-- The structure with the given members. -/
def struct (members : List CType) : CType :=
  let align := (members.map CType.align).foldr max 1
  ⟨alignUp (endFrom 0 members) align, align⟩

end CType

/-! ### Memory -/

/-- The content of memory. -/
abbrev ByteMemory : Type := BitVec 32 → BitVec 8

/-- The address `i` bytes into the object at `base`. -/
def addr (base : BitVec 32) (i : ℕ) : BitVec 32 := base + BitVec.ofNat 32 i

@[simp] theorem addr_zero (base : BitVec 32) : addr base 0 = base := by simp [addr]

@[simp] theorem addr_addr (base : BitVec 32) (i j : ℕ) :
    addr (addr base i) j = addr base (i + j) := by
  simp [addr, BitVec.ofNat_add, BitVec.add_assoc]

/-- Different offsets are different addresses. -/
theorem addr_ne (base : BitVec 32) {i j : ℕ} (hi : i < 2 ^ 32) (hj : j < 2 ^ 32) (h : i ≠ j) :
    addr base i ≠ addr base j := by
  intro h_eq
  have h_offsets : BitVec.ofNat 32 i = BitVec.ofNat 32 j := add_left_cancel h_eq
  have h_nat := congrArg BitVec.toNat h_offsets
  rw [BitVec.toNat_ofNat, BitVec.toNat_ofNat, Nat.mod_eq_of_lt hi, Nat.mod_eq_of_lt hj] at h_nat
  exact h h_nat

/-- The offset of an address. -/
theorem addr_sub_toNat (p : BitVec 32) {i : ℕ} (h : i < 2 ^ 32) : (addr p i - p).toNat = i := by
  rw [addr, add_sub_cancel_left, BitVec.toNat_ofNat, Nat.mod_eq_of_lt h]

theorem addr_toNat_sub (p a : BitVec 32) : addr p (a - p).toNat = a := by
  rw [addr, BitVec.ofNat_toNat, BitVec.setWidth_eq]
  exact add_sub_cancel p a

/-- Offsets wrap around. -/
theorem addr_wrap (p : BitVec 32) (i : ℕ) : addr p (i + 2 ^ 32) = addr p i := by
  have h_zero : BitVec.ofNat 32 (2 ^ 32) = 0#32 := by decide
  unfold addr
  rw [BitVec.ofNat_add, h_zero, BitVec.add_zero]

namespace ByteMemory

variable (m : ByteMemory)

/-- Store a byte. -/
def store8 (a : BitVec 32) (v : BitVec 8) : ByteMemory := Function.update m a v

/-- Load a word. -/
def load32 (a : BitVec 32) : BitVec 32 :=
  m (addr a 3) ++ m (addr a 2) ++ m (addr a 1) ++ m a

/-- Store a word. -/
def store32 (a : BitVec 32) (v : BitVec 32) : ByteMemory :=
  (((m.store8 a (v.extractLsb' 0 8)).store8 (addr a 1) (v.extractLsb' 8 8)).store8
    (addr a 2) (v.extractLsb' 16 8)).store8 (addr a 3) (v.extractLsb' 24 8)

/-- Load a half word. -/
def load16 (m : ByteMemory) (a : BitVec 32) : BitVec 16 := m (addr a 1) ++ m a

/-- Store a half word. -/
def store16 (m : ByteMemory) (a : BitVec 32) (v : BitVec 16) : ByteMemory :=
  (m.store8 a (v.extractLsb' 0 8)).store8 (addr a 1) (v.extractLsb' 8 8)

theorem store8_of_ne {a b : BitVec 32} (v : BitVec 8) (h : b ≠ a) : m.store8 a v b = m b :=
  Function.update_of_ne h ..

@[simp] theorem store8_self (a : BitVec 32) (v : BitVec 8) : m.store8 a v a = v :=
  Function.update_self ..

/-- The lowest byte of a word that was stored. -/
theorem store32_low (a v : BitVec 32) : m.store32 a v a = v.extractLsb' 0 8 := by
  have h (i : ℕ) (h0 : 0 ≠ i) (hi : i < 2 ^ 32) : a ≠ addr a i := by
    simpa using addr_ne a (i := 0) (by simp) hi h0
  rw [store32, store8_of_ne _ _ (h 3 (by simp) (by simp)),
    store8_of_ne _ _ (h 2 (by simp) (by simp)), store8_of_ne _ _ (h 1 (by simp) (by simp)),
    store8_self]

theorem store32_of_ne {a b : BitVec 32} (v : BitVec 32) (h : ∀ i < 4, b ≠ addr a i) :
    m.store32 a v b = m b := by
  have h0 : b ≠ a := by simpa using h 0 (by simp)
  rw [store32, store8_of_ne _ _ (h 3 (by simp)), store8_of_ne _ _ (h 2 (by simp)),
    store8_of_ne _ _ (h 1 (by simp)), store8_of_ne _ _ h0]

theorem load32_congr {m' : ByteMemory} {a : BitVec 32} (h : ∀ i < 4, m' (addr a i) = m (addr a i)) :
    m'.load32 a = m.load32 a := by
  have h0 : m' a = m a := by simpa using h 0 (by simp)
  simp only [load32, h 3 (by simp), h 2 (by simp), h 1 (by simp), h0]

/-- **A word that was stored is loaded.** -/
theorem load32_store32 (a v : BitVec 32) : (m.store32 a v).load32 a = v := by
  have h (i j : ℕ) (hi : i < 2 ^ 32) (hj : j < 2 ^ 32) (h_ne : i ≠ j) : addr a i ≠ addr a j :=
    addr_ne a hi hj h_ne
  have h1 : m.store32 a v (addr a 1) = v.extractLsb' 8 8 := by
    rw [store32, store8_of_ne _ _ (h 1 3 (by simp) (by simp) (by simp)),
      store8_of_ne _ _ (h 1 2 (by simp) (by simp) (by simp)), store8_self]
  have h2 : m.store32 a v (addr a 2) = v.extractLsb' 16 8 := by
    rw [store32, store8_of_ne _ _ (h 2 3 (by simp) (by simp) (by simp)), store8_self]
  have h3 : m.store32 a v (addr a 3) = v.extractLsb' 24 8 := by rw [store32, store8_self]
  rw [load32, h1, h2, h3, store32_low]
  ext i hi
  -- every bit comes from the byte it belongs to
  have h_bit (k : ℕ) (hk : k = i) : v.getLsbD k = v[i] := by
    rw [hk]
    exact BitVec.getLsbD_eq_getElem hi
  simp only [BitVec.getElem_append, BitVec.getElem_extractLsb']
  split_ifs <;> exact h_bit _ (by omega)

theorem store16_of_ne {a b : BitVec 32} (v : BitVec 16) (h : ∀ i < 2, b ≠ addr a i) :
    m.store16 a v b = m b := by
  have h0 : b ≠ a := by simpa using h 0 (by simp)
  rw [store16, store8_of_ne _ _ (h 1 (by simp)), store8_of_ne _ _ h0]

theorem load16_congr {m' : ByteMemory} {a : BitVec 32} (h : ∀ i < 2, m' (addr a i) = m (addr a i)) :
    m'.load16 a = m.load16 a := by
  have h0 : m' a = m a := by simpa using h 0 (by simp)
  rw [load16, load16, h0, h 1 (by simp)]

/-- **A half word that was stored is loaded.** -/
theorem load16_store16 (a : BitVec 32) (v : BitVec 16) : (m.store16 a v).load16 a = v := by
  have h_ne : a ≠ addr a 1 := by
    have h_addr := addr_ne a (i := 0) (j := 1) (by decide) (by decide) (by decide)
    rwa [addr_zero] at h_addr
  rw [load16, store16, store8_self, store8_of_ne _ _ h_ne, store8_self]
  ext i hi
  simp only [BitVec.getElem_append, BitVec.getElem_extractLsb']
  split_ifs with h_low
  · rw [Nat.zero_add]
    exact BitVec.getLsbD_eq_getElem hi
  · rw [Nat.add_sub_cancel' (by omega)]
    exact BitVec.getLsbD_eq_getElem hi

section Offsets

variable (base : BitVec 32) {i j : ℕ}

/-- A word is not touched by a store to another word of the object. -/
theorem load32_store32_of_disjoint (v : BitVec 32) (hi : i + 4 ≤ 2 ^ 32) (hj : j + 4 ≤ 2 ^ 32)
    (h : i + 4 ≤ j ∨ j + 4 ≤ i) :
    (m.store32 (addr base j) v).load32 (addr base i) = m.load32 (addr base i) := by
  refine load32_congr m fun x hx => store32_of_ne m v fun y hy => ?_
  rw [addr_addr, addr_addr]
  exact addr_ne base (by omega) (by omega) (by omega)

/-- A word at the start of the object is not touched by a store behind it. -/
theorem load32_store32_above (v : BitVec 32) (hj : j + 4 ≤ 2 ^ 32) (h : 4 ≤ j) :
    (m.store32 (addr base j) v).load32 base = m.load32 base := by
  have h_zero := m.load32_store32_of_disjoint base (i := 0) v (by decide) hj (.inl h)
  rw [addr_zero] at h_zero
  exact h_zero

/-- A word is not touched by a store to a byte elsewhere in the object. -/
theorem load32_store8_of_disjoint (v : BitVec 8) (hi : i + 4 ≤ 2 ^ 32) (hj : j < 2 ^ 32)
    (h : i + 4 ≤ j ∨ j < i) :
    (m.store8 (addr base j) v).load32 (addr base i) = m.load32 (addr base i) := by
  refine load32_congr m fun x hx => store8_of_ne m v ?_
  rw [addr_addr]
  exact addr_ne base (by omega) hj (by omega)

/-- A byte is not touched by a store to a word elsewhere in the object. -/
theorem store32_of_disjoint (v : BitVec 32) (hi : i < 2 ^ 32) (hj : j + 4 ≤ 2 ^ 32)
    (h : i < j ∨ j + 4 ≤ i) :
    m.store32 (addr base j) v (addr base i) = m (addr base i) := by
  refine store32_of_ne m v fun y hy => ?_
  rw [addr_addr]
  exact addr_ne base hi (by omega) (by omega)

/-- A half word is not touched by a store to a word elsewhere in the object. -/
theorem load16_store32_of_disjoint (v : BitVec 32) (hi : i + 2 ≤ 2 ^ 32) (hj : j + 4 ≤ 2 ^ 32)
    (h : i + 2 ≤ j ∨ j + 4 ≤ i) :
    (m.store32 (addr base j) v).load16 (addr base i) = m.load16 (addr base i) := by
  rw [load16, load16, addr_addr, store32_of_disjoint m base v (by omega) hj (by omega),
    store32_of_disjoint m base v (by omega) hj (by omega)]

/-- A word is not touched by a store to a half word elsewhere in the object. -/
theorem load32_store16_of_disjoint (v : BitVec 16) (hi : i + 4 ≤ 2 ^ 32) (hj : j + 2 ≤ 2 ^ 32)
    (h : i + 4 ≤ j ∨ j + 2 ≤ i) :
    (m.store16 (addr base j) v).load32 (addr base i) = m.load32 (addr base i) := by
  rw [store16, addr_addr, load32_store8_of_disjoint _ base _ hi (by omega) (by omega),
    load32_store8_of_disjoint _ base _ hi (by omega) (by omega)]

/-- A byte is not touched by a store to a half word elsewhere in the object. -/
theorem store16_of_disjoint (v : BitVec 16) (hi : i < 2 ^ 32) (hj : j + 2 ≤ 2 ^ 32)
    (h : i < j ∨ j + 2 ≤ i) : m.store16 (addr base j) v (addr base i) = m (addr base i) := by
  refine store16_of_ne m v fun y hy => ?_
  rw [addr_addr]
  exact addr_ne base hi (by omega) (by omega)

/-- A half word is not touched by a store to another half word of the object. -/
theorem load16_store16_of_disjoint (v : BitVec 16) (hi : i + 2 ≤ 2 ^ 32) (hj : j + 2 ≤ 2 ^ 32)
    (h : i + 2 ≤ j ∨ j + 2 ≤ i) :
    (m.store16 (addr base j) v).load16 (addr base i) = m.load16 (addr base i) := by
  refine load16_congr m fun x hx => ?_
  rw [addr_addr]
  exact store16_of_disjoint m base v (by omega) hj (by omega)

/-- A half word is not touched by a store to a byte elsewhere in the object. -/
theorem load16_store8_of_disjoint (v : BitVec 8) (hi : i + 2 ≤ 2 ^ 32) (hj : j < 2 ^ 32)
    (h : i + 2 ≤ j ∨ j < i) :
    (m.store8 (addr base j) v).load16 (addr base i) = m.load16 (addr base i) := by
  refine load16_congr m fun x hx => store8_of_ne m v ?_
  rw [addr_addr]
  exact addr_ne base (by omega) hj (by omega)

end Offsets

end ByteMemory
end ToiletOS
