import Mathlib.Data.Nat.Digits.Lemmas
import Mathlib.Tactic.IntervalCases
import ToiletOS.Console.Printk
import ToiletOS.Libs.Strings

/-!
# Decimal numbers

`uintTostring` and `strrevers` of `libs/string.c` on the static array `m`, and with them the
variables of `libs/string.c` and `libs/printk.c` that are arrays. The digits are written from the
lowest one up, and then turned around in place.

The text is that of the list-level `uintTostring` of `ToiletOS/Console/Printk.lean`
(`CLib.uintTostring_run`), and its digits are those of Mathlib's `Nat.digits` (`uintLoop_eq`).
-/

namespace ToiletOS

/-! ### The variables -/

/-- The arrays of `string.c` and `printk.c`, and those of the callers. -/
inductive LibVar (ε : Type)
  -- `staticArry` of `printk`
  | staticArry
  -- `m` of `insert_str`
  | insertM
  -- `m` of `uintTostring`
  | uintM
  -- `static_hexstr`, `temp_arry` and `temp_arry2` of `num2hexstr`
  | staticHexstr | tempArry | tempArry2
  | caller (e : ε)
  deriving DecidableEq

/-- Their sizes. -/
def libSize {ε : Type} (callerSize : ε → ℕ) : LibVar ε → ℕ
  | .staticArry => 100
  | .insertM => 100
  | .uintM => 32
  | .staticHexstr => 11
  | .tempArry => 9
  | .tempArry2 => 9
  | .caller e => callerSize e

/-- The memory that the functions work on. -/
abbrev LibMemory {ε : Type} (callerSize : ε → ℕ) : Type := Objects (libSize callerSize)

/-- All variables but some are as they were. -/
def Objects.SameBut {ι : Type} {size : ι → ℕ} (m m' : Objects size) (os : List ι) : Prop :=
  ∀ o ∉ os, m'.bytes o = m.bytes o

theorem Objects.SameBut.trans {ι : Type} {size : ι → ℕ} {m₁ m₂ m₃ : Objects size} {os : List ι}
    (h : m₁.SameBut m₂ os) (h' : m₂.SameBut m₃ os) : m₁.SameBut m₃ os := fun o ho =>
  (h' o ho).trans (h o ho)

theorem Objects.SameBut.mono {ι : Type} {size : ι → ℕ} {m m' : Objects size} {os os' : List ι}
    (h : m.SameBut m' os) (h_sub : os ⊆ os') : m.SameBut m' os' := fun o ho =>
  h o fun h_mem => ho (h_sub h_mem)

theorem Objects.sameBut_write {ι : Type} [DecidableEq ι] {size : ι → ℕ} (m : Objects size) {o : ι}
    {os : List ι} (ho : o ∈ os) (k : ℕ) (bs : List (BitVec 8)) : m.SameBut (m.write o k bs) os :=
  fun _ ho' =>
  Objects.bytes_write_of_ne (fun h_eq => ho' (by rw [h_eq]; exact ho)) k bs

theorem Objects.sameBut_clear {ι : Type} [DecidableEq ι] {size : ι → ℕ} (m : Objects size) {o : ι}
    {os : List ι} (ho : o ∈ os) : m.SameBut (m.clear o) os := fun _ ho' =>
  Objects.bytes_clear_of_ne fun h_eq => ho' (by rw [h_eq]; exact ho)

/-! ### The functions -/

namespace CLib

open CCode

section Reverse

variable {ι : Type} [DecidableEq ι] {size : ι → ℕ}

/-- The loop of `strrevers`. -/
def reverseLoop (strHead : CPtr ι) (ptrH ptrT : ℤ) : CCode size Unit :=
  if ptrH < ptrT then do
    let temp ← load (strHead.add ptrT)
    store (strHead.add ptrT) (← load (strHead.add ptrH))
    store (strHead.add ptrH) temp
    reverseLoop strHead (ptrH + 1) (ptrT - 1)
  else return ()
termination_by (ptrT - ptrH).toNat

/-- `strrevers`. -/
def strrevers (str : CPtr ι) : CCode size (CPtr ι) := do
  let lenth ← strlen str
  reverseLoop str 0 (lenth - 1)
  return str

end Reverse

variable {ε : Type} [DecidableEq ε] {callerSize : ε → ℕ}

/-- `i2stable`. -/
def i2stable : CPtr (LibVar ε) :=
  .into (.const [0x30#8, 0x31#8, 0x32#8, 0x33#8, 0x34#8, 0x35#8, 0x36#8, 0x37#8, 0x38#8, 0x39#8])
    (0 : ℕ)

/-- The loop of `uintTostring`, with the digit and the zero that are written after it. -/
def uintDigits (strPtr : CPtr (LibVar ε)) (num : ℕ) : CCode (libSize callerSize) Unit :=
  if 10 ≤ num then do
    let num' := num / 10
    let index := num - num' * 10
    store strPtr (← load (i2stable.add index))
    uintDigits (strPtr.add 1) num'
  else do
    store strPtr (← load (i2stable.add num))
    store (strPtr.add 1) 0#8
termination_by num

/-- `uintTostring`. -/
def uintTostring (num : BitVec 32) : CCode (libSize callerSize) (CPtr (LibVar ε)) := do
  let head := CPtr.into (.var .uintM) (0 : ℕ)
  uintDigits head num.toNat
  strrevers head

/-! ### Turning around -/

section Reverse

variable {ι : Type} [DecidableEq ι] {size : ι → ℕ} {m : Objects size} {o : ι} {j h : ℕ}

/-- The loop turns around what is between its two indices, and leaves the rest alone. The two ends
of the part are exchanged, and the induction is on what is between them. -/
theorem reverseLoop_run (s : List (BitVec 8)) (h_at : ListAt (m.bytes o) (j + h) s) :
    ∃ m', (reverseLoop (.into (.var o) j) h (h + s.length - 1)).run m = .ok ((), m') ∧
      ListAt (m'.bytes o) (j + h) s.reverse ∧
      (∀ i, i < j + h ∨ j + h + s.length ≤ i → (m'.bytes o)[i]? = (m.bytes o)[i]?) ∧
      m.SameBut m' [o] := by
  induction s using List.bidirectionalRec generalizing m h with
  | nil =>
    refine ⟨m, ?_, h_at, fun _ _ => rfl, fun _ _ => rfl⟩
    rw [reverseLoop, if_neg (by rw [List.length_nil]; omega)]
    rfl
  | singleton a =>
    refine ⟨m, ?_, h_at, fun _ _ => rfl, fun _ _ => rfl⟩
    rw [reverseLoop, if_neg (by rw [List.length_singleton]; omega)]
    rfl
  | cons_append a s b ih =>
    obtain ⟨h_a, h_rest⟩ := listAt_cons.mp h_at
    obtain ⟨h_s, h_b⟩ := listAt_append.mp h_rest
    rw [listAt_singleton] at h_b
    have h_length : (a :: (s ++ [b])).length = s.length + 2 := by simp
    have h_end : j + h + 1 + s.length < size o := by
      rw [← m.length_bytes]
      exact (List.getElem?_eq_some_iff.mp h_b).1
    -- the ends are exchanged
    set m₁ := m.write o (j + h + 1 + s.length) [a] with h_m₁
    set m₂ := m₁.write o (j + h) [b] with h_m₂
    have h_bytes : m₂.bytes o = ((m.bytes o).set (j + h + 1 + s.length) a).set (j + h) b := by
      rw [h_m₂, Objects.bytes_write, h_m₁, Objects.bytes_write]
      rfl
    have h_set (i : ℕ) (h_ne : i ≠ j + h) (h_ne' : i ≠ j + h + 1 + s.length) :
        (m₂.bytes o)[i]? = (m.bytes o)[i]? := by
      rw [h_bytes, List.getElem?_set_ne h_ne.symm, List.getElem?_set_ne h_ne'.symm]
    have h_same : m.SameBut m₂ [o] := (m.sameBut_write List.mem_cons_self _ _).trans
      (m₁.sameBut_write List.mem_cons_self _ _)
    -- and the loop goes on between them
    obtain ⟨m', h_run, h_rev, h_outside, h_others⟩ := ih (m := m₂) (h := h + 1)
      (h_s.congr fun i hi => h_set _ (by omega) (by omega))
    refine ⟨m', ?_, ?_, fun i hi => ?_, h_same.trans h_others⟩
    · -- `high` points at the last byte of the part
      have h_back : (CPtr.into (CArray.var o) (j : ℤ)).add (h + (a :: (s ++ [b])).length - 1)
          = .into (.var o) (j + h + 1 + s.length : ℕ) := by
        rw [CPtr.add, h_length]
        congr 1
        push_cast
        ring
      have h_load : ((m.content (.var o))[j + h + 1 + s.length]?) = some b := h_b
      rw [reverseLoop, if_pos (by rw [h_length]; omega), h_back, CPtr.add_nat,
        run_bind_ok (run_load h_load), run_bind_ok (run_load_var h_a),
        run_bind_ok (run_store h_end a), run_bind_ok (run_store (by omega) b)]
      rw [h_length, show (h : ℤ) + (s.length + 2 : ℕ) - 1 - 1 = (h + 1 : ℕ) + s.length - 1 by
        push_cast; ring, show (h : ℤ) + 1 = (h + 1 : ℕ) from rfl]
      exact h_run
    · rw [show (a :: (s ++ [b])).reverse = b :: (s.reverse ++ [a]) by simp, listAt_cons,
        listAt_append, listAt_singleton, List.length_reverse]
      refine ⟨?_, h_rev, ?_⟩
      · -- the loop has left both ends as the exchange put them
        rw [h_outside _ (by omega), h_bytes, List.getElem?_set_self (by
          rw [List.length_set, m.length_bytes]; omega)]
      · rw [h_outside _ (by omega), h_bytes, List.getElem?_set_ne (by omega),
          List.getElem?_set_self (by rw [m.length_bytes]; omega)]
    · rw [h_length] at hi
      rw [h_outside i (by omega), h_set i (by omega) (by omega)]

/-- `strrevers` turns a string around in place. -/
theorem strrevers_run {s : List (BitVec 8)} (h_str : IsStr (m.bytes o) j s) :
    ∃ m', (strrevers (.into (.var o) j)).run m = .ok (.into (.var o) j, m') ∧
      IsStr (m'.bytes o) j s.reverse ∧ m.SameBut m' [o] := by
  obtain ⟨h_at, h_zero⟩ := listAt_append.mp h_str.at_place
  obtain ⟨m', h_run, h_rev, h_outside, h_same⟩ := reverseLoop_run (h := 0) s h_at
  refine ⟨m', ?_, ⟨?_, ?_⟩, h_same⟩
  · have h_start : ((0 : ℕ) : ℤ) + s.length - 1 = s.length - 1 := by rw [Nat.cast_zero, zero_add]
    rw [h_start] at h_run
    rw [strrevers, run_bind_ok (strlen_var_run h_str)]
    change ((reverseLoop _ ((0 : ℕ) : ℤ) _) >>= _).run m = _
    rw [run_bind_ok h_run]
    rfl
  · rw [List.mem_reverse]
    exact h_str.nonzero
  · rw [listAt_append, List.length_reverse, listAt_singleton]
    -- the terminator is behind the part that the loop turns around
    have h_end := h_outside (j + s.length) (.inr le_rfl)
    exact ⟨h_rev, h_end.trans (listAt_singleton.mp h_zero)⟩

end Reverse

/-! ### The digits -/

omit [DecidableEq ε] in
theorem load_i2stable {m : LibMemory callerSize} {i : ℕ} (hi : i < 10) :
    (load (i2stable.add i)).run m = .ok (digitChar i, m) := by
  rw [i2stable, CPtr.add_nat]
  apply run_load
  rw [Objects.content_const, Nat.zero_add]
  interval_cases i <;> rfl

theorem digitChar_ne_zero {i : ℕ} (hi : i < 16) : digitChar i ≠ 0#8 := by
  interval_cases i <;> decide

theorem uintLoop_nonzero (num : ℕ) : 0#8 ∉ uintLoop num := by
  induction num using Nat.strong_induction_on with
  | _ num ih =>
    rw [uintLoop]
    split
    · rw [List.mem_cons, not_or]
      exact ⟨(digitChar_ne_zero (by omega)).symm, ih _ (by omega)⟩
    · rw [List.mem_singleton]
      exact (digitChar_ne_zero (by omega)).symm

theorem uintDigits_run {m : LibMemory callerSize} (num : ℕ) {k : ℕ}
    (h_fits : k + (uintLoop num).length < 32) :
    (uintDigits (.into (.var .uintM) k) num).run m
      = .ok ((), m.write .uintM k (uintLoop num ++ [0#8])) := by
  induction num using Nat.strong_induction_on generalizing m k with
  | _ num ih =>
    rw [uintDigits]
    rw [uintLoop] at h_fits ⊢
    by_cases h_more : 10 ≤ num
    · rw [if_pos h_more, List.length_cons] at h_fits
      have h_k : k < libSize callerSize .uintM := show k < 32 by omega
      rw [if_pos h_more, if_pos h_more, run_bind_ok (load_i2stable (by omega)),
        run_bind_ok (run_store h_k _), CPtr.add_one, ih _ (by omega) (by omega), Objects.write_cons]
      rfl
    · -- the last digit, and the zero behind it
      rw [if_neg h_more, List.length_singleton] at h_fits
      have h_k : k < libSize callerSize .uintM := show k < 32 by omega
      have h_k' : k + 1 < libSize callerSize .uintM := show k + 1 < 32 by omega
      rw [if_neg h_more, if_neg h_more, run_bind_ok (load_i2stable (by omega)),
        run_bind_ok (run_store h_k _), CPtr.add_one, run_store h_k', Objects.write_cons]
      rfl

/-- **The text** that `uintTostring` leaves in its array, whatever was there. -/
theorem uintTostring_run (m : LibMemory callerSize) (num : BitVec 32) :
    ∃ m', (uintTostring num).run m = .ok (.into (.var .uintM) (0 : ℕ), m') ∧
      IsStr (m'.bytes .uintM) 0 (ToiletOS.uintTostring num) ∧ m.SameBut m' [.uintM] := by
  have h_length := uintTostring_length num
  rw [ToiletOS.uintTostring, List.length_reverse] at h_length
  -- the digits are written from the last one on, and then turned around
  have h_digits := uintDigits_run (m := m) num.toNat (k := 0) (by omega)
  have h_str : IsStr ((m.write .uintM 0 (uintLoop num.toNat ++ [0#8])).bytes .uintM) 0
      (uintLoop num.toNat) := by
    rw [Objects.bytes_write]
    exact isStr_overwrite (uintLoop_nonzero _) (by
      rw [m.length_bytes]
      exact lt_of_le_of_lt (by omega) (show 10 < 32 by decide))
  obtain ⟨m', h_run, h_rev, h_same⟩ := strrevers_run h_str
  refine ⟨m', ?_, h_rev, (m.sameBut_write List.mem_cons_self _ _).trans h_same⟩
  unfold uintTostring
  dsimp only
  rw [run_bind_ok h_digits]
  exact h_run

end CLib

/-! ### The value -/

/-- The value of a string of digits. -/
def decimalValue (s : List (BitVec 8)) : ℕ := s.foldl (fun n c => 10 * n + (c.toNat - 0x30)) 0

/-- The characters from `0` to `9`. -/
def IsDecimalDigit (c : BitVec 8) : Prop := 0x30 ≤ c.toNat ∧ c.toNat ≤ 0x39

/-- The digits, from the lowest one up. -/
def decimalDigits (num : ℕ) : List ℕ := if num = 0 then [0] else Nat.digits 10 num

theorem decimalDigits_lt {num d : ℕ} (h : d ∈ decimalDigits num) : d < 10 := by
  rw [decimalDigits] at h
  split at h
  · rw [List.mem_singleton] at h
    omega
  · exact Nat.digits_lt_base (by decide) h

theorem uintLoop_eq (num : ℕ) : uintLoop num = (decimalDigits num).map digitChar := by
  induction num using Nat.strong_induction_on with
  | _ num ih =>
    rw [uintLoop, decimalDigits]
    by_cases h_more : 10 ≤ num
    · have h_rest : decimalDigits (num / 10) = Nat.digits 10 (num / 10) := if_neg (by omega)
      rw [if_pos h_more, if_neg (by omega), ih _ (by omega), h_rest,
        show num - num / 10 * 10 = num % 10 by omega, ← List.map_cons,
        ← Nat.digits_def' (by decide) (by omega)]
    · rw [if_neg h_more]
      by_cases h_zero : num = 0
      · rw [if_pos h_zero, h_zero]
        rfl
      · rw [if_neg h_zero, Nat.digits_of_lt 10 num h_zero (by omega)]
        rfl

theorem toNat_digitChar {d : ℕ} (hd : d < 10) : (digitChar d).toNat = 0x30 + d := by
  interval_cases d <;> rfl

theorem decimalValue_append (s : List (BitVec 8)) (c : BitVec 8) :
    decimalValue (s ++ [c]) = 10 * decimalValue s + (c.toNat - 0x30) := by
  rw [decimalValue, decimalValue, List.foldl_append]
  rfl

/-- The value of digits from the highest one down. -/
theorem decimalValue_reverse {l : List ℕ} (h : ∀ d ∈ l, d < 10) :
    decimalValue (l.map digitChar).reverse = Nat.ofDigits 10 l := by
  induction l with
  | nil => rfl
  | cons d l ih =>
    obtain ⟨h_d, h_l⟩ := List.forall_mem_cons.mp h
    rw [List.map_cons, List.reverse_cons, decimalValue_append, ih h_l, toNat_digitChar h_d,
      Nat.ofDigits_cons, Nat.add_sub_cancel_left, Nat.add_comm]

theorem uintTostring_eq (num : BitVec 32) :
    uintTostring num = ((decimalDigits num.toNat).map digitChar).reverse := by
  rw [uintTostring, uintLoop_eq]

/-- The text is a decimal number. -/
theorem uintTostring_digits (num : BitVec 32) : ∀ c ∈ uintTostring num, IsDecimalDigit c := by
  intro c hc
  rw [uintTostring_eq, List.mem_reverse] at hc
  obtain ⟨d, h_d, rfl⟩ := List.mem_map.mp hc
  have h_lt := decimalDigits_lt h_d
  rw [IsDecimalDigit, toNat_digitChar h_lt]
  omega

theorem uintTostring_value (num : BitVec 32) : decimalValue (uintTostring num) = num.toNat := by
  rw [uintTostring_eq, decimalValue_reverse fun d h_d => decimalDigits_lt h_d, decimalDigits]
  split
  · next h_zero => rw [h_zero]; rfl
  · exact Nat.ofDigits_digits 10 num.toNat

/-- It starts with a zero for 0 alone. -/
theorem uintTostring_head {num : BitVec 32} (h : num ≠ 0#32) :
    (uintTostring num).head? ≠ some 0x30#8 := by
  have h_num : num.toNat ≠ 0 := fun h_eq => h (BitVec.eq_of_toNat_eq h_eq)
  have h_ne : Nat.digits 10 num.toNat ≠ [] := Nat.digits_ne_nil_iff_ne_zero.mpr h_num
  have h_last := Nat.getLast_digit_ne_zero 10 h_num
  have h_lt : (Nat.digits 10 num.toNat).getLast h_ne < 10 :=
    Nat.digits_lt_base (by decide) (List.getLast_mem h_ne)
  rw [uintTostring_eq, decimalDigits, if_neg h_num, List.head?_reverse, List.getLast?_map,
    List.getLast?_eq_some_getLast h_ne, Option.map_some, Ne, Option.some.injEq]
  intro h_eq
  have h_nat := congrArg BitVec.toNat h_eq
  rw [toNat_digitChar h_lt] at h_nat
  exact h_last (Nat.add_left_cancel (h_nat.trans (show (0x30#8).toNat = 0x30 + 0 from rfl)))

theorem uintTostring_ne_nil (num : BitVec 32) : uintTostring num ≠ [] := by
  rw [uintTostring, uintLoop]
  split <;> simp

/-- **Decimal numbers round-trip**: the text has the value of the number, and no zero in front. The
array is written within its bounds, and nothing else. -/
theorem decimal_round_trip {ε : Type} [DecidableEq ε] {callerSize : ε → ℕ}
    (m : LibMemory callerSize) (num : BitVec 32) :
    ∃ s m', (CLib.uintTostring num).run m = .ok (.into (.var .uintM) (0 : ℕ), m') ∧
      IsStr (m'.bytes .uintM) 0 s ∧ s ≠ [] ∧ (∀ c ∈ s, IsDecimalDigit c) ∧
      decimalValue s = num.toNat ∧ (num ≠ 0#32 → s.head? ≠ some 0x30#8) ∧
      m.SameBut m' [.uintM] := by
  obtain ⟨m', h_run, h_str, h_same⟩ := CLib.uintTostring_run m num
  exact ⟨uintTostring num, m', h_run, h_str, uintTostring_ne_nil num, uintTostring_digits num,
    uintTostring_value num, uintTostring_head, h_same⟩

end ToiletOS
