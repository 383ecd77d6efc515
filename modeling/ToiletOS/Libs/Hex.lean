import ToiletOS.Libs.Decimal

/-!
# Hexadecimal numbers

`func` and `num2hexstr` of `libs/string.c` on their arrays. `func` divides a signed number, so the
remainders of a negative one are negative, and its last digit (the first one that is written) comes
from in front of the table `bit`. For any other number the text is eight digits, whatever was in the
static array (`num2hexstr_run`), and these are all the numbers for which it is
(`hex_string_iff`).
-/

namespace ToiletOS

/-- The eight digits of a number, from the highest one down. -/
def hexString (number : BitVec 32) : List (BitVec 8) :=
  (List.range 8).map fun i => digitChar (number.toNat / 16 ^ (7 - i) % 16)

/-- What `num2hexstr` is to return. -/
def hexText (number need0x : BitVec 32) : List (BitVec 8) :=
  (if need0x ≠ 0#32 then [0x30#8, 0x78#8] else []) ++ hexString number

namespace CLib

open CCode

/-! ### The functions -/

section Defs

variable {ε : Type} [DecidableEq ε] {callerSize : ε → ℕ}

/-- `bit`, with the zero that ends it. -/
def bitTable : CPtr (LibVar ε) :=
  .into (.const [0x30#8, 0x31#8, 0x32#8, 0x33#8, 0x34#8, 0x35#8, 0x36#8, 0x37#8, 0x38#8, 0x39#8,
    0x41#8, 0x42#8, 0x43#8, 0x44#8, 0x45#8, 0x46#8, 0#8]) (0 : ℕ)

/-- `func`, to the base 16. -/
def func (s : CPtr (LibVar ε)) (n : ℤ) : CCode (libSize callerSize) Unit :=
  if n = 0 then do
    let _ ← strcpy s (literal [])
  else do
    func s (n.tdiv 16)
    let len ← strlen s
    store (s.add len) (← load (bitTable.add (n.tmod 16)))
    store (s.add (len + 1)) 0#8
termination_by n.natAbs
decreasing_by
  rw [Int.natAbs_tdiv]
  exact Nat.div_lt_self (Int.natAbs_pos.mpr ‹_›) (by decide)

/-- The loop of `num2hexstr`, with `left` rounds between `i` and `offset`. -/
def zeroLoop (tempArry : CPtr (LibVar ε)) : ℕ → ℕ → CCode (libSize callerSize) Unit
  | 0, _ => return ()
  | left + 1, i => do
    store (tempArry.add i) 0x30#8
    zeroLoop tempArry left (i + 1)

/-- `num2hexstr`. -/
def num2hexstr (number need0x : BitVec 32) : CCode (libSize callerSize) (CPtr (LibVar ε)) := do
  let staticHexstr := CPtr.into (.var .staticHexstr) (0 : ℕ)
  let tempArry := CPtr.into (.var .tempArry) (0 : ℕ)
  let tempArry2 := CPtr.into (.var .tempArry2) (0 : ℕ)
  if number ≠ 0#32 then do
    store staticHexstr 0x30#8
    store (staticHexstr.add 1) 0x78#8
    define .tempArry
    func tempArry number.toInt
    define .tempArry2
    let _ ← strcpy tempArry2 tempArry
    let offset : ℤ := 8 - (← strlen tempArry)
    let _ ← strcpy (tempArry.add offset) tempArry2
    zeroLoop tempArry offset.toNat 0
    if need0x ≠ 0#32 then do
      let _ ← strcpy (staticHexstr.add 2) tempArry
    else do
      let _ ← strcpy staticHexstr tempArry
    return staticHexstr
  else if need0x ≠ 0#32 then
    return literal [0x30#8, 0x78#8, 0x30#8, 0x30#8, 0x30#8, 0x30#8, 0x30#8, 0x30#8, 0x30#8, 0x30#8]
  else return literal [0x30#8, 0x30#8, 0x30#8, 0x30#8, 0x30#8, 0x30#8, 0x30#8, 0x30#8]

end Defs

variable {ε : Type} {callerSize : ε → ℕ} {m : LibMemory callerSize}

/-! ### The digits -/

theorem load_bitTable {i : ℕ} (hi : i < 16) :
    (load (bitTable.add i)).run m = .ok (digitChar i, m) := by
  rw [bitTable, CPtr.add_nat]
  apply run_load
  rw [Objects.content_const, Nat.zero_add]
  interval_cases i <;> rfl

/-- A negative index is in front of the table. -/
theorem load_bitTable_negative {i : ℤ} (hi : i < 0) :
    (load (bitTable.add i)).run m = .error .outOfBounds := by
  apply run_load_error
  rw [bitTable, CPtr.add, Objects.read, if_neg (by omega)]

/-- The digits of a number, from the highest one down. -/
def hexDigits (n : ℕ) : List (BitVec 8) :=
  if n = 0 then [] else hexDigits (n / 16) ++ [digitChar (n % 16)]
termination_by n
decreasing_by omega

theorem hexDigits_nonzero (n : ℕ) : 0#8 ∉ hexDigits n := by
  induction n using Nat.strong_induction_on with
  | _ n ih =>
    rw [hexDigits]
    split
    · exact List.not_mem_nil
    · rw [List.mem_append, List.mem_singleton, not_or]
      exact ⟨ih _ (by omega), (digitChar_ne_zero (Nat.mod_lt _ (by decide))).symm⟩

theorem hexDigits_length {n k : ℕ} (h : n < 16 ^ k) : (hexDigits n).length ≤ k := by
  induction k generalizing n with
  | zero =>
    rw [hexDigits, if_pos (by omega)]
    exact le_rfl
  | succ k ih =>
    rw [hexDigits]
    split
    · exact Nat.zero_le _
    · rw [List.length_append, List.length_singleton]
      exact Nat.succ_le_succ (ih (by omega))

/-- With zeros in front, the digits are those at all places. -/
theorem hexDigits_padded {n k : ℕ} (h : n < 16 ^ k) :
    List.replicate (k - (hexDigits n).length) 0x30#8 ++ hexDigits n
      = (List.range k).map fun i => digitChar (n / 16 ^ (k - 1 - i) % 16) := by
  induction k generalizing n with
  | zero =>
    rw [hexDigits, if_pos (by omega)]
    rfl
  | succ k ih =>
    have h_rest := ih (n := n / 16) (by omega)
    -- all places but the last are those of `n / 16`
    have h_places : (List.range (k + 1)).map (fun i => digitChar (n / 16 ^ (k + 1 - 1 - i) % 16))
        = ((List.range k).map fun i => digitChar (n / 16 / 16 ^ (k - 1 - i) % 16))
          ++ [digitChar (n % 16)] := by
      rw [List.range_succ, List.map_append, List.map_singleton, Nat.add_sub_cancel, Nat.sub_self,
        pow_zero, Nat.div_one]
      congr 1
      refine List.map_congr_left fun i hi => ?_
      rw [List.mem_range] at hi
      rw [Nat.div_div_eq_div_mul, ← Nat.pow_succ', show (k - 1 - i).succ = k - i by omega]
    rw [h_places, ← h_rest]
    by_cases h_zero : n = 0
    · -- there is no digit, and one more zero
      subst h_zero
      have h_nil : hexDigits 0 = [] := by rw [hexDigits, if_pos rfl]
      rw [Nat.zero_div, h_nil, List.append_nil, List.append_nil, List.length_nil, Nat.sub_zero,
        Nat.sub_zero, List.replicate_succ']
      rfl
    · have h_digits : hexDigits n = hexDigits (n / 16) ++ [digitChar (n % 16)] := by
        rw [hexDigits, if_neg h_zero]
      rw [h_digits, List.length_append, List.length_singleton, Nat.add_sub_add_right,
        ← List.append_assoc]

variable [DecidableEq ε]

/-- `func` on a number that is not negative. -/
theorem func_run (n : ℕ) (h_fits : (hexDigits n).length < 9) :
    ∃ m', (func (.into (.var .tempArry) (0 : ℕ)) n).run m = .ok ((), m') ∧
      IsStr (m'.bytes .tempArry) 0 (hexDigits n) ∧ m.SameBut m' [.tempArry] := by
  induction n using Nat.strong_induction_on with
  | _ n ih =>
    rw [func]
    by_cases h_zero : n = 0
    · have h_nil : hexDigits n = [] := by rw [hexDigits, if_pos h_zero]
      -- the innermost call writes the empty string
      have h_copy := strcpy_literal_run (m := m) (o := .tempArry) (j := 0) (s := [])
        List.not_mem_nil (show 0 + 0 < 9 by decide)
      refine ⟨m.write .tempArry 0 ([] ++ [0#8]), ?_, ?_,
        m.sameBut_write List.mem_cons_self _ _⟩
      · rw [if_pos (by omega)]
        exact run_bind_ok h_copy
      · rw [h_nil, Objects.bytes_write]
        exact isStr_overwrite List.not_mem_nil (by rw [m.length_bytes]; exact show 0 < 9 by decide)
    · have h_digits : hexDigits n = hexDigits (n / 16) ++ [digitChar (n % 16)] := by
        rw [hexDigits, if_neg h_zero]
      rw [h_digits, List.length_append, List.length_singleton] at h_fits
      obtain ⟨m₁, h_run, h_str, h_same⟩ := ih (n / 16) (by omega) (by omega)
      set len := (hexDigits (n / 16)).length with h_len
      have h_size : libSize callerSize .tempArry = 9 := rfl
      -- the number is not negative, so the C division is that of the natural numbers
      have h_div : (n : ℤ).tdiv 16 = (n / 16 : ℕ) := rfl
      have h_mod : (n : ℤ).tmod 16 = (n % 16 : ℕ) := rfl
      refine ⟨(m₁.write .tempArry len [digitChar (n % 16)]).write .tempArry (len + 1) [0#8], ?_, ?_,
        (h_same.trans (m₁.sameBut_write List.mem_cons_self _ _)).trans
          (Objects.sameBut_write _ List.mem_cons_self _ _)⟩
      · rw [if_neg (by omega), h_div, run_bind_ok h_run,
          run_bind_ok (strlen_var_run h_str), h_mod,
          run_bind_ok (load_bitTable (Nat.mod_lt _ (by decide))), CPtr.add_nat, Nat.zero_add,
          run_bind_ok (run_store (by omega) _), show ((hexDigits (n / 16)).length : ℤ) + 1
            = (len + 1 : ℕ) from rfl, CPtr.add_nat, Nat.zero_add]
        exact run_store (by omega) _
      · -- one digit behind the string that is there
        obtain ⟨h_at, -⟩ := listAt_append.mp h_str.at_place
        have h_room :
            len + ([digitChar (n % 16)] ++ [0#8]).length ≤ (m₁.bytes .tempArry).length := by
          rw [m₁.length_bytes, h_size]
          exact Nat.succ_le_of_lt h_fits
        have h_new := listAt_overwrite h_room
        rw [Objects.write_cons, Objects.bytes_write, h_digits, isStr_append, Nat.zero_add]
        refine ⟨hexDigits_nonzero _, h_at.overwrite_of_disjoint (.inl (by omega)), ?_, h_new⟩
        rw [List.mem_singleton]
        exact (digitChar_ne_zero (Nat.mod_lt _ (by decide))).symm

/-- A negative number has a digit that is not in the table. -/
theorem func_negative {n : ℤ} (h : n < 0) :
    (func (.into (.var .tempArry) (0 : ℕ)) n).run m = .error .outOfBounds := by
  induction h_abs : n.natAbs using Nat.strong_induction_on generalizing n with
  | _ k ih =>
    subst h_abs
    rw [func, if_neg h.ne]
    by_cases h_zero : n.tdiv 16 = 0
    · -- the first digit that is written
      have h_copy := strcpy_literal_run (m := m) (o := .tempArry) (j := 0) (s := [])
        List.not_mem_nil (show 0 + 0 < 9 by decide)
      have h_str : IsStr ((m.write .tempArry 0 ([] ++ [0#8])).bytes .tempArry) 0 [] := by
        rw [Objects.bytes_write]
        exact isStr_overwrite List.not_mem_nil (by rw [m.length_bytes]; exact show 0 < 9 by decide)
      have h_first : (func (.into (.var .tempArry) (0 : ℕ)) (n.tdiv 16)).run m
          = .ok ((), m.write .tempArry 0 ([] ++ [0#8])) := by
        rw [func, if_pos h_zero]
        exact run_bind_ok h_copy
      have h_mod : n.tmod 16 < 0 := by
        have h_sum := Int.tmod_add_mul_tdiv n 16
        omega
      rw [run_bind_ok h_first, run_bind_ok (strlen_var_run h_str)]
      exact run_bind_error (load_bitTable_negative h_mod)
    · -- the quotient is nearer to zero and still negative
      have h_neg : n.tdiv 16 < 0 := by
        have h_sum := Int.tmod_add_mul_tdiv n 16
        have h_le := Int.tmod_lt_of_pos n (show (0 : ℤ) < 16 by decide)
        have h_ge := Int.lt_tmod_of_pos n (show (0 : ℤ) < 16 by decide)
        omega
      have h_less : (n.tdiv 16).natAbs < n.natAbs := by
        rw [Int.natAbs_tdiv]
        exact Nat.div_lt_self (by omega) (by decide)
      exact run_bind_error (ih _ h_less h_neg rfl)

/-! ### The text -/

theorem hexString_eq {number : BitVec 32} :
    List.replicate (8 - (hexDigits number.toNat).length) 0x30#8 ++ hexDigits number.toNat
      = hexString number :=
  hexDigits_padded (k := 8) number.isLt

theorem hexString_length (number : BitVec 32) : (hexString number).length = 8 := by
  rw [hexString, List.length_map, List.length_range]

theorem hexString_nonzero (number : BitVec 32) : 0#8 ∉ hexString number := by
  intro h_mem
  obtain ⟨i, -, h_zero⟩ := List.mem_map.mp h_mem
  exact digitChar_ne_zero (Nat.mod_lt _ (by decide)) h_zero

/-- The zeros are written up to the digits. -/
theorem zeroLoop_run {left i : ℕ} (h_fits : i + left ≤ 9) :
    (zeroLoop (.into (.var .tempArry) (0 : ℕ)) left i).run m
      = .ok ((), m.write .tempArry i (List.replicate left 0x30#8)) := by
  induction left generalizing m i with
  | zero =>
    rw [List.replicate_zero, Objects.write_nil]
    rfl
  | succ left ih =>
    have h_i : i < libSize callerSize .tempArry := show i < 9 by omega
    rw [zeroLoop, CPtr.add_nat, Nat.zero_add, run_bind_ok (run_store h_i _), ih (by omega),
      Objects.write_cons, List.replicate_succ]

/-- The digits are moved to the end of `temp_arry`, by way of `temp_arry2`, and zeros are written in
front of them. -/
theorem align_run {s : List (BitVec 8)} (h_str : IsStr (m.bytes .tempArry) 0 s)
    (h_length : s.length ≤ 8) :
    ∃ m', IsStr (m'.bytes .tempArry) 0 (List.replicate (8 - s.length) 0x30#8 ++ s) ∧
      m.SameBut m' [.tempArry, .tempArry2] ∧
      ∀ {α : Type} (rest : CCode (libSize callerSize) α), StateT.run (do
        define .tempArry2
        let _ ← strcpy (.into (.var .tempArry2) (0 : ℕ)) (.into (.var .tempArry) (0 : ℕ))
        let offset : ℤ := 8 - (← strlen (.into (.var .tempArry) (0 : ℕ)))
        let _ ← strcpy ((CPtr.into (.var .tempArry) (0 : ℕ)).add offset)
          (.into (.var .tempArry2) (0 : ℕ))
        zeroLoop (.into (.var .tempArry) (0 : ℕ)) offset.toNat 0
        rest) m = rest.run m' := by
  have h_ne : LibVar.tempArry (ε := ε) ≠ .tempArry2 := by
    intro h_eq
    cases h_eq
  -- the four writes: the copy is cleared, filled, moved back, and zeros go in front
  set m₁ := m.clear .tempArry2 with h_m₁
  set m₂ := m₁.write .tempArry2 0 (s ++ [0#8]) with h_m₂
  set m₃ := m₂.write .tempArry (8 - s.length) (s ++ [0#8]) with h_m₃
  set m₄ := m₃.write .tempArry 0 (List.replicate (8 - s.length) 0x30#8) with h_m₄
  have h_temp₁ : m₁.bytes .tempArry = m.bytes .tempArry := Objects.bytes_clear_of_ne h_ne
  have h_temp₂ : m₂.bytes .tempArry = m.bytes .tempArry :=
    (Objects.bytes_write_of_ne h_ne _ _).trans h_temp₁
  have h_size : (8 - s.length) + s.length < (m₂.bytes .tempArry).length := by
    rw [m₂.length_bytes]
    exact show 8 - s.length + s.length < 9 by omega
  have h_copy : IsStr (m₂.bytes .tempArry2) 0 s := by
    rw [h_m₂, Objects.bytes_write]
    refine isStr_overwrite h_str.nonzero ?_
    rw [m₁.length_bytes]
    exact show 0 + s.length < 9 by omega
  refine ⟨m₄, ?_, ?_, ?_⟩
  · -- the zeros end where the digits start
    rw [h_m₄, Objects.bytes_write, isStr_append, List.length_replicate, Nat.zero_add]
    have h_moved : IsStr (m₃.bytes .tempArry) (8 - s.length) s := by
      rw [h_m₃, Objects.bytes_write]
      exact isStr_overwrite h_str.nonzero h_size
    refine ⟨?_, listAt_overwrite ?_, h_moved.nonzero, ?_⟩
    · intro h_mem
      exact absurd (List.eq_of_mem_replicate h_mem) (by decide)
    · rw [List.length_replicate, m₃.length_bytes]
      exact show 0 + (8 - s.length) ≤ 9 by omega
    · exact h_moved.at_place.overwrite_of_disjoint
        (.inr (by rw [List.length_replicate, Nat.zero_add]))
  · intro o ho
    rw [List.mem_cons, List.mem_singleton, not_or] at ho
    rw [h_m₄, Objects.bytes_write_of_ne ho.1, h_m₃, Objects.bytes_write_of_ne ho.1, h_m₂,
      Objects.bytes_write_of_ne ho.2, h_m₁, Objects.bytes_clear_of_ne ho.2]
  · intro α rest
    have h_str₁ : IsStr (m₁.content (.var .tempArry)) 0 s := by
      rw [Objects.content_var, h_temp₁]
      exact h_str
    have h_str₂ : IsStr (m₂.bytes .tempArry) 0 s := by
      rw [h_temp₂]
      exact h_str
    have h_offset : (8 : ℤ) - s.length = (8 - s.length : ℕ) := by omega
    have h_room : 0 + s.length < libSize callerSize .tempArry2 := show 0 + s.length < 9 by omega
    have h_room' : 8 - s.length + s.length < libSize callerSize .tempArry :=
      show 8 - s.length + s.length < 9 by omega
    have h_copy' : IsStr (m₂.content (.var .tempArry2)) 0 s := h_copy
    rw [run_bind_ok (run_define _), run_bind_ok (strcpy_run h_str₁ h_room
      fun h_eq => absurd (CArray.var.inj h_eq) h_ne),
      run_bind_ok (strlen_var_run h_str₂), h_offset]
    dsimp only
    rw [CPtr.add_nat, Nat.zero_add, run_bind_ok (strcpy_run h_copy' h_room'
        fun h_eq => absurd (CArray.var.inj h_eq).symm h_ne), Int.toNat_natCast,
      run_bind_ok (zeroLoop_run (by omega))]

/-- `num2hexstr` of zero is one of two literals. -/
theorem num2hexstr_zero (m : LibMemory callerSize) (need0x : BitVec 32) :
    ∃ array, (num2hexstr 0#32 need0x).run m = .ok (.into array (0 : ℕ), m) ∧
      IsStr (m.content array) 0 (hexText 0#32 need0x) ∧ ∃ bytes, array = .const bytes := by
  rw [num2hexstr, if_neg (not_not.mpr rfl)]
  by_cases h_need : need0x = 0#32
  · rw [if_neg (not_not.mpr h_need), hexText, if_neg (not_not.mpr h_need), List.nil_append]
    exact ⟨_, rfl, isStr_literal (hexString_nonzero 0#32), _, rfl⟩
  · rw [if_pos h_need, hexText, if_pos h_need]
    refine ⟨_, rfl, isStr_literal ?_, _, rfl⟩
    exact (show ¬ 0#8 ∈ [0x30#8, 0x78#8] ++ hexString 0#32 by
      rw [List.mem_append, not_or]
      exact ⟨by decide, hexString_nonzero 0#32⟩)

/-- The digits are copied to `static_hexstr`, at its start or behind two characters. -/
theorem copyDigits_run {number : BitVec 32}
    (h : IsStr (m.bytes .tempArry) 0 (hexString number)) {k : ℕ} (hk : k ≤ 2) :
    (strcpy (.into (.var .staticHexstr) k) (.into (.var .tempArry) (0 : ℕ))).run m
        = .ok (.into (.var .staticHexstr) k,
          m.write .staticHexstr k (hexString number ++ [0#8])) ∧
      k + (hexString number).length < libSize callerSize .staticHexstr := by
  have h_room : k + (hexString number).length < libSize callerSize .staticHexstr := by
    rw [hexString_length]
    exact show k + 8 < 11 by omega
  refine ⟨strcpy_run h h_room fun h_eq => ?_, h_room⟩
  cases h_eq

/-- `num2hexstr` on a number that is not negative. -/
theorem num2hexstr_run (m : LibMemory callerSize) {number : BitVec 32} (need0x : BitVec 32)
    (h : 0 ≤ number.toInt) :
    ∃ array m', (num2hexstr number need0x).run m = .ok (.into array (0 : ℕ), m') ∧
      IsStr (m'.content array) 0 (hexText number need0x) ∧
      (array = .var .staticHexstr ∨ ∃ bytes, array = .const bytes) ∧
      m.SameBut m' [.staticHexstr, .tempArry, .tempArry2] := by
  by_cases h_zero : number = 0#32
  · subst h_zero
    obtain ⟨array, h_run, h_text, h_const⟩ := num2hexstr_zero m need0x
    exact ⟨array, m, h_run, h_text, .inr h_const, fun _ _ => rfl⟩
  · rw [num2hexstr, if_pos h_zero]
    have h_msb : number.msb = false := by
      rw [BitVec.msb_eq_toInt, decide_eq_false (Int.not_lt.mpr h)]
    have h_toInt : number.toInt = number.toNat := BitVec.toInt_eq_toNat_of_msb h_msb
    have h_length := hexDigits_length (k := 8) number.isLt
    have h_pos : 0 < libSize callerSize .staticHexstr := show 0 < 11 by decide
    have h_pos' : 1 < libSize callerSize .staticHexstr := show 1 < 11 by decide
    -- `0x` is written first, also when it is not wanted
    set m₁ := (m.write .staticHexstr 0 [0x30#8]).write .staticHexstr 1 [0x78#8] with h_m₁
    obtain ⟨m₂, h_func, h_digits, h_same⟩ := func_run (m := m₁.clear .tempArry) number.toNat
      (by omega)
    have h_text := @hexString_eq number
    -- what is done up to the last copy
    have h_start {α : Type} (rest : CCode (libSize callerSize) α) :
        StateT.run (do
          store (.into (.var .staticHexstr) (0 : ℕ)) 0x30#8
          store ((CPtr.into (.var .staticHexstr) (0 : ℕ)).add 1) 0x78#8
          define .tempArry
          func (.into (.var .tempArry) (0 : ℕ)) number.toInt
          rest) m = rest.run m₂ := by
      rw [run_bind_ok (run_store h_pos _), CPtr.add_one, run_bind_ok (run_store h_pos' _),
        run_bind_ok (run_define _), h_toInt, run_bind_ok h_func]
    -- neither the digits nor their padding touch the front of `static_hexstr`
    have h_head : m₂.bytes .staticHexstr
        = overwrite (m.bytes .staticHexstr) 0 [0x30#8, 0x78#8] := by
      rw [h_same _ (fun h_mem => by cases List.mem_singleton.mp h_mem),
        Objects.bytes_clear_of_ne (fun h_eq => by cases h_eq), h_m₁, Objects.write_cons,
        Objects.bytes_write]
    obtain ⟨m₃, h_padded, h_same', h_align⟩ := align_run h_digits h_length
    rw [h_text] at h_padded
    have h_head₃ : m₃.bytes .staticHexstr
        = overwrite (m.bytes .staticHexstr) 0 [0x30#8, 0x78#8] := by
      rw [h_same' _ (by simp), h_head]
    have h_others : m.SameBut m₃ [.staticHexstr, .tempArry, .tempArry2] := by
      intro o ho
      rw [List.mem_cons, List.mem_cons, List.mem_singleton, not_or, not_or] at ho
      rw [h_same' o (by simp [ho]), h_same o (by simp [ho]), Objects.bytes_clear_of_ne ho.2.1, h_m₁,
        Objects.bytes_write_of_ne ho.1, Objects.bytes_write_of_ne ho.1]
    dsimp only at h_align ⊢
    rw [h_start, h_align]
    -- the digits are copied, behind `0x` or over it
    by_cases h_need : need0x = 0#32
    · obtain ⟨h_copy, h_room⟩ := copyDigits_run h_padded (Nat.zero_le 2)
      refine ⟨.var .staticHexstr, m₃.write .staticHexstr 0 (hexString number ++ [0#8]), ?_, ?_,
        .inl rfl, h_others.trans (Objects.sameBut_write _ List.mem_cons_self _ _)⟩
      · rw [if_neg (not_not.mpr h_need), run_bind_ok h_copy]
        rfl
      · rw [hexText, if_neg (not_not.mpr h_need), List.nil_append, Objects.content_var,
          Objects.bytes_write]
        exact isStr_overwrite (hexString_nonzero number) (by rw [m₃.length_bytes]; exact h_room)
    · obtain ⟨h_copy, h_room⟩ := copyDigits_run h_padded le_rfl
      refine ⟨.var .staticHexstr, m₃.write .staticHexstr 2 (hexString number ++ [0#8]), ?_, ?_,
        .inl rfl, h_others.trans (Objects.sameBut_write _ List.mem_cons_self _ _)⟩
      · rw [if_pos h_need, show (2 : ℤ) = (2 : ℕ) from rfl, CPtr.add_nat, Nat.zero_add,
          run_bind_ok h_copy]
        rfl
      · rw [hexText, if_pos h_need, Objects.content_var, Objects.bytes_write, isStr_append, h_head₃]
        refine ⟨by decide, ?_, ?_⟩
        · apply ListAt.overwrite_of_disjoint
          · apply listAt_overwrite
            rw [m.length_bytes]
            exact show 0 + 2 ≤ 11 by decide
          · exact .inl le_rfl
        · apply isStr_overwrite (hexString_nonzero number)
          rw [length_overwrite, m.length_bytes]
          exact h_room

/-- On a negative number `func` reads outside its table. -/
theorem num2hexstr_negative {number need0x : BitVec 32} (h : number.toInt < 0) :
    (num2hexstr number need0x).run m = .error .outOfBounds := by
  have h_zero : number ≠ 0#32 := by
    intro h_eq
    rw [h_eq] at h
    exact absurd h (by decide)
  have h_pos : 0 < libSize callerSize .staticHexstr := show 0 < 11 by decide
  have h_pos' : 1 < libSize callerSize .staticHexstr := show 1 < 11 by decide
  rw [num2hexstr, if_pos h_zero]
  dsimp only
  rw [run_bind_ok (run_store h_pos _), CPtr.add_one, run_bind_ok (run_store h_pos' _),
    run_bind_ok (run_define _)]
  exact run_bind_error (func_negative h)

/-- `num2hexstr` returns the text, and its run stays within the table and the arrays. -/
def HexRenders (m : LibMemory callerSize) (number need0x : BitVec 32) : Prop :=
  ∃ array m', (num2hexstr number need0x).run m = .ok (.into array (0 : ℕ), m') ∧
    IsStr (m'.content array) 0 (hexText number need0x)

end CLib

/-- A memory that is zero. -/
def zeroMemory : LibMemory fun _ : Empty => 0 :=
  ⟨fun _ => List.replicate _ 0#8, fun _ => List.length_replicate⟩

open CLib in
/-- **Hexadecimal numbers are rendered**, whatever is in the static array, if and only if they are
not negative. -/
theorem hex_string_iff {ε : Type} [DecidableEq ε] {callerSize : ε → ℕ} (m : LibMemory callerSize)
    (number need0x : BitVec 32) : HexRenders m number need0x ↔ 0 ≤ number.toInt := by
  constructor
  · rintro ⟨array, m', h_run, -⟩
    by_contra h_neg
    rw [num2hexstr_negative (by omega)] at h_run
    cases h_run
  · intro h
    obtain ⟨array, m', h_run, h_str, -⟩ := num2hexstr_run m need0x h
    exact ⟨array, m', h_run, h_str⟩

/-- A kernel address has its top bit set. -/
theorem hex_string_kernel_address : ¬ CLib.HexRenders zeroMemory 0xc0000000#32 1#32 := by
  rintro ⟨array, m', h_run, -⟩
  rw [CLib.num2hexstr_negative (by decide)] at h_run
  cases h_run

end ToiletOS
