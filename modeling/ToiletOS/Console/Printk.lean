import ToiletOS.Console.Print

/-!
# Formatted output

`printk` and the functions on it, over strings as lists of characters. The buffers of `printk` and
`insert_str` have 100 bytes, of which the last is the zero that ends the string: a call that writes
behind its buffer has no result here.
-/

namespace ToiletOS

/-! ### Numbers -/

/-- `i2stable`, and `bit` in `func`. -/
def digitChar (i : ℕ) : BitVec 8 := BitVec.ofNat 8 (if i < 10 then 48 + i else 55 + i)

/-- The loop of `uintTostring`, from the lowest digit up. -/
def uintLoop (num : ℕ) : List (BitVec 8) :=
  if 10 ≤ num then digitChar (num - num / 10 * 10) :: uintLoop (num / 10) else [digitChar num]
termination_by num

/-- `uintTostring`. -/
def uintTostring (num : BitVec 32) : List (BitVec 8) := (uintLoop num.toNat).reverse

/-- `func`, to the base 16. A negative remainder is no index of the table. -/
def func (n : ℤ) : Option (List (BitVec 8)) :=
  if n = 0 then some []
  else if n.tmod 16 < 0 then none
  else (func (n.tdiv 16)).map fun s => s ++ [digitChar (n.tmod 16).toNat]
termination_by n.natAbs
decreasing_by
  rw [Int.natAbs_tdiv]
  exact Nat.div_lt_self (Int.natAbs_pos.mpr ‹_›) (by decide)

/-- `num2hexstr`. -/
def num2hexstr (number : BitVec 32) (need0x : Bool) : Option (List (BitVec 8)) :=
  (func number.toInt).map fun s =>
    (if need0x then [0x30#8, 0x78#8] else []) ++ List.replicate (8 - s.length) 0x30#8 ++ s

/-! ### `printk` -/

/-- An argument behind the format. -/
inductive PrintkArg
  | str (s : List (BitVec 8))
  | int (n : BitVec 32)
  deriving DecidableEq, Repr

/-- The string that a conversion inserts. -/
def conversion (c : BitVec 8) : PrintkArg → Option (List (BitVec 8))
  | .str s => if c = 0x73#8 then some s else none
  | .int n =>
    if c = 0x64#8 then some (uintTostring n)
    else if c = 0x48#8 then num2hexstr n true
    else if c = 0x68#8 then num2hexstr n false
    else none

/-- `insert_str`: the string takes the place of the two characters at `offset`. -/
def insertStr (inserted inserting : List (BitVec 8)) (offset : ℕ) : Option (List (BitVec 8)) :=
  let result := inserted.take offset ++ inserting ++ inserted.drop (offset + 2)
  if result.length < 100 then some result else none

/-- The loop of `printk`. What is left of the string gets shorter in each round. -/
def printkLoop : ℕ → List (BitVec 8) → ℕ → List PrintkArg → Option (List (BitVec 8))
  | 0, outputStr, _, _ => some outputStr
  | left + 1, outputStr, offset, args =>
    match outputStr.drop offset with
    | [] => some outputStr
    | [_] => printkLoop left outputStr (offset + 1) args
    | charptr :: c :: _ =>
      if charptr = 0x25#8 ∧ (c = 0x73#8 ∨ c = 0x64#8 ∨ c = 0x48#8 ∨ c = 0x68#8) then
        match args with
        | [] => none
        | arg :: args => do
          let inserting ← conversion c arg
          let outputStr ← insertStr outputStr inserting offset
          printkLoop left outputStr (offset + inserting.length) args
      else printkLoop left outputStr (offset + 1) args

/-- The string that `printk` passes to `kputs`. -/
def printkStr (inputStr : List (BitVec 8)) (args : List PrintkArg) : Option (List (BitVec 8)) :=
  if inputStr.length < 100 then printkLoop inputStr.length inputStr 0 args else none

/-- `printk`. -/
def printk (inputStr : List (BitVec 8)) (args : List PrintkArg) (s : Vga) : Option Vga :=
  (printkStr inputStr args).map fun outputStr => kputs outputStr s

/-- `put_str`. -/
def putStr (message : List (BitVec 8)) (s : Vga) : Option Vga :=
  printk [0x25#8, 0x73#8] [.str message] s

/-- `put_int`. -/
def putInt (num : BitVec 32) (s : Vga) : Option Vga := printk [0x25#8, 0x64#8] [.int num] s

/-- `put_char`. -/
def putChar (charAscii : BitVec 8) (s : Vga) : Option Vga := aputChar charAscii s

/-! ### What is printed -/

theorem uintLoop_length {num k : ℕ} (h : num < 10 ^ (k + 1)) : (uintLoop num).length ≤ k + 1 := by
  induction k generalizing num with
  | zero =>
    rw [uintLoop, if_neg (by omega)]
    exact le_rfl
  | succ k ih =>
    rw [uintLoop]
    split
    · have h_rest : num / 10 < 10 ^ (k + 1) := by
        rw [Nat.div_lt_iff_lt_mul (by decide), ← Nat.pow_succ]
        exact h
      exact Nat.succ_le_succ (ih h_rest)
    · exact Nat.succ_le_succ (Nat.zero_le _)

/-- A number has at most ten digits. -/
theorem uintTostring_length (num : BitVec 32) : (uintTostring num).length ≤ 10 := by
  rw [uintTostring, List.length_reverse]
  apply uintLoop_length
  have h_lt := num.isLt
  omega

/-- A format that is one conversion gives the string that is inserted. -/
theorem printkStr_conversion {c : BitVec 8} {arg : PrintkArg} {str : List (BitVec 8)}
    (h_c : c = 0x73#8 ∨ c = 0x64#8 ∨ c = 0x48#8 ∨ c = 0x68#8) (h_str : conversion c arg = some str)
    (h_fits : str.length < 100) : printkStr [0x25#8, c] [arg] = some str := by
  have h_insert : insertStr [0x25#8, c] str 0 = some str := by
    rw [insertStr, List.take_zero, List.nil_append, show [0x25#8, c].drop (0 + 2) = [] from rfl,
      List.append_nil, if_pos h_fits]
  -- behind the text there is nothing left to scan
  have h_end (left : ℕ) : printkLoop left str (0 + str.length) [] = some str := by
    have h_drop : str.drop (0 + str.length) = [] := by rw [Nat.zero_add, List.drop_length]
    cases left with
    | zero => rfl
    | succ left => rw [printkLoop, h_drop]
  have h_start : printkStr [0x25#8, c] [arg] = printkLoop 2 [0x25#8, c] 0 [arg] := rfl
  rw [h_start, printkLoop, List.drop_zero]
  dsimp only
  rw [if_pos ⟨rfl, h_c⟩, h_str]
  change (insertStr [0x25#8, c] str 0).bind _ = _
  rw [h_insert]
  exact h_end 1

theorem putStr_eq {message : List (BitVec 8)} (h_fits : message.length < 100) (s : Vga) :
    putStr message s = some (kputs message s) := by
  rw [putStr, printk, printkStr_conversion (.inl rfl) (by rfl) h_fits]
  rfl

theorem putInt_eq (num : BitVec 32) (s : Vga) :
    putInt num s = some (kputs (uintTostring num) s) := by
  have h_fits := uintTostring_length num
  rw [putInt, printk, printkStr_conversion (.inr (.inl rfl)) (by rfl) (by omega)]
  rfl

end ToiletOS
