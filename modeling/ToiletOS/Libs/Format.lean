import ToiletOS.Libs.Hex

/-!
# Formatted output in place

`printk` and `insert_str` of `libs/printk.c` on their arrays. The format is copied into a static
array, and each directive in it is replaced in place: what stands behind it is saved in a second
array, the text is copied over it, and what was saved is put behind the text. The scan goes on
behind the text, so that what has been inserted is not looked at again.

The result is one pass over the format (`printk_substitutes`), and so is that of the list-level
`printkStr` of `ToiletOS/Console/Printk.lean` (`printkStr_substitute`).
-/

namespace ToiletOS

/-! ### One pass over a format -/

/-- The letters of `%s`, `%d`, `%H` and `%h`. -/
def IsDirective (k : BitVec 8) : Prop := k = 0x73#8 ∨ k = 0x64#8 ∨ k = 0x48#8 ∨ k = 0x68#8

instance (k : BitVec 8) : Decidable (IsDirective k) :=
  inferInstanceAs (Decidable (k = 0x73#8 ∨ k = 0x64#8 ∨ k = 0x48#8 ∨ k = 0x68#8))

/-- The format starts with a directive. -/
def StartsDirective : List (BitVec 8) → Prop
  | c :: k :: _ => c = 0x25#8 ∧ IsDirective k
  | _ => False

/-- The format with its directives replaced by texts, one after the other. -/
def substitute : List (BitVec 8) → List (List (BitVec 8)) → List (BitVec 8)
  | [], _ => []
  | [c], _ => [c]
  | c :: k :: fmt, texts =>
    if c = 0x25#8 ∧ IsDirective k then texts.headD [] ++ substitute fmt texts.tail
    else c :: substitute (k :: fmt) texts

/-- The scan of the format takes the arguments in order, one for each directive, and they are
rendered as the texts. There may be more arguments. -/
inductive Takes {Arg : Type} (Renders : BitVec 8 → Arg → List (BitVec 8) → Prop) :
    List (BitVec 8) → List Arg → List (List (BitVec 8)) → Prop
  | done (args : List Arg) : Takes Renders [] args []
  | copy {c : BitVec 8} {fmt : List (BitVec 8)} {args : List Arg} {texts : List (List (BitVec 8))}
      (h_copy : ¬ StartsDirective (c :: fmt)) (h : Takes Renders fmt args texts) :
      Takes Renders (c :: fmt) args texts
  | directive {k : BitVec 8} {fmt text : List (BitVec 8)} {arg : Arg} {args : List Arg}
      {texts : List (List (BitVec 8))} (h_k : IsDirective k) (h_text : Renders k arg text)
      (h : Takes Renders fmt args texts) :
      Takes Renders (0x25#8 :: k :: fmt) (arg :: args) (text :: texts)

theorem substitute_copy {c : BitVec 8} {fmt : List (BitVec 8)} {texts : List (List (BitVec 8))}
    (h : ¬ StartsDirective (c :: fmt)) :
    substitute (c :: fmt) texts = c :: substitute fmt texts := by
  cases fmt with
  | nil => rfl
  | cons k fmt => exact if_neg h

theorem substitute_directive {k : BitVec 8} {fmt text : List (BitVec 8)}
    {texts : List (List (BitVec 8))} (h_k : IsDirective k) :
    substitute (0x25#8 :: k :: fmt) (text :: texts) = text ++ substitute fmt texts :=
  if_pos ⟨rfl, h_k⟩

/-- The length of a format and of the texts. -/
def total (fmt : List (BitVec 8)) (texts : List (List (BitVec 8))) : ℕ :=
  fmt.length + (texts.map List.length).sum

/-! ### The functions -/

namespace CLib

open CCode

/-- An argument behind the format. -/
inductive VaArg (ε : Type)
  | str (p : CPtr (LibVar ε))
  | int (n : BitVec 32)

section Defs

variable {ε : Type} [DecidableEq ε] {callerSize : ε → ℕ}

/-- `output_str`. -/
def outputStr : CPtr (LibVar ε) := .into (.var .staticArry) (0 : ℕ)

/-- `insert_str`. -/
def insertStr (insertedStr insertingStr : CPtr (LibVar ε)) (offset : ℤ) :
    CCode (libSize callerSize) Unit := do
  define .insertM
  let afterInsetedPositionStr := CPtr.into (.var .insertM) (0 : ℕ)
  let _ ← strcpy afterInsetedPositionStr (insertedStr.add (offset + 2))
  memcpy (insertedStr.add offset) insertingStr (← strlen insertingStr)
  store (insertedStr.add (offset + (← strlen insertingStr))) 0#8
  let _ ← strcat insertedStr afterInsetedPositionStr

/-- `va_arg(ptr,char*)`, with the arguments behind it. -/
def vaStr : List (VaArg ε) → CCode (libSize callerSize) (CPtr (LibVar ε) × List (VaArg ε))
  | .str p :: args => return (p, args)
  | _ => throw .outOfBounds

/-- `va_arg(ptr,int)`, with the arguments behind it. -/
def vaInt : List (VaArg ε) → CCode (libSize callerSize) (BitVec 32 × List (VaArg ε))
  | .int n :: args => return (n, args)
  | _ => throw .outOfBounds

/-- A text is inserted, and the offset goes to its end. -/
def insertText (ptr : CPtr (LibVar ε)) (args : List (VaArg ε)) (offset : ℤ) :
    CCode (libSize callerSize) (List (VaArg ε) × ℤ) := do
  insertStr outputStr ptr offset
  let len ← strlen ptr
  return (args, offset + len - 1)

/-- The body of the loop of `printk`, which gives the arguments that are left and the offset. -/
def printkRound (args : List (VaArg ε)) (offset : ℤ) :
    CCode (libSize callerSize) (List (VaArg ε) × ℤ) := do
  let charptr := outputStr.add offset
  if (← load charptr) = 0x25#8 then
    let k ← load (charptr.add 1)
    if k = 0x73#8 then
      let (argStrPtr, args) ← vaStr args
      insertText argStrPtr args offset
    else if k = 0x64#8 then
      let (argInt, args) ← vaInt args
      insertText (← uintTostring argInt) args offset
    else if k = 0x63#8 then return (args, offset)
    else if k = 0x48#8 then
      let (argInt, args) ← vaInt args
      insertText (← num2hexstr argInt 1#32) args offset
    else if k = 0x68#8 then
      let (argInt, args) ← vaInt args
      insertText (← num2hexstr argInt 0#32) args offset
    else return (args, offset)
  else return (args, offset)

/-- The loop of `printk`. -/
def printkLoop : ℕ → List (VaArg ε) → ℤ → CCode (libSize callerSize) Unit
  | 0, _, _ => throw .outOfBounds
  | left + 1, args, offset => do
    if (← load (outputStr.add offset)) ≠ 0#8 then
      let (args, offset) ← printkRound args offset
      printkLoop left args (offset + 1)
    else return ()

/-- `printk`, up to the pointer that it passes to `kputs`. A round that does not take an argument
goes on to the next place, so that there are at most as many rounds as places and arguments. -/
def printk (inputStr : CPtr (LibVar ε)) (args : List (VaArg ε)) :
    CCode (libSize callerSize) (CPtr (LibVar ε)) := do
  let _ ← strcpy outputStr inputStr
  printkLoop ((← rounds outputStr) + args.length + 1) args 0
  return outputStr

/-- `put_str`. -/
def putStr (message : CPtr (LibVar ε)) : CCode (libSize callerSize) (CPtr (LibVar ε)) :=
  printk (literal [0x25#8, 0x73#8]) [.str message]

end Defs

variable {ε : Type} [DecidableEq ε] {callerSize : ε → ℕ} {m m' : LibMemory callerSize}
  {array : CArray (LibVar ε)} {off : ℕ} {fmt pre post text : List (BitVec 8)} {k : BitVec 8}

/-! ### Inserting -/

omit [DecidableEq ε] in
theorem staticArry_ne_insertM : LibVar.staticArry (ε := ε) ≠ .insertM := by
  intro h_eq
  cases h_eq

omit [DecidableEq ε] in
theorem var_insertM_ne : CArray.var (LibVar.insertM (ε := ε)) ≠ .var .staticArry := by
  intro h_eq
  cases h_eq

/-- `insert_str` after it has saved what is behind the directive. -/
theorem insertStr_saved {c : BitVec 8}
    (h_buf : IsStr (m.bytes .staticArry) 0 (pre ++ c :: k :: post))
    (h_text : IsStr (m.content array) off text) (h_insert : array ≠ .var .insertM) :
    ∃ m', m'.bytes .staticArry = m.bytes .staticArry ∧ IsStr (m'.bytes .insertM) 0 post ∧
      IsStr (m'.content array) off text ∧ m.SameBut m' [.insertM] ∧
      (insertStr outputStr (.into array off) pre.length).run m = StateT.run (do
        memcpy (.into (.var .staticArry) pre.length) (.into array off) text.length
        store (outputStr.add (pre.length + (← strlen (.into array off)))) 0#8
        let _ ← strcat outputStr (.into (.var .insertM) (0 : ℕ))) m' := by
  have h_length := h_buf.lt_length
  rw [m.length_bytes, List.length_append, List.length_cons, List.length_cons] at h_length
  obtain ⟨-, -, h_rest⟩ := isStr_append.mp h_buf
  obtain ⟨-, -, h_rest⟩ := isStr_cons.mp h_rest
  obtain ⟨-, -, h_post⟩ := isStr_cons.mp h_rest
  rw [Nat.zero_add] at h_post
  set m₁ := m.clear .insertM with h_m₁
  -- `insert_m` holds what stands behind the directive
  set m₂ := m₁.write .insertM 0 (post ++ [0#8]) with h_m₂
  have h_static₁ : m₁.bytes .staticArry = m.bytes .staticArry :=
    Objects.bytes_clear_of_ne staticArry_ne_insertM
  have h_post₁ : IsStr (m₁.content (.var .staticArry)) (pre.length + 2) post := by
    rw [Objects.content_var, h_static₁]
    exact h_post
  have h_room : 0 + post.length < libSize callerSize .insertM := by
    have h_size : libSize callerSize .staticArry = libSize callerSize .insertM := rfl
    omega
  -- the text is not in `insert_m`, so it is still there
  have h_text₂ : IsStr (m₂.content array) off text := by
    rw [h_m₂, Objects.content_write_of_ne h_insert, h_m₁, Objects.content_clear_of_ne h_insert]
    exact h_text
  refine ⟨m₂, ?_, ?_, h_text₂, ?_, ?_⟩
  · rw [h_m₂, Objects.bytes_write_of_ne staticArry_ne_insertM, h_static₁]
  · rw [h_m₂, Objects.bytes_write]
    apply isStr_overwrite h_post.nonzero
    rw [m₁.length_bytes]
    exact h_room
  · exact (m.sameBut_clear List.mem_cons_self).trans (m₁.sameBut_write List.mem_cons_self _ _)
  · have h_two : (pre.length : ℤ) + 2 = (pre.length + 2 : ℕ) := rfl
    rw [insertStr, outputStr]
    dsimp only
    rw [run_bind_ok (run_define _), h_two, CPtr.add_nat, Nat.zero_add,
      run_bind_ok (strcpy_run h_post₁ h_room fun h_eq => absurd h_eq var_insertM_ne.symm),
      run_bind_ok (strlen_run h_text₂), CPtr.add_nat, Nat.zero_add]

/-- `insert_str` puts a text in the place of two characters, if the result has room. -/
theorem insertStr_run {c : BitVec 8} (h_buf : IsStr (m.bytes .staticArry) 0 (pre ++ c :: k :: post))
    (h_text : IsStr (m.content array) off text) (h_static : array ≠ .var .staticArry)
    (h_insert : array ≠ .var .insertM) (h_fits : pre.length + text.length + post.length < 100) :
    ∃ m', (insertStr outputStr (.into array off) pre.length).run m = .ok ((), m') ∧
      IsStr (m'.bytes .staticArry) 0 (pre ++ text ++ post) ∧
      m.SameBut m' [.staticArry, .insertM] := by
  obtain ⟨m₂, h_static₂, h_saved, h_text₂, h_same, h_run⟩ := insertStr_saved h_buf h_text h_insert
  obtain ⟨h_pre, h_at, -⟩ := isStr_append.mp h_buf
  -- the text is written behind what is in front of it
  set m₃ := m₂.write .staticArry pre.length text with h_m₃
  set m₄ := m₃.write .staticArry (pre.length + text.length) [0#8] with h_m₄
  have h_text₃ : IsStr (m₃.content array) off text := by
    rw [h_m₃, Objects.content_write_of_ne h_static]
    exact h_text₂
  have h_room : pre.length + text.length < libSize callerSize .staticArry :=
    show pre.length + text.length < 100 by omega
  have h_front : IsStr (m₄.bytes .staticArry) 0 (pre ++ text) := by
    rw [h_m₄, h_m₃, Objects.write_write, Objects.bytes_write, h_static₂, isStr_append, Nat.zero_add]
    refine ⟨h_pre, h_at.overwrite_of_disjoint (.inl (Nat.zero_add _).le), ?_⟩
    apply isStr_overwrite h_text.nonzero
    rw [m.length_bytes]
    exact h_room
  have h_saved₄ : IsStr (m₄.content (.var .insertM)) 0 post := by
    rw [h_m₄, Objects.content_write_of_ne var_insertM_ne, h_m₃,
      Objects.content_write_of_ne var_insertM_ne]
    exact h_saved
  have h_end : 0 + (pre ++ text).length + post.length < libSize callerSize .staticArry := by
    rw [List.length_append, Nat.zero_add]
    exact h_fits
  refine ⟨m₄.write .staticArry (0 + (pre ++ text).length) (post ++ [0#8]), ?_, ?_, ?_⟩
  · have h_sum : (pre.length : ℤ) + text.length = (pre.length + text.length : ℕ) := rfl
    rw [h_run, run_bind_ok (memcpy_run (listAt_append.mp h_text₂.at_place).1 h_room.le
        fun h_eq => absurd h_eq h_static),
      run_bind_ok (strlen_run h_text₃), h_sum, outputStr, CPtr.add_nat, Nat.zero_add,
      run_bind_ok (run_store h_room _),
      run_bind_ok (strcat_run h_front h_saved₄ h_end var_insertM_ne)]
    rfl
  · -- and what was saved behind the text
    rw [Objects.bytes_write, isStr_append]
    obtain ⟨h_front_at, -⟩ := listAt_append.mp h_front.at_place
    refine ⟨h_front.nonzero, h_front_at.overwrite_of_disjoint (.inl le_rfl), ?_⟩
    apply isStr_overwrite h_saved.nonzero
    rw [m₄.length_bytes]
    exact h_end
  · intro o ho
    rw [List.mem_cons, List.mem_singleton, not_or] at ho
    rw [Objects.bytes_write_of_ne ho.1, h_m₄, Objects.bytes_write_of_ne ho.1, h_m₃,
      Objects.bytes_write_of_ne ho.1, h_same o (by rw [List.mem_singleton]; exact ho.2)]

/-- Without room for the text and its zero, it writes behind the array. -/
theorem insertStr_overrun {c : BitVec 8}
    (h_buf : IsStr (m.bytes .staticArry) 0 (pre ++ c :: k :: post))
    (h_text : IsStr (m.content array) off text) (h_static : array ≠ .var .staticArry)
    (h_insert : array ≠ .var .insertM) (h_over : 100 ≤ pre.length + text.length) :
    (insertStr outputStr (.into array off) pre.length).run m = .error .outOfBounds := by
  have h_length := h_buf.lt_length
  have h_size : libSize callerSize .staticArry = 100 := rfl
  rw [m.length_bytes, List.length_append, List.length_cons, List.length_cons] at h_length
  obtain ⟨m₂, -, -, h_text₂, -, h_run⟩ := insertStr_saved h_buf h_text h_insert
  have h_at := (listAt_append.mp h_text₂.at_place).1
  rw [h_run]
  by_cases h_exact : pre.length + text.length = 100
  · -- the text has room, and the zero has not
    have h_text₃ : IsStr ((m₂.write .staticArry pre.length text).content array) off text := by
      rw [Objects.content_write_of_ne h_static]
      exact h_text₂
    have h_sum : (pre.length : ℤ) + text.length = (pre.length + text.length : ℕ) := rfl
    rw [run_bind_ok (memcpy_run h_at (by omega) fun h_eq => absurd h_eq h_static),
      run_bind_ok (strlen_run h_text₃), h_sum, outputStr, CPtr.add_nat, Nat.zero_add]
    exact run_bind_error (run_store_error (by omega) _)
  · exact run_bind_error (memcpy_overrun h_at (by omega) (by omega) h_static)

omit [DecidableEq ε] in
theorem run_vaStr (p : CPtr (LibVar ε)) (args : List (VaArg ε)) :
    (vaStr (.str p :: args)).run m = .ok ((p, args), m) := rfl

omit [DecidableEq ε] in
theorem run_vaInt (n : BitVec 32) (args : List (VaArg ε)) :
    (vaInt (.int n :: args)).run m = .ok ((n, args), m) := rfl

theorem insertText_run {c : BitVec 8} (args : List (VaArg ε))
    (h_buf : IsStr (m.bytes .staticArry) 0 (pre ++ c :: k :: post))
    (h_text : IsStr (m.content array) off text) (h_static : array ≠ .var .staticArry)
    (h_insert : array ≠ .var .insertM) (h_fits : pre.length + text.length + post.length < 100) :
    ∃ m', (insertText (.into array off) args pre.length).run m
        = .ok ((args, (pre.length + text.length : ℤ) - 1), m') ∧
      IsStr (m'.bytes .staticArry) 0 (pre ++ text ++ post) ∧
      m.SameBut m' [.staticArry, .insertM] := by
  obtain ⟨m', h_run, h_buf', h_same⟩ := insertStr_run h_buf h_text h_static h_insert h_fits
  -- neither buffer is that of the text, so its length can still be taken
  have h_text' : IsStr (m'.content array) off text := by
    cases array with
    | const bytes => exact h_text
    | var o =>
      rw [Objects.content_var, h_same o]
      · exact h_text
      · rw [List.mem_cons, List.mem_singleton, not_or]
        exact ⟨fun h_eq => h_static (congrArg _ h_eq), fun h_eq => h_insert (congrArg _ h_eq)⟩
  refine ⟨m', ?_, h_buf', h_same⟩
  rw [insertText, run_bind_ok h_run, run_bind_ok (strlen_run h_text')]
  rfl

/-! ### The scan -/

/-- The variables of `string.c` and `printk.c`. -/
def libVars : List (LibVar ε) :=
  [.staticArry, .insertM, .uintM, .staticHexstr, .tempArry, .tempArry2]

/-- An array that is none of them. (The local ones among them are not there for a caller of
`printk`.) -/
def OutsideLib (array : CArray (LibVar ε)) : Prop := ∀ o ∈ libVars, array ≠ .var o

/-- How an argument is rendered. A string is the caller's, and a number that is written with
hexadecimal digits is not negative. -/
inductive Renders (m : LibMemory callerSize) :
    BitVec 8 → VaArg ε → List (BitVec 8) → Prop
  | str {array : CArray (LibVar ε)} {off : ℕ} {s : List (BitVec 8)} (h_array : OutsideLib array)
      (h : IsStr (m.content array) off s) : Renders m 0x73#8 (.str (.into array off)) s
  | uint (n : BitVec 32) : Renders m 0x64#8 (.int n) (ToiletOS.uintTostring n)
  | hex0x {n : BitVec 32} (h : 0 ≤ n.toInt) : Renders m 0x48#8 (.int n) (hexText n 1#32)
  | hex {n : BitVec 32} (h : 0 ≤ n.toInt) : Renders m 0x68#8 (.int n) (hexText n 0#32)

omit [DecidableEq ε] in
theorem OutsideLib.content_eq (h : OutsideLib array) (h_same : m.SameBut m' libVars) :
    m'.content array = m.content array := by
  cases array with
  | const bytes => rfl
  | var o => exact h_same o fun h_mem => h o h_mem rfl

/-- A text that a function has written in its own array is inserted. -/
theorem insertNumber_run {c : BitVec 8} {m₁ : LibMemory callerSize}
    {x : CCode (libSize callerSize) (CPtr (LibVar ε))} {os : List (LibVar ε)}
    (args : List (VaArg ε)) (h_run : x.run m = .ok (.into array off, m₁))
    (h_text : IsStr (m₁.content array) off text) (h_same : m.SameBut m₁ os)
    (h_sub : os ⊆ libVars) (h_os : .staticArry ∉ os) (h_static : array ≠ .var .staticArry)
    (h_insert : array ≠ .var .insertM)
    (h_buf : IsStr (m.bytes .staticArry) 0 (pre ++ c :: k :: post))
    (h_fits : pre.length + text.length + post.length < 100) :
    ∃ m', (x >>= fun ptr => insertText ptr args pre.length).run m
        = .ok ((args, (pre.length + text.length : ℤ) - 1), m') ∧
      IsStr (m'.bytes .staticArry) 0 (pre ++ text ++ post) ∧ m.SameBut m' libVars := by
  -- the conversion has left the output buffer alone
  rw [← h_same _ h_os] at h_buf
  obtain ⟨m', h_insert_run, h_buf', h_same'⟩ :=
    insertText_run args h_buf h_text h_static h_insert h_fits
  refine ⟨m', ?_, h_buf', (h_same.mono h_sub).trans (h_same'.mono (by simp [libVars]))⟩
  rw [run_bind_ok h_run]
  exact h_insert_run

omit [DecidableEq ε] in
/-- The array that `num2hexstr` returns is not one of `printk.c`. -/
theorem num2hexstr_array
    (h : array = .var .staticHexstr ∨ ∃ bytes, array = .const bytes) :
    array ≠ .var .staticArry ∧ array ≠ .var .insertM := by
  rcases h with rfl | ⟨bytes, rfl⟩
  · constructor
    · intro h_eq
      cases h_eq
    · intro h_eq
      cases h_eq
  · constructor
    · intro h_eq
      cases h_eq
    · intro h_eq
      cases h_eq

/-- A round at a directive takes an argument and inserts its text. -/
theorem printkRound_directive {arg : VaArg ε} (args : List (VaArg ε)) {m₀ : LibMemory callerSize}
    (h_lib : m₀.SameBut m libVars) (h_text : Renders m₀ k arg text)
    (h_buf : IsStr (m.bytes .staticArry) 0 (pre ++ 0x25#8 :: k :: post))
    (h_fits : pre.length + text.length + post.length < 100) :
    ∃ m', (printkRound (arg :: args) pre.length).run m
        = .ok ((args, (pre.length + text.length : ℤ) - 1), m') ∧
      IsStr (m'.bytes .staticArry) 0 (pre ++ text ++ post) ∧ m.SameBut m' libVars := by
  obtain ⟨h_pre, -, h_rest⟩ := isStr_append.mp h_buf
  obtain ⟨-, h_percent, h_rest⟩ := isStr_cons.mp h_rest
  obtain ⟨-, h_k, -⟩ := isStr_cons.mp h_rest
  have h_sub : [LibVar.staticArry (ε := ε), .insertM] ⊆ libVars := by simp [libVars]
  rw [printkRound, outputStr]
  dsimp only
  rw [CPtr.add_nat, run_bind_ok (run_load_var h_percent), if_pos rfl, CPtr.add_one,
    run_bind_ok (run_load_var h_k)]
  cases h_text with
  | str h_array h_str =>
    -- the text of a string argument is the string itself
    rw [if_pos rfl, run_bind_ok (run_vaStr _ _)]
    have h_str' := h_str
    rw [← h_array.content_eq h_lib] at h_str'
    obtain ⟨m', h_run, h_buf', h_same⟩ := insertText_run args h_buf h_str'
      (h_array _ (by simp [libVars])) (h_array _ (by simp [libVars])) h_fits
    exact ⟨m', h_run, h_buf', h_same.mono h_sub⟩
  | uint n =>
    rw [if_neg (by decide), if_pos rfl, run_bind_ok (run_vaInt _ _)]
    -- that of a number is written by the converter first
    obtain ⟨m₁, h_run, h_str, h_same⟩ := uintTostring_run m n
    exact insertNumber_run args h_run h_str h_same (by simp [libVars]) (by simp)
      (fun h_eq => by cases h_eq) (fun h_eq => by cases h_eq) h_buf h_fits
  | @hex0x n h_n =>
    rw [if_neg (by decide), if_neg (by decide), if_neg (by decide), if_pos rfl,
      run_bind_ok (run_vaInt _ _)]
    obtain ⟨array, m₁, h_run, h_str, h_array, h_same⟩ := num2hexstr_run m 1#32 h_n
    obtain ⟨h_static, h_insert⟩ := num2hexstr_array h_array
    exact insertNumber_run args h_run h_str h_same (by simp [libVars]) (by simp)
      h_static h_insert h_buf h_fits
  | @hex n h_n =>
    rw [if_neg (by decide), if_neg (by decide), if_neg (by decide), if_neg (by decide), if_pos rfl,
      run_bind_ok (run_vaInt _ _)]
    obtain ⟨array, m₁, h_run, h_str, h_array, h_same⟩ := num2hexstr_run m 0#32 h_n
    obtain ⟨h_static, h_insert⟩ := num2hexstr_array h_array
    exact insertNumber_run args h_run h_str h_same (by simp [libVars]) (by simp)
      h_static h_insert h_buf h_fits

/-- A round elsewhere does nothing. -/
theorem printkRound_copy {c : BitVec 8} (args : List (VaArg ε))
    (h_buf : IsStr (m.bytes .staticArry) 0 (pre ++ c :: fmt))
    (h_copy : ¬ StartsDirective (c :: fmt)) :
    (printkRound args pre.length).run m = .ok ((args, (pre.length : ℤ)), m) := by
  obtain ⟨-, -, h_rest⟩ := isStr_append.mp h_buf
  obtain ⟨-, h_c, h_rest⟩ := isStr_cons.mp h_rest
  rw [printkRound, outputStr]
  dsimp only
  rw [CPtr.add_nat, run_bind_ok (run_load_var h_c)]
  by_cases h_percent : c = 0x25#8
  · rw [if_pos h_percent, CPtr.add_one]
    -- the next character may be the zero that ends the string
    cases fmt with
    | nil => rw [run_bind_ok (run_load_var (isStr_nil.mp h_rest))]; rfl
    | cons k fmt =>
      have h_other : ¬ IsDirective k := fun h_k => h_copy ⟨h_percent, h_k⟩
      obtain ⟨h_s, h_d, h_H, h_h⟩ : k ≠ 0x73#8 ∧ k ≠ 0x64#8 ∧ k ≠ 0x48#8 ∧ k ≠ 0x68#8 := by
        rw [IsDirective, not_or, not_or, not_or] at h_other
        exact h_other
      obtain ⟨-, h_k, -⟩ := isStr_cons.mp h_rest
      rw [run_bind_ok (run_load_var h_k), if_neg h_s, if_neg h_d, if_neg h_H, if_neg h_h, ite_self]
      rfl
  · rw [if_neg h_percent]
    rfl

/-- **The scan** replaces the directives of what it has still to read. The induction is on the
arguments that are taken; what is in front of the offset stays. -/
theorem printkLoop_run {m₀ : LibMemory callerSize} {args : List (VaArg ε)}
    {texts : List (List (BitVec 8))} (pre : List (BitVec 8)) (left : ℕ)
    (h : Takes (Renders m₀) fmt args texts) (h_lib : m₀.SameBut m libVars)
    (h_buf : IsStr (m.bytes .staticArry) 0 (pre ++ fmt))
    (h_left : fmt.length < left) (h_fits : pre.length + total fmt texts ≤ 99) :
    ∃ m', (printkLoop left args pre.length).run m = .ok ((), m') ∧
      IsStr (m'.bytes .staticArry) 0 (pre ++ substitute fmt texts) ∧ m₀.SameBut m' libVars := by
  induction h generalizing m pre left with
  | done args =>
    obtain ⟨left, rfl⟩ := Nat.exists_eq_succ_of_ne_zero (Nat.ne_of_gt h_left)
    -- the byte at the offset is the zero
    obtain ⟨-, -, h_end⟩ := isStr_append.mp h_buf
    refine ⟨m, ?_, h_buf, h_lib⟩
    rw [printkLoop, outputStr, CPtr.add_nat, run_bind_ok (run_load_var (isStr_nil.mp h_end))]
    rfl
  | @copy c fmt args texts h_copy h ih =>
    obtain ⟨left, rfl⟩ := Nat.exists_eq_succ_of_ne_zero (Nat.ne_of_gt (Nat.zero_lt_of_lt h_left))
    obtain ⟨-, -, h_rest⟩ := isStr_append.mp h_buf
    obtain ⟨h_c, h_at, -⟩ := isStr_cons.mp h_rest
    -- the byte is left where it is, and the offset moves past it
    have h_round := printkRound_copy args h_buf h_copy
    have h_next : (pre.length : ℤ) + 1 = (pre ++ [c]).length := by
      rw [List.length_append, List.length_singleton, Nat.cast_add, Nat.cast_one]
    rw [List.append_cons] at h_buf
    rw [total, List.length_cons] at h_fits
    obtain ⟨m', h_run, h_buf', h_lib'⟩ := ih (pre ++ [c]) left h_lib h_buf
      (Nat.lt_of_succ_lt_succ h_left) (by
        rw [total, List.length_append, List.length_singleton]
        omega)
    refine ⟨m', ?_, ?_, h_lib'⟩
    · rw [printkLoop, outputStr, CPtr.add_nat, run_bind_ok (run_load_var h_at), if_pos h_c,
        run_bind_ok h_round]
      dsimp only
      rw [h_next]
      exact h_run
    · rw [substitute_copy h_copy, List.append_cons]
      exact h_buf'
  | @directive k fmt text arg args texts h_k h_text h ih =>
    obtain ⟨left, rfl⟩ := Nat.exists_eq_succ_of_ne_zero (Nat.ne_of_gt (Nat.zero_lt_of_lt h_left))
    obtain ⟨-, -, h_rest⟩ := isStr_append.mp h_buf
    obtain ⟨h_percent, h_at, -⟩ := isStr_cons.mp h_rest
    rw [total, List.length_cons, List.length_cons, List.map_cons, List.sum_cons] at h_fits
    obtain ⟨m₁, h_round, h_buf₁, h_same⟩ := printkRound_directive args h_lib h_text h_buf (by omega)
    -- the offset stops in front of the text's end, and the loop adds one
    have h_next : (pre.length : ℤ) + text.length - 1 + 1 = (pre ++ text).length := by
      rw [List.length_append, Nat.cast_add]
      ring
    rw [List.length_cons, List.length_cons] at h_left
    obtain ⟨m', h_run, h_buf', h_lib'⟩ := ih (pre ++ text) left
      (h_lib.trans h_same) h_buf₁ (by omega) (by
        rw [total, List.length_append]
        omega)
    refine ⟨m', ?_, ?_, h_lib'⟩
    · rw [printkLoop, outputStr, CPtr.add_nat, run_bind_ok (run_load_var h_at), if_pos h_percent,
        run_bind_ok h_round]
      dsimp only
      rw [h_next]
      exact h_run
    · rw [substitute_directive h_k, ← List.append_assoc]
      exact h_buf'

/-- The copy of the format, which the scan starts on. -/
theorem copy_run (h_fmt : IsStr (m.content array) off fmt) (h_length : fmt.length < 100) :
    ∃ m', (strcpy outputStr (.into array off)).run m = .ok (outputStr, m') ∧
      IsStr (m'.bytes .staticArry) 0 fmt ∧ m.SameBut m' [.staticArry] := by
  have h_room : 0 + fmt.length < libSize callerSize .staticArry :=
    show 0 + fmt.length < 100 by omega
  refine ⟨m.write .staticArry 0 (fmt ++ [0#8]), strcpy_run h_fmt h_room fun _ => Nat.zero_le _, ?_,
    m.sameBut_write List.mem_cons_self _ _⟩
  rw [Objects.bytes_write]
  apply isStr_overwrite h_fmt.nonzero
  rw [m.length_bytes]
  exact h_room

omit [DecidableEq ε] in
theorem room_outputStr : m.room outputStr = 100 := by
  rw [outputStr, Objects.room_into, Objects.content_var, m.length_bytes]
  rfl

/-- `printk` on a format whose arguments have room. -/
theorem printk_run {args : List (VaArg ε)} {texts : List (List (BitVec 8))}
    (h_fmt : IsStr (m.content array) off fmt) (h_args : Takes (Renders m) fmt args texts)
    (h_fits : total fmt texts ≤ 99) :
    ∃ m', (printk (.into array off) args).run m = .ok (.into (.var .staticArry) (0 : ℕ), m') ∧
      IsStr (m'.bytes .staticArry) 0 (substitute fmt texts) ∧ m.SameBut m' libVars := by
  have h_length : fmt.length < 100 := by
    rw [total] at h_fits
    omega
  obtain ⟨m₁, h_copy, h_buf, h_same⟩ := copy_run h_fmt h_length
  -- every round of the scan goes one byte on or takes an argument
  obtain ⟨m', h_loop, h_buf', h_same'⟩ := printkLoop_run [] (100 + args.length + 1)
    h_args (h_same.mono (by simp [libVars])) h_buf (by omega) (by
      rw [List.length_nil]
      omega)
  refine ⟨m', ?_, h_buf', h_same'⟩
  rw [printk, run_bind_ok h_copy, run_bind_ok (run_rounds _), room_outputStr]
  exact run_bind_ok h_loop

end CLib

/-- **`printk` formats in one pass.** The string that it passes to `kputs` is the format with its
directives replaced by the rendered arguments, in order. -/
theorem printk_substitutes {ε : Type} [DecidableEq ε] {callerSize : ε → ℕ}
    (m : LibMemory callerSize) {array : CArray (LibVar ε)} {off : ℕ} {fmt : List (BitVec 8)}
    {args : List (CLib.VaArg ε)} {texts : List (List (BitVec 8))}
    (h_fmt : IsStr (m.content array) off fmt) (h_args : Takes (CLib.Renders m) fmt args texts)
    (h_fits : total fmt texts ≤ 99) :
    ∃ m', (CLib.printk (.into array off) args).run m = .ok (.into (.var .staticArry) (0 : ℕ), m') ∧
      IsStr (m'.bytes .staticArry) 0 (substitute fmt texts) := by
  obtain ⟨m', h_run, h_str, -⟩ := CLib.printk_run h_fmt h_args h_fits
  exact ⟨m', h_run, h_str⟩

/-- A percent sign in a text that is inserted stays: `printk("%s%h", "%d", 0x1f)`. -/
theorem printk_substitutes_percent :
    ∃ m', (CLib.printk (.into (.const ([0x25#8, 0x73#8, 0x25#8, 0x68#8] ++ [0#8])) (0 : ℕ))
        [.str (literal [0x25#8, 0x64#8]), .int 0x1f#32]).run zeroMemory
          = .ok (.into (.var .staticArry) (0 : ℕ), m') ∧
      IsStr (m'.bytes .staticArry) 0
        [0x25#8, 0x64#8, 0x30#8, 0x30#8, 0x30#8, 0x30#8, 0x30#8, 0x30#8, 0x31#8, 0x46#8] := by
  have h_const (bytes : List (BitVec 8)) : CLib.OutsideLib (ε := Empty) (.const bytes) := by
    intro o _ h_eq
    cases h_eq
  have h_args : Takes (CLib.Renders zeroMemory) [0x25#8, 0x73#8, 0x25#8, 0x68#8]
      [.str (literal [0x25#8, 0x64#8]), .int 0x1f#32] [[0x25#8, 0x64#8], hexText 0x1f#32 0#32] := by
    refine .directive (by decide) (.str (h_const _) (isStr_literal (by decide))) ?_
    exact .directive (by decide) (.hex (by decide)) (.done [])
  exact printk_substitutes zeroMemory (isStr_literal (by decide)) h_args (by decide)

/-! ### The list-level `printk` -/

theorem func_eq (n : ℕ) : func n = some (CLib.hexDigits n) := by
  induction n using Nat.strong_induction_on with
  | _ n ih =>
    rw [func, CLib.hexDigits]
    by_cases h_zero : n = 0
    · rw [if_pos (by omega), if_pos h_zero]
    · have h_div : (n : ℤ).tdiv 16 = (n / 16 : ℕ) := rfl
      have h_mod : (n : ℤ).tmod 16 = (n % 16 : ℕ) := rfl
      rw [if_neg (by omega), if_neg h_zero, h_mod, if_neg (by omega), h_div, ih _ (by omega),
        Option.map_some, Int.toNat_natCast]

theorem num2hexstr_eq {number : BitVec 32} (need0x : Bool) (h : 0 ≤ number.toInt) :
    num2hexstr number need0x = some (hexText number (if need0x then 1#32 else 0#32)) := by
  have h_msb : number.msb = false := by
    rw [BitVec.msb_eq_toInt, decide_eq_false (Int.not_lt.mpr h)]
  have h_toInt : number.toInt = number.toNat := BitVec.toInt_eq_toNat_of_msb h_msb
  rw [num2hexstr, h_toInt, func_eq, Option.map_some, List.append_assoc, CLib.hexString_eq, hexText]
  cases need0x <;> rfl

/-- What a conversion inserts. -/
abbrev ConvertsTo (k : BitVec 8) (arg : PrintkArg) (text : List (BitVec 8)) : Prop :=
  conversion k arg = some text

/-- The scan of the list-level `printk`, on a string whose front has been read. -/
theorem printkLoop_substitute {fmt : List (BitVec 8)} {args : List PrintkArg}
    {texts : List (List (BitVec 8))} (pre : List (BitVec 8)) (left : ℕ)
    (h : Takes ConvertsTo fmt args texts) (h_left : fmt.length ≤ left)
    (h_fits : pre.length + total fmt texts ≤ 99) :
    printkLoop left (pre ++ fmt) pre.length args = some (pre ++ substitute fmt texts) := by
  induction h generalizing pre left with
  | done args =>
    cases left with
    | zero => rfl
    | succ left =>
      rw [printkLoop, List.drop_left]
      rfl
  | @copy c fmt args texts h_copy h ih =>
    obtain ⟨left, rfl⟩ := Nat.exists_eq_succ_of_ne_zero (Nat.ne_of_gt (Nat.zero_lt_of_lt h_left))
    rw [total, List.length_cons] at h_fits
    have h_rest := ih (pre ++ [c]) left (Nat.le_of_succ_le_succ h_left) (by
      rw [total, List.length_append, List.length_singleton]
      omega)
    rw [List.length_append, List.length_singleton, ← List.append_cons, ← List.append_cons] at h_rest
    rw [substitute_copy h_copy, ← h_rest, printkLoop, List.drop_left]
    cases fmt with
    | nil => rfl
    | cons k fmt => exact if_neg h_copy
  | @directive k fmt text arg args texts h_k h_text h ih =>
    obtain ⟨left, rfl⟩ := Nat.exists_eq_succ_of_ne_zero (Nat.ne_of_gt (Nat.zero_lt_of_lt h_left))
    rw [total, List.length_cons, List.length_cons, List.map_cons, List.sum_cons] at h_fits
    rw [List.length_cons, List.length_cons] at h_left
    have h_rest := ih (pre ++ text) left (by omega) (by
      rw [total, List.length_append]
      omega)
    have h_result : (pre ++ text ++ fmt).length < 100 := by
      rw [List.length_append, List.length_append]
      omega
    -- the result fits, so the text replaces the two bytes of the directive
    have h_insert : insertStr (pre ++ 0x25#8 :: k :: fmt) text pre.length
        = some (pre ++ text ++ fmt) := by
      rw [insertStr, List.take_left, List.drop_append, List.drop_eq_nil_of_le (by omega),
        Nat.add_sub_cancel_left, List.nil_append]
      exact if_pos h_result
    rw [substitute_directive h_k, ← List.append_assoc, ← h_rest, printkLoop, List.drop_left]
    dsimp only
    rw [if_pos ⟨rfl, h_k⟩, h_text]
    change (insertStr _ text pre.length).bind _ = _
    rw [h_insert, List.length_append]
    rfl

/-- The list-level `printk` is the same pass. -/
theorem printkStr_substitute {fmt : List (BitVec 8)} {args : List PrintkArg}
    {texts : List (List (BitVec 8))} (h : Takes ConvertsTo fmt args texts)
    (h_fits : total fmt texts ≤ 99) : printkStr fmt args = some (substitute fmt texts) := by
  have h_length : fmt.length < 100 := by
    rw [total] at h_fits
    omega
  rw [printkStr, if_pos h_length]
  exact printkLoop_substitute [] fmt.length h le_rfl (by rw [List.length_nil]; omega)

/-- An argument that the list-level `printk` has a value for. -/
inductive Denotes {ε : Type} {callerSize : ε → ℕ} (m : LibMemory callerSize) :
    CLib.VaArg ε → PrintkArg → Prop
  | str {array : CArray (LibVar ε)} {off : ℕ} {s : List (BitVec 8)}
      (h : IsStr (m.content array) off s) : Denotes m (.str (.into array off)) (.str s)
  | int (n : BitVec 32) : Denotes m (.int n) (.int n)

section Refinement

variable {ε : Type} {callerSize : ε → ℕ} {m : LibMemory callerSize} {fmt text : List (BitVec 8)}
  {args : List (CLib.VaArg ε)} {texts : List (List (BitVec 8))} {k : BitVec 8}

theorem Renders.denoted {arg : CLib.VaArg ε} (h : CLib.Renders m k arg text) :
    ∃ arg', Denotes m arg arg' ∧ ConvertsTo k arg' text := by
  cases h with
  | str h_array h => exact ⟨.str text, .str h, rfl⟩
  | uint n => exact ⟨.int n, .int n, rfl⟩
  | @hex0x n h => exact ⟨.int n, .int n, num2hexstr_eq true h⟩
  | @hex n h => exact ⟨.int n, .int n, num2hexstr_eq false h⟩

theorem Takes.denoted (h : Takes (CLib.Renders m) fmt args texts) :
    ∃ args', List.Forall₂ (Denotes m) (args.take texts.length) args' ∧
      Takes ConvertsTo fmt args' texts := by
  induction h with
  | done args => exact ⟨[], .nil, .done []⟩
  | copy h_copy h ih =>
    obtain ⟨args', h_args, h_takes⟩ := ih
    exact ⟨args', h_args, .copy h_copy h_takes⟩
  | directive h_k h_text h ih =>
    obtain ⟨arg', h_arg, h_conversion⟩ := Renders.denoted h_text
    obtain ⟨args', h_args, h_takes⟩ := ih
    exact ⟨arg' :: args', .cons h_arg h_args, .directive h_k h_conversion h_takes⟩

/-- **The arrays refine the lists**: `printk` leaves in its array what the list-level `printkStr`
has as its result. -/
theorem printk_refines [DecidableEq ε] {array : CArray (LibVar ε)} {off : ℕ}
    (h_fmt : IsStr (m.content array) off fmt) (h_args : Takes (CLib.Renders m) fmt args texts)
    (h_fits : total fmt texts ≤ 99) :
    ∃ args' out m', List.Forall₂ (Denotes m) (args.take texts.length) args' ∧
      printkStr fmt args' = some out ∧
      (CLib.printk (.into array off) args).run m = .ok (.into (.var .staticArry) (0 : ℕ), m') ∧
      IsStr (m'.bytes .staticArry) 0 out ∧ m.SameBut m' CLib.libVars := by
  obtain ⟨args', h_denotes, h_takes⟩ := h_args.denoted
  obtain ⟨m', h_run, h_str, h_same⟩ := CLib.printk_run h_fmt h_args h_fits
  exact ⟨args', _, m', h_denotes, printkStr_substitute h_takes h_fits, h_run, h_str, h_same⟩

end Refinement

end ToiletOS
