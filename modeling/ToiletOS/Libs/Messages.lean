import ToiletOS.Libs.Format

/-!
# Messages

`put_str` of `libs/printk.c` has its message inserted into a format of two characters. The static
array of `printk` has 100 bytes, of which one is for the zero: a message of up to 99 characters is
passed to `kputs` as it is, and with any longer one `insert_str` writes behind the array
(`put_str_iff`). No caller looks at the length, and `panic_spin` passes on the text of a condition.
-/

namespace ToiletOS
namespace CLib

open CCode

variable {ε : Type} [DecidableEq ε] {callerSize : ε → ℕ} {m : LibMemory callerSize}
  {array : CArray (LibVar ε)} {off : ℕ} {message : List (BitVec 8)}

/-- The run stays within the arrays, and what is passed to `kputs` is the message. -/
def PassesMessage (m : LibMemory callerSize) (p : CPtr (LibVar ε)) (message : List (BitVec 8)) :
    Prop :=
  ∃ array off m', (putStr p).run m = .ok (.into array (off : ℕ), m') ∧
    IsStr (m'.content array) off message

/-- `put_str` up to where the message is inserted. -/
theorem putStr_start (h_str : IsStr (m.content array) off message)
    (h_static : array ≠ .var .staticArry) :
    ∃ m', IsStr (m'.bytes .staticArry) 0 ([] ++ 0x25#8 :: 0x73#8 :: []) ∧
      IsStr (m'.content array) off message ∧
      (putStr (.into array off)).run m = StateT.run (do
        let (args, offset) ← insertText (.into array off) [] (0 : ℕ)
        printkLoop 101 args (offset + 1)
        return outputStr) m' := by
  have h_format : IsStr (m.content (.const ([0x25#8, 0x73#8] ++ [0#8]))) 0 [0x25#8, 0x73#8] :=
    isStr_literal (by decide)
  obtain ⟨m₁, h_copy, h_buf, h_same⟩ := copy_run h_format (by decide)
  have h_str₁ : IsStr (m₁.content array) off message := by
    cases array with
    | const bytes => exact h_str
    | var o =>
      rw [Objects.content_var, h_same o]
      · exact h_str
      · rw [List.mem_singleton]
        exact fun h_eq => h_static (congrArg _ h_eq)
  obtain ⟨h_c, h_percent, h_rest⟩ := isStr_cons.mp h_buf
  obtain ⟨-, h_s, -⟩ := isStr_cons.mp h_rest
  -- the format is `%s`, so the first round inserts the message
  have h_round : (printkRound [.str (.into array off)] (0 : ℕ)).run m₁
      = (insertText (.into array off) [] (0 : ℕ)).run m₁ := by
    rw [printkRound, outputStr]
    dsimp only
    rw [CPtr.add_nat, run_bind_ok (run_load_var h_percent), if_pos rfl, CPtr.add_one,
      run_bind_ok (run_load_var h_s), if_pos rfl, run_bind_ok (run_vaStr _ _)]
  have h_loop : (printkLoop 102 [.str (.into array off)] (0 : ℕ)).run m₁ = StateT.run (do
      let (args, offset) ← insertText (.into array off) [] (0 : ℕ)
      printkLoop 101 args (offset + 1)) m₁ := by
    rw [printkLoop, outputStr, CPtr.add_nat, run_bind_ok (run_load_var h_percent), if_pos h_c]
    exact run_bind_congr h_round
  refine ⟨m₁, h_buf, h_str₁, ?_⟩
  rw [putStr, printk, literal, run_bind_ok h_copy, run_bind_ok (run_rounds _), room_outputStr]
  refine (run_bind_congr h_loop).trans ?_
  rw [bind_assoc]

/-- A message that has room, with its zero, is passed on. -/
theorem putStr_run (h_str : IsStr (m.content array) off message)
    (h_static : array ≠ .var .staticArry) (h_insert : array ≠ .var .insertM)
    (h_fits : message.length ≤ 99) : PassesMessage m (.into array off) message := by
  obtain ⟨m₁, h_buf, h_str₁, h_run⟩ := putStr_start h_str h_static
  obtain ⟨m', h_text, h_buf', -⟩ := insertText_run [] h_buf h_str₁ h_static
     h_insert (show 0 + message.length + 0 < 100 by omega)
  rw [List.nil_append, List.append_nil] at h_buf'
  refine ⟨.var .staticArry, 0, m', ?_, h_buf'⟩
  have h_next : (([] : List (BitVec 8)).length : ℤ) + message.length - 1 + 1 = message.length := by
    rw [List.length_nil]
    omega
  -- the scan is at the end of the string
  have h_zero := (isStr_append.mp (show IsStr (m'.bytes .staticArry) 0 (message ++ []) by
    rw [List.append_nil]
    exact h_buf')).2.2
  rw [h_run]
  refine (run_bind_ok h_text).trans ?_
  dsimp only
  rw [h_next]
  have h_end : (printkLoop 101 [] (message.length : ℤ)).run m' = .ok ((), m') := by
    rw [printkLoop, outputStr, CPtr.add_nat, run_bind_ok (run_load_var (isStr_nil.mp h_zero))]
    rfl
  exact run_bind_ok h_end

/-- A longer one is written behind the array. -/
theorem putStr_overrun (h_str : IsStr (m.content array) off message)
    (h_static : array ≠ .var .staticArry) (h_insert : array ≠ .var .insertM)
    (h_over : 100 ≤ message.length) :
    (putStr (.into array off)).run m = .error .outOfBounds := by
  obtain ⟨m₁, h_buf, h_str₁, h_run⟩ := putStr_start h_str h_static
  have h_overrun := insertStr_overrun h_buf h_str₁ h_static h_insert
    (show 100 ≤ 0 + message.length by omega)
  rw [h_run]
  exact run_bind_error (run_bind_error h_overrun)

end CLib

open CLib in
/-- **A message is passed on within the arrays** if and only if it has at most 99 characters. -/
theorem put_str_iff {ε : Type} [DecidableEq ε] {callerSize : ε → ℕ} (m : LibMemory callerSize)
    {array : CArray (LibVar ε)} {off : ℕ} {message : List (BitVec 8)}
    (h_str : IsStr (m.content array) off message)
    (h_static : array ≠ .var .staticArry) (h_insert : array ≠ .var .insertM) :
    PassesMessage m (.into array off) message ↔ message.length ≤ 99 := by
  constructor
  · rintro ⟨array', off', m', h_run, -⟩
    by_contra h_over
    rw [putStr_overrun h_str h_static h_insert (by omega)] at h_run
    cases h_run
  · exact putStr_run h_str h_static h_insert

/-- The characters of a text. -/
def textBytes (s : String) : List (BitVec 8) := s.toList.map fun c => BitVec.ofNat 8 c.toNat

/-- The condition of the first `ASSERT` in `thread_unblock`, as `panic_spin` gets it. -/
def unblockCondition : List (BitVec 8) :=
  textBytes "pthread->status == TASK_BLOCKED || pthread->status == TASK_HANGING || " ++
    textBytes "pthread->status == TASK_WAITTING"

/-- The first message of `panic_spin`. -/
theorem put_str_something_wrong :
    CLib.PassesMessage zeroMemory (literal (textBytes "Something wrong..."))
      (textBytes "Something wrong...") :=
  (put_str_iff zeroMemory (isStr_literal (by decide)) (fun h_eq => by cases h_eq)
    (fun h_eq => by cases h_eq)).mpr (by decide)

/-- The condition has 102 characters. -/
theorem put_str_unblock_condition :
    ¬ CLib.PassesMessage zeroMemory (literal unblockCondition) unblockCondition := by
  rintro ⟨array, off, m', h_run, -⟩
  have h_overrun : (CLib.putStr (literal unblockCondition)).run zeroMemory = .error .outOfBounds :=
    CLib.putStr_overrun (isStr_literal (by decide)) (fun h_eq => by cases h_eq)
      (fun h_eq => by cases h_eq) (by decide)
  rw [h_overrun] at h_run
  cases h_run

end ToiletOS
