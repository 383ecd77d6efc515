import ToiletOS.Device.Keyboard

/-!
# Decoding scan codes

What the keyboard driver knows after some bytes, without its characters: `Decoder` is a machine with
the prefix state and a flag for each pair of modifier keys. The handler follows it byte by byte
(`initKeyboardHandler_represents`), whatever other threads do with the queue
(`receives_represents`), and over whole events it is the machine with shared flags of
`Framework/KeyEvents.lean` (`decode_keyBytes`).

`Typing` adds caps lock and the characters, as `keymap` has them, to the decoder. While nobody reads
the queue, the handler always returns and the queue holds the first 63 characters (`feed_typing`).
-/

namespace ToiletOS

open Keyboard

/-- The pairs of modifier keys. -/
inductive Modifier
  | ctrl | shift | alt
  deriving DecidableEq, Repr

/-- The pair that the key with the make code `c`, after `e0` or not, is one of: left and right ctrl
are `1d` and `e0 1d`, the shift keys `2a` and `36`, left and right alt `38` and `e0 38`. -/
def modifierOf (extended : Bool) (c : BitVec 8) : Option Modifier :=
  if c = 0x1d then some .ctrl
  else if c = 0x38 then some .alt
  else if extended = false ∧ (c = 0x2a ∨ c = 0x36) then some .shift
  else none

/-- The pair that a key is one of. -/
def ScanKey.modifier (k : ScanKey) : Option Modifier := modifierOf k.extended k.code

/-- The flag of a pair. -/
def Keyboard.status {T : Type} (kb : Keyboard T) : Modifier → BitVec 32
  | .ctrl => kb.ctrlStatus
  | .shift => kb.shiftStatus
  | .alt => kb.altStatus

/-! ### The decoder -/

/-- The prefix state and the flags. -/
structure Decoder where
  ext : Bool
  flag : Modifier → Bool

namespace Decoder

/-- One byte. -/
def step (d : Decoder) (byte : BitVec 8) : Decoder :=
  if byte = 0xe0 then { d with ext := true }
  else
    { ext := false
      flag := KeyEvent.mark (modifierOf d.ext) d.flag (byte &&& 0x7f) (decide (byte < 0x80)) }

/-- Some bytes. -/
def decode (d : Decoder) (bytes : List (BitVec 8)) : Decoder := bytes.foldl step d

theorem decode_append (d : Decoder) (bytes bytes' : List (BitVec 8)) :
    d.decode (bytes ++ bytes') = (d.decode bytes).decode bytes' := List.foldl_append

/-- The prefix. -/
theorem step_prefix (d : Decoder) : d.step 0xe0 = { d with ext := true } := rfl

/-- A make code. -/
theorem step_make (d : Decoder) {c : BitVec 8} (h : c < 0x80) :
    d.step c = ⟨false, KeyEvent.mark (modifierOf d.ext) d.flag c true⟩ := by
  have h_byte : ∀ c : BitVec 8, c < 0x80 → c ≠ 0xe0 ∧ c &&& 0x7f = c := by decide
  obtain ⟨h_ne, h_and⟩ := h_byte c h
  rw [step, if_neg h_ne, h_and, decide_eq_true h]

/-- A break code. -/
theorem step_break (d : Decoder) {c : BitVec 8} (h : c < 0x80) (h_ne : c ≠ 0x60) :
    d.step (c ||| 0x80) = ⟨false, KeyEvent.mark (modifierOf d.ext) d.flag c false⟩ := by
  have h_byte : ∀ c : BitVec 8, c < 0x80 → c ≠ 0x60 →
      c ||| 0x80 ≠ 0xe0 ∧ (c ||| 0x80) &&& 0x7f = c ∧ ¬ c ||| 0x80 < 0x80 := by decide
  obtain ⟨h_first, h_and, h_ge⟩ := h_byte c h h_ne
  rw [step, if_neg h_first, h_and, decide_eq_false h_ge]

/-- The bytes of a code: the prefix, for an extended key, is remembered up to the last byte. -/
theorem decode_bytes (flag : Modifier → Bool) (k : ScanKey) (last : BitVec 8) :
    decode ⟨false, flag⟩ (k.bytes last) = step ⟨k.extended, flag⟩ last := by
  rw [ScanKey.bytes]
  cases k.extended with
  | false => rfl
  | true => rfl

/-- The bytes of an event. -/
theorem decode_event (flag : Modifier → Bool) (e : KeyEvent ScanKey) :
    decode ⟨false, flag⟩ e.bytes = ⟨false, e.markBy ScanKey.modifier flag⟩ := by
  cases e with
  | press k | typematic k =>
    rw [KeyEvent.bytes, ScanKey.makeBytes, decode_bytes, step_make _ k.code_lt]
    rfl
  | release k =>
    rw [KeyEvent.bytes, ScanKey.breakBytes, decode_bytes, step_break _ k.code_lt k.code_ne]
    rfl

/-- **Over whole events** the decoder keeps a flag for each pair. -/
theorem decode_keyBytes (flag : Modifier → Bool) (es : List (KeyEvent ScanKey)) :
    decode ⟨false, flag⟩ (keyBytes es) = ⟨false, KeyEvent.markFrom ScanKey.modifier flag es⟩ := by
  induction es generalizing flag with
  | nil => rfl
  | cons e es ih =>
    have h_bytes : keyBytes (e :: es) = e.bytes ++ keyBytes es := List.flatMap_cons
    rw [h_bytes, decode_append, decode_event, ih]
    rfl

end Decoder

/-! ### The handler decodes -/

/-- The comparisons of the handler tell the pair of the key. -/
theorem codeOf_modifier (extended : Bool) {c : BitVec 8} (h : c < 0x80) :
    ((codeOf extended c = ctrlLMake ∨ codeOf extended c = ctrlRMake) ↔
      modifierOf extended c = some .ctrl) ∧
    ((codeOf extended c = shiftLMake ∨ codeOf extended c = shiftRMake) ↔
      modifierOf extended c = some .shift) ∧
    ((codeOf extended c = altLMake ∨ codeOf extended c = altRMake) ↔
      modifierOf extended c = some .alt) := by
  revert c
  cases extended with
  | false => decide
  | true => decide

/-- A modifier key is handled, and has no character in `keymap`. -/
theorem keymap_modifier (extended : Bool) {c : BitVec 8} (h : c < 0x80)
    (h_mod : modifierOf extended c ≠ none) :
    ¬ Keyboard.Unknown (codeOf extended c) ∧
    keymap[((codeOf extended c &&& 0x00ff).setWidth 8).toNat]? = some (0, 0) := by
  revert c
  cases extended with
  | false => decide
  | true => decide

namespace Keyboard

variable {T : Type} [DecidableEq T] {kb kb' : Keyboard T} {d : Decoder} {extended : Bool}
  {c : BitVec 8}

/-- The statics hold what the decoder knows. -/
structure Represents (kb : Keyboard T) (d : Decoder) : Prop where
  ext : kb.extScanCode = if d.ext then 1 else 0
  flag (g : Modifier) : kb.status g = if d.flag g then 1 else 0

/-- The flag of a pair is written. -/
def setStatus (kb : Keyboard T) : Modifier → BitVec 32 → Keyboard T
  | .ctrl, v => { kb with ctrlStatus := v }
  | .shift, v => { kb with shiftStatus := v }
  | .alt, v => { kb with altStatus := v }

section

omit [DecidableEq T]

theorem setStatus_status (kb : Keyboard T) (g g' : Modifier) (v : BitVec 32) :
    (kb.setStatus g v).status g' = if g = g' then v else kb.status g' := by
  cases g <;> cases g' <;> rfl

@[simp] theorem setStatus_ext (kb : Keyboard T) (g : Modifier) (v : BitVec 32) :
    (kb.setStatus g v).extScanCode = kb.extScanCode := by
  cases g <;> rfl

/-- A released key clears the flag of its pair. -/
theorem breakCode_eq (kb : Keyboard T) (h : c < 0x80) :
    kb.breakCode (codeOf extended c) =
      match modifierOf extended c with
      | some g => kb.setStatus g 0
      | none => kb := by
  obtain ⟨h_ctrl, h_shift, h_alt⟩ := codeOf_modifier extended h
  unfold breakCode
  simp only [h_ctrl, h_shift, h_alt]
  cases modifierOf extended c with
  | none => rfl
  | some g => cases g <;> rfl

/-- A pressed key without a character sets the flag of its pair, or toggles caps lock. -/
theorem modifierCode_eq (kb : Keyboard T) (h : c < 0x80) :
    kb.modifierCode (codeOf extended c) =
      match modifierOf extended c with
      | some g => kb.setStatus g 1
      | none =>
        if codeOf extended c = capsLockMake then
          { kb with capsLockStatus := if kb.capsLockStatus = 0 then 1 else 0 }
        else kb := by
  obtain ⟨h_ctrl, h_shift, h_alt⟩ := codeOf_modifier extended h
  unfold modifierCode
  simp only [h_ctrl, h_shift, h_alt]
  cases modifierOf extended c with
  | none => rfl
  | some g => cases g <;> rfl

end

/-- The character of a modifier key is 0. -/
theorem keymapAt_modifier (h : c < 0x80) (h_mod : modifierOf extended c ≠ none)
    {shift : BitVec 32} {curChar : BitVec 8}
    (h_ok : keymapAt ((codeOf extended c &&& 0x00ff).setWidth 8) shift = .ok curChar) :
    curChar = 0 := by
  rw [keymapAt, (keymap_modifier extended h h_mod).2] at h_ok
  dsimp only at h_ok
  split at h_ok
  · exact (Except.ok.inj h_ok).symm
  · split at h_ok
    · exact (Except.ok.inj h_ok).symm
    · cases h_ok

theorem queuePutchar_frame {curChar : BitVec 8} (h_ok : kb.queuePutchar curChar = .ok kb') :
    ∃ queue, kb' = { kb with keyboardBuffer := queue } := by
  unfold queuePutchar at h_ok
  split at h_ok
  · cases h_ok
  · exact ⟨_, (Except.ok.inj h_ok).symm⟩

/-- A pressed key sets the flag of its pair and touches no other one. -/
theorem makeCode_status (h : c < 0x80) (h_ok : kb.makeCode (codeOf extended c) = .ok kb') :
    kb'.extScanCode = kb.extScanCode ∧
      ∀ g, kb'.status g = if modifierOf extended c = some g then 1 else kb.status g := by
  rcases makeCode_cases h_ok with ⟨h_unknown, rfl⟩ | ⟨curChar, h_char, ⟨h_ne, h_put⟩ | rfl⟩
  · -- an unknown code belongs to no pair
    have h_none : modifierOf extended c = none :=
      by_contra fun h_mod => (keymap_modifier extended h h_mod).1 h_unknown
    refine ⟨rfl, fun g => ?_⟩
    rw [h_none]
    cases g <;> rfl
  · -- nor does a key with a character
    have h_none : modifierOf extended c = none :=
      by_contra fun h_mod => h_ne (keymapAt_modifier h h_mod h_char)
    obtain ⟨queue, rfl⟩ := queuePutchar_frame h_put
    refine ⟨rfl, fun g => ?_⟩
    rw [h_none]
    cases g <;> rfl
  · rw [modifierCode_eq kb h]
    cases modifierOf extended c with
    | none =>
      constructor
      · dsimp only
        split <;> rfl
      · intro g
        dsimp only
        split <;> cases g <;> rfl
    | some g' =>
      refine ⟨setStatus_ext kb g' 1, fun g => ?_⟩
      simp only [setStatus_status, Option.some_inj]

/-- A flag as an `int`, after it is written. -/
theorem mark_flag (group : BitVec 8 → Option Modifier) (flag : Modifier → Bool) (c : BitVec 8)
    (g : Modifier) (b : Bool) :
    (if KeyEvent.mark group flag c b g then 1 else 0 : BitVec 32) =
      if group c = some g then if b then 1 else 0 else if flag g then 1 else 0 := by
  cases h_c : group c with
  | none =>
    rw [KeyEvent.mark_none h_c]
    rfl
  | some g' =>
    rw [KeyEvent.mark_some h_c]
    by_cases h_g : g = g'
    · subst h_g
      rw [Function.update_self, if_pos rfl]
    · have h_ne : ¬ some g' = some g := fun h_eq => h_g (Option.some.inj h_eq).symm
      rw [Function.update_of_ne h_g, if_neg h_ne]

/-- **The handler decodes**: one byte is one step of the decoder. -/
theorem initKeyboardHandler_represents {byte : BitVec 8} (h : Represents kb d)
    (h_ok : kb.initKeyboardHandler byte = .ok kb') : Represents kb' (d.step byte) := by
  by_cases h_first : byte = 0xe0
  · -- the prefix only sets `ext_scancode`
    subst h_first
    obtain rfl := Except.ok.inj h_ok
    refine ⟨rfl, fun g => ?_⟩
    rw [Decoder.step_prefix]
    exact Eq.trans (by cases g <;> rfl) (h.flag g)
  rw [initKeyboardHandler_eq h.ext h_first] at h_ok
  have h_flag (g : Modifier) : ({ kb with extScanCode := 0 } : Keyboard T).status g =
      if d.flag g then 1 else 0 := by
    rw [← h.flag g]
    cases g <;> rfl
  have h_low : ∀ byte : BitVec 8, byte &&& 0x7f < 0x80 := by decide
  rw [Decoder.step, if_neg h_first]
  split at h_ok
  · next h_make =>
    -- a make code has no high bit to mask off
    have h_and : ∀ byte : BitVec 8, byte < 0x80 → byte &&& 0x7f = byte := by decide
    obtain ⟨h_ext, h_status⟩ := makeCode_status h_make h_ok
    refine ⟨h_ext, fun g => ?_⟩
    rw [h_status, h_flag, h_and byte h_make, decide_eq_true h_make]
    exact (mark_flag _ _ _ g true).symm
  · next h_break =>
    -- a break code clears the flag of the key it names
    obtain rfl := Except.ok.inj h_ok
    rw [breakCode_eq _ (h_low byte), decide_eq_false h_break]
    constructor
    · cases modifierOf d.ext (byte &&& 0x7f) with
      | none => rfl
      | some g => exact setStatus_ext _ g 0
    · intro g
      have h_mark := mark_flag (modifierOf d.ext) d.flag (byte &&& 0x7f) g false
      dsimp only
      rw [h_mark, ← h_flag g]
      cases modifierOf d.ext (byte &&& 0x7f) with
      | none => rfl
      | some g' => simp only [setStatus_status, Option.some_inj, Bool.false_eq_true, if_false]

/-- Other threads do not touch the statics. -/
theorem receives_represents {bytes : List (BitVec 8)} (h : Represents kb d)
    (h_run : kb.Receives bytes kb') : Represents kb' (d.decode bytes) := by
  induction h_run with
  | start => exact h
  | others queue _ ih => exact ⟨ih.ext, fun g => by rw [← ih.flag g]; cases g <;> rfl⟩
  | interrupt _ h_byte ih =>
    rw [Decoder.decode_append]
    exact initKeyboardHandler_represents ih h_byte

end Keyboard

/-! ### Characters -/

/-- The column of `keymap` for a key. -/
def column (code : BitVec 16) (shift caps : Bool) : Bool :=
  if CapsIgnored code then shift else shift != caps

/-- The character in a column. -/
def charAt (row : BitVec 8 × BitVec 8) (column : Bool) : BitVec 8 := if column then row.2 else row.1

/-- A character as text. -/
def charText (curChar : BitVec 8) : List (BitVec 8) := if curChar = 0 then [] else [curChar]

/-- The character of a key in `keymap`, if it has one. -/
def keymapText (extended : Bool) (c : BitVec 8) (shift caps : Bool) : List (BitVec 8) :=
  if Unknown (codeOf extended c) then []
  else
    match keymap[((codeOf extended c &&& 0x00ff).setWidth 8).toNat]? with
    | none => []
    | some row => charText (charAt row (column (codeOf extended c) shift caps))

/-- The decoder, caps lock, and the characters so far. -/
structure Typing where
  decoder : Decoder
  caps : Bool
  text : List (BitVec 8)

namespace Typing

/-- One byte. -/
def step (s : Typing) (byte : BitVec 8) : Typing where
  decoder := s.decoder.step byte
  caps := if codeOf s.decoder.ext byte = capsLockMake then !s.caps else s.caps
  text :=
    if byte < 0x80 then
      s.text ++ keymapText s.decoder.ext byte (s.decoder.flag .shift) s.caps
    else s.text

/-- Some bytes. -/
def run (s : Typing) (bytes : List (BitVec 8)) : Typing := bytes.foldl step s

end Typing

namespace Keyboard

variable {T : Type} [DecidableEq T] {kb kb' : Keyboard T} {s : Typing}

/-- The content of `keyboard_buffer`. -/
def text (kb : Keyboard T) : List (BitVec 8) := kb.keyboardBuffer.queue.ring.contents

/-- Nobody waits for a character, and the queue holds as many of those typed as fit. -/
structure Holds (kb : Keyboard T) (s : Typing) : Prop where
  represents : kb.Represents s.decoder
  caps : kb.capsLockStatus = if s.caps then 1 else 0
  consumer : kb.keyboardBuffer.queue.consumer = none
  text : kb.text = s.text.take 63

/-- A character is put into a queue that is not full. -/
theorem queuePutchar_quiet (kb : Keyboard T) (h_consumer : kb.keyboardBuffer.queue.consumer = none)
    (curChar : BitVec 8) :
    kb.queuePutchar curChar =
      .ok { kb with keyboardBuffer := kb.keyboardBuffer.move (.putchar curChar) } := by
  have h_finish : kb.keyboardBuffer.finish (.putchar curChar) =
      .ok (kb.keyboardBuffer.move (.putchar curChar)) := by
    have h_slot : (kb.keyboardBuffer.move (.putchar curChar)).queue.slot .consumer = none :=
      h_consumer
    rw [QueueState.finish, QueueCall.partner, wakeup, h_slot]
    rfl
  rw [queuePutchar, h_finish]

omit [DecidableEq T] in
/-- The queue is full when it holds 63 characters. -/
theorem isQueueFull_iff {text : List (BitVec 8)} (h_text : kb.text = text.take 63) :
    kb.keyboardBuffer.queue.IsQueueFull ↔ 63 ≤ text.length := by
  have h_length : kb.text.length = kb.keyboardBuffer.queue.ring.length :=
    Ring.contents_length _
  rw [h_text, List.length_take] at h_length
  have h_full : kb.keyboardBuffer.queue.IsQueueFull ↔ kb.keyboardBuffer.queue.ring.length = 63 :=
    Ring.isFull_iff _
  rw [h_full, ← h_length]
  omega

omit [DecidableEq T] in
/-- The column of `keymap`. -/
theorem shift_eq {shift caps : Bool} (h_shift : kb.shiftStatus = if shift then 1 else 0)
    (h_caps : kb.capsLockStatus = if caps then 1 else 0) (code : BitVec 16) :
    kb.shift code = if column code shift caps then 1 else 0 := by
  unfold Keyboard.shift column
  rw [h_shift, h_caps]
  split
  · rfl
  · cases shift <;> cases caps <;> rfl

theorem keymapAt_row {index : BitVec 8} {row : BitVec 8 × BitVec 8}
    (h_row : keymap[index.toNat]? = some row) (column : Bool) :
    keymapAt index (if column then 1 else 0) = .ok (charAt row column) := by
  rw [keymapAt, h_row]
  cases column <;> rfl

omit [DecidableEq T] in
theorem modifierCode_caps (kb : Keyboard T) (code : BitVec 16) :
    (kb.modifierCode code).capsLockStatus =
      if code = capsLockMake then if kb.capsLockStatus = 0 then 1 else 0
      else kb.capsLockStatus := by
  have h_other {a b : BitVec 16} (h : code = a ∨ code = b) (h_a : a ≠ capsLockMake)
      (h_b : b ≠ capsLockMake) : code ≠ capsLockMake := by
    rcases h with rfl | rfl
    · exact h_a
    · exact h_b
  unfold modifierCode
  -- the codes of ctrl, shift and alt are tested before that of caps lock
  split
  · next h => rw [if_neg (h_other h (by decide) (by decide))]
  · split
    · next h => rw [if_neg (h_other h (by decide) (by decide))]
    · split
      · next h => rw [if_neg (h_other h (by decide) (by decide))]
      · split <;> rfl

omit [DecidableEq T] in
theorem modifierCode_buffer (kb : Keyboard T) (code : BitVec 16) :
    (kb.modifierCode code).keyboardBuffer = kb.keyboardBuffer := by
  unfold modifierCode
  split
  · rfl
  · split
    · rfl
    · split
      · rfl
      · split <;> rfl

/-! ### The handler types -/

/-- The row of a key that the driver can handle. -/
theorem keymap_row {extended : Bool} {c : BitVec 8} (h : c < 0x80)
    (h_known : ¬ Unknown (codeOf extended c)) :
    ∃ row, keymap[((codeOf extended c &&& 0x00ff).setWidth 8).toNat]? = some row := by
  have h_index : ((codeOf extended c &&& 0x00ff).setWidth 8).toNat < keymap.length := by
    revert c
    cases extended with
    | false => decide
    | true => decide
  exact ⟨_, List.getElem?_eq_getElem h_index⟩

/-- Caps lock has no character. -/
theorem keymapText_capsLock {extended : Bool} {c : BitVec 8} (shift caps : Bool)
    (h : codeOf extended c = capsLockMake) : keymapText extended c shift caps = [] := by
  rw [keymapText, h]
  cases shift <;> cases caps <;> rfl

/-- A pressed key adds its character, if it has one and there is room. -/
theorem makeCode_types {extended : Bool} {c : BitVec 8} (h : c < 0x80) {shift caps : Bool}
    {text : List (BitVec 8)} (h_shift : kb.shiftStatus = if shift then 1 else 0)
    (h_caps : kb.capsLockStatus = if caps then 1 else 0)
    (h_consumer : kb.keyboardBuffer.queue.consumer = none) (h_text : kb.text = text.take 63) :
    ∃ kb', kb.makeCode (codeOf extended c) = .ok kb' ∧
      kb'.capsLockStatus =
        (if (if codeOf extended c = capsLockMake then !caps else caps) then 1 else 0) ∧
      kb'.keyboardBuffer.queue.consumer = none ∧
      kb'.text = (text ++ keymapText extended c shift caps).take 63 := by
  by_cases h_unknown : Unknown (codeOf extended c)
  · -- an unknown code types nothing
    have h_ne : codeOf extended c ≠ capsLockMake := by
      rintro h_eq
      rw [h_eq] at h_unknown
      revert h_unknown
      decide
    refine ⟨_, makeCode_unknown kb h_unknown, ?_, h_consumer, ?_⟩
    · rw [if_neg h_ne]
      exact h_caps
    · rw [keymapText, if_pos h_unknown, List.append_nil]
      exact h_text
  -- a known code has a row of the table, and shift and caps lock choose the column
  obtain ⟨row, h_row⟩ := keymap_row h h_unknown
  have h_char := keymapAt_row h_row (column (codeOf extended c) shift caps)
  have h_keymap : keymapText extended c shift caps =
      charText (charAt row (column (codeOf extended c) shift caps)) := by
    rw [keymapText, if_neg h_unknown, h_row]
  rw [← shift_eq h_shift h_caps] at h_char
  have h_make := makeCode_known kb h_unknown h_char
  generalize charAt row (column (codeOf extended c) shift caps) = curChar at h_make h_keymap
  have h_modifier : (kb.modifierCode (codeOf extended c)).capsLockStatus =
      (if (if codeOf extended c = capsLockMake then !caps else caps) then 1 else 0) := by
    rw [modifierCode_caps, h_caps]
    split <;> cases caps <;> rfl
  by_cases h_put : curChar ≠ 0 ∧ ¬ kb.keyboardBuffer.queue.IsQueueFull
  · -- there is a character, and room for it
    obtain ⟨h_zero, h_full⟩ := h_put
    have h_ne : codeOf extended c ≠ capsLockMake := by
      intro h_eq
      rw [keymapText_capsLock shift caps h_eq, charText, if_neg h_zero] at h_keymap
      cases h_keymap
    have h_room : text.length < 63 :=
      Nat.not_le.mp fun h_le => h_full ((isQueueFull_iff h_text).mpr h_le)
    rw [if_pos ⟨h_zero, h_full⟩, queuePutchar_quiet (kb.putChar curChar) h_consumer] at h_make
    refine ⟨_, h_make, ?_, h_consumer, ?_⟩
    · rw [if_neg h_ne]
      exact h_caps
    · have h_contents :
          (kb.keyboardBuffer.queue.ring.put curChar).contents = kb.text ++ [curChar] :=
        Ring.contents_put _ curChar h_full
      rw [h_keymap, charText, if_neg h_zero, List.take_of_length_le (by simp; omega)]
      rw [List.take_of_length_le h_room.le] at h_text
      rw [← h_text]
      exact h_contents
  · -- nothing is queued, and the code is looked up among the modifiers
    rw [if_neg h_put] at h_make
    have h_buffer := modifierCode_buffer kb (codeOf extended c)
    refine ⟨_, h_make, h_modifier, by rw [h_buffer]; exact h_consumer, ?_⟩
    rw [Keyboard.text, h_buffer, ← Keyboard.text, h_text, h_keymap]
    by_cases h_zero : curChar = 0
    · rw [charText, if_pos h_zero, List.append_nil]
    · -- the queue is full
      have h_full : 63 ≤ text.length :=
        (isQueueFull_iff h_text).mp (by_contra fun h_not => h_put ⟨h_zero, h_not⟩)
      rw [List.take_append_of_le_length h_full]

omit [DecidableEq T] in
/-- A released key leaves caps lock and the queue. -/
theorem breakCode_frame (kb : Keyboard T) (code : BitVec 16) :
    (kb.breakCode code).capsLockStatus = kb.capsLockStatus ∧
      (kb.breakCode code).keyboardBuffer = kb.keyboardBuffer := by
  unfold breakCode
  split
  · exact ⟨rfl, rfl⟩
  · split
    · exact ⟨rfl, rfl⟩
    · split <;> exact ⟨rfl, rfl⟩

/-- Only the make code of caps lock is that of caps lock. -/
theorem codeOf_capsLock {extended : Bool} {byte : BitVec 8} (h : ¬ byte < 0x80) :
    codeOf extended byte ≠ capsLockMake := by
  revert byte
  cases extended with
  | false => decide
  | true => decide

/-- **One byte**: the handler returns, and the queue holds as many of the characters as fit. -/
theorem initKeyboardHandler_types (h : Holds kb s) (byte : BitVec 8) :
    ∃ kb', kb.initKeyboardHandler byte = .ok kb' ∧ Holds kb' (s.step byte) := by
  suffices h_parts : ∃ kb', kb.initKeyboardHandler byte = .ok kb' ∧
      kb'.capsLockStatus = (if (s.step byte).caps then 1 else 0) ∧
      kb'.keyboardBuffer.queue.consumer = none ∧ kb'.text = (s.step byte).text.take 63 by
    obtain ⟨kb', h_ok, h_caps, h_consumer, h_text⟩ := h_parts
    exact ⟨kb', h_ok, initKeyboardHandler_represents h.represents h_ok, h_caps, h_consumer, h_text⟩
  -- the flags are right by the decoder: what is left is caps lock and the text
  unfold Typing.step
  by_cases h_first : byte = 0xe0
  · subst h_first
    refine ⟨_, initKeyboardHandler_prefix kb, ?_, h.consumer, ?_⟩
    · rw [if_neg (codeOf_capsLock (by decide))]
      exact h.caps
    · exact h.text
  rw [initKeyboardHandler_eq h.represents.ext h_first]
  by_cases h_make : byte < 0x80
  · rw [if_pos h_make]
    dsimp only
    rw [if_pos h_make]
    exact @makeCode_types T _ { kb with extScanCode := 0 } _ _ h_make _ _ _
      (h.represents.flag .shift) h.caps h.consumer h.text
  · rw [if_neg h_make]
    dsimp only
    rw [if_neg h_make, if_neg (codeOf_capsLock h_make)]
    obtain ⟨h_caps, h_buffer⟩ := breakCode_frame { kb with extScanCode := 0 }
      (codeOf s.decoder.ext (byte &&& 0x7f))
    refine ⟨_, rfl, h_caps.trans h.caps, by rw [h_buffer]; exact h.consumer, ?_⟩
    rw [Keyboard.text, h_buffer]
    exact h.text

/-- **Nobody reads**: the handler always returns, and the queue holds as many of the characters as
fit. -/
theorem feed_types (h : Holds kb s) (bytes : List (BitVec 8)) :
    ∃ kb', kb.feed bytes = .ok kb' ∧ Holds kb' (s.run bytes) := by
  induction bytes generalizing kb s with
  | nil => exact ⟨kb, rfl, h⟩
  | cons byte bytes ih =>
    obtain ⟨kb₁, h_ok, h₁⟩ := initKeyboardHandler_types h byte
    obtain ⟨kb₂, h_feed, h₂⟩ := ih h₁
    refine ⟨kb₂, ?_, h₂⟩
    rw [feed, h_ok]
    exact h_feed

end Keyboard

end ToiletOS
