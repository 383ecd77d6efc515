import ToiletOS.Device.Ioqueue
import ToiletOS.Framework.KeyEvents

/-!
# The keyboard driver

`init_keyboard_handler` of `device/keyboard.c`, which takes one byte of scan-code set 1 an
interrupt. Its state is kept between the interrupts in five `int`s, and the characters go to the
console and to `keyboard_buffer`, the queue of `Device/Ioqueue.lean`, when that is not full.

A key of the keyboard is a `ScanKey`: its make code is one byte, or `e0` and one byte, and its break
code is the make code with bit 7 set in the last byte. `KeyEvent.bytes` are the bytes of an event.
The bytes `e0` and `e0 e0` are not the break codes of a key, as the first is the prefix. (What the
keyboard sends for Print Screen are the codes of two such keys.)
-/

namespace ToiletOS

/-- A character as `char`. -/
abbrev ascii (c : Char) : BitVec 8 := BitVec.ofNat 8 c.toNat

/-! ### Scan codes -/

def shiftLMake : BitVec 16 := 0x2a
def shiftRMake : BitVec 16 := 0x36
def altLMake : BitVec 16 := 0x38
def altRMake : BitVec 16 := 0xe038
def ctrlLMake : BitVec 16 := 0x1d
def ctrlRMake : BitVec 16 := 0xe01d
def capsLockMake : BitVec 16 := 0x3a

/-- `keymap`: the characters of the keys by make code, without and with shift. -/
def keymap : List (BitVec 8 × BitVec 8) := [
  (0, 0),
  -- `esc`
  (0o33, 0o33),
  (1, ascii '!'), (2, ascii '@'), (3, ascii '#'), (4, ascii '$'), (5, ascii '%'),
  (6, ascii '^'), (7, ascii '&'), (8, ascii '*'), (9, ascii '('), (0, ascii ')'),
  (ascii '-', ascii '_'), (ascii '=', ascii '+'),
  -- `backspace` and `tab`
  (0x08, 0x08), (0x09, 0x09),
  (ascii 'q', ascii 'Q'), (ascii 'w', ascii 'W'), (ascii 'e', ascii 'E'), (ascii 'r', ascii 'R'),
  (ascii 't', ascii 'T'), (ascii 'y', ascii 'Y'), (ascii 'u', ascii 'U'), (ascii 'i', ascii 'I'),
  (ascii 'o', ascii 'O'), (ascii 'p', ascii 'P'), (ascii '[', ascii '{'), (ascii ']', ascii '}'),
  -- `enter` and `ctrl_l_char`
  (0x0d, 0x0d), (0, 0),
  (ascii 'a', ascii 'A'), (ascii 's', ascii 'S'), (ascii 'd', ascii 'D'), (ascii 'f', ascii 'F'),
  (ascii 'g', ascii 'G'), (ascii 'h', ascii 'H'), (ascii 'j', ascii 'J'), (ascii 'k', ascii 'K'),
  (ascii 'l', ascii 'L'), (ascii ';', ascii ':'), (ascii '\x27', ascii '\x22'),
  (ascii '\x60', ascii '~'),
  -- `shift_l_char`
  (0, 0),
  (ascii '\\', ascii '|'),
  (ascii 'z', ascii 'Z'), (ascii 'x', ascii 'X'), (ascii 'c', ascii 'C'), (ascii 'v', ascii 'V'),
  (ascii 'b', ascii 'B'), (ascii 'n', ascii 'N'), (ascii 'm', ascii 'M'), (ascii ',', ascii '<'),
  (ascii '.', ascii '>'), (ascii '/', ascii '?'),
  -- `shift_r_char`
  (0, 0),
  (ascii '*', ascii '*'),
  -- `alt_l_char`
  (0, 0),
  (ascii ' ', ascii ' '),
  -- `caps_lock_char`
  (0, 0)]

/-! ### The handler -/

/-- Why the handler does not return. -/
inductive KeyFault
  -- `keymap[index][shift]` is not an element.
  | outside
  -- A failed `ASSERT` of the queue.
  | assertion (a : Assertion)
  deriving DecidableEq, Repr

/-- The static variables of the driver, with the bytes it has written to the console. -/
structure Keyboard (T : Type) where
  ctrlStatus : BitVec 32
  shiftStatus : BitVec 32
  altStatus : BitVec 32
  capsLockStatus : BitVec 32
  extScanCode : BitVec 32
  keyboardBuffer : QueueState T
  console : List (BitVec 8)

namespace Keyboard

variable {T : Type} [DecidableEq T]

/-- `put_str`. -/
def putStr (kb : Keyboard T) (s : String) : Keyboard T :=
  { kb with console := kb.console ++ s.toList.map ascii }

/-- `put_char`, as far as the text goes. The card is left out, and with it the fault of a backspace
at the first cell. -/
def putChar (kb : Keyboard T) (c : BitVec 8) : Keyboard T :=
  { kb with console := kb.console ++ [c] }

/-- `keymap[index][shift]`. -/
def keymapAt (index : BitVec 8) (shift : BitVec 32) : Except KeyFault (BitVec 8) :=
  match keymap[index.toNat]? with
  | none => .error .outside
  | some row => if shift = 0 then .ok row.1 else if shift = 1 then .ok row.2 else .error .outside

/-- `queue_putchar(&keyboard_buffer, c)`, on a queue that is not full. -/
def queuePutchar (kb : Keyboard T) (c : BitVec 8) : Except KeyFault (Keyboard T) :=
  match kb.keyboardBuffer.finish (.putchar c) with
  | .error a => .error (.assertion a)
  | .ok queue => .ok { kb with keyboardBuffer := queue }

/-- A key has been released. -/
def breakCode (kb : Keyboard T) (makeCode : BitVec 16) : Keyboard T :=
  if makeCode = ctrlLMake ∨ makeCode = ctrlRMake then { kb with ctrlStatus := 0 }
  else if makeCode = shiftLMake ∨ makeCode = shiftRMake then { kb with shiftStatus := 0 }
  else if makeCode = altLMake ∨ makeCode = altRMake then { kb with altStatus := 0 }
  else kb

/-- The keys that `caps_lock` does not concern. -/
def CapsIgnored (code : BitVec 16) : Prop :=
  code < 0x0e ∨ code = 0x29 ∨ code = 0x1a ∨ code = 0x1b ∨ code = 0x2b ∨ code = 0x27 ∨
    code = 0x28 ∨ code = 0x33 ∨ code = 0x34 ∨ code = 0x35

instance (code : BitVec 16) : Decidable (CapsIgnored code) := inferInstanceAs (Decidable (_ ∨ _))

/-- `shift`, the column of `keymap`. -/
def shift (kb : Keyboard T) (code : BitVec 16) : BitVec 32 :=
  if CapsIgnored code then kb.shiftStatus
  else if kb.shiftStatus ≠ 0 ∧ kb.capsLockStatus ≠ 0 then 0
  else if kb.shiftStatus ≠ 0 ∨ kb.capsLockStatus ≠ 0 then 1
  else 0

/-- What a key without a character does when it is pressed. -/
def modifierCode (kb : Keyboard T) (code : BitVec 16) : Keyboard T :=
  if code = ctrlLMake ∨ code = ctrlRMake then { kb with ctrlStatus := 1 }
  else if code = shiftLMake ∨ code = shiftRMake then { kb with shiftStatus := 1 }
  else if code = altLMake ∨ code = altRMake then { kb with altStatus := 1 }
  else if code = capsLockMake then
    { kb with capsLockStatus := if kb.capsLockStatus = 0 then 1 else 0 }
  else kb

/-- The keys that the driver cannot handle: those outside `01` to `3a` but for right alt and right
ctrl. -/
def Unknown (code : BitVec 16) : Prop :=
  (code ≤ 0x00 ∨ code > 0x3a) ∧ code ≠ altRMake ∧ code ≠ ctrlRMake

instance (code : BitVec 16) : Decidable (Unknown code) := inferInstanceAs (Decidable (_ ∧ _))

/-- A key has been pressed, or repeats. -/
def makeCode (kb : Keyboard T) (code : BitVec 16) : Except KeyFault (Keyboard T) :=
  if Unknown code then .ok (kb.putStr "Unkown key.\n")
  else do
    let curChar ← keymapAt ((code &&& 0x00ff).setWidth 8) (kb.shift code)
    if curChar ≠ 0 ∧ ¬ kb.keyboardBuffer.queue.IsQueueFull then
      (kb.putChar curChar).queuePutchar curChar
    else
      return kb.modifierCode code

theorem makeCode_unknown (kb : Keyboard T) {code : BitVec 16} (h : Unknown code) :
    kb.makeCode code = .ok (kb.putStr "Unkown key.\n") := if_pos h

theorem makeCode_known (kb : Keyboard T) {code : BitVec 16} (h : ¬ Unknown code)
    {curChar : BitVec 8}
    (h_char : keymapAt ((code &&& 0x00ff).setWidth 8) (kb.shift code) = .ok curChar) :
    kb.makeCode code =
      if curChar ≠ 0 ∧ ¬ kb.keyboardBuffer.queue.IsQueueFull then
        (kb.putChar curChar).queuePutchar curChar
      else .ok (kb.modifierCode code) := by
  rw [makeCode, if_neg h, h_char]
  rfl

/-- What a pressed key does, when the handler returns. -/
theorem makeCode_cases {kb kb' : Keyboard T} {code : BitVec 16}
    (h_ok : kb.makeCode code = .ok kb') :
    (Unknown code ∧ kb' = kb.putStr "Unkown key.\n") ∨
    ∃ curChar, keymapAt ((code &&& 0x00ff).setWidth 8) (kb.shift code) = .ok curChar ∧
      ((curChar ≠ 0 ∧ (kb.putChar curChar).queuePutchar curChar = .ok kb') ∨
        kb' = kb.modifierCode code) := by
  by_cases h : Unknown code
  · rw [makeCode_unknown kb h] at h_ok
    exact Or.inl ⟨h, (Except.ok.inj h_ok).symm⟩
  · refine Or.inr ?_
    cases h_char : keymapAt ((code &&& 0x00ff).setWidth 8) (kb.shift code) with
    | error f =>
      rw [makeCode, if_neg h, h_char] at h_ok
      cases h_ok
    | ok curChar =>
      rw [makeCode_known kb h h_char] at h_ok
      refine ⟨curChar, rfl, ?_⟩
      -- a character that cannot be queued falls through to the modifiers
      split at h_ok
      · next h_put => exact Or.inl ⟨h_put.1, h_ok⟩
      · exact Or.inr (Except.ok.inj h_ok).symm

/-- `init_keyboard_handler`, with the byte read from `KEYBOARD_BUF_PORT`. -/
def initKeyboardHandler (kb : Keyboard T) (byte : BitVec 8) : Except KeyFault (Keyboard T) :=
  let code : BitVec 16 := byte.setWidth 16
  if code = 0xe0 then .ok { kb with extScanCode := 1 }
  else
    let (code, kb) :=
      if kb.extScanCode ≠ 0 then (0xe000 ||| code, { kb with extScanCode := 0 }) else (code, kb)
    if code &&& 0x0080 ≠ 0 then .ok (kb.breakCode (code &&& 0xff7f))
    else kb.makeCode code

/-- `code`, once the prefix is taken into account. -/
def codeOf (extended : Bool) (c : BitVec 8) : BitVec 16 :=
  if extended then 0xe000 ||| c.setWidth 16 else c.setWidth 16

theorem codeOf_and (extended : Bool) (c : BitVec 8) :
    codeOf extended c &&& 0xff7f = codeOf extended (c &&& 0x7f) := by
  revert c
  cases extended with
  | false => decide
  | true => decide

theorem codeOf_bit (extended : Bool) (c : BitVec 8) :
    codeOf extended c &&& 0x0080 ≠ 0 ↔ ¬ c < 0x80 := by
  revert c
  cases extended with
  | false => decide
  | true => decide

theorem initKeyboardHandler_prefix (kb : Keyboard T) :
    kb.initKeyboardHandler 0xe0 = .ok { kb with extScanCode := 1 } := rfl

/-- A byte that is not the prefix. -/
theorem initKeyboardHandler_eq {kb : Keyboard T} {extended : Bool}
    (h_ext : kb.extScanCode = if extended then 1 else 0) {byte : BitVec 8} (h : byte ≠ 0xe0) :
    kb.initKeyboardHandler byte =
      if byte < 0x80 then { kb with extScanCode := 0 }.makeCode (codeOf extended byte)
      else .ok ({ kb with extScanCode := 0 }.breakCode (codeOf extended (byte &&& 0x7f))) := by
  have h_wide : ∀ byte : BitVec 8, byte ≠ 0xe0 → byte.setWidth 16 ≠ (0xe0 : BitVec 16) := by decide
  -- the prefix of the byte before goes into the code and is forgotten
  have h_code : (if kb.extScanCode ≠ 0 then
      (0xe000 ||| byte.setWidth 16, { kb with extScanCode := 0 })
      else (byte.setWidth 16, kb)) = (codeOf extended byte, { kb with extScanCode := 0 }) := by
    cases extended with
    | false =>
      rw [if_neg (by simp [h_ext])]
      obtain ⟨ctrl, shift, alt, caps, ext, buffer, console⟩ := kb
      obtain rfl : ext = 0 := h_ext
      rfl
    | true =>
      rw [if_pos (by simp [h_ext])]
      rfl
  rw [initKeyboardHandler, if_neg (h_wide byte h), h_code]
  by_cases h_make : byte < 0x80
  · rw [if_pos h_make]
    exact if_neg fun h_bit => (codeOf_bit extended byte).mp h_bit h_make
  · rw [if_neg h_make, ← codeOf_and]
    exact if_pos ((codeOf_bit extended byte).mpr h_make)

/-- One interrupt for each byte, while no other thread touches the queue. -/
def feed (kb : Keyboard T) : List (BitVec 8) → Except KeyFault (Keyboard T)
  | [] => .ok kb
  | byte :: bytes => do
    let kb ← kb.initKeyboardHandler byte
    kb.feed bytes

/-- One interrupt for each byte, while other threads may do to the queue what they like. -/
inductive Receives (kb : Keyboard T) : List (BitVec 8) → Keyboard T → Prop
  | start : Receives kb [] kb
  | others {bytes : List (BitVec 8)} {kb' : Keyboard T} (queue : QueueState T) :
    Receives kb bytes kb' → Receives kb bytes { kb' with keyboardBuffer := queue }
  | interrupt {bytes : List (BitVec 8)} {byte : BitVec 8} {kb' kb'' : Keyboard T} :
    Receives kb bytes kb' → kb'.initKeyboardHandler byte = .ok kb'' →
      Receives kb (bytes ++ [byte]) kb''

/-- The driver after `keyboard_init`: the statics are zero, and the queue is as `ioqueue_init` is
meant to leave it. -/
def start (buf : Fin bufSize → BitVec 8) : Keyboard T where
  ctrlStatus := 0
  shiftStatus := 0
  altStatus := 0
  capsLockStatus := 0
  extScanCode := 0
  keyboardBuffer := .start buf
  console := []

end Keyboard

/-! ### Keys -/

/-- A key: its make code is `code`, after `e0` if it is extended. -/
structure ScanKey where
  extended : Bool
  code : BitVec 8
  code_lt : code < 0x80
  code_ne : code ≠ 0x60
  deriving DecidableEq

namespace ScanKey

/-- The bytes of a code. -/
def bytes (k : ScanKey) (last : BitVec 8) : List (BitVec 8) :=
  if k.extended then [0xe0, last] else [last]

/-- The make code. -/
def makeBytes (k : ScanKey) : List (BitVec 8) := k.bytes k.code

/-- The break code. -/
def breakBytes (k : ScanKey) : List (BitVec 8) := k.bytes (k.code ||| 0x80)

end ScanKey

/-- The bytes of an event. -/
def KeyEvent.bytes : KeyEvent ScanKey → List (BitVec 8)
  | .press k | .typematic k => k.makeBytes
  | .release k => k.breakBytes

/-- The bytes of some events. -/
def keyBytes (es : List (KeyEvent ScanKey)) : List (BitVec 8) := es.flatMap KeyEvent.bytes

end ToiletOS
