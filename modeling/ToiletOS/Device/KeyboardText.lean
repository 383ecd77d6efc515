import ToiletOS.Device.KeyboardModifiers

/-!
# The text of the keyboard driver

What a keyboard with the US layout types (`usLayout`, `typedFrom`), and what the driver puts into
its queue. The characters of `keymap` are those of the layout but for the digits: the rows of the
digit keys hold the numbers 1 to 9 and 0 where they should hold the characters, so that an
unshifted digit key types a control character, or nothing for 0 (`keymapText_eq`). As a digit never
comes from any other key, the queue holds the first 63 characters typed if and only if none of them
is a digit (`typed_text_iff`).
-/

namespace ToiletOS

open KeyEvent Keyboard

/-! ### The US layout -/

/-- What is printed on a key. -/
inductive KeyCap
  | letter (c : Char)
  | symbol (own shifted : Char)
  | control (c : BitVec 8)
  deriving DecidableEq, Repr

/-- What a key types: letters in upper case when exactly one of shift and caps lock is active,
digits and punctuation marks shifted when shift is. -/
def KeyCap.typed (shift caps : Bool) : KeyCap → BitVec 8
  | letter c => ascii (if shift != caps then c.toUpper else c)
  | symbol own shifted => ascii (if shift then shifted else own)
  | control c => c

/-- The character keys of the US layout by make code. -/
def usLayout : List (BitVec 8 × KeyCap) := [
  -- escape
  (0x01, .control 0x1b),
  (0x02, .symbol '1' '!'), (0x03, .symbol '2' '@'), (0x04, .symbol '3' '#'),
  (0x05, .symbol '4' '$'), (0x06, .symbol '5' '%'), (0x07, .symbol '6' '^'),
  (0x08, .symbol '7' '&'), (0x09, .symbol '8' '*'), (0x0a, .symbol '9' '('),
  (0x0b, .symbol '0' ')'), (0x0c, .symbol '-' '_'), (0x0d, .symbol '=' '+'),
  -- backspace and tab
  (0x0e, .control 0x08), (0x0f, .control 0x09),
  (0x10, .letter 'q'), (0x11, .letter 'w'), (0x12, .letter 'e'), (0x13, .letter 'r'),
  (0x14, .letter 't'), (0x15, .letter 'y'), (0x16, .letter 'u'), (0x17, .letter 'i'),
  (0x18, .letter 'o'), (0x19, .letter 'p'), (0x1a, .symbol '[' '{'), (0x1b, .symbol ']' '}'),
  -- enter
  (0x1c, .control 0x0d),
  (0x1e, .letter 'a'), (0x1f, .letter 's'), (0x20, .letter 'd'), (0x21, .letter 'f'),
  (0x22, .letter 'g'), (0x23, .letter 'h'), (0x24, .letter 'j'), (0x25, .letter 'k'),
  (0x26, .letter 'l'), (0x27, .symbol ';' ':'), (0x28, .symbol '\x27' '\x22'),
  (0x29, .symbol '\x60' '~'), (0x2b, .symbol '\\' '|'),
  (0x2c, .letter 'z'), (0x2d, .letter 'x'), (0x2e, .letter 'c'), (0x2f, .letter 'v'),
  (0x30, .letter 'b'), (0x31, .letter 'n'), (0x32, .letter 'm'), (0x33, .symbol ',' '<'),
  (0x34, .symbol '.' '>'), (0x35, .symbol '/' '?'), (0x37, .symbol '*' '*'),
  -- the space bar
  (0x39, .control 0x20)]

/-- What a press or a repeat types: extended keys and keys without a character type nothing. -/
def ScanKey.typed (k : ScanKey) (shift caps : Bool) : List (BitVec 8) :=
  if k.extended then [] else ((usLayout.lookup k.code).map (KeyCap.typed shift caps)).toList

/-- The caps lock key. -/
def ScanKey.IsCapsLock (k : ScanKey) : Prop := k.extended = false ∧ k.code = 0x3a

instance (k : ScanKey) : Decidable k.IsCapsLock := inferInstanceAs (Decidable (_ ∧ _))

/-- A shift key is held. -/
def shiftHeld (held : Finset ScanKey) : Bool := decide (∃ k ∈ held, k.modifier = some .shift)

/-- What an event types. -/
def KeyEvent.typed (held : Finset ScanKey) (caps : Bool) : KeyEvent ScanKey → List (BitVec 8)
  | press k | typematic k => k.typed (shiftHeld held) caps
  | release _ => []

/-- Caps lock after an event. -/
def KeyEvent.capsAfter (caps : Bool) : KeyEvent ScanKey → Bool
  | press k | typematic k => if k.IsCapsLock then !caps else caps
  | release _ => caps

/-- The text of some events. -/
def typedFrom (held : Finset ScanKey) (caps : Bool) : List (KeyEvent ScanKey) → List (BitVec 8)
  | [] => []
  | e :: es => e.typed held caps ++ typedFrom (hold held e) (e.capsAfter caps) es

/-- The text of some events, from the start. -/
def typedText (es : List (KeyEvent ScanKey)) : List (BitVec 8) := typedFrom ∅ false es

/-- At most one key of each pair of modifier keys is held. -/
def OneOfEachPair (held : Finset ScanKey) : Prop :=
  ∀ k ∈ held, ∀ k' ∈ held, k.modifier ≠ none → k'.modifier = k.modifier → k' = k

instance (held : Finset ScanKey) : Decidable (OneOfEachPair held) :=
  inferInstanceAs (Decidable (∀ k ∈ held, ∀ k' ∈ held, k.modifier ≠ none →
    k'.modifier = k.modifier → k' = k))

/-! ### The characters of `keymap` -/

/-- The character of a digit. -/
def IsDigit (c : BitVec 8) : Prop := ascii '0' ≤ c ∧ c ≤ ascii '9'

instance (c : BitVec 8) : Decidable (IsDigit c) := inferInstanceAs (Decidable (_ ∧ _))

/-- What `keymap` has in place of a character: the number in place of a digit, and no character in
place of 0. -/
def asNumber (c : BitVec 8) : List (BitVec 8) := if IsDigit c then charText (c - ascii '0') else [c]

/-- `keymap` has the characters of the layout, but for the digits. -/
theorem keymapText_eq {c : BitVec 8} (h : c < 0x80) (shift caps : Bool) :
    keymapText false c shift caps =
      ((usLayout.lookup c).map (KeyCap.typed shift caps)).toList.flatMap asNumber := by
  revert c
  cases shift <;> cases caps
  all_goals decide

/-- The extended keys have no character. -/
theorem keymapText_extended {c : BitVec 8} (h : c < 0x80) (shift caps : Bool) :
    keymapText true c shift caps = [] := by
  revert c
  cases shift <;> cases caps
  all_goals decide

/-- No key has the character of a digit. -/
theorem not_isDigit_of_mem_asNumber {c x : BitVec 8} (h : x ∈ asNumber c) : ¬ IsDigit x := by
  unfold asNumber at h
  split at h
  · next h_digit =>
    have h_number : ∀ c : BitVec 8, IsDigit c → ¬ IsDigit (c - ascii '0') := by decide
    unfold charText at h
    split at h
    · cases h
    · rw [List.mem_singleton.mp h]
      exact h_number c h_digit
  · next h_other =>
    rw [List.mem_singleton.mp h]
    exact h_other

theorem flatMap_asNumber {text : List (BitVec 8)} (h : ∀ c ∈ text, ¬ IsDigit c) :
    text.flatMap asNumber = text := by
  induction text with
  | nil => rfl
  | cons c text ih =>
    rw [List.flatMap_cons, ih fun c' h_c' => h c' (List.mem_cons_of_mem c h_c'), asNumber,
      if_neg (h c List.mem_cons_self)]
    rfl

/-- The first characters are right exactly when there is no digit among them. -/
theorem take_asNumber_iff (text : List (BitVec 8)) (n : ℕ) :
    (text.flatMap asNumber).take n = text.take n ↔ ∀ c ∈ text.take n, ¬ IsDigit c := by
  constructor
  · intro h c h_c
    rw [← h] at h_c
    obtain ⟨x, -, h_x⟩ := List.mem_flatMap.mp (List.mem_of_mem_take h_c)
    exact not_isDigit_of_mem_asNumber h_x
  · intro h
    -- without digits in the part that counts, that part is unchanged
    have h_split : text.flatMap asNumber = text.take n ++ (text.drop n).flatMap asNumber := by
      conv_lhs => rw [← List.take_append_drop n text]
      rw [List.flatMap_append, flatMap_asNumber h]
    rcases Nat.le_total n text.length with h_long | h_short
    · rw [h_split, List.take_append_of_le_length (by rw [List.length_take]; omega), List.take_take,
        Nat.min_self]
    · rw [h_split, List.drop_eq_nil_of_le h_short, List.flatMap_nil, List.append_nil,
        List.take_take, Nat.min_self]

/-! ### Typing over whole events -/

namespace Typing

/-- The prefix. -/
theorem step_prefix (flag : Modifier → Bool) (caps : Bool) (text : List (BitVec 8)) :
    step ⟨⟨false, flag⟩, caps, text⟩ 0xe0 = ⟨⟨true, flag⟩, caps, text⟩ := rfl

/-- A make code. -/
theorem step_make (d : Decoder) (caps : Bool) (text : List (BitVec 8)) {c : BitVec 8}
    (h : c < 0x80) :
    step ⟨d, caps, text⟩ c =
      ⟨⟨false, mark (modifierOf d.ext) d.flag c true⟩,
        if d.ext = false ∧ c = 0x3a then !caps else caps,
        text ++ keymapText d.ext c (d.flag .shift) caps⟩ := by
  have h_caps : codeOf d.ext c = capsLockMake ↔ d.ext = false ∧ c = 0x3a := by
    revert c
    cases d.ext with
    | false => decide
    | true => decide
  rw [step, Decoder.step_make d h, if_pos h]
  simp only [h_caps]

/-- A break code. -/
theorem step_break (d : Decoder) (caps : Bool) (text : List (BitVec 8)) {c : BitVec 8}
    (h : c < 0x80) (h_ne : c ≠ 0x60) :
    step ⟨d, caps, text⟩ (c ||| 0x80) =
      ⟨⟨false, mark (modifierOf d.ext) d.flag c false⟩, caps, text⟩ := by
  have h_high : ∀ c : BitVec 8, ¬ c ||| 0x80 < 0x80 := by decide
  rw [step, Decoder.step_break d h h_ne, if_neg (h_high c), if_neg (codeOf_capsLock (h_high c))]

theorem run_bytes (flag : Modifier → Bool) (caps : Bool) (text : List (BitVec 8)) (k : ScanKey)
    (last : BitVec 8) :
    run ⟨⟨false, flag⟩, caps, text⟩ (k.bytes last)
      = step ⟨⟨k.extended, flag⟩, caps, text⟩ last := by
  rw [ScanKey.bytes]
  cases k.extended with
  | false => rfl
  | true => rfl

/-- The characters of a key. -/
theorem keymapText_key (k : ScanKey) (shift caps : Bool) :
    keymapText k.extended k.code shift caps = (k.typed shift caps).flatMap asNumber := by
  rw [ScanKey.typed]
  cases k.extended with
  | false => exact keymapText_eq k.code_lt shift caps
  | true => exact keymapText_extended k.code_lt shift caps

/-- The bytes of an event, while the flag of the shift keys is right. -/
theorem run_event {flag : Modifier → Bool} {held : Finset ScanKey}
    (h : Tracks ScanKey.modifier flag held) (caps : Bool) (text : List (BitVec 8))
    (e : KeyEvent ScanKey) :
    run ⟨⟨false, flag⟩, caps, text⟩ e.bytes =
      ⟨⟨false, e.markBy ScanKey.modifier flag⟩, e.capsAfter caps,
        text ++ (e.typed held caps).flatMap asNumber⟩ := by
  -- the flag is up exactly while a shift key is held
  have h_shift : flag .shift = shiftHeld held := by
    rw [Bool.eq_iff_iff, h .shift, shiftHeld, decide_eq_true_iff]
  cases e with
  | press k | typematic k =>
    rw [KeyEvent.bytes, ScanKey.makeBytes, run_bytes, step_make _ _ _ k.code_lt, keymapText_key,
      KeyEvent.typed, ← h_shift]
    rfl
  | release k =>
    rw [KeyEvent.bytes, ScanKey.breakBytes, run_bytes, step_break _ _ _ k.code_lt k.code_ne,
      KeyEvent.typed, List.flatMap_nil, List.append_nil]
    rfl

/-- **Over whole events**, the driver types the text with numbers in place of digits. -/
theorem run_keyBytes {flag : Modifier → Bool} {held : Finset ScanKey}
    (h : Tracks ScanKey.modifier flag held) (caps : Bool) (text : List (BitVec 8))
    {es : List (KeyEvent ScanKey)} (h_possible : Each Possible held es)
    (h_alone : Each (Alone ScanKey.modifier) held es) :
    (run ⟨⟨false, flag⟩, caps, text⟩ (keyBytes es)).text =
      text ++ (typedFrom held caps es).flatMap asNumber := by
  induction es generalizing flag held caps text with
  | nil => exact (List.append_nil text).symm
  | cons e es ih =>
    have h_bytes : keyBytes (e :: es) = e.bytes ++ keyBytes es := List.flatMap_cons
    have h_next := (tracks_step h h_possible.1).mpr h_alone.1
    rw [h_bytes, run, List.foldl_append, ← run, ← run, run_event h,
      ih h_next _ _ h_possible.2 h_alone.2, typedFrom, List.flatMap_append, List.append_assoc]

end Typing

/-! ### The queue -/

/-- With at most one key of each pair held, no key of a pair is released while another one is. -/
theorem each_alone {held : Finset ScanKey} {es : List (KeyEvent ScanKey)}
    (h : Each Possible held es)
    (h_one : ∀ pre, pre <+: es → OneOfEachPair (heldFrom held pre)) :
    Each (Alone ScanKey.modifier) held es := by
  induction es generalizing held with
  | nil => trivial
  | cons e es ih =>
    refine ⟨?_, ih h.2 fun pre h_pre => h_one (e :: pre) ((List.prefix_cons_inj e).mpr h_pre)⟩
    cases e with
    | press k | typematic k => trivial
    | release k =>
      -- another key of the group would be a second one of the pair
      intro k' h_k' h_ne
      by_cases h_none : k.modifier = none
      · exact Or.inl h_none
      · refine Or.inr fun h_same => h_ne ?_
        exact h_one [] List.nil_prefix k h.1 k' h_k' h_none h_same

/-- **Typed text.** For every sequence of key events in which at most one key of each pair of
modifier keys is held at a time: the handler always returns, and the queue, which nobody reads,
holds the first 63 characters typed if and only if none of them is a digit. -/
theorem typed_text_iff {T : Type} [DecidableEq T] (buf : Fin bufSize → BitVec 8)
    {es : List (KeyEvent ScanKey)} (h : Each Possible ∅ es)
    (h_one : ∀ pre, pre <+: es → OneOfEachPair (heldFrom ∅ pre)) :
    ∃ kb' : Keyboard T, (Keyboard.start buf).feed (keyBytes es) = .ok kb' ∧
      (kb'.text = (typedText es).take 63 ↔ ∀ c ∈ (typedText es).take 63, ¬ IsDigit c) := by
  obtain ⟨kb', h_feed, h_holds⟩ := feed_types (T := T) (start_holds buf) (keyBytes es)
  refine ⟨kb', h_feed, ?_⟩
  have h_text := h_holds.text
  rw [Typing.run_keyBytes tracks_empty false [] h (each_alone h h_one), List.nil_append] at h_text
  rw [h_text]
  exact take_asNumber_iff (typedText es) 63

/-- Left shift is held while `1` is typed and repeats, and caps lock is on for `a`. -/
theorem typed_text_shifted :
    let one : ScanKey := ⟨false, 0x02, by decide, by decide⟩
    let capsLock : ScanKey := ⟨false, 0x3a, by decide, by decide⟩
    let a : ScanKey := ⟨false, 0x1e, by decide, by decide⟩
    ∃ kb' : Keyboard Unit, (Keyboard.start fun _ => 0).feed (keyBytes
      [.press shiftL, .press one, .typematic one, .release shiftL, .press capsLock, .press a]) =
        .ok kb' ∧ kb'.text = [ascii '!', ascii '!', ascii 'A'] := by
  intro one capsLock a
  have h_one : ∀ pre ∈ List.inits
      [press shiftL, press one, typematic one, release shiftL, press capsLock, press a],
      OneOfEachPair (heldFrom ∅ pre) := by decide
  obtain ⟨kb', h_feed, h_text⟩ := typed_text_iff (T := Unit) (fun _ => 0) (by decide)
    fun pre h_pre => h_one pre ((List.mem_inits _ _).mpr h_pre)
  exact ⟨kb', h_feed, h_text.mpr (by decide)⟩

/-- The key `1` types the byte 1. -/
theorem typed_text_digit :
    let one : ScanKey := ⟨false, 0x02, by decide, by decide⟩
    typedText [.press one] = [ascii '1'] ∧
    ∃ kb' : Keyboard Unit, (Keyboard.start fun _ => 0).feed (keyBytes [.press one]) = .ok kb' ∧
      kb'.text = [1] := by
  intro one
  obtain ⟨kb', h_feed, h_holds⟩ := feed_types (T := Unit) (start_holds fun _ => 0)
    (keyBytes [.press one])
  exact ⟨by decide, kb', h_feed, h_holds.text.trans (by decide)⟩

end ToiletOS
