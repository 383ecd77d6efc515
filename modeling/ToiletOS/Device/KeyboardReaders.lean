import ToiletOS.Device.KeyboardText
import ToiletOS.Device.IoqueueFifo
import ToiletOS.Console.TextBounds

/-!
# The keyboard and its readers

`init_keyboard_handler` puts characters into `keyboard_buffer`, and threads take them out with
`queue_getchar`, asleep in the queue while it is empty. `keyboardSys` has one interrupt for each
byte that the keyboard sends and any number of readers, interleaved in any way: what the queue does
runs with interrupts disabled. The lock of the queue is a structure of its own here, as in
`Device/Ioqueue.lean`.

The handler puts nobody to sleep, and what it stores is what was typed with some characters left out
(`keyboard_safe`). Its own code returns for every byte, and so does what it calls on the card, but
for a backspace at the first cell: that faults, and there the machine has left the runs of
`keyboardSys`, whose console is a list of characters. A character is lost, for the readers and for
the screen, when it comes while the queue is full, and in no other way (`typed_delivered_iff`). So
the readers get everything as long as they keep up.
-/

namespace ToiletOS

open Keyboard

/-! ### What is typed -/

namespace Typing

/-- Nothing is held and nothing has been typed. -/
def start : Typing := ⟨⟨false, fun _ => false⟩, false, []⟩

/-- The characters of a byte. -/
def chars (s : Typing) (byte : BitVec 8) : List (BitVec 8) :=
  if byte < 0x80 then keymapText s.decoder.ext byte (s.decoder.flag .shift) s.caps else []

/-- What a byte shows on the screen. -/
def echo (s : Typing) (byte : BitVec 8) : List (BitVec 8) :=
  if byte < 0x80 ∧ Unknown (codeOf s.decoder.ext byte) then "Unkown key.\n".toList.map ascii
  else s.chars byte

/-- What some bytes show. -/
def shown (s : Typing) : List (BitVec 8) → List (BitVec 8)
  | [] => []
  | byte :: bytes => s.echo byte ++ (s.step byte).shown bytes

theorem step_text (s : Typing) (byte : BitVec 8) : (s.step byte).text = s.text ++ s.chars byte := by
  unfold step chars
  by_cases h : byte < 0x80
  · simp only [if_pos h]
  · simp only [if_neg h, List.append_nil]

theorem run_snoc (s : Typing) (bytes : List (BitVec 8)) (byte : BitVec 8) :
    s.run (bytes ++ [byte]) = (s.run bytes).step byte := List.foldl_append

theorem shown_snoc (s : Typing) (bytes : List (BitVec 8)) (byte : BitVec 8) :
    s.shown (bytes ++ [byte]) = s.shown bytes ++ (s.run bytes).echo byte := by
  induction bytes generalizing s with
  | nil => exact List.append_nil _
  | cons b bytes ih =>
    change s.echo b ++ (s.step b).shown (bytes ++ [byte]) = _
    rw [ih, ← List.append_assoc]
    rfl

end Typing

/-! ### The handler, whoever waits -/

namespace Keyboard

variable {T : Type} [DecidableEq T] {kb kb' : Keyboard T} {s : Typing} {o : Option T} {ws : List T}

/-- The queue is full. -/
abbrev Full (kb : Keyboard T) : Prop := kb.keyboardBuffer.queue.IsQueueFull

/-- The statics are those of the bytes so far, and the queue is in order. -/
structure Follows (kb : Keyboard T) (s : Typing) (o : Option T) (ws : List T) : Prop where
  represents : kb.Represents s.decoder
  caps : kb.capsLockStatus = if s.caps then 1 else 0
  queue : QueueInv kb.keyboardBuffer o ws

/-- What one byte does to the queue and to the screen, where `chars` are its characters and `echo`
is what it shows. -/
structure Takes (kb kb' : Keyboard T) (chars echo : List (BitVec 8)) : Prop where
  stored : kb'.keyboardBuffer.stored = kb.keyboardBuffer.stored ++ if kb.Full then [] else chars
  console : kb'.console = kb.console ++ if kb.Full ∧ chars ≠ [] then [] else echo
  returned : kb'.keyboardBuffer.returned = kb.keyboardBuffer.returned
  pc : kb'.keyboardBuffer.pc = kb.keyboardBuffer.pc
  awake : ∀ t, kb.keyboardBuffer.status t ≠ .blocked → kb'.keyboardBuffer.status t ≠ .blocked

omit [DecidableEq T] in
/-- A byte without characters that leaves the queue. -/
theorem Takes.of_buffer (kb kb' : Keyboard T) (h : kb'.keyboardBuffer = kb.keyboardBuffer)
    {echo : List (BitVec 8)} (h_console : kb'.console = kb.console ++ echo) :
    kb.Takes kb' [] echo where
  stored := by rw [h, ite_self, List.append_nil]
  console := by rw [h_console, if_neg (fun h => h.2 rfl)]
  returned := by rw [h]
  pc := by rw [h]
  awake := by rw [h]; exact fun _ h => h

omit [DecidableEq T] in
/-- A byte whose character finds no room. -/
theorem Takes.of_full (h_full : kb.Full) (h : kb'.keyboardBuffer = kb.keyboardBuffer)
    (h_console : kb'.console = kb.console) {chars : List (BitVec 8)} (h_chars : chars ≠ [])
    (echo : List (BitVec 8)) : kb.Takes kb' chars echo where
  stored := by rw [h, if_pos h_full, List.append_nil]
  console := by rw [h_console, if_pos ⟨h_full, h_chars⟩, List.append_nil]
  returned := by rw [h]
  pc := by rw [h]
  awake := by rw [h]; exact fun _ h => h

/-- A character is put into a queue that is not full, and the reader that waits is woken. -/
theorem queuePutchar_takes (hq : QueueInv kb.keyboardBuffer o ws) (h_full : ¬ kb.Full)
    (c : BitVec 8) :
    ∃ kb', (kb.putChar c).queuePutchar c = .ok kb' ∧ kb'.capsLockStatus = kb.capsLockStatus ∧
      QueueInv kb'.keyboardBuffer o ws ∧ kb.Takes kb' [c] [c] := by
  obtain ⟨h_ok, h_inv⟩ := hq.finish_eq (c := .putchar c) h_full
  refine ⟨{ kb.putChar c with
    keyboardBuffer := (kb.keyboardBuffer.move (.putchar c)).wake .consumer }, ?_, rfl, h_inv, ?_⟩
  · have h_finish : (kb.putChar c).keyboardBuffer.finish (.putchar c) = _ := h_ok
    unfold queuePutchar
    rw [h_finish]
    rfl
  · refine ⟨?_, ?_, ?_, ?_, ?_⟩
    · rw [if_neg h_full]
      unfold QueueState.wake
      split <;> rfl
    · rw [if_neg fun h => h_full h.1]
      rfl
    · unfold QueueState.wake
      split <;> rfl
    · unfold QueueState.wake
      split <;> rfl
    · -- only the reader changes its status, and it becomes ready
      intro t h_t
      unfold QueueState.wake
      split
      · exact h_t
      · next u _ =>
        change Function.update kb.keyboardBuffer.status u .ready t ≠ .blocked
        by_cases h_u : t = u
        · rw [h_u, Function.update_self]
          decide
        · rwa [Function.update_of_ne h_u]

omit [DecidableEq T] in
theorem modifierCode_console (kb : Keyboard T) (code : BitVec 16) :
    (kb.modifierCode code).console = kb.console := by
  unfold modifierCode
  split
  · rfl
  · split
    · rfl
    · split
      · rfl
      · split <;> rfl

omit [DecidableEq T] in
theorem breakCode_console (kb : Keyboard T) (code : BitVec 16) :
    (kb.breakCode code).console = kb.console := by
  unfold breakCode
  split
  · rfl
  · split
    · rfl
    · split <;> rfl

/-- A pressed key. -/
theorem makeCode_takes {extended : Bool} {c : BitVec 8} (h : c < 0x80) {shift caps : Bool}
    (h_shift : kb.shiftStatus = if shift then 1 else 0)
    (h_caps : kb.capsLockStatus = if caps then 1 else 0) (hq : QueueInv kb.keyboardBuffer o ws) :
    ∃ kb', kb.makeCode (codeOf extended c) = .ok kb' ∧
      kb'.capsLockStatus =
        (if (if codeOf extended c = capsLockMake then !caps else caps) then 1 else 0) ∧
      QueueInv kb'.keyboardBuffer o ws ∧
      kb.Takes kb' (keymapText extended c shift caps)
        (if Unknown (codeOf extended c) then "Unkown key.\n".toList.map ascii
          else keymapText extended c shift caps) := by
  by_cases h_unknown : Unknown (codeOf extended c)
  · -- an unknown key shows a message
    have h_ne : codeOf extended c ≠ capsLockMake := by
      rintro h_eq
      rw [h_eq] at h_unknown
      revert h_unknown
      decide
    have h_none : keymapText extended c shift caps = [] := by
      rw [keymapText, if_pos h_unknown]
    refine ⟨_, makeCode_unknown kb h_unknown, ?_, hq, ?_⟩
    · rw [if_neg h_ne]
      exact h_caps
    · rw [h_none, if_pos h_unknown]
      have h_console : (kb.putStr "Unkown key.\n").console =
        kb.console ++ "Unkown key.\n".toList.map ascii := rfl
      exact .of_buffer kb (kb.putStr "Unkown key.\n") rfl h_console
  -- a known key has a row of the table, and shift and caps lock choose the column
  obtain ⟨row, h_row⟩ := keymap_row h h_unknown
  have h_char := keymapAt_row h_row (column (codeOf extended c) shift caps)
  have h_keymap : keymapText extended c shift caps =
      charText (charAt row (column (codeOf extended c) shift caps)) := by
    rw [keymapText, if_neg h_unknown, h_row]
  rw [← shift_eq h_shift h_caps] at h_char
  have h_make := makeCode_known kb h_unknown h_char
  rw [if_neg h_unknown]
  generalize charAt row (column (codeOf extended c) shift caps) = curChar at h_make h_keymap
  by_cases h_put : curChar ≠ 0 ∧ ¬ kb.Full
  · -- there is a character, and room for it
    obtain ⟨h_zero, h_full⟩ := h_put
    have h_ne : codeOf extended c ≠ capsLockMake := by
      intro h_eq
      rw [keymapText_capsLock shift caps h_eq, charText, if_neg h_zero] at h_keymap
      cases h_keymap
    rw [if_pos ⟨h_zero, h_full⟩] at h_make
    obtain ⟨kb', h_ok, h_lock, h_inv, h_takes⟩ := queuePutchar_takes hq h_full curChar
    rw [h_keymap, charText, if_neg h_zero, if_neg h_ne]
    exact ⟨kb', h_make.trans h_ok, h_lock.trans h_caps, h_inv, h_takes⟩
  · -- nothing is put, and the code is looked up among the modifiers
    rw [if_neg h_put] at h_make
    have h_buffer := modifierCode_buffer kb (codeOf extended c)
    refine ⟨_, h_make, ?_, by rwa [h_buffer], ?_⟩
    · rw [modifierCode_caps, h_caps]
      split <;> cases caps <;> rfl
    · have h_console := modifierCode_console kb (codeOf extended c)
      rw [h_keymap]
      by_cases h_zero : curChar = 0
      · rw [charText, if_pos h_zero]
        exact .of_buffer kb _ h_buffer (h_console.trans (List.append_nil _).symm)
      · have h_full : kb.Full := by_contra fun h_not => h_put ⟨h_zero, h_not⟩
        rw [charText, if_neg h_zero]
        exact .of_full h_full h_buffer h_console (List.cons_ne_nil curChar []) _

/-- **One byte.** The handler returns whoever waits for the queue. -/
theorem initKeyboardHandler_takes (h : kb.Follows s o ws) (byte : BitVec 8) :
    ∃ kb', kb.initKeyboardHandler byte = .ok kb' ∧ kb'.Follows (s.step byte) o ws ∧
      kb.Takes kb' (s.chars byte) (s.echo byte) := by
  suffices h_parts : ∃ kb', kb.initKeyboardHandler byte = .ok kb' ∧
      kb'.capsLockStatus = (if (s.step byte).caps then 1 else 0) ∧
      QueueInv kb'.keyboardBuffer o ws ∧ kb.Takes kb' (s.chars byte) (s.echo byte) by
    obtain ⟨kb', h_ok, h_caps, h_queue, h_takes⟩ := h_parts
    exact ⟨kb', h_ok, ⟨initKeyboardHandler_represents h.represents h_ok, h_caps, h_queue⟩, h_takes⟩
  unfold Typing.step Typing.echo Typing.chars
  by_cases h_first : byte = 0xe0
  · subst h_first
    have h_ge : ¬ (0xe0 : BitVec 8) < 0x80 := by decide
    simp only [h_ge, false_and, if_false]
    refine ⟨_, initKeyboardHandler_prefix kb, ?_, h.queue, ?_⟩
    · rw [if_neg (codeOf_capsLock h_ge)]
      exact h.caps
    · have h_console : kb.console = kb.console ++ [] := (List.append_nil _).symm
      exact .of_buffer kb { kb with extScanCode := 1 } rfl h_console
  rw [initKeyboardHandler_eq h.represents.ext h_first]
  by_cases h_make : byte < 0x80
  · simp only [h_make, true_and, if_true]
    obtain ⟨kb', h_ok, h_caps, h_queue, h_takes⟩ :=
      @makeCode_takes T _ { kb with extScanCode := 0 } _ _ s.decoder.ext _ h_make _ _
        (h.represents.flag .shift) h.caps h.queue
    exact ⟨kb', h_ok, h_caps, h_queue, h_takes.1, h_takes.2, h_takes.3, h_takes.4, h_takes.5⟩
  · simp only [h_make, false_and, if_false]
    rw [if_neg (codeOf_capsLock h_make)]
    obtain ⟨h_caps, h_buffer⟩ := breakCode_frame { kb with extScanCode := 0 }
      (codeOf s.decoder.ext (byte &&& 0x7f))
    refine ⟨_, rfl, h_caps.trans h.caps, by rw [h_buffer]; exact h.queue, ?_⟩
    have h_takes := Takes.of_buffer _ _ h_buffer
      ((breakCode_console _ _).trans (List.append_nil _).symm)
    exact ⟨h_takes.1, h_takes.2, h_takes.3, h_takes.4, h_takes.5⟩

end Keyboard

/-! ### The readers -/

section

variable {T : Type} [DecidableEq T] {st : QueueState T} {o : Option T} {ws : List T} {t : T}

/-- The threads that are in a call read. -/
def ReadersOnly (st : QueueState T) : Prop :=
  ∀ t c, st.pc t = .lock c ∨ st.pc t = .wait c → c = .getchar

theorem ReadersOnly.goto (h : ReadersOnly st) (t : T) {p : QueuePc}
    (hp : ∀ c, p = .lock c ∨ p = .wait c → c = .getchar) : ReadersOnly (st.goto t p) := by
  intro u c h_u
  by_cases h_eq : u = t
  · subst h_eq
    change Function.update st.pc u p u = _ ∨ Function.update st.pc u p u = _ at h_u
    rw [Function.update_self] at h_u
    exact hp c h_u
  · change Function.update st.pc t p u = _ ∨ Function.update st.pc t p u = _ at h_u
    rw [Function.update_of_ne h_eq] at h_u
    exact h u c h_u

/-- A reader stores nothing: it takes a character, or sleeps. -/
theorem QueueInv.getchar_step (hI : QueueInv st o ws) (h : ReadersOnly st)
    (h_idle : st.pc t = .idle) :
    ∃ st' o' ws', st.enter t .getchar = .ok st' ∧ QueueInv st' o' ws' ∧
      st'.stored = st.stored ∧ ReadersOnly st' := by
  have h_awake := hI.idle t h_idle
  by_cases h_wait : QueueCall.getchar.MustWait st.queue
  · cases o with
    | none =>
      exact ⟨_, _, _, hI.enter_free h_wait, hI.sleepSlot h_awake .getchar, rfl,
        h.goto t (by rintro c (h | h) <;> cases h; rfl)⟩
    | some u =>
      exact ⟨_, _, _, hI.enter_held h_idle h_wait, hI.sleepLock h_awake (by simp [h_idle]) .getchar,
        rfl, h.goto t (by rintro c (h | h) <;> cases h; rfl)⟩
  · refine ⟨_, _, _, hI.enter_go h_idle h_wait, (hI.finish_eq h_wait).2, ?_, ?_⟩
    · unfold QueueState.wake
      split <;> rfl
    · intro u c h_u
      unfold QueueState.wake at h_u
      split at h_u <;> exact h u c h_u

/-- A reader that slept goes on. -/
theorem QueueInv.resume_step (hI : QueueInv st o ws) (h : ReadersOnly st)
    (h_busy : st.pc t ≠ .idle) (h_awake : st.status t ≠ .blocked) :
    ∃ st' o' ws', st.resume t = .ok st' ∧ QueueInv st' o' ws' ∧
      st'.stored = st.stored ∧ ReadersOnly st' := by
  cases h_pc : st.pc t with
  | idle => exact absurd h_pc h_busy
  | lock c =>
    obtain rfl := h t c (Or.inl h_pc)
    cases o with
    | none =>
      exact ⟨_, _, _, hI.resume_lock_free h_pc, hI.sleepSlot h_awake .getchar, rfl,
        h.goto t (by rintro c (h | h) <;> cases h; rfl)⟩
    | some u =>
      exact ⟨_, _, _, hI.resume_lock_held h_pc h_awake,
        hI.sleepLock h_awake (by simp [h_pc]) .getchar, rfl,
        h.goto t (by rintro c (h | h) <;> cases h; rfl)⟩
  | wait c =>
    -- the lock is released, and the loop tests the queue again
    obtain rfl := h t c (Or.inr h_pc)
    obtain ⟨status, h_ok, -, h_inv⟩ := hI.release h_pc h_awake
    obtain ⟨st', o', ws', h_enter, h_inv', h_stored, h_readers⟩ :=
      h_inv.getchar_step (t := t) (h.goto t (by rintro c (h | h) <;> cases h))
        (Function.update_self ..)
    refine ⟨st', o', ws', ?_, h_inv', h_stored, h_readers⟩
    rw [QueueState.resume, h_pc]
    dsimp only
    rw [h_ok]
    exact h_enter

end

/-! ### The system -/

/-- The driver, and the bytes that the keyboard has sent (ghost). -/
structure KeyboardState (T : Type) where
  kb : Keyboard T
  received : List (BitVec 8)

/-- What can happen next. -/
inductive KeyboardAct (T : Type)
  | interrupt (byte : BitVec 8)
  | getchar (t : T)
  | resume (t : T)

namespace KeyboardState

variable {T : Type}

/-- A call of the queue has come to its end or to sleep. -/
def withQueue (r : KeyboardState T) :
    Except Assertion (QueueState T) → Except KeyFault (KeyboardState T)
  | .error a => .error (.assertion a)
  | .ok queue => .ok { r with kb := { r.kb with keyboardBuffer := queue } }

/-- The bytes so far, typed. -/
def typing (r : KeyboardState T) : Typing := Typing.start.run r.received

theorem typing_snoc {r r' : KeyboardState T} {byte : BitVec 8}
    (h : r'.received = r.received ++ [byte]) : r'.typing = r.typing.step byte := by
  unfold typing
  rw [h, Typing.run_snoc]

theorem typing_same {r r' : KeyboardState T} (h : r'.received = r.received) :
    r'.typing = r.typing := congrArg Typing.start.run h

/-- What the readers have got, and what is left for them. -/
def delivered (r : KeyboardState T) : List (BitVec 8) := r.kb.keyboardBuffer.returned ++ r.kb.text

end KeyboardState

/-- The keyboard and any number of readers. -/
def keyboardSys (T : Type) [DecidableEq T] :
    Machine (KeyboardState T) (KeyboardAct T) KeyFault where
  init r := ∃ buf, r = ⟨.start buf, []⟩
  enabled r
    | .interrupt _ => True
    | .getchar t => r.kb.keyboardBuffer.pc t = .idle
    | .resume t => r.kb.keyboardBuffer.pc t ≠ .idle ∧ r.kb.keyboardBuffer.status t ≠ .blocked
  exec r
    | .interrupt byte => do
      let kb ← r.kb.initKeyboardHandler byte
      return ⟨kb, r.received ++ [byte]⟩
    | .getchar t => r.withQueue (r.kb.keyboardBuffer.queueGetchar t)
    | .resume t => r.withQueue (r.kb.keyboardBuffer.resume t)

variable {T : Type} [DecidableEq T]

instance (r : KeyboardState T) : ∀ a, Decidable ((keyboardSys T).enabled r a)
  | .interrupt _ => isTrue trivial
  | .getchar t => inferInstanceAs (Decidable (r.kb.keyboardBuffer.pc t = .idle))
  | .resume t => inferInstanceAs
    (Decidable (r.kb.keyboardBuffer.pc t ≠ .idle ∧ r.kb.keyboardBuffer.status t ≠ .blocked))

/-- The invariant. -/
def KeyboardInv (r : KeyboardState T) : Prop :=
  ∃ o ws, r.kb.Follows r.typing o ws ∧ ReadersOnly r.kb.keyboardBuffer

/-- What a step does to the characters. -/
def StepEffect (r r' : KeyboardState T) : KeyboardAct T → Prop
  | .interrupt byte => r'.received = r.received ++ [byte] ∧
      r.kb.Takes r'.kb (r.typing.chars byte) (r.typing.echo byte)
  | .getchar _ | .resume _ => r'.received = r.received ∧ r'.kb.console = r.kb.console ∧
      r'.kb.keyboardBuffer.stored = r.kb.keyboardBuffer.stored

omit [DecidableEq T] in
theorem KeyboardInv.delivered {r : KeyboardState T} (hI : KeyboardInv r) :
    r.delivered = r.kb.keyboardBuffer.stored := by
  obtain ⟨o, ws, h_follows, -⟩ := hI
  exact h_follows.queue.fifo.symm

omit [DecidableEq T] in
/-- A reader leaves the statics of the driver. -/
theorem KeyboardInv.withQueue {r : KeyboardState T} {o : Option T} {ws : List T}
    (h : r.kb.Follows r.typing o ws) {res : Except Assertion (QueueState T)}
    (h_res : ∃ st o' ws', res = .ok st ∧ QueueInv st o' ws' ∧
      st.stored = r.kb.keyboardBuffer.stored ∧ ReadersOnly st) :
    ∃ r', r.withQueue res = .ok r' ∧ KeyboardInv r' ∧ r'.received = r.received ∧
      r'.kb.console = r.kb.console ∧
        r'.kb.keyboardBuffer.stored = r.kb.keyboardBuffer.stored := by
  obtain ⟨st, o', ws', rfl, h_inv, h_stored, h_readers⟩ := h_res
  refine ⟨_, rfl, ⟨o', ws', ⟨⟨h.represents.ext, fun g => ?_⟩, h.caps, h_inv⟩, h_readers⟩,
    rfl, rfl, h_stored⟩
  exact Eq.trans (by cases g <;> rfl) (h.represents.flag g)

/-- **Step lemma.** Every step runs through. -/
theorem KeyboardInv.step {r : KeyboardState T} (hI : KeyboardInv r) {a : KeyboardAct T}
    (h_en : (keyboardSys T).enabled r a) :
    ∃ r', (keyboardSys T).exec r a = .ok r' ∧ KeyboardInv r' ∧ StepEffect r r' a := by
  obtain ⟨o, ws, h, h_readers⟩ := hI
  cases a with
  | interrupt byte =>
    obtain ⟨kb', h_ok, h_follows, h_takes⟩ := initKeyboardHandler_takes h byte
    refine ⟨⟨kb', r.received ++ [byte]⟩, ?_, ⟨o, ws, ?_, ?_⟩, rfl, h_takes⟩
    · change (r.kb.initKeyboardHandler byte >>= _) = _
      rw [h_ok]
      rfl
    · rw [KeyboardState.typing_snoc rfl]
      exact h_follows
    · unfold ReadersOnly
      rw [h_takes.pc]
      exact h_readers
  | getchar t => exact KeyboardInv.withQueue h (h.queue.getchar_step h_readers h_en)
  | resume t => exact KeyboardInv.withQueue h (h.queue.resume_step h_readers h_en.1 h_en.2)

/-- **Run lemma.** -/
theorem keyboardInv_of_init {r : KeyboardState T} (h : (keyboardSys T).init r) : KeyboardInv r := by
  obtain ⟨buf, rfl⟩ := h
  have h_holds := start_holds (T := T) buf
  refine ⟨none, [], ⟨h_holds.represents, h_holds.caps, .initial buf⟩, ?_⟩
  rintro t c (h | h) <;> cases h

/-- What everybody sees is what was typed: the readers get all characters, and the screen shows
them. -/
structure AllDelivered (r : KeyboardState T) : Prop where
  delivered : r.delivered = r.typing.text
  shown : r.kb.console = Typing.start.shown r.received

theorem allDelivered_of_init {r : KeyboardState T} (h : (keyboardSys T).init r) :
    AllDelivered r := by
  obtain ⟨buf, rfl⟩ := h
  exact ⟨(start_holds (T := T) buf).text, rfl⟩

/-- A byte with a character does not come while the queue is full. -/
def HasRoom (r : KeyboardState T) : KeyboardAct T → Prop
  | .interrupt byte => r.kb.Full → r.typing.chars byte = []
  | .getchar _ | .resume _ => True

omit [DecidableEq T] in
/-- A character that finds room is delivered. -/
theorem AllDelivered.step {r r' : KeyboardState T} {a : KeyboardAct T} (h : AllDelivered r)
    (hI : KeyboardInv r) (hI' : KeyboardInv r') (h_effect : StepEffect r r' a)
    (h_room : HasRoom r a) : AllDelivered r' := by
  have h_stored := hI.delivered
  rw [h.delivered] at h_stored
  cases a with
  | interrupt byte =>
    obtain ⟨h_received, h_takes⟩ := h_effect
    constructor
    · rw [hI'.delivered, h_takes.stored, ← h_stored, KeyboardState.typing_snoc h_received,
        Typing.step_text]
      by_cases h_full : r.kb.Full
      · rw [if_pos h_full]
        exact congrArg _ (h_room h_full).symm
      · rw [if_neg h_full]
    · rw [h_takes.console, if_neg fun h => h.2 (h_room h.1), h.shown, h_received,
        Typing.shown_snoc]
      rfl
  | getchar t | resume t =>
    obtain ⟨h_received, h_console, h_same⟩ := h_effect
    constructor
    · rw [hI'.delivered, h_same, ← h_stored, KeyboardState.typing_same h_received]
    · rw [h_console, h.shown, h_received]

omit [DecidableEq T] in
/-- A character that finds none is lost. -/
theorem AllDelivered.room {r r' : KeyboardState T} {a : KeyboardAct T} (h : AllDelivered r)
    (hI : KeyboardInv r) (hI' : KeyboardInv r') (h_effect : StepEffect r r' a)
    (h' : AllDelivered r') : HasRoom r a := by
  cases a with
  | interrupt byte =>
    intro h_full
    obtain ⟨h_received, h_takes⟩ := h_effect
    have h_text := h'.delivered
    rw [hI'.delivered, h_takes.stored, if_pos h_full, List.append_nil, ← hI.delivered, h.delivered,
      KeyboardState.typing_snoc h_received, Typing.step_text] at h_text
    exact List.self_eq_append_right.mp h_text
  | getchar t | resume t => trivial

/-- **Delivery.** Along a run of interrupts and readers, everything typed so far has been delivered
or is in the queue, and has been shown, in every state if and only if no character ever came while
the queue was full. -/
theorem typed_delivered_iff {r r' : KeyboardState T} {tr : List (KeyboardAct T × KeyboardState T)}
    (h_init : (keyboardSys T).init r) (h : (keyboardSys T).Run r tr r') :
    (∀ x ∈ tr, AllDelivered x.2) ↔ ((keyboardSys T).guard HasRoom).Run r tr r' := by
  -- a step of the machine is the step of the lemma
  have h_steps : ∀ s a s', KeyboardInv s → (keyboardSys T).Step s a s' →
      KeyboardInv s' ∧ StepEffect s s' a := by
    rintro s a s' hI ⟨h_en, h_exec⟩
    obtain ⟨s₁, h_ok, hI', h_effect⟩ := hI.step h_en
    obtain rfl : s₁ = s' := Except.ok.inj (h_ok.symm.trans h_exec)
    exact ⟨hI', h_effect⟩
  refine Machine.safe_iff_guarded (I := fun s => KeyboardInv s ∧ AllDelivered s)
    (fun s hs => hs.2) ?_ ?_ ⟨keyboardInv_of_init h_init, allDelivered_of_init h_init⟩ h
  · rintro s a s' ⟨hI, h_all⟩ h_step h_room
    obtain ⟨hI', h_effect⟩ := h_steps s a s' hI h_step
    exact ⟨hI', h_all.step hI hI' h_effect h_room⟩
  · rintro s a s' ⟨hI, h_all⟩ h_step h_all'
    obtain ⟨hI', h_effect⟩ := h_steps s a s' hI h_step
    exact h_all.room hI hI' h_effect h_all'

instance (r : KeyboardState T) : ∀ a, Decidable (HasRoom r a)
  | .interrupt byte => inferInstanceAs (Decidable (r.kb.Full → r.typing.chars byte = []))
  | .getchar _ | .resume _ => isTrue trivial

/-- A reader sleeps, a key is pressed and released, and the reader gets its character. -/
theorem typed_delivered_one : ∃ (r r' : KeyboardState Unit)
    (tr : List (KeyboardAct Unit × KeyboardState Unit)), (keyboardSys Unit).Run r tr r' ∧
      r'.kb.keyboardBuffer.returned = [ascii 'a'] ∧ ∀ x ∈ tr, AllDelivered x.2 := by
  obtain ⟨tr, h, -⟩ := Machine.Run.of_play (M := (keyboardSys Unit).guard HasRoom)
    (s := ⟨.start fun _ => 0, []⟩)
    [.getchar (), .interrupt 0x1e, .interrupt 0x9e, .resume ()] rfl
  exact ⟨_, _, tr, h.of_guard, rfl, (typed_delivered_iff ⟨_, rfl⟩ h.of_guard).mpr h⟩

/-! ### What the handler promises -/

/-- What the calls of one interrupt do to the card: `put_char` of the character, or `put_str` of the
message for an unknown key. -/
def Keyboard.draws (kb kb' : Keyboard T) (card : Vga) : Option Vga :=
  match kb'.console.drop kb.console.length with
  | [] => some card
  | [curChar] => ToiletOS.putChar curChar card
  | message => ToiletOS.putStr message card

/-- No `ASSERT` is about to fail and no access to `keymap` is outside, the handler puts nobody to
sleep, and what was delivered and shown is what was typed with some characters left out. The handler
returns for every byte, and on the card it does unless it puts a backspace at the first cell. -/
structure KeyboardSafe (r : KeyboardState T) : Prop where
  noFault : ∀ a f, ¬ (keyboardSys T).Faults r a f
  returns : ∀ byte, ∃ kb', r.kb.initKeyboardHandler byte = .ok kb' ∧
    ∀ card : Vga, card.hardwareCursor < 2000 →
      ((r.kb.draws kb' card).isSome ↔
        ¬ (kb'.console = r.kb.console ++ [0x08#8] ∧ card.hardwareCursor = 0))
  awake : ∀ byte r', (keyboardSys T).Step r (.interrupt byte) r' →
    ∀ t, r.kb.keyboardBuffer.status t ≠ .blocked → r'.kb.keyboardBuffer.status t ≠ .blocked
  delivered : r.delivered.Sublist r.typing.text
  shown : r.kb.console.Sublist (Typing.start.shown r.received)
  room : r.kb.text.length ≤ 63

theorem Typing.chars_length (s : Typing) (byte : BitVec 8) : (s.chars byte).length ≤ 1 := by
  unfold Typing.chars keymapText charText
  split_ifs
  · exact Nat.zero_le 1
  · split
    · exact Nat.zero_le 1
    · split_ifs
      · exact Nat.zero_le 1
      · exact le_rfl
  · exact Nat.zero_le 1

/-- Both the message and a character fit the buffer of `printk`. -/
theorem Typing.echo_length (s : Typing) (byte : BitVec 8) : (s.echo byte).length < 100 := by
  unfold Typing.echo
  split_ifs
  · decide
  · exact (s.chars_length byte).trans_lt (by decide)

omit [DecidableEq T] in
/-- What is put on the card decides whether the calls return. -/
theorem Keyboard.draws_isSome_iff {kb kb' : Keyboard T} {added : List (BitVec 8)}
    (h : kb'.console = kb.console ++ added) (h_fits : added.length < 100) {card : Vga}
    (h_cursor : card.hardwareCursor < 2000) :
    (kb.draws kb' card).isSome ↔
      ¬ (kb'.console = kb.console ++ [0x08#8] ∧ card.hardwareCursor = 0) := by
  rw [Keyboard.draws, h, List.drop_left, List.append_right_inj]
  match added, h_fits with
  | [], _ => simp
  | [curChar], _ =>
    change (aputChar curChar card).isSome ↔ _
    rw [aputChar_isSome_iff h_cursor, CanErase, List.singleton_inj, not_and]
  | _ :: _ :: _, h_fits =>
    dsimp only
    rw [putStr_eq h_fits]
    simp

omit [DecidableEq T] in
/-- A step adds to what was delivered and shown a part of what was typed. -/
theorem KeyboardInv.sublists {r r' : KeyboardState T} {a : KeyboardAct T} (hI : KeyboardInv r)
    (hI' : KeyboardInv r') (h_effect : StepEffect r r' a)
    (h_text : r.delivered.Sublist r.typing.text)
    (h_shown : r.kb.console.Sublist (Typing.start.shown r.received)) :
    r'.delivered.Sublist r'.typing.text ∧
      r'.kb.console.Sublist (Typing.start.shown r'.received) := by
  rw [hI.delivered] at h_text
  rw [hI'.delivered]
  cases a with
  | interrupt byte =>
    obtain ⟨h_received, h_takes⟩ := h_effect
    rw [h_takes.stored, h_takes.console, KeyboardState.typing_snoc h_received, Typing.step_text,
      h_received, Typing.shown_snoc]
    constructor
    · refine h_text.append ?_
      split
      · exact List.nil_sublist _
      · exact List.Sublist.refl _
    · refine h_shown.append ?_
      split
      · exact List.nil_sublist _
      · exact List.Sublist.refl _
  | getchar t | resume t =>
    obtain ⟨h_received, h_console, h_same⟩ := h_effect
    rw [h_same, h_console, KeyboardState.typing_same h_received, h_received]
    exact ⟨h_text, h_shown⟩

/-- **Safety.** -/
theorem keyboard_safe (T : Type) [DecidableEq T] {r : KeyboardState T}
    (h : (keyboardSys T).Reachable r) : KeyboardSafe r := by
  have h_inv : KeyboardInv r ∧ r.delivered.Sublist r.typing.text ∧
      r.kb.console.Sublist (Typing.start.shown r.received) := by
    refine h.invariant (P := fun r => KeyboardInv r ∧ r.delivered.Sublist r.typing.text ∧
      r.kb.console.Sublist (Typing.start.shown r.received)) ?_ ?_
    · intro r h_init
      have h_all := allDelivered_of_init h_init
      exact ⟨keyboardInv_of_init h_init, h_all.delivered ▸ List.Sublist.refl _,
        h_all.shown ▸ List.Sublist.refl _⟩
    · rintro r a r' ⟨hI, h_text, h_shown⟩ ⟨h_en, h_exec⟩
      obtain ⟨r₁, h_ok, hI', h_effect⟩ := hI.step h_en
      obtain rfl : r₁ = r' := Except.ok.inj (h_ok.symm.trans h_exec)
      exact ⟨hI', hI.sublists hI' h_effect h_text h_shown⟩
  obtain ⟨hI, h_text, h_shown⟩ := h_inv
  refine ⟨?_, ?_, ?_, h_text, h_shown, ?_⟩
  · rintro a f ⟨h_en, h_err⟩
    obtain ⟨r', h_ok, -⟩ := hI.step h_en
    rw [h_ok] at h_err
    cases h_err
  · intro byte
    obtain ⟨o, ws, h_follows, -⟩ := hI
    obtain ⟨kb', h_ok, -, h_takes⟩ := initKeyboardHandler_takes h_follows byte
    refine ⟨kb', h_ok, fun card h_cursor => Keyboard.draws_isSome_iff h_takes.console ?_ h_cursor⟩
    -- nothing is shown, or all that the byte shows
    split_ifs
    · decide
    · exact r.typing.echo_length byte
  · rintro byte r' ⟨h_en, h_exec⟩
    obtain ⟨r₁, h_ok, -, -, h_takes⟩ := hI.step (a := .interrupt byte) h_en
    obtain rfl : r₁ = r' := Except.ok.inj (h_ok.symm.trans h_exec)
    exact h_takes.awake
  · rw [Keyboard.text, Ring.contents_length]
    exact Nat.le_of_lt_succ r.kb.keyboardBuffer.queue.ring.length_lt

/-- A reader sleeps, two keys are pressed, and the reader gets the character of the first. -/
theorem keyboard_safe_two : ∃ r : KeyboardState (Fin 2),
    r.kb.keyboardBuffer.returned = [ascii 'a'] ∧ r.kb.text = [ascii 'b'] ∧ KeyboardSafe r := by
  have h := Machine.Reachable.play (M := keyboardSys (Fin 2)) (.init ⟨fun _ => 0, rfl⟩)
    [.getchar 0, .interrupt 0x1e, .interrupt 0x30, .resume 0] rfl
  exact ⟨_, rfl, rfl, keyboard_safe (Fin 2) h⟩

end ToiletOS
