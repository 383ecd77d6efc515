import ToiletOS.Device.KeyboardDecoder

/-!
# The modifier flags of the keyboard driver

`ctrl_status`, `shift_status` and `alt_status` are to say whether a key of the pair is held
("记录以下按键是否已被按下"), but there is one flag for the two keys: every press of one sets it and every
release of one clears it. So the flags are right after every event if and only if no key of a pair
is released while the other one is held (`modifiers_tracked_iff`), whatever other threads do with
the queue in between.
-/

namespace ToiletOS

variable {T : Type} [DecidableEq T]

namespace Keyboard

/-- Every flag is 1 exactly when a key of its pair is held. -/
def TracksHeld (kb : Keyboard T) (held : Finset ScanKey) : Prop :=
  ∀ g, kb.status g = 1 ↔ ∃ k ∈ held, k.modifier = some g

omit [DecidableEq T] in
theorem Represents.tracksHeld_iff {kb : Keyboard T} {d : Decoder} (h : Represents kb d)
    (held : Finset ScanKey) :
    kb.TracksHeld held ↔ KeyEvent.Tracks ScanKey.modifier d.flag held := by
  have h_flag (g : Modifier) : kb.status g = 1 ↔ d.flag g = true := by
    rw [h.flag g]
    cases d.flag g with
    | false => decide
    | true => decide
  simp only [TracksHeld, KeyEvent.Tracks, h_flag]

/-- The interrupts of `feed` are interrupts that the driver receives. -/
theorem Receives.feed {kb kb' kb'' : Keyboard T} {pre bytes : List (BitVec 8)}
    (h : kb.Receives pre kb') (h_feed : kb'.feed bytes = .ok kb'') :
    kb.Receives (pre ++ bytes) kb'' := by
  induction bytes generalizing pre kb' with
  | nil =>
    obtain rfl := Except.ok.inj h_feed
    rwa [List.append_nil]
  | cons byte bytes ih =>
    -- one interrupt for each byte
    cases h_byte : kb'.initKeyboardHandler byte with
    | error f =>
      rw [Keyboard.feed, h_byte] at h_feed
      cases h_feed
    | ok kb₁ =>
      rw [Keyboard.feed, h_byte] at h_feed
      rw [List.append_cons]
      exact ih (h.interrupt h_byte) h_feed

omit [DecidableEq T] in
theorem start_holds (buf : Fin bufSize → BitVec 8) :
    Holds (.start buf : Keyboard T) ⟨⟨false, fun _ => false⟩, false, []⟩ where
  represents := ⟨rfl, fun g => by cases g <;> rfl⟩
  caps := rfl
  consumer := rfl
  text := rfl

/-- What the driver has received of some events, however they were interleaved with other threads.
-/
theorem start_represents {buf : Fin bufSize → BitVec 8} {es : List (KeyEvent ScanKey)}
    {kb' : Keyboard T} (h : (Keyboard.start buf).Receives (keyBytes es) kb') :
    Represents kb' ⟨false, KeyEvent.markFrom ScanKey.modifier (fun _ => false) es⟩ := by
  rw [← Decoder.decode_keyBytes]
  exact receives_represents (start_holds buf).represents h

/-- The driver can receive any bytes. -/
theorem start_receives (buf : Fin bufSize → BitVec 8) (bytes : List (BitVec 8)) :
    ∃ kb' : Keyboard T, (Keyboard.start buf).Receives bytes kb' := by
  obtain ⟨kb', h_feed, -⟩ := feed_types (start_holds (T := T) buf) bytes
  exact ⟨kb', Receives.start.feed h_feed⟩

end Keyboard

/-- **The modifier flags.** For every sequence of key events: after every complete event, each flag
is 1 exactly when a key of its pair is held, if and only if no key of a pair is released while the
other one is held. -/
theorem modifiers_tracked_iff (buf : Fin bufSize → BitVec 8) {es : List (KeyEvent ScanKey)}
    (h : KeyEvent.Each KeyEvent.Possible ∅ es) :
    (∀ pre, pre <+: es → ∀ kb' : Keyboard T, (Keyboard.start buf).Receives (keyBytes pre) kb' →
      kb'.TracksHeld (KeyEvent.heldFrom ∅ pre)) ↔
      KeyEvent.Each (KeyEvent.Alone ScanKey.modifier) ∅ es := by
  rw [← KeyEvent.tracks_iff KeyEvent.tracks_empty h]
  refine forall₂_congr fun pre _ => ?_
  constructor
  · intro h_all
    obtain ⟨kb', h_run⟩ := Keyboard.start_receives (T := T) buf (keyBytes pre)
    exact ((Keyboard.start_represents h_run).tracksHeld_iff _).mp (h_all kb' h_run)
  · intro h_tracks kb' h_run
    exact ((Keyboard.start_represents h_run).tracksHeld_iff _).mpr h_tracks

/-- The left shift key. -/
def shiftL : ScanKey := ⟨false, 0x2a, by decide, by decide⟩

/-- The right shift key. -/
def shiftR : ScanKey := ⟨false, 0x36, by decide, by decide⟩

/-- The left shift key is pressed and released, and then the right one is pressed. -/
theorem modifiers_tracked_shift : ∃ kb' : Keyboard Unit,
    (Keyboard.start fun _ => 0).Receives
      (keyBytes [.press shiftL, .release shiftL, .press shiftR]) kb' ∧ kb'.shiftStatus = 1 := by
  have h_possible : KeyEvent.Each KeyEvent.Possible ∅
      [.press shiftL, .release shiftL, .press shiftR] := by decide
  obtain ⟨kb', h_run⟩ := Keyboard.start_receives (T := Unit) (fun _ => 0)
    (keyBytes [.press shiftL, .release shiftL, .press shiftR])
  have h_tracks := (modifiers_tracked_iff (T := Unit) (fun _ => 0) h_possible).mpr (by decide)
    _ List.prefix_rfl kb' h_run
  exact ⟨kb', h_run, (h_tracks .shift).mpr ⟨shiftR, by decide, rfl⟩⟩

/-- Both shift keys are pressed, and the left one is released: the right one is held, and
`shift_status` is 0. -/
theorem modifiers_not_tracked :
    let es : List (KeyEvent ScanKey) := [.press shiftL, .press shiftR, .release shiftL]
    KeyEvent.Each KeyEvent.Possible ∅ es ∧ shiftR ∈ KeyEvent.heldFrom ∅ es ∧
      ∃ kb' : Keyboard Unit, (Keyboard.start fun _ => 0).Receives (keyBytes es) kb' ∧
        kb'.shiftStatus = 0 ∧ ¬ kb'.TracksHeld (KeyEvent.heldFrom ∅ es) := by
  intro es
  obtain ⟨kb', h_run⟩ := Keyboard.start_receives (T := Unit) (fun _ => 0) (keyBytes es)
  have h_shift : kb'.status .shift = 0 := (Keyboard.start_represents h_run).flag .shift
  have h_held : shiftR ∈ KeyEvent.heldFrom ∅ es := by decide
  refine ⟨by decide, h_held, kb', h_run, h_shift, fun h_tracks => ?_⟩
  have h_one := (h_tracks .shift).mpr ⟨shiftR, h_held, rfl⟩
  rw [h_shift] at h_one
  cases h_one

end ToiletOS
