import ToiletOS.Console.Printk
import ToiletOS.Console.TextEnd

/-!
# Two drivers, two cursors

`put_str` and `put_int` go by `cursor_x` and `cursor_y` and set the cursor of the card, `put_char`
goes by the cursor of the card alone. So a character that `put_char` puts is overwritten by the
next string. The two agree after every call exactly if `put_char` is called for ends of line only,
and only when the cursor stands at the first place of the last row (`console_agrees_iff`): there
the screen rolls up and the cursor stays where it is.
-/

namespace ToiletOS

/-! ### The calls -/

/-- A call of one of the two drivers. -/
inductive ConsoleCall
  | putStr (message : List (BitVec 8))
  | putInt (num : BitVec 32)
  | putChar (charAscii : BitVec 8)
  deriving DecidableEq, Repr

/-- What a call does. -/
def ConsoleCall.run (s : Vga) : ConsoleCall → Option Vga
  | putStr message => ToiletOS.putStr message s
  | putInt num => ToiletOS.putInt num s
  | putChar charAscii => ToiletOS.putChar charAscii s

/-- Strings fit the buffer of `printk`, and characters are not backspaces. -/
def ConsoleCall.Fits : ConsoleCall → Prop
  | putStr message => message.length < 100
  | putInt _ => True
  | putChar charAscii => charAscii ≠ 0x08#8

/-- The calls, one after another. -/
def runCalls (s : Vga) (calls : List ConsoleCall) : Option Vga := calls.foldlM ConsoleCall.run s

/-- The state that `clear_screen` leaves. Cells are counted from here. -/
def afterClear (s : Vga) : Vga := { clearScreen s with puts := [], rolls := 0 }

/-- The cursors agree, and no place of the text has been written twice. -/
structure Agree (s : Vga) : Prop where
  cursors : s.hardwareCursor = s.cursorY.toNat * 80 + s.cursorX.toNat
  once : s.puts.Nodup

/-- A carriage return or a line feed, at the first place of the last row. -/
def RollsInPlace (s : Vga) (charAscii : BitVec 8) : Prop :=
  (charAscii = 0x0a#8 ∨ charAscii = 0x0d#8) ∧ s.hardwareCursor = 1920

/-- The calls run through, and the cursors agree after each of them. -/
def AgreesThroughout (s : Vga) (calls : List ConsoleCall) : Prop :=
  ∀ k ≤ calls.length, ∃ s', runCalls s (calls.take k) = some s' ∧ Agree s'

/-- `put_char` is called for ends of line only, at the first place of the last row. -/
def RollsInPlaceThroughout (s : Vga) (calls : List ConsoleCall) : Prop :=
  ∀ k s' charAscii, runCalls s (calls.take k) = some s' →
    calls[k]? = some (.putChar charAscii) → RollsInPlace s' charAscii

/-! ### `aput_char` -/

variable {s : Vga}

/-- The registers and the driver's variables, after a routine of `print.S`. -/
structure Vga.CursorAt (s s' : Vga) (p : ℕ) : Prop where
  cursorX : s'.cursorX = s.cursorX
  cursorY : s'.cursorY = s.cursorY
  hardware : s'.hardwareCursor = p

theorem setCursor_spec (bx : BitVec 16) (s : Vga) :
    s.CursorAt (setCursor bx s) bx.toNat ∧ (setCursor bx s).puts = s.puts ∧
      (setCursor bx s).rolls = s.rolls := by
  refine ⟨⟨?_, ?_, s.hardwareCursor_outb bx⟩, ?_, ?_⟩ <;> simp only [setCursor, Vga.outb_same]

/-- A store inside the text memory. -/
theorem Vga.onlyCells_store8 (s : Vga) {i : ℕ} (hi : i < 4000) (v : BitVec 8) :
    s.OnlyCells (s.store8 (addr videoMemory i) v) := by
  refine ⟨rfl, rfl, rfl, rfl, rfl, fun h_inside a h_a => ?_⟩
  rcases List.mem_cons.mp h_a with rfl | h_a
  · exact ⟨i, hi, rfl⟩
  · exact h_inside a h_a

theorem Vga.onlyCells_movsd (s : Vga) (esi : ℕ) {edi : ℕ} (h : edi + 4 ≤ 4000) :
    s.OnlyCells (s.movsd esi edi) := by
  unfold Vga.movsd
  exact (((s.onlyCells_store8 (by omega) _).trans (onlyCells_store8 _ (by omega) _)).trans
    (onlyCells_store8 _ (by omega) _)).trans (onlyCells_store8 _ (by omega) _)

/-- Rolling up touches the screen only. -/
theorem rollRows_onlyCells (s : Vga) : s.OnlyCells (clsRow (rollRows s)) := by
  have h_rows : s.OnlyCells (rollRows s) := by
    apply foldl_range_induction fun _ s' => s.OnlyCells s'
    · exact .refl s
    · intro k hk s' h
      exact h.trans (s'.onlyCells_movsd _ (by omega))
  -- the last row is cleared a word at a time
  apply h_rows.trans
  apply foldl_range_induction fun _ s' => (rollRows s).OnlyCells s'
  · exact .refl _
  · intro k hk s' h
    apply h.trans
    have h_addr : addr videoMemory (3840 + 2 * k) + 1#32 = addr videoMemory (3840 + 2 * k + 1) :=
      addr_addr videoMemory (3840 + 2 * k) 1
    unfold clsCell Vga.store16
    rw [h_addr]
    exact (s'.onlyCells_store8 (by omega) _).trans (Vga.onlyCells_store8 _ (by omega) _)

/-- The cursor after a roll. -/
theorem setCursor_noteRoll {t : Vga} (bx : BitVec 16) (h : s.OnlyCells t) :
    s.CursorAt (setCursor bx t.noteRoll) bx.toNat ∧ (setCursor bx t.noteRoll).puts = s.puts ∧
      (setCursor bx t.noteRoll).rolls = s.rolls + 1 := by
  obtain ⟨⟨h_x, h_y, h_cursor⟩, h_puts, h_rolls⟩ := setCursor_spec bx t.noteRoll
  refine ⟨⟨h_x.trans h.cursorX, h_y.trans h.cursorY, h_cursor⟩, h_puts.trans h.puts, ?_⟩
  rw [h_rolls, t.noteRoll_rolls, h.rolls]

theorem rollScreen_spec (s : Vga) :
    s.CursorAt (rollScreen s) 1920 ∧ (rollScreen s).puts = s.puts ∧
      (rollScreen s).rolls = s.rolls + 1 := by
  have h_only := rollRows_onlyCells s
  unfold rollScreen
  generalize clsRow (rollRows s) = t at *
  exact setCursor_noteRoll 1920#16 h_only

/-- `jl`, for positions on the screen and a row behind it. -/
theorem slt_iff {bx : BitVec 16} (h : bx.toNat < 2 ^ 15) :
    bx.slt 2000#16 = true ↔ bx.toNat < 2000 := by
  have h_int : bx.toInt = bx.toNat := BitVec.toInt_eq_toNat_of_lt (by omega)
  rw [BitVec.slt_iff_toInt_lt, h_int, show (2000#16).toInt = (2000 : ℕ) by decide]
  exact Int.ofNat_lt

/-- **The end of a line.** The next row starts, or the screen rolls up. -/
theorem isLineFeed_spec {bx : BitVec 16} (h : bx.toNat ≤ 2000) (s : Vga) :
    s.CursorAt (isLineFeed bx s)
        (if bx.toNat - bx.toNat % 80 + 80 < 2000 then bx.toNat - bx.toNat % 80 + 80 else 1920) ∧
      (isLineFeed bx s).puts = s.puts ∧
      (isLineFeed bx s).rolls =
        if bx.toNat - bx.toNat % 80 + 80 < 2000 then s.rolls else s.rolls + 1 := by
  have h_next : (bx - bx % 80#16 + 80#16).toNat = bx.toNat - bx.toNat % 80 + 80 := by
    have h_80 : (80#16).toNat = 80 := rfl
    rw [BitVec.toNat_add, BitVec.toNat_sub, BitVec.toNat_umod, h_80]
    omega
  have h_slt : (bx - bx % 80#16 + 80#16).slt 2000#16 = true ↔
      bx.toNat - bx.toNat % 80 + 80 < 2000 := by
    rw [slt_iff (by omega), h_next]
  unfold isLineFeed
  dsimp only
  by_cases h_on : bx.toNat - bx.toNat % 80 + 80 < 2000
  · rw [if_pos (h_slt.mpr h_on), if_pos h_on, if_pos h_on, ← h_next]
    exact setCursor_spec _ s
  · rw [if_neg fun h_eq => h_on (h_slt.mp h_eq), if_neg h_on, if_neg h_on]
    exact rollScreen_spec s

/-- The two bytes of the cell at a place. -/
theorem cell_bytes {bx : BitVec 16} (h : bx.toNat < 2000) :
    (bx <<< 1).toNat = 2 * bx.toNat ∧ (bx <<< 1 + 1#16).toNat = 2 * bx.toNat + 1 ∧
      (bx <<< 1 + 1#16) >>> 1 = bx := by
  have h_low : (bx <<< 1).toNat = 2 * bx.toNat := by
    rw [BitVec.toNat_shiftLeft, Nat.shiftLeft_eq]
    omega
  have h_high : (bx <<< 1 + 1#16).toNat = 2 * bx.toNat + 1 := by
    rw [BitVec.toNat_add, h_low, show (1#16).toNat = 1 from rfl]
    exact Nat.mod_eq_of_lt (by omega)
  refine ⟨h_low, h_high, ?_⟩
  apply BitVec.eq_of_toNat_eq
  rw [BitVec.toNat_ushiftRight, h_high, Nat.shiftRight_eq_div_pow]
  omega

/-- Write the two bytes of a cell. -/
def Vga.gsCell (s : Vga) (bx : BitVec 16) (cl : BitVec 8) : Vga :=
  (s.store8 (addr videoMemory (2 * bx.toNat)) cl).store8 (addr videoMemory (2 * bx.toNat + 1))
    0x07#8

theorem Vga.gsStore8_eq (s : Vga) {bx : BitVec 16} (h : bx.toNat < 4000) (v : BitVec 8) :
    s.gsStore8 bx v = some (s.store8 (addr videoMemory bx.toNat) v) := by
  have h_addr : videoMemory + bx.setWidth 32 = addr videoMemory bx.toNat := by
    rw [addr, BitVec.ofNat_toNat]
  rw [gsStore8, if_pos (h.trans (by decide)), h_addr]

/-- A cell of the screen is in the segment. -/
theorem Vga.gsStore8_cell (s : Vga) {bx : BitVec 16} (h : bx.toNat < 2000) (cl : BitVec 8)
    (f : Vga → Option Vga) :
    (s.gsStore8 (bx <<< 1) cl >>= fun s => s.gsStore8 (bx <<< 1 + 1#16) 0x07#8 >>= f) =
      f (s.gsCell bx cl) := by
  obtain ⟨h_low, h_high, -⟩ := cell_bytes h
  rw [s.gsStore8_eq (by omega), h_low]
  change Vga.gsStore8 _ _ _ >>= f = _
  rw [Vga.gsStore8_eq _ (by omega), h_high]
  rfl

/-- Any other character. -/
theorem putOther_spec {bx : BitVec 16} (h : bx.toNat < 2000) (cl : BitVec 8) (s : Vga) :
    ∃ s', putOther bx cl s = some s' ∧
      s.CursorAt s' (if bx.toNat + 1 < 2000 then bx.toNat + 1 else 1920) ∧
      s'.puts = (80 * s.rolls + bx.toNat) :: s.puts ∧
      s'.rolls = if bx.toNat + 1 < 2000 then s.rolls else s.rolls + 1 := by
  have h_nat : (bx + 1#16).toNat = bx.toNat + 1 := by
    rw [BitVec.toNat_add, show (1#16).toNat = 1 from rfl]
    exact Nat.mod_eq_of_lt (by omega)
  have h_slt : (bx + 1#16).slt 2000#16 = true ↔ (bx + 1#16).toNat < 2000 := slt_iff (by omega)
  rw [h_nat] at h_slt
  have h_eq : putOther bx cl s =
      some (if (bx + 1#16).slt 2000#16 then
          setCursor (bx + 1#16) ((s.notePut bx.toNat).gsCell bx cl)
        else isLineFeed (bx + 1#16) ((s.notePut bx.toNat).gsCell bx cl)) := by
    rw [putOther, Vga.gsStore8_cell _ h, (cell_bytes h).2.2]
    rfl
  rw [h_eq]
  refine ⟨_, rfl, ?_⟩
  -- `t` is the screen with the character on it, before the cursor moves
  generalize h_t : (s.notePut bx.toNat).gsCell bx cl = t
  have h_x : t.cursorX = s.cursorX := h_t ▸ rfl
  have h_y : t.cursorY = s.cursorY := h_t ▸ rfl
  have h_puts : t.puts = (80 * s.rolls + bx.toNat) :: s.puts := h_t ▸ rfl
  have h_rolls : t.rolls = s.rolls := h_t ▸ rfl
  by_cases h_on : bx.toNat + 1 < 2000
  · rw [if_pos (h_slt.mpr h_on), if_pos h_on, if_pos h_on]
    obtain ⟨⟨h_x', h_y', h_cursor⟩, h_puts', h_rolls'⟩ := setCursor_spec (bx + 1#16) t
    exact ⟨⟨h_x'.trans h_x, h_y'.trans h_y, h_cursor.trans h_nat⟩, h_puts'.trans h_puts,
      h_rolls'.trans h_rolls⟩
  · -- past the last place `put_other` falls through into `is_line_feed`
    rw [if_neg fun h_eq => h_on (h_slt.mp h_eq), if_neg h_on, if_neg h_on]
    have h_full : (bx + 1#16).toNat ≤ 2000 := by omega
    obtain ⟨⟨h_x', h_y', h_cursor⟩, h_puts', h_rolls'⟩ := isLineFeed_spec h_full t
    rw [h_nat, if_neg (by omega)] at h_cursor h_rolls'
    exact ⟨⟨h_x'.trans h_x, h_y'.trans h_y, h_cursor⟩, h_puts'.trans h_puts,
      h_rolls'.trans (congrArg (· + 1) h_rolls)⟩

/-- The position behind a character. -/
def nextPosition (cl : BitVec 8) (p : ℕ) : ℕ :=
  if cl = 0x0d#8 ∨ cl = 0x0a#8 then
    if p - p % 80 + 80 < 2000 then p - p % 80 + 80 else 1920
  else if p + 1 < 2000 then p + 1 else 1920

/-- The position is read from the registers 14 and 15. -/
theorem aputChar_eq (cl : BitVec 8) (s : Vga) :
    aputChar cl s =
      if cl = 0x0d#8 then some (isLineFeed (s.crtc 14#8 ++ s.crtc 15#8)
        ((s.outb 0x3d4#16 0x0e#8).outb 0x3d4#16 0x0f#8))
      else if cl = 0x0a#8 then some (isLineFeed (s.crtc 14#8 ++ s.crtc 15#8)
        ((s.outb 0x3d4#16 0x0e#8).outb 0x3d4#16 0x0f#8))
      else if cl = 0x08#8 then isBackspace (s.crtc 14#8 ++ s.crtc 15#8)
        ((s.outb 0x3d4#16 0x0e#8).outb 0x3d4#16 0x0f#8)
      else putOther (s.crtc 14#8 ++ s.crtc 15#8) cl
        ((s.outb 0x3d4#16 0x0e#8).outb 0x3d4#16 0x0f#8) := by
  rfl

/-- What `aput_char` stores is in the segment of `gs`. -/
def StoresInSegment (s : Vga) (cl : BitVec 8) : Prop :=
  let bx := s.crtc 14#8 ++ s.crtc 15#8
  cl = 0x0d#8 ∨ cl = 0x0a#8 ∨
    ((if cl = 0x08#8 then bx - 1#16 else bx) <<< 1).toNat < videoSegment

instance (s : Vga) (cl : BitVec 8) : Decidable (StoresInSegment s cl) :=
  inferInstanceAs (Decidable (_ ∨ _ ∨ _))

/-- The two bytes of a cell are both in the segment, or both behind it. -/
theorem gsStore8_isSome (s : Vga) (bx : BitVec 16) (cl : BitVec 8) (f : Vga → Vga) :
    (do
      let s ← s.gsStore8 (bx <<< 1) cl
      let s ← s.gsStore8 (bx <<< 1 + 1#16) 0x07#8
      return f s : Option Vga).isSome ↔ (bx <<< 1).toNat < videoSegment := by
  have h_low : (bx <<< 1).toNat = 2 * bx.toNat % 2 ^ 16 := by
    rw [BitVec.toNat_shiftLeft, Nat.shiftLeft_eq, Nat.mul_comm, pow_one]
  have h_high : (bx <<< 1 + 1#16).toNat = (bx <<< 1).toNat + 1 := by
    rw [BitVec.toNat_add, h_low, show (1#16).toNat = 1 from rfl]
    exact Nat.mod_eq_of_lt (by omega)
  by_cases h_in : (bx <<< 1).toNat < videoSegment
  · have h_in' : (bx <<< 1 + 1#16).toNat < videoSegment := by
      rw [h_high]
      unfold videoSegment at h_in ⊢
      omega
    simp only [Vga.gsStore8, h_in, h_in', if_true, Option.bind_eq_bind, Option.bind_some,
      Option.pure_def, Option.isSome_some]
  · simp only [Vga.gsStore8, h_in, if_false, Option.bind_eq_bind, Option.bind_none,
      Option.isSome_none, Bool.false_eq_true]

/-- **`aput_char` returns** unless it stores behind the segment. -/
theorem aputChar_isSome (s : Vga) (cl : BitVec 8) :
    (aputChar cl s).isSome ↔ StoresInSegment s cl := by
  rw [aputChar_eq, StoresInSegment]
  by_cases h_return : cl = 0x0d#8
  · simp [h_return]
  by_cases h_feed : cl = 0x0a#8
  · simp [h_feed]
  rw [if_neg h_return, if_neg h_feed]
  by_cases h_back : cl = 0x08#8
  · rw [if_pos h_back, if_pos h_back, isBackspace, gsStore8_isSome]
    simp [h_return, h_feed]
  · rw [if_neg h_back, if_neg h_back, putOther, gsStore8_isSome]
    simp [h_return, h_feed]

/-- **`aput_char` moves the cursor of the card only**, and puts a character where it was. -/
theorem aputChar_spec (h : s.hardwareCursor < 2000) {cl : BitVec 8} (h_cl : cl ≠ 0x08#8) :
    ∃ s', aputChar cl s = some s' ∧ s.CursorAt s' (nextPosition cl s.hardwareCursor) ∧
      (¬ (cl = 0x0d#8 ∨ cl = 0x0a#8) →
        s'.puts = (80 * s.rolls + s.hardwareCursor) :: s.puts ∧
        s'.rolls = if s.hardwareCursor + 1 < 2000 then s.rolls else s.rolls + 1) := by
  have h_bx : (s.crtc 14#8 ++ s.crtc 15#8).toNat = s.hardwareCursor := rfl
  rw [aputChar_eq]
  generalize h_t : (s.outb 0x3d4#16 0x0e#8).outb 0x3d4#16 0x0f#8 = t
  have h_x : t.cursorX = s.cursorX := h_t ▸ rfl
  have h_y : t.cursorY = s.cursorY := h_t ▸ rfl
  -- from here the position is only the value of the two registers
  rw [← h_bx] at h ⊢
  generalize s.crtc 14#8 ++ s.crtc 15#8 = bx at *
  unfold nextPosition
  obtain ⟨⟨h_line_x, h_line_y, h_line⟩, -⟩ := isLineFeed_spec (show bx.toNat ≤ 2000 by omega) t
  have h_puts : t.puts = s.puts := h_t ▸ rfl
  have h_rolls : t.rolls = s.rolls := h_t ▸ rfl
  obtain ⟨s', h_other_eq, ⟨h_other_x, h_other_y, h_other⟩, h_marked⟩ := putOther_spec h cl t
  rw [h_puts, h_rolls] at h_marked
  by_cases h_return : cl = 0x0d#8
  · rw [if_pos h_return, if_pos (.inl h_return)]
    exact ⟨_, rfl, ⟨h_line_x.trans h_x, h_line_y.trans h_y, h_line⟩,
      fun h_not => absurd (.inl h_return) h_not⟩
  · by_cases h_feed : cl = 0x0a#8
    · rw [if_neg h_return, if_pos h_feed, if_pos (.inr h_feed)]
      exact ⟨_, rfl, ⟨h_line_x.trans h_x, h_line_y.trans h_y, h_line⟩,
        fun h_not => absurd (.inr h_feed) h_not⟩
    · rw [if_neg h_return, if_neg h_feed, if_neg h_cl, if_neg (not_or.mpr ⟨h_return, h_feed⟩)]
      exact ⟨s', h_other_eq, ⟨h_other_x.trans h_x, h_other_y.trans h_y, h_other⟩,
        fun _ => h_marked⟩

/-- An end of line at the first place of the last row: the text moves, the cursors do not. -/
theorem aputChar_rollsInPlace {cl : BitVec 8} (h : RollsInPlace s cl) :
    ∃ s', aputChar cl s = some s' ∧ s.CursorAt s' 1920 ∧ s'.puts = s.puts ∧
      s'.rolls = s.rolls + 1 := by
  obtain ⟨h_cl, h_place⟩ := h
  have h_bx : (s.crtc 14#8 ++ s.crtc 15#8).toNat = s.hardwareCursor := rfl
  -- both ends of line reach the same branch
  have h_read : aputChar cl s = some (isLineFeed (s.crtc 14#8 ++ s.crtc 15#8)
      ((s.outb 0x3d4#16 0x0e#8).outb 0x3d4#16 0x0f#8)) := by
    rw [aputChar_eq]
    rcases h_cl with h_cl | h_cl
    · rw [h_cl, if_neg (by decide), if_pos rfl]
    · rw [if_pos h_cl]
  rw [h_read]
  refine ⟨_, rfl, ?_⟩
  generalize h_t : (s.outb 0x3d4#16 0x0e#8).outb 0x3d4#16 0x0f#8 = t
  have h_le : (s.crtc 14#8 ++ s.crtc 15#8).toNat ≤ 2000 := by omega
  have h_spec := isLineFeed_spec h_le t
  rw [h_bx, h_place] at h_spec
  obtain ⟨⟨h_x, h_y, h_cursor⟩, h_puts, h_rolls⟩ := h_spec
  -- reading the registers changes nothing but the index
  have h_same : t.cursorX = s.cursorX ∧ t.cursorY = s.cursorY ∧ t.puts = s.puts ∧
      t.rolls = s.rolls := h_t ▸ ⟨rfl, rfl, rfl, rfl⟩
  obtain ⟨h_tx, h_ty, h_tputs, h_trolls⟩ := h_same
  exact ⟨⟨h_x.trans h_tx, h_y.trans h_ty, h_cursor⟩, h_puts.trans h_tputs,
    h_rolls.trans (congrArg (· + 1) h_trolls)⟩

/-- Only there does the cursor stay where it is. -/
theorem nextPosition_eq_iff {cl : BitVec 8} {p : ℕ} (h : p < 2000) :
    nextPosition cl p = p ↔ (cl = 0x0a#8 ∨ cl = 0x0d#8) ∧ p = 1920 := by
  have h_comm : (cl = 0x0a#8 ∨ cl = 0x0d#8) ↔ (cl = 0x0d#8 ∨ cl = 0x0a#8) := or_comm
  rw [nextPosition, h_comm]
  split_ifs with h_line h_row h_on
  · constructor
    · intro h_eq; omega
    · rintro ⟨-, h_place⟩; omega
  · constructor
    · -- the place after an end of line on the last row is its first place
      intro h_eq; exact ⟨h_line, h_eq.symm⟩
    · rintro ⟨-, h_place⟩; exact h_place.symm
  · constructor
    · intro h_eq; omega
    · rintro ⟨h_end, -⟩; exact absurd h_end h_line
  · constructor
    · intro h_eq; omega
    · rintro ⟨h_end, -⟩; exact absurd h_end h_line

/-! ### The driver in C -/

/-- The cursors agree, and the places behind the cursor have not been written. -/
structure Tidy (s : Vga) : Prop where
  onScreen : s.OnScreen
  inStep : s.InStep
  once : s.puts.Nodup
  behind : ∀ q ∈ s.puts, q < 80 * s.rolls + s.window.next

/-- What any run of `vga_putc` keeps, string after string keeps. -/
theorem kputs_induction {motive : Vga → Prop}
    (h_put : ∀ s input back fore, motive s → motive (vgaPutc input back fore s))
    {s : Vga} (h : motive s) (str : List (BitVec 8)) : motive (kputs str s) := by
  -- a tab and a backspace are several calls of `vga_putc`
  have h_iterate (input : BitVec 8) (back fore : VgaColor) (k : ℕ) {s : Vga} (h : motive s) :
      motive ((vgaPutc input back fore)^[k] s) := by
    induction k with
    | zero => exact h
    | succ k ih =>
      rw [Function.iterate_succ_apply']
      exact h_put _ _ _ _ ih
  have h_char (input : BitVec 8) (back fore : VgaColor) {s : Vga} (h : motive s) :
      motive (kputcColor input back fore s) := by
    unfold kputcColor
    split_ifs
    · exact h_iterate _ _ _ _ h
    · exact h_iterate _ _ _ _ h
    · exact h_put _ _ _ _ h
  unfold kputs
  -- the string is printed up to its first zero
  induction str generalizing s with
  | nil => exact h
  | cons input rest ih =>
    unfold kputsColor
    split
    · exact h
    · exact ih (h_char _ _ _ h)

theorem Tidy.vgaPutc (h : Tidy s) (input : BitVec 8) (back fore : VgaColor) :
    Tidy (vgaPutc input back fore s) := by
  have h_put := vgaPutc_spec h.onScreen input back fore
  have h_next := h_put.agrees.next
  have h_rolls := h_put.rolls
  rw [TextWindow.put] at h_next
  -- the cursor goes one place forward, counted over all the rows that scrolled off
  have h_behind : 80 * s.rolls + s.window.next + 1 ≤
      80 * (ToiletOS.vgaPutc input back fore s).rolls
        + (ToiletOS.vgaPutc input back fore s).window.next := by
    by_cases h_last : s.window.next + 1 = 2000
    · rw [if_pos h_last] at h_next h_rolls
      rw [h_next, h_rolls]
      simp only
      omega
    · rw [if_neg h_last] at h_next h_rolls
      rw [h_next, h_rolls]
      simp only
      omega
  refine ⟨h_put.onScreen, h_put.inStep, ?_, fun q hq => ?_⟩
  · rw [h_put.puts, List.nodup_cons]
    exact ⟨fun h_mem => absurd (h.behind _ h_mem) (Nat.lt_irrefl _), h.once⟩
  · rw [h_put.puts] at hq
    rcases List.mem_cons.mp hq with rfl | hq
    · omega
    · have h_old := h.behind q hq
      omega

theorem Tidy.kputs (h : Tidy s) (str : List (BitVec 8)) : Tidy (kputs str s) :=
  kputs_induction (fun _ input back fore h => h.vgaPutc input back fore) h str

/-- The start. -/
theorem tidy_counted {t : Vga} (h_on : t.OnScreen) (h_step : t.InStep) :
    Tidy { t with puts := [], rolls := 0 } :=
  ⟨⟨h_on.cursorX, h_on.cursorY⟩, h_step, List.nodup_nil, fun _ hq => absurd hq List.not_mem_nil⟩

theorem tidy_afterClear (s : Vga) : Tidy (afterClear s) := by
  obtain ⟨h_on, h_step, -, -⟩ := clearScreen_spec s
  exact tidy_counted h_on h_step

theorem counted_next {t : Vga} (h_next : t.window.next = 0) :
    ({ t with puts := [], rolls := 0 } : Vga).window.next = 0 := h_next

theorem afterClear_next (s : Vga) : (afterClear s).window.next = 0 := by
  obtain ⟨-, -, -, h_shows⟩ := clearScreen_spec s
  exact counted_next h_shows.next

theorem afterClear_puts (s : Vga) : (afterClear s).puts = [] := rfl

theorem afterClear_rolls (s : Vga) : (afterClear s).rolls = 0 := rfl

theorem Tidy.agree (h : Tidy s) : Agree s := by
  refine ⟨?_, h.once⟩
  rw [h.inStep, h.onScreen.toNat_location, Nat.mul_comm]

/-- **One call.** It keeps the cursors together, or it is a `put_char` elsewhere and separates
them. -/
theorem Tidy.run (h : Tidy s) {call : ConsoleCall} (h_fits : call.Fits) :
    ∃ s', call.run s = some s' ∧
      ((∀ c, call = .putChar c → RollsInPlace s c) ∧ Tidy s' ∨
        (∃ c, call = .putChar c ∧ ¬ RollsInPlace s c) ∧ ¬ Agree s') := by
  cases call with
  | putStr message =>
    exact ⟨_, putStr_eq h_fits s,
      .inl ⟨fun _ h_eq => ConsoleCall.noConfusion h_eq, h.kputs message⟩⟩
  | putInt num =>
    exact ⟨_, putInt_eq num s, .inl ⟨fun _ h_eq => ConsoleCall.noConfusion h_eq, h.kputs _⟩⟩
  | putChar c =>
    -- `put_char` works on the cursor of the card, which agrees with the driver's so far
    have h_lt : s.hardwareCursor < 2000 := by
      rw [h.inStep]
      exact h.onScreen.next_lt
    by_cases h_in : RollsInPlace s c
    · obtain ⟨s', h_run, ⟨h_x, h_y, h_cursor⟩, h_puts, h_rolls⟩ := aputChar_rollsInPlace h_in
      refine ⟨s', h_run, Or.inl ?_⟩
      -- neither cursor has moved
      have h_next : s'.window.next = s.window.next := by
        rw [Vga.window, Vga.cursorLocation, h_x, h_y]
        rfl
      refine ⟨fun c' h_eq => ConsoleCall.putChar.inj h_eq ▸ h_in,
        ⟨h_x ▸ h.onScreen.cursorX, h_y ▸ h.onScreen.cursorY⟩, ?_, h_puts ▸ h.once, fun q hq => ?_⟩
      · calc s'.hardwareCursor = s.hardwareCursor := h_cursor.trans h_in.2.symm
          _ = s.window.next := h.inStep
          _ = s'.window.next := h_next.symm
      · have h_old := h.behind q (h_puts ▸ hq)
        rw [h_rolls, h_next]
        omega
    · -- the cursor of the card moves, and the driver's does not
      obtain ⟨s', h_run, ⟨h_x, h_y, h_cursor⟩, -⟩ := aputChar_spec h_lt h_fits
      refine ⟨s', h_run, Or.inr ⟨⟨c, rfl, h_in⟩, fun h_agree => h_in ?_⟩⟩
      have h_cursors := h_agree.cursors
      rw [h_x, h_y, h_cursor, ← h.agree.cursors] at h_cursors
      exact (nextPosition_eq_iff h_lt).mp h_cursors

theorem runCalls_cons {call : ConsoleCall} {s₁ : Vga} (h_run : call.run s = some s₁)
    (calls : List ConsoleCall) : runCalls s (call :: calls) = runCalls s₁ calls := by
  rw [runCalls, List.foldlM_cons, h_run]
  rfl

theorem agreesThroughout_cons (h : Agree s) {call : ConsoleCall} {s₁ : Vga}
    (h_run : call.run s = some s₁) (calls : List ConsoleCall) :
    AgreesThroughout s (call :: calls) ↔ AgreesThroughout s₁ calls := by
  constructor
  · intro h_all k hk
    obtain ⟨s', h_run', h_agree⟩ := h_all (k + 1) (Nat.succ_le_succ hk)
    rw [List.take_succ_cons, runCalls_cons h_run] at h_run'
    exact ⟨s', h_run', h_agree⟩
  · intro h_all k hk
    cases k with
    | zero => exact ⟨s, rfl, h⟩
    | succ k =>
      obtain ⟨s', h_run', h_agree⟩ := h_all k (Nat.le_of_succ_le_succ hk)
      rw [List.take_succ_cons, runCalls_cons h_run]
      exact ⟨s', h_run', h_agree⟩

theorem rollsInPlaceThroughout_cons {call : ConsoleCall} {s₁ : Vga}
    (h_run : call.run s = some s₁) (calls : List ConsoleCall) :
    RollsInPlaceThroughout s (call :: calls) ↔
      (∀ c, call = .putChar c → RollsInPlace s c) ∧ RollsInPlaceThroughout s₁ calls := by
  constructor
  · intro h_all
    refine ⟨fun c h_c => h_all 0 s c rfl (congrArg some h_c), fun k s' c h_run' h_c => ?_⟩
    refine h_all (k + 1) s' c ?_ h_c
    rw [List.take_succ_cons, runCalls_cons h_run]
    exact h_run'
  · rintro ⟨h_first, h_rest⟩ k s' c h_run' h_c
    -- before the first call, or after some of the others
    cases k with
    | zero =>
      obtain rfl : s = s' := Option.some.inj h_run'
      exact h_first c (Option.some.inj h_c)
    | succ k =>
      rw [List.take_succ_cons, runCalls_cons h_run] at h_run'
      exact h_rest k s' c h_run' h_c

/-- From any state in which the cursors agree. -/
theorem Tidy.agreesThroughout_iff (h : Tidy s) {calls : List ConsoleCall}
    (h_fits : ∀ call ∈ calls, call.Fits) :
    AgreesThroughout s calls ↔ RollsInPlaceThroughout s calls := by
  induction calls generalizing s with
  | nil =>
    constructor
    · intro _ k s' c _ h_c
      exact absurd h_c (by simp)
    · intro _ k hk
      obtain rfl : k = 0 := Nat.le_zero.mp hk
      exact ⟨s, rfl, h.agree⟩
  | cons call calls ih =>
    obtain ⟨s₁, h_run, h_step⟩ := h.run (h_fits call List.mem_cons_self)
    have h_rest : ∀ call ∈ calls, call.Fits := fun c hc => h_fits c (List.mem_cons_of_mem _ hc)
    rw [agreesThroughout_cons h.agree h_run, rollsInPlaceThroughout_cons h_run]
    rcases h_step with ⟨h_in, h_tidy⟩ | ⟨⟨c, h_c, h_out⟩, h_apart⟩
    · -- the first call keeps the cursors together: the rest decides
      rw [ih h_tidy h_rest]
      exact (and_iff_right h_in).symm
    · -- the first call separates them, so both sides are false
      constructor
      · intro h_all
        obtain ⟨s', h_run', h_agree⟩ := h_all 0 (Nat.zero_le _)
        obtain rfl : s₁ = s' := Option.some.inj h_run'
        exact absurd h_agree h_apart
      · rintro ⟨h_in, -⟩
        exact absurd (h_in c h_c) h_out

/-- **When the two drivers agree.** After `clear_screen` the cursors agree after every call, and no
character is overwritten before it scrolls off, if and only if every `put_char` is an end of line
at the first place of the last row. -/
theorem console_agrees_iff (s : Vga) {calls : List ConsoleCall}
    (h_fits : ∀ call ∈ calls, call.Fits) :
    AgreesThroughout (afterClear s) calls ↔ RollsInPlaceThroughout (afterClear s) calls :=
  (tidy_afterClear s).agreesThroughout_iff h_fits

/-- A card with zeros everywhere. -/
def zeroVga : Vga where
  cursorX := 0#8
  cursorY := 0#8
  mem _ := 0#8
  crtcIndex := 0#8
  crtc _ := 0#8
  written := []
  rolls := 0
  puts := []

/-- Ends of line down to the last row, one more by `put_char`, and a string and a number there. -/
theorem console_agrees_iff_rolled :
    AgreesThroughout (afterClear zeroVga) [.putStr (List.replicate 24 0x0a#8), .putChar 0x0a#8,
      .putStr [0x4f#8, 0x4b#8], .putInt 42#32] := by
  -- the first call fits the buffer and leads to the last row
  obtain ⟨first, h_first⟩ : ∃ first, first = List.replicate 24 0x0a#8 := ⟨_, rfl⟩
  have h_fits : first.length < 100 := by rw [h_first]; decide
  have h_row : (runCalls (afterClear zeroVga) [.putStr first]).map Vga.hardwareCursor =
      some 1920 := by
    rw [h_first]
    decide +kernel
  rw [← h_first]
  refine (console_agrees_iff zeroVga ?_).mpr fun k s' c h_run h_c => ?_
  · simp [ConsoleCall.Fits, h_fits]
  · match k, h_run, h_c with
    | 0, _, h_c => exact absurd h_c (by simp)
    | 1, h_run, h_c =>
      obtain rfl : 0x0a#8 = c := by simpa using h_c
      rw [show runCalls _ [.putStr first] = some s' from h_run] at h_row
      exact ⟨.inl rfl, Option.some.inj h_row⟩
    | 2, _, h_c => exact absurd h_c (by simp)
    | 3, _, h_c => exact absurd h_c (by simp)
    | k + 4, _, h_c => exact absurd h_c (by simp)

/-- The first character and the string behind it. -/
theorem putChar_parts (h_tidy : Tidy s) (h_next : s.window.next = 0) (h_puts : s.puts = [])
    (h_rolls : s.rolls = 0) :
    (∃ s₁, runCalls s [.putChar 0x41#8] = some s₁ ∧
      s₁.hardwareCursor = 1 ∧ s₁.cursorY.toNat * 80 + s₁.cursorX.toNat = 0) ∧
    (∃ s₂, runCalls s [.putChar 0x41#8, .putStr [0x42#8]] = some s₂ ∧ ¬ s₂.puts.Nodup) := by
  have h_start : s.hardwareCursor = 0 := h_tidy.inStep.trans h_next
  have h_lt : s.hardwareCursor < 2000 := h_start ▸ by decide
  have h_letter : (0x41#8 : BitVec 8) ≠ 0x08#8 := by decide
  obtain ⟨s₁, h_run, ⟨h_x, h_y, h_cursor⟩, h_put⟩ := aputChar_spec h_lt h_letter
  obtain ⟨h_one, h_none⟩ := h_put (by decide)
  rw [h_rolls, h_start, h_puts] at h_one
  rw [h_rolls, h_start, if_pos (by decide)] at h_none
  -- the driver's cursor is where it was, at the first place
  have h_on : s₁.OnScreen := ⟨h_x ▸ h_tidy.onScreen.cursorX, h_y ▸ h_tidy.onScreen.cursorY⟩
  have h_place : s₁.window.next = 0 := by
    rw [h_on.next_eq, h_x, h_y, ← h_tidy.onScreen.next_eq, h_next]
  have h_static : s₁.cursorY.toNat * 80 + s₁.cursorX.toNat = 0 := by
    rw [Nat.mul_comm, ← h_on.next_eq, h_place]
  rw [h_start, show nextPosition 0x41#8 0 = 1 by decide] at h_cursor
  have h_first : (ConsoleCall.putChar 0x41#8).run s = some s₁ := h_run
  have h_second : (ConsoleCall.putStr [0x42#8]).run s₁ =
      some (vgaPutc 0x42#8 .black .white s₁) := putStr_eq (by decide) _
  -- the string starts at that place again
  refine ⟨⟨s₁, ?_, h_cursor, h_static⟩, vgaPutc 0x42#8 .black .white s₁, ?_, ?_⟩
  · rw [runCalls_cons h_first]
    rfl
  · rw [runCalls_cons h_first, runCalls_cons h_second]
    rfl
  · rw [(vgaPutc_spec h_on _ _ _).puts, h_one, h_none, h_place]
    decide

/-- **The cursors part.** After one `put_char` the cursor of the card has moved and that of the
driver has not, and the next string is put over the character. -/
theorem console_disagrees :
    (∃ s₁, runCalls (afterClear zeroVga) [.putChar 0x41#8] = some s₁ ∧
      s₁.hardwareCursor = 1 ∧ s₁.cursorY.toNat * 80 + s₁.cursorX.toNat = 0) ∧
    (∃ s₂, runCalls (afterClear zeroVga) [.putChar 0x41#8, .putStr [0x42#8]] = some s₂ ∧
      ¬ s₂.puts.Nodup) ∧
    ¬ AgreesThroughout (afterClear zeroVga) [.putChar 0x41#8] := by
  obtain ⟨⟨s₁, h_run, h_cursor, h_static⟩, h_twice⟩ :=
    putChar_parts (tidy_afterClear zeroVga) (afterClear_next _) (afterClear_puts _)
      (afterClear_rolls _)
  refine ⟨⟨s₁, h_run, h_cursor, h_static⟩, h_twice, ?_⟩
  intro h_all
  -- after the first call the two cursors are at 1 and at 0
  obtain ⟨s', h_run', h_agree⟩ := h_all 1 le_rfl
  obtain rfl : s₁ = s' := Option.some.inj (h_run.symm.trans h_run')
  have h_cursors := h_agree.cursors
  rw [h_cursor, h_static] at h_cursors
  exact absurd h_cursors (by decide)

end ToiletOS
