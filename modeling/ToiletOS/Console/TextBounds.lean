import ToiletOS.Console.CursorDrift

/-!
# Characters inside the text

What `aput_char` writes, and where it leaves the cursor of the card, over all sequences of
characters. A character that is put, an end of line and a roll stay within the 2000 cells. A
backspace goes one place back without a look at where it is: at the first cell the position wraps
around in 16 bits, the store of the blank is behind the segment of the text memory, and the
processor faults.

So the echo goes on and stays inside if and only if no backspace comes at the first cell
(`echo_stays_iff`).
-/

namespace ToiletOS

/-! ### Sequences of characters -/

/-- The cursor is on the screen, and every write has fallen inside the text memory. -/
structure StaysOnText (s : Vga) : Prop where
  cursor : s.hardwareCursor < 2000
  inside : s.Inside

/-- Each character is echoed, and the echo stays on the text. -/
def StaysThroughout (s : Vga) : List (BitVec 8) → Prop
  | [] => StaysOnText s
  | cl :: cs => StaysOnText s ∧ ∃ s', aputChar cl s = some s' ∧ StaysThroughout s' cs

/-- The character is no backspace, or there is a cell in front of the cursor. -/
def CanErase (s : Vga) (cl : BitVec 8) : Prop := cl = 0x08#8 → s.hardwareCursor ≠ 0

/-- No character is a backspace at the first cell. -/
def ErasesThroughout (s : Vga) : List (BitVec 8) → Prop
  | [] => True
  | cl :: cs => CanErase s cl ∧ ∀ s', aputChar cl s = some s' → ErasesThroughout s' cs

/-! ### Writes -/

section Writes

variable {s : Vga} {bx : BitVec 16}

theorem setCursor_written (bx : BitVec 16) (s : Vga) : (setCursor bx s).written = s.written := by
  simp only [setCursor, Vga.outb_same]

theorem setCursor_inside (bx : BitVec 16) (h : s.Inside) : (setCursor bx s).Inside := by
  rw [Vga.Inside, setCursor_written]
  exact h

theorem isLineFeed_inside (bx : BitVec 16) (h : s.Inside) : (isLineFeed bx s).Inside := by
  unfold isLineFeed
  dsimp only
  split
  · exact setCursor_inside _ h
  · exact setCursor_inside _ (Vga.noteRoll_inside _ ((rollRows_onlyCells s).inside h))

/-- The two bytes of a cell. -/
theorem gsCell_inside (cl : BitVec 8) (h : s.Inside) (h_bx : bx.toNat < 2000) :
    (s.gsCell bx cl).Inside :=
  ((s.onlyCells_store8 (by omega) _).trans (Vga.onlyCells_store8 _ (by omega) _)).inside h

theorem putOther_inside (cl : BitVec 8) (h : s.Inside) (h_bx : bx.toNat < 2000) :
    ∀ s' ∈ putOther bx cl s, s'.Inside := by
  intro s' h_s'
  have h_cell : ((s.notePut bx.toNat).gsCell bx cl).Inside := gsCell_inside cl h h_bx
  rw [putOther, Vga.gsStore8_cell _ h_bx] at h_s'
  obtain rfl := Option.some.inj h_s'
  split
  · exact setCursor_inside _ h_cell
  · exact isLineFeed_inside _ h_cell

end Writes

/-! ### Backspaces -/

section Backspace

variable {s : Vga} {bx : BitVec 16}

theorem prev_toNat (h_pos : bx.toNat ≠ 0) : (bx - 1#16).toNat = bx.toNat - 1 := by
  rw [BitVec.toNat_sub, show (1#16).toNat = 1 from rfl]
  omega

/-- Behind the first cell, the cell in front is cleared and the cursor goes there. -/
theorem isBackspace_stays (h : s.Inside) (h_pos : bx.toNat ≠ 0) (h_bx : bx.toNat < 2000) :
    ∃ s', isBackspace bx s = some s' ∧ StaysOnText s' := by
  have h_lt : (bx - 1#16).toNat < 2000 := by
    rw [prev_toNat h_pos]
    omega
  have h_eq : isBackspace bx s = some (setCursor (bx - 1#16) (s.gsCell (bx - 1#16) 0x20#8)) := by
    rw [isBackspace, Vga.gsStore8_cell _ h_lt, (cell_bytes h_lt).2.2]
    rfl
  refine ⟨_, h_eq, ?_, setCursor_inside _ (gsCell_inside _ h h_lt)⟩
  rw [(setCursor_spec _ _).1.hardware]
  exact h_lt

/-- At the first cell the position wraps around, and the store is behind the segment. -/
theorem isBackspace_zero (s : Vga) : isBackspace 0#16 s = none := rfl

end Backspace

/-! ### Runs -/

section Runs

variable {s : Vga} {cl : BitVec 8}

/-- One character. -/
theorem StaysOnText.aputChar (h : StaysOnText s) (h_erase : CanErase s cl) :
    ∃ s', aputChar cl s = some s' ∧ StaysOnText s' := by
  have h_inside : ((s.outb 0x3d4#16 0x0e#8).outb 0x3d4#16 0x0f#8).Inside := h.inside
  have h_bx : (s.crtc 14#8 ++ s.crtc 15#8).toNat = s.hardwareCursor := rfl
  have h_lt := h.cursor
  by_cases h_back : cl = 0x08#8
  · -- a backspace goes one place back, so there must be one
    have h_pos := h_erase h_back
    rw [aputChar_eq, h_back, if_neg (by decide), if_neg (by decide), if_pos rfl]
    rw [← h_bx] at h_lt h_pos
    exact isBackspace_stays h_inside h_pos h_lt
  · -- every other character moves the cursor to its next position
    obtain ⟨s', h_run, h_at, -⟩ := aputChar_spec h_lt h_back
    refine ⟨s', h_run, ?_, ?_⟩
    · rw [h_at.hardware, nextPosition]
      split_ifs <;> omega
    · rw [aputChar_eq, if_neg h_back] at h_run
      split at h_run
      · obtain rfl := Option.some.inj h_run
        exact isLineFeed_inside _ h_inside
      · split at h_run
        · obtain rfl := Option.some.inj h_run
          exact isLineFeed_inside _ h_inside
        · exact putOther_inside cl h_inside h_lt s' h_run

/-- A backspace at the first cell faults. -/
theorem aputChar_first (h_first : s.hardwareCursor = 0) : aputChar 0x08#8 s = none := by
  have h_bx : s.crtc 14#8 ++ s.crtc 15#8 = 0#16 := BitVec.eq_of_toNat_eq h_first
  rw [aputChar_eq, if_neg (by decide), if_neg (by decide), if_pos rfl, h_bx]
  exact isBackspace_zero _

/-- On the screen, every other call of `aput_char` returns. -/
theorem aputChar_isSome_iff (h_cursor : s.hardwareCursor < 2000) :
    (aputChar cl s).isSome ↔ CanErase s cl := by
  by_cases h_back : cl = 0x08#8
  · subst h_back
    by_cases h_first : s.hardwareCursor = 0
    · rw [aputChar_first h_first]
      exact iff_of_false (by simp) fun h => h rfl h_first
    · -- the cell in front is in the segment, too
      refine iff_of_true ((aputChar_isSome s _).mpr (.inr (.inr ?_))) fun _ => h_first
      have h_pos : (s.crtc 14#8 ++ s.crtc 15#8).toNat ≠ 0 := h_first
      have h_lt : (s.crtc 14#8 ++ s.crtc 15#8).toNat < 2000 := h_cursor
      have h_prev := prev_toNat h_pos
      rw [if_pos rfl, (cell_bytes (by omega)).1, videoSegment]
      omega
  · obtain ⟨s', h_run, -⟩ := aputChar_spec h_cursor h_back
    rw [h_run]
    exact iff_of_true rfl fun h => absurd h h_back

theorem StaysOnText.throughout_iff (h : StaysOnText s) (cs : List (BitVec 8)) :
    StaysThroughout s cs ↔ ErasesThroughout s cs := by
  induction cs generalizing s with
  | nil => exact iff_of_true h trivial
  | cons cl cs ih =>
    by_cases h_erase : CanErase s cl
    · -- the character is echoed, and the others decide
      obtain ⟨s₁, h_run, h₁⟩ := h.aputChar h_erase
      constructor
      · rintro ⟨-, s', h_run', h_rest⟩
        obtain rfl : s₁ = s' := Option.some.inj (h_run.symm.trans h_run')
        refine ⟨h_erase, fun s' h_s' => ?_⟩
        obtain rfl : s₁ = s' := Option.some.inj (h_run.symm.trans h_s')
        exact (ih h₁).mp h_rest
      · rintro ⟨-, h_rest⟩
        exact ⟨h, s₁, h_run, (ih h₁).mpr (h_rest s₁ h_run)⟩
    · -- a backspace at the first cell: both sides are false
      refine iff_of_false ?_ fun h_all => h_erase h_all.1
      rintro ⟨-, s', h_run, -⟩
      obtain ⟨rfl, h_first⟩ := Classical.not_imp.mp h_erase
      rw [aputChar_first (not_not.mp h_first)] at h_run
      cases h_run

/-- **Exactly when the echo stays on the screen**: it does, after every character of a sequence, if
and only if no backspace comes at the first cell. -/
theorem echo_stays_iff (h_cursor : s.hardwareCursor < 2000) (h_written : s.written = [])
    (cs : List (BitVec 8)) : StaysThroughout s cs ↔ ErasesThroughout s cs := by
  refine StaysOnText.throughout_iff ⟨h_cursor, fun a h_a => ?_⟩ cs
  rw [h_written] at h_a
  cases h_a

end Runs

/-- A character, and a backspace after it. -/
theorem echo_stays_iff_erased : StaysThroughout zeroVga [0x61#8, 0x08#8] := by
  refine (echo_stays_iff (by decide) rfl _).mpr ⟨fun h => absurd h (by decide), fun s' h_s' => ?_⟩
  refine ⟨fun _ h_first => ?_, fun _ _ => trivial⟩
  -- the cursor is behind the character
  obtain ⟨s₁, h_run, h_at, -⟩ := aputChar_spec (s := zeroVga) (by decide)
    (show (0x61#8 : BitVec 8) ≠ 0x08#8 by decide)
  obtain rfl : s₁ = s' := Option.some.inj (h_run.symm.trans h_s')
  rw [h_at.hardware] at h_first
  exact absurd h_first (by decide)

/-- A backspace on an empty screen: `aput_char` faults. -/
theorem echo_leaves_text : zeroVga.hardwareCursor = 0 ∧ zeroVga.written = [] ∧
    aputChar 0x08#8 zeroVga = none ∧ ¬ StaysThroughout zeroVga [0x08#8] := by
  have h_fault : aputChar 0x08#8 zeroVga = none := aputChar_first (by decide)
  refine ⟨by decide, rfl, h_fault, ?_⟩
  rintro ⟨-, s', h_run, -⟩
  rw [h_fault] at h_run
  cases h_run

end ToiletOS
