import Mathlib.Data.List.GetD
import Mathlib.Logic.Function.Basic
import Mathlib.Tactic.Ring

/-!
# A window on the end of a text

A screen of `above + 1` rows of `width` cells, with the place of the next cell. A cell that is put
in the last place of the last row makes the rows move up by one. So the screen is a window on the
text of all cells that were put: once the text has more than `above` full rows, the rows that do not
fit are scrolled off at the top (`TextWindow.Shows`).
-/

namespace ToiletOS

/-- The cells of a screen, row by row, and the place of the next one. -/
structure TextWindow (α : Type*) where
  cells : ℕ → α
  next : ℕ

namespace TextWindow

variable {α : Type*}

section Screen

variable (width above : ℕ) (blank : α)

/-- The rows move up by one, and the last one is blank. -/
def roll (cells : ℕ → α) : ℕ → α := fun p => if p < width * above then cells (p + width) else blank

/-- Put a cell. -/
def put (w : TextWindow α) (c : α) : TextWindow α :=
  if w.next + 1 = width * (above + 1) then
    ⟨roll width above blank (Function.update w.cells w.next c), width * above⟩
  else ⟨Function.update w.cells w.next c, w.next + 1⟩

/-- The number of rows that are scrolled off, of a text of `n` cells. -/
def scrolledOff (n : ℕ) : ℕ := n / width - above

/-- The window shows the end of the text. -/
structure Shows (w : TextWindow α) (text : List α) : Prop where
  next : w.next + width * scrolledOff width above text.length = text.length
  cells : ∀ p < width * (above + 1),
    w.cells p = text.getD (width * scrolledOff width above text.length + p) blank

/-- The same on the screen. -/
structure Agrees (w w' : TextWindow α) : Prop where
  next : w.next = w'.next
  cells : ∀ p < width * (above + 1), w.cells p = w'.cells p

end Screen

variable {width above : ℕ} {blank : α}

/-- An empty screen shows the empty text. -/
theorem shows_nil {w : TextWindow α} (h_next : w.next = 0)
    (h_cells : ∀ p < width * (above + 1), w.cells p = blank) : w.Shows width above blank [] where
  next := by simp [h_next, scrolledOff]
  cells p hp := by simp [h_cells p hp]

theorem Shows.congr {w w' : TextWindow α} {text : List α} (h : w.Shows width above blank text)
    (h_agrees : w'.Agrees width above w) : w'.Shows width above blank text where
  next := by
    rw [h_agrees.next]
    exact h.next
  cells p hp := (h_agrees.cells p hp).trans (h.cells p hp)

/-- The last cell of the text is on the screen, or just behind its last place. -/
theorem lt_of_scrolledOff (h_width : 0 < width) (above n : ℕ) :
    n < width * (scrolledOff width above n + above + 1) := by
  have h_rows : n / width + 1 ≤ scrolledOff width above n + above + 1 := by
    unfold scrolledOff
    omega
  exact (Nat.lt_mul_div_succ n h_width).trans_le (Nat.mul_le_mul_left width h_rows)

/-- A row scrolls off exactly when the last place of the screen is taken. -/
theorem scrolledOff_succ (h_width : 0 < width) (above n : ℕ) :
    scrolledOff width above (n + 1) =
      if n + 1 = width * (scrolledOff width above n + above + 1) then scrolledOff width above n + 1
      else scrolledOff width above n := by
  have h_div : (n + 1) / width = n / width + if width ∣ n + 1 then 1 else 0 := Nat.succ_div
  by_cases h_full : width ∣ n + 1
  · rw [if_pos h_full] at h_div
    have h_row : n + 1 = width * (n / width + 1) := by
      rw [← h_div]
      exact (Nat.mul_div_cancel' h_full).symm
    -- the row is full: it scrolls off only if no row is free below
    by_cases h_below : n / width < above
    · rw [if_neg, scrolledOff, scrolledOff]
      · omega
      · rw [h_row, scrolledOff]
        intro h_eq
        have h_rows := Nat.eq_of_mul_eq_mul_left h_width h_eq
        omega
    · rw [if_pos, scrolledOff, scrolledOff]
      · omega
      · rw [show scrolledOff width above n + above + 1 = n / width + 1 by unfold scrolledOff; omega]
        exact h_row
  · rw [if_neg h_full] at h_div
    -- the row is not full, so the screen is not either
    have h_ne (k : ℕ) : n + 1 ≠ width * k := fun h_eq => h_full (h_eq ▸ Nat.dvd_mul_right ..)
    rw [if_neg (h_ne _), scrolledOff, h_div]
    rfl

/-- **One cell.** The text grows by it. -/
theorem Shows.put (h_width : 0 < width) {w : TextWindow α} {text : List α}
    (h : w.Shows width above blank text) (c : α) :
    (w.put width above blank c).Shows width above blank (text ++ [c]) := by
  obtain ⟨h_next, h_cells⟩ := h
  have h_length : (text ++ [c]).length = text.length + 1 := List.length_append
  have h_succ := scrolledOff_succ h_width above text.length
  have h_lt := lt_of_scrolledOff h_width above text.length
  rw [Nat.add_assoc, Nat.mul_add] at h_succ h_lt
  generalize h_D : scrolledOff width above text.length = D at *
  -- the text with the new cell, where its places are on the screen
  have h_text (p : ℕ) (hp : p < width * (above + 1)) :
      Function.update w.cells w.next c p = (text ++ [c]).getD (width * D + p) blank := by
    by_cases h_p : p = w.next
    · rw [h_p, Function.update_self, Nat.add_comm, h_next]
      simp
    · rw [Function.update_of_ne h_p, h_cells p hp]
      by_cases h_inside : width * D + p < text.length
      · rw [List.getD_append _ _ _ _ h_inside]
      · rw [List.getD_eq_default _ _ (by omega), List.getD_eq_default _ _ (by omega)]
  unfold TextWindow.put
  by_cases h_last : w.next + 1 = width * (above + 1)
  · -- the screen is full: every row moves up by one
    rw [if_pos (by omega)] at h_succ
    rw [if_pos h_last]
    refine ⟨?_, fun p hp => ?_⟩
    · rw [h_length, h_succ, Nat.mul_add, Nat.mul_one]
      rw [Nat.mul_add, Nat.mul_one] at h_last
      simp only
      omega
    · rw [h_length, h_succ]
      simp only [roll]
      rw [Nat.mul_add, Nat.mul_one] at h_last hp
      split
      · next h_above =>
        rw [h_text _ (by rw [Nat.mul_add]; omega), Nat.mul_add, Nat.mul_one]
        congr 1
        omega
      · rw [List.getD_eq_default _ _ (by rw [Nat.mul_add]; omega)]
  · -- there is a place left
    rw [if_neg (by omega)] at h_succ
    rw [if_neg h_last]
    refine ⟨?_, fun p hp => ?_⟩
    · rw [h_length, h_succ]
      simp only
      omega
    · rw [h_length, h_succ]
      exact h_text p hp

/-- Where the next cell goes: its column, and its row. -/
theorem Shows.row_column (h_width : 0 < width) {w : TextWindow α} {text : List α}
    (h : w.Shows width above blank text) :
    w.next % width = text.length % width ∧
      w.next / width = text.length / width - scrolledOff width above text.length ∧
      w.next < width * (above + 1) := by
  have h_next := h.next
  have h_lt := lt_of_scrolledOff h_width above text.length
  refine ⟨?_, ?_, ?_⟩
  · rw [← h_next, Nat.add_mul_mod_self_left]
  · rw [← h_next, Nat.add_mul_div_left _ _ h_width, h_next, Nat.add_sub_cancel]
  · rw [Nat.add_assoc, Nat.mul_add] at h_lt
    omega

end TextWindow
end ToiletOS
