import ToiletOS.Console.Vga

/-!
# The console shows the end of the text

Each call of `vga_putc` puts one cell on a window of 25 rows of 80 cells (`vgaPutc_agrees`), and the
calls of the other functions are sequences of these. So after `clear_screen` the screen is the
window on the end of the text, whatever is printed (`console_shows_end`).
-/

namespace ToiletOS

/-! ### Loops that count -/

/-- What the body of a loop keeps, step by step. -/
theorem foldl_range_induction {σ : Type*} {f : σ → ℕ → σ} {s : σ} {n : ℕ} (motive : ℕ → σ → Prop)
    (h_start : motive 0 s) (h_step : ∀ k < n, ∀ s, motive k s → motive (k + 1) (f s k)) :
    motive n ((List.range n).foldl f s) := by
  induction n with
  | zero => exact h_start
  | succ n ih =>
    rw [List.range_succ, List.foldl_append]
    exact h_step n (Nat.lt_succ_self n) _ (ih fun k hk => h_step k (hk.trans (Nat.lt_succ_self n)))

/-! ### Stores to the screen -/

/-- The addresses of the text memory. -/
def InText (a : BitVec 32) : Prop := ∃ i < 4000, a = addr videoMemory i

/-- Every write fell inside the text memory. -/
def Vga.Inside (s : Vga) : Prop := ∀ a ∈ s.written, InText a

/-- Only the screen has changed. -/
structure Vga.OnlyCells (s s' : Vga) : Prop where
  cursorX : s'.cursorX = s.cursorX
  cursorY : s'.cursorY = s.cursorY
  crtc : s'.crtc = s.crtc
  rolls : s'.rolls = s.rolls
  puts : s'.puts = s.puts
  inside : s.Inside → s'.Inside

theorem Vga.OnlyCells.refl (s : Vga) : s.OnlyCells s := ⟨rfl, rfl, rfl, rfl, rfl, id⟩

theorem Vga.OnlyCells.trans {s₁ s₂ s₃ : Vga} (h : s₁.OnlyCells s₂) (h' : s₂.OnlyCells s₃) :
    s₁.OnlyCells s₃ where
  cursorX := h'.cursorX.trans h.cursorX
  cursorY := h'.cursorY.trans h.cursorY
  crtc := h'.crtc.trans h.crtc
  rolls := h'.rolls.trans h.rolls
  puts := h'.puts.trans h.puts
  inside := h'.inside ∘ h.inside

section Cells

variable {s : Vga} {p q : ℕ}

/-- A store of a cell. -/
def Vga.storeCell (s : Vga) (p : ℕ) (c : Cell) : Vga :=
  (s.store8 (addr videoMemory (2 * p)) c.1).store8 (addr videoMemory (2 * p + 1)) c.2

theorem Vga.cell_storeCell (hp : p < 2000) (hq : q < 2000) (c : Cell) :
    (s.storeCell p c).cell q = if q = p then c else s.cell q := by
  -- no two bytes of the 2000 cells share an address
  have h_ne {i j : ℕ} (hi : i < 4000) (hj : j < 4000) (h : i ≠ j) :
      addr videoMemory i ≠ addr videoMemory j := addr_ne _ (by omega) (by omega) h
  have h_mem : (s.storeCell p c).mem =
      (s.mem.store8 (addr videoMemory (2 * p)) c.1).store8 (addr videoMemory (2 * p + 1)) c.2 := rfl
  unfold Vga.cell
  rw [h_mem]
  split
  · next h_eq =>
    subst h_eq
    rw [ByteMemory.store8_of_ne _ _ (h_ne (by omega) (by omega) (by omega)), ByteMemory.store8_self,
      ByteMemory.store8_self]
  · rw [ByteMemory.store8_of_ne _ _ (h_ne (by omega) (by omega) (by omega)),
      ByteMemory.store8_of_ne _ _ (h_ne (by omega) (by omega) (by omega)),
      ByteMemory.store8_of_ne _ _ (h_ne (by omega) (by omega) (by omega)),
      ByteMemory.store8_of_ne _ _ (h_ne (by omega) (by omega) (by omega))]

theorem Vga.onlyCells_storeCell (hp : p < 2000) (c : Cell) : s.OnlyCells (s.storeCell p c) := by
  refine ⟨rfl, rfl, rfl, rfl, rfl, fun h_inside a h_a => ?_⟩
  rcases List.mem_cons.mp h_a with rfl | h_a
  · exact ⟨2 * p + 1, by omega, rfl⟩
  rcases List.mem_cons.mp h_a with rfl | h_a
  · exact ⟨2 * p, by omega, rfl⟩
  · exact h_inside a h_a

/-- The address of a cell, as the code computes it. -/
theorem videoMemory_add (hp : p < 2000) :
    videoMemory + 2#32 * (BitVec.ofNat 16 p).setWidth 32 = addr videoMemory (2 * p) := by
  have h_p : (BitVec.ofNat 16 p).setWidth 32 = BitVec.ofNat 32 p := by
    apply BitVec.eq_of_toNat_eq
    rw [BitVec.toNat_setWidth, BitVec.toNat_ofNat, BitVec.toNat_ofNat,
      Nat.mod_eq_of_lt (show p < 2 ^ 16 by omega)]
  rw [h_p, addr, BitVec.ofNat_mul]

theorem videoMemory_add_succ (hp : p < 2000) :
    videoMemory + 2#32 * (BitVec.ofNat 16 p).setWidth 32 + 1#32 = addr videoMemory (2 * p + 1) := by
  rw [videoMemory_add hp, ← addr_addr]
  rfl

/-- Copying a cell. -/
theorem uprollCell_eq {j i : ℕ} (hj : j < 24) (hi : i < 80) :
    uprollCell (j + 1) i s = s.storeCell (j * 80 + i) (s.cell (j * 80 + i + 80)) := by
  have h_source : (j + 1) * 80 + i = j * 80 + i + 80 := by omega
  have h_low (a b : BitVec 8) : (a ++ b).extractLsb' 0 8 = b := by
    rw [BitVec.extractLsb'_append_eq_of_add_le (by decide)]
    exact BitVec.extractLsb'_eq_self
  have h_high (a b : BitVec 8) : (a ++ b).extractLsb' 8 8 = a := by
    rw [BitVec.extractLsb'_append_eq_of_le (by decide)]
    exact BitVec.extractLsb'_eq_self
  unfold uprollCell Vga.store16 Vga.load16
  dsimp only
  rw [Nat.add_sub_cancel, h_source, videoMemory_add_succ (by omega),
    videoMemory_add_succ (by omega), videoMemory_add (by omega), videoMemory_add (by omega), h_low,
    h_high]
  rfl

/-- One row. -/
theorem uprollRow_spec {j : ℕ} (hj : j < 24) (s : Vga) :
    s.OnlyCells (uprollRow (j + 1) s) ∧ ∀ p < 2000, (uprollRow (j + 1) s).cell p =
      if j * 80 ≤ p ∧ p < j * 80 + 80 then s.cell (p + 80) else s.cell p := by
  apply foldl_range_induction fun k s' => s.OnlyCells s' ∧ ∀ p < 2000, s'.cell p =
    if j * 80 ≤ p ∧ p < j * 80 + k then s.cell (p + 80) else s.cell p
  · refine ⟨.refl s, fun p _ => ?_⟩
    rw [if_neg (by omega)]
  · rintro k hk s' ⟨h_only, h_cells⟩
    -- the row below has not been written yet
    have h_source : s'.cell (j * 80 + k + 80) = s.cell (j * 80 + k + 80) := by
      rw [h_cells _ (by omega), if_neg (by omega)]
    rw [uprollCell_eq hj hk, h_source]
    refine ⟨h_only.trans (Vga.onlyCells_storeCell (by omega) _), fun p hp => ?_⟩
    rw [Vga.cell_storeCell (by omega) hp, h_cells p hp]
    by_cases h_p : p = j * 80 + k
    · rw [if_pos h_p, if_pos (by omega), h_p]
    · rw [if_neg h_p]
      congr 1
      exact propext ⟨fun h => by omega, fun h => by omega⟩

/-- All rows. -/
theorem uprollRows_spec (s : Vga) :
    s.OnlyCells (uprollRows s) ∧ ∀ p < 2000, (uprollRows s).cell p =
      if p < 1920 then s.cell (p + 80) else s.cell p := by
  apply foldl_range_induction fun k s' => s.OnlyCells s' ∧ ∀ p < 2000, s'.cell p =
    if p < k * 80 then s.cell (p + 80) else s.cell p
  · refine ⟨.refl s, fun p _ => ?_⟩
    rw [if_neg (by omega)]
  · rintro k hk s' ⟨h_only, h_cells⟩
    obtain ⟨h_row, h_row_cells⟩ := uprollRow_spec hk s'
    refine ⟨h_only.trans h_row, fun p hp => ?_⟩
    rw [h_row_cells p hp, h_cells p hp]
    split
    · rw [h_cells _ (by omega), if_neg (by omega), if_pos (by omega)]
    · congr 1
      exact propext ⟨fun h => by omega, fun h => by omega⟩

/-- The cell of a blank row. -/
def blankCell : Cell := (0#8, 0x0f#8)

theorem uprollBlank_eq {i : ℕ} (hi : i < 80) :
    uprollBlank i s = s.storeCell (1920 + i) blankCell := by
  unfold uprollBlank
  dsimp only
  rw [videoMemory_add_succ (by omega), videoMemory_add (by omega)]
  rfl

/-- The last row. -/
theorem uprollLastRow_spec (s : Vga) :
    s.OnlyCells (uprollLastRow s) ∧ ∀ p < 2000, (uprollLastRow s).cell p =
      if p < 1920 then s.cell p else blankCell := by
  -- the loop has blanked the first `k` places of the row
  have h_loop : s.OnlyCells (uprollLastRow s) ∧ ∀ p < 2000, (uprollLastRow s).cell p =
      if p < 1920 ∨ 1920 + 80 ≤ p then s.cell p else blankCell := by
    apply foldl_range_induction fun k s' => s.OnlyCells s' ∧ ∀ p < 2000, s'.cell p =
      if p < 1920 ∨ 1920 + k ≤ p then s.cell p else blankCell
    · refine ⟨.refl s, fun p _ => ?_⟩
      rw [if_pos (by omega)]
    · rintro k hk s' ⟨h_only, h_cells⟩
      rw [uprollBlank_eq hk]
      refine ⟨h_only.trans (Vga.onlyCells_storeCell (by omega) _), fun p hp => ?_⟩
      rw [Vga.cell_storeCell (by omega) hp, h_cells p hp]
      by_cases h_p : p = 1920 + k
      · rw [if_pos h_p, if_neg (by omega)]
      · rw [if_neg h_p]
        congr 1
        exact propext ⟨fun h => by omega, fun h => by omega⟩
  refine ⟨h_loop.1, fun p hp => ?_⟩
  rw [h_loop.2 p hp]
  congr 1
  exact propext ⟨fun h => by omega, fun h => by omega⟩

end Cells

/-! ### The cursor -/

/-- The cursor of the driver is on the screen. -/
structure Vga.OnScreen (s : Vga) : Prop where
  cursorX : s.cursorX.toNat < 80
  cursorY : s.cursorY.toNat < 25

/-- The screen, with the place of the driver's cursor. -/
def Vga.window (s : Vga) : TextWindow Cell := ⟨s.cell, s.cursorLocation.toNat⟩

/-- Both cursors are at the same place. -/
def Vga.InStep (s : Vga) : Prop := s.hardwareCursor = s.cursorLocation.toNat

variable {s : Vga}

theorem Vga.OnScreen.toNat_location (h : s.OnScreen) :
    s.cursorLocation.toNat = 80 * s.cursorY.toNat + s.cursorX.toNat := by
  obtain ⟨h_x, h_y⟩ := h
  rw [Vga.cursorLocation, BitVec.toNat_add, BitVec.toNat_mul, BitVec.toNat_setWidth,
    BitVec.toNat_setWidth]
  simp only [BitVec.toNat_ofNat]
  omega

/-- The position that is sent to the registers 14 and 15. -/
theorem Vga.hardwareCursor_outb (s : Vga) (v : BitVec 16) :
    ((((s.outb 0x3d4#16 14#8).outb 0x3d5#16 ((v >>> 8).setWidth 8)).outb 0x3d4#16 15#8).outb
      0x3d5#16 (v.setWidth 8)).hardwareCursor = v.toNat := by
  have h_append : (v >>> 8).setWidth 8 ++ v.setWidth 8 = v := by
    ext i hi
    simp only [BitVec.getElem_append, BitVec.getElem_setWidth, BitVec.getLsbD_ushiftRight]
    split
    · exact BitVec.getLsbD_eq_getElem hi
    · rw [show 8 + (i - 8) = i by omega]
      exact BitVec.getLsbD_eq_getElem hi
  exact congrArg BitVec.toNat h_append

/-- The ports reach the registers of the cursor only. -/
theorem Vga.outb_same (s : Vga) (port : BitVec 16) (value : BitVec 8) :
    (s.outb port value).cursorX = s.cursorX ∧ (s.outb port value).cursorY = s.cursorY ∧
      (s.outb port value).mem = s.mem ∧ (s.outb port value).written = s.written ∧
      (s.outb port value).puts = s.puts ∧ (s.outb port value).rolls = s.rolls := by
  unfold Vga.outb
  split_ifs <;> exact ⟨rfl, rfl, rfl, rfl, rfl, rfl⟩

/-- The screen, and the ghost components, are the same. -/
structure Vga.SameScreen (s s' : Vga) : Prop where
  mem : s'.mem = s.mem
  written : s'.written = s.written
  puts : s'.puts = s.puts
  rolls : s'.rolls = s.rolls

theorem Vga.SameScreen.cell {s s' : Vga} (h : s.SameScreen s') : s'.cell = s.cell := by
  funext p
  rw [Vga.cell, Vga.cell, h.mem]

theorem Vga.SameScreen.inside {s s' : Vga} (h : s.SameScreen s') (h_inside : s.Inside) :
    s'.Inside := by
  unfold Vga.Inside
  rw [h.written]
  exact h_inside

@[simp] theorem moveCursor_cursorX (s : Vga) : (moveCursor s).cursorX = s.cursorX := by
  simp only [moveCursor, Vga.outb_same]

@[simp] theorem moveCursor_cursorY (s : Vga) : (moveCursor s).cursorY = s.cursorY := by
  simp only [moveCursor, Vga.outb_same]

theorem moveCursor_inStep (s : Vga) : (moveCursor s).InStep := by
  rw [Vga.InStep, Vga.cursorLocation, moveCursor_cursorX, moveCursor_cursorY]
  exact s.hardwareCursor_outb s.cursorLocation

theorem moveCursor_sameScreen (s : Vga) (x y : BitVec 8) :
    s.SameScreen (moveCursor (s.setXY x y)) := by
  constructor <;> simp only [moveCursor, Vga.outb_same] <;> rfl

theorem uprollCursor_sameScreen (s : Vga) : s.SameScreen (uprollCursor s) := by
  unfold uprollCursor
  split
  · exact moveCursor_sameScreen s _ _
  · exact ⟨rfl, rfl, rfl, rfl⟩

theorem uprollCursor_spec (s : Vga) : (uprollCursor s).cell = s.cell ∧
    (uprollCursor s).puts = s.puts ∧ (uprollCursor s).rolls = s.rolls ∧
      (s.Inside → (uprollCursor s).Inside) := by
  have h_same := uprollCursor_sameScreen s
  exact ⟨h_same.cell, h_same.puts, h_same.rolls, h_same.inside⟩

section NoteRoll

variable (s : Vga)

theorem Vga.noteRoll_cell : s.noteRoll.cell = s.cell := by
  funext p
  rw [Vga.cell, Vga.cell]
  rfl

theorem Vga.noteRoll_puts : s.noteRoll.puts = s.puts := rfl

theorem Vga.noteRoll_rolls : s.noteRoll.rolls = s.rolls + 1 := rfl

theorem Vga.noteRoll_inside (h : s.Inside) : s.noteRoll.Inside := by
  intro a ha
  exact h a ha

end NoteRoll

/-- What `screen_uproll_once` does to the screen. -/
theorem screenUprollOnce_spec (s : Vga) :
    (∀ p < 2000, (screenUprollOnce s).cell p = TextWindow.roll 80 24 blankCell s.cell p) ∧
      (s.Inside → (screenUprollOnce s).Inside) ∧ (screenUprollOnce s).puts = s.puts ∧
      (screenUprollOnce s).rolls = s.rolls + 1 := by
  obtain ⟨h_rows, h_rows_cells⟩ := uprollRows_spec s
  obtain ⟨h_last, h_last_cells⟩ := uprollLastRow_spec (uprollRows s)
  have h_both := h_rows.trans h_last
  unfold screenUprollOnce
  generalize uprollLastRow (uprollRows s) = t at *
  obtain ⟨h_cell, h_puts, h_rolls, h_inside⟩ := uprollCursor_spec t.noteRoll
  rw [t.noteRoll_cell] at h_cell
  rw [t.noteRoll_puts] at h_puts
  rw [t.noteRoll_rolls] at h_rolls
  refine ⟨?_, ?_, ?_, ?_⟩
  · intro p hp
    -- a place above the last row has what was one row below it
    rw [h_cell, h_last_cells p hp, h_rows_cells p hp, TextWindow.roll]
    by_cases h_above : p < 1920
    · rw [if_pos h_above, if_pos h_above, if_pos (by omega)]
    · rw [if_neg h_above, if_neg (by omega)]
  · intro h
    apply h_inside
    exact t.noteRoll_inside (h_both.inside h)
  · rw [h_puts, h_both.puts]
  · rw [h_rolls, h_both.rolls]

/-- What `vga_putc` does: one cell is put on the window. -/
structure PutsCell (s s' : Vga) (c : Cell) : Prop where
  onScreen : s'.OnScreen
  inStep : s'.InStep
  agrees : s'.window.Agrees 80 24 (s.window.put 80 24 blankCell c)
  inside : s.Inside → s'.Inside
  puts : s'.puts = (80 * s.rolls + s.window.next) :: s.puts
  rolls : s'.rolls = if s.window.next + 1 = 2000 then s.rolls + 1 else s.rolls

theorem Vga.OnScreen.next_eq (h : s.OnScreen) :
    s.window.next = 80 * s.cursorY.toNat + s.cursorX.toNat := h.toNat_location

theorem Vga.OnScreen.next_lt (h : s.OnScreen) : s.window.next < 2000 := by
  have h_x := h.cursorX
  have h_y := h.cursorY
  rw [h.next_eq]
  omega

/-- The stores of `vga_putc`. -/
theorem vgaStore_eq (h : s.OnScreen) (input : BitVec 8) (back fore : VgaColor) :
    vgaStore input back fore s =
      (s.storeCell s.window.next (input, cellAttribute back fore)).notePut s.window.next := by
  have h_place : s.cursorLocation = BitVec.ofNat 16 s.window.next := by
    rw [Vga.window, BitVec.ofNat_toNat, BitVec.setWidth_eq]
  unfold vgaStore
  dsimp only
  rw [h_place, videoMemory_add_succ h.next_lt, videoMemory_add h.next_lt, ← h_place]
  rfl

/-- The cell is stored. -/
theorem cell_stored (h : s.OnScreen) (c : Cell) {p : ℕ} (hp : p < 2000) :
    ((s.storeCell s.window.next c).notePut s.window.next).cell p =
      Function.update s.window.cells s.window.next c p := by
  have h_cell := Vga.cell_storeCell (s := s) h.next_lt hp c
  rw [Function.update_apply]
  exact h_cell

/-- What the stores change. -/
theorem stored_rest (h : s.OnScreen) (c : Cell) {t : Vga}
    (h_t : (s.storeCell s.window.next c).notePut s.window.next = t) :
    (∀ p < 2000, t.cell p = Function.update s.window.cells s.window.next c p) ∧
      (s.Inside → t.Inside) ∧ t.puts = (80 * s.rolls + s.window.next) :: s.puts ∧
      t.rolls = s.rolls ∧ t.cursorX = s.cursorX ∧ t.cursorY = s.cursorY := by
  subst h_t
  exact ⟨fun p hp => cell_stored h c hp, (Vga.onlyCells_storeCell h.next_lt c).inside, rfl, rfl,
    rfl, rfl⟩

/-- The cursor moves on. -/
theorem PutsCell.of_move (h : s.OnScreen) (c : Cell) {t : Vga}
    (h_t : (s.storeCell s.window.next c).notePut s.window.next = t) {x y : BitVec 8}
    (h_x : x.toNat < 80) (h_y : y.toNat < 25)
    (h_place : 80 * y.toNat + x.toNat = s.window.next + 1) :
    PutsCell s (moveCursor (t.setXY x y)) c := by
  obtain ⟨h_cells, h_inside, h_puts, h_rolls, -⟩ := stored_rest h c h_t
  have h_same := moveCursor_sameScreen t x y
  have h_on : (moveCursor (t.setXY x y)).OnScreen := by
    constructor
    · rw [moveCursor_cursorX]; exact h_x
    · rw [moveCursor_cursorY]; exact h_y
  -- there is a place left, so no row scrolls off
  have h_not_last : s.window.next + 1 ≠ 80 * (24 + 1) := by omega
  refine ⟨h_on, moveCursor_inStep _, ⟨?_, fun p hp => ?_⟩, fun h => h_same.inside (h_inside h),
    h_same.puts.trans h_puts, ?_⟩
  · rw [TextWindow.put, if_neg h_not_last, h_on.next_eq, moveCursor_cursorX, moveCursor_cursorY]
    exact h_place
  · rw [TextWindow.put, if_neg h_not_last]
    exact (congrFun h_same.cell p).trans (h_cells p hp)
  · rw [h_same.rolls, if_neg h_not_last, h_rolls]

/-- The last place of the screen is taken, and the rows move up. -/
theorem PutsCell.of_roll (h : s.OnScreen) (c : Cell) {t : Vga}
    (h_t : (s.storeCell s.window.next c).notePut s.window.next = t)
    (h_last : s.window.next + 1 = 2000) :
    PutsCell s (moveCursor ((screenUprollOnce t).setXY 0#8 24#8)) c := by
  obtain ⟨h_cells, h_inside, h_puts, h_rolls, -⟩ := stored_rest h c h_t
  obtain ⟨h_up_cells, h_up_inside, h_up_puts, h_up_rolls⟩ := screenUprollOnce_spec t
  have h_same := moveCursor_sameScreen (screenUprollOnce t) 0#8 24#8
  generalize screenUprollOnce t = u at *
  -- the cursor goes to the start of the last row
  have h_on : (moveCursor (u.setXY 0#8 24#8)).OnScreen := by
    constructor
    · rw [moveCursor_cursorX]; exact Nat.zero_lt_succ _
    · rw [moveCursor_cursorY]; exact Nat.lt_succ_self _
  refine ⟨h_on, moveCursor_inStep _, ⟨?_, fun p hp => ?_⟩,
    fun h => h_same.inside (h_up_inside (h_inside h)), ?_, ?_⟩
  · rw [TextWindow.put, if_pos h_last, h_on.next_eq, moveCursor_cursorX, moveCursor_cursorY]
    rfl
  · rw [TextWindow.put, if_pos h_last]
    refine (congrFun h_same.cell p).trans ((h_up_cells p hp).trans ?_)
    -- the rows that moved up are those with the new cell in them
    simp only [TextWindow.roll]
    split
    · exact h_cells _ (by omega)
    · rfl
  · rw [h_same.puts, h_up_puts, h_puts]
  · rw [h_same.rolls, h_up_rolls, h_rolls, if_pos h_last]

/-- **`vga_putc` puts one cell.** -/
theorem vgaPutc_spec (h : s.OnScreen) (input : BitVec 8) (back fore : VgaColor) :
    PutsCell s (vgaPutc input back fore s) (input, cellAttribute back fore) := by
  have h_next := h.next_eq
  have h_x := h.cursorX
  have h_y := h.cursorY
  unfold vgaPutc
  dsimp only
  rw [vgaStore_eq h]
  generalize h_t : (s.storeCell s.window.next (input, cellAttribute back fore)).notePut
    s.window.next = t
  obtain ⟨-, -, -, -, h_tx, h_ty⟩ := stored_rest h _ h_t
  rw [h_tx, h_ty]
  -- the end of the row is tested first, and the last row only there
  by_cases h_end : s.cursorX = 79#8
  · rw [if_pos h_end]
    rw [h_end] at h_next
    by_cases h_bottom : s.cursorY = 24#8
    · rw [if_pos h_bottom]
      rw [h_bottom] at h_next
      -- the last place of the screen
      exact .of_roll h _ h_t (by rw [h_next]; rfl)
    · rw [if_neg h_bottom]
      -- the next row
      have h_ne : s.cursorY.toNat ≠ 24 := fun h_eq => h_bottom (BitVec.eq_of_toNat_eq h_eq)
      have h_succ : (s.cursorY + 1#8).toNat = s.cursorY.toNat + 1 := by
        rw [BitVec.toNat_add]
        simp only [BitVec.toNat_ofNat]
        omega
      refine .of_move h _ h_t (Nat.zero_lt_succ _) (by omega) ?_
      rw [h_succ, h_next]
      simp only [BitVec.toNat_ofNat]
      omega
  · rw [if_neg h_end]
    -- the next place of the row
    have h_ne : s.cursorX.toNat ≠ 79 := fun h_eq => h_end (BitVec.eq_of_toNat_eq h_eq)
    have h_succ : (s.cursorX + 1#8).toNat = s.cursorX.toNat + 1 := by
      rw [BitVec.toNat_add]
      simp only [BitVec.toNat_ofNat]
      omega
    exact .of_move h _ h_t (by omega) h_y (by omega)

/-! ### Clearing the screen -/

/-- Cells that are put one after another. -/
theorem clear_loop (h : s.OnScreen) (h_start : s.window.next = 0) (k : ℕ) (hk : k < 2000) :
    ((vgaPutc 0#8 .black .white)^[k] s).OnScreen ∧
      ((vgaPutc 0#8 .black .white)^[k] s).window.next = k ∧
      (∀ p < k, ((vgaPutc 0#8 .black .white)^[k] s).cell p = blankCell) ∧
      (s.Inside → ((vgaPutc 0#8 .black .white)^[k] s).Inside) := by
  induction k with
  | zero => exact ⟨h, h_start, fun p hp => absurd hp (Nat.not_lt_zero p), id⟩
  | succ k ih =>
    obtain ⟨h_on, h_next, h_cells, h_inside⟩ := ih (by omega)
    rw [Function.iterate_succ_apply']
    generalize (vgaPutc 0#8 .black .white)^[k] s = t at *
    have h_put := vgaPutc_spec h_on 0#8 .black .white
    have h_agrees := h_put.agrees
    rw [TextWindow.put, h_next, if_neg (by omega)] at h_agrees
    refine ⟨h_put.onScreen, h_agrees.next, fun p hp => ?_, h_put.inside ∘ h_inside⟩
    refine (h_agrees.cells p (by omega)).trans ?_
    -- the round has written the place `k`, the earlier ones the places before it
    by_cases h_p : p = k
    · rw [h_p]
      exact Function.update_self ..
    · exact (Function.update_of_ne h_p ..).trans (h_cells p (by omega))

/-- **`clear_screen`** leaves a blank screen with both cursors at its first place. -/
theorem clearScreen_spec (s : Vga) :
    (clearScreen s).OnScreen ∧ (clearScreen s).InStep ∧ (s.Inside → (clearScreen s).Inside) ∧
      (clearScreen s).window.Shows 80 24 blankCell [] := by
  have h_on : (s.setXY 0#8 0#8).OnScreen := ⟨Nat.zero_lt_succ _, Nat.zero_lt_succ _⟩
  -- the two loops are 2000 rounds, and only the last one leaves the screen
  have h_loops : ((vgaPutc 0#8 .black .white)^[80])^[25] (s.setXY 0#8 0#8) =
      vgaPutc 0#8 .black .white ((vgaPutc 0#8 .black .white)^[1999] (s.setXY 0#8 0#8)) := by
    rw [← Function.iterate_mul, show 80 * 25 = 1999 + 1 from rfl, Function.iterate_succ_apply']
  obtain ⟨h_on', h_next, h_cells, h_inside⟩ := clear_loop h_on h_on.next_eq 1999 (by omega)
  unfold clearScreen
  dsimp only
  rw [h_loops]
  generalize (vgaPutc 0#8 .black .white)^[1999] (s.setXY 0#8 0#8) = t at *
  -- the last cell makes the rows move up
  have h_put := vgaPutc_spec h_on' 0#8 .black .white
  have h_blank : ∀ p < 2000, (vgaPutc 0#8 .black .white t).cell p = blankCell := by
    intro p hp
    refine (h_put.agrees.cells p hp).trans ?_
    rw [TextWindow.put, h_next, if_pos (by omega)]
    simp only [TextWindow.roll]
    split
    · by_cases h_p : p + 80 = 1999
      · rw [h_p]
        exact Function.update_self ..
      · exact (Function.update_of_ne h_p ..).trans (h_cells _ (by omega))
    · rfl
  generalize vgaPutc 0#8 .black .white t = u at *
  have h_same := moveCursor_sameScreen u 0#8 0#8
  -- the cursors are sent home
  have h_home : (moveCursor (u.setXY 0#8 0#8)).OnScreen := by
    constructor
    · rw [moveCursor_cursorX]; exact Nat.zero_lt_succ _
    · rw [moveCursor_cursorY]; exact Nat.zero_lt_succ _
  refine ⟨h_home, moveCursor_inStep _, fun h => h_same.inside (h_put.inside (h_inside h)), ?_⟩
  apply TextWindow.shows_nil
  · rw [h_home.next_eq, moveCursor_cursorX, moveCursor_cursorY]
    rfl
  · intro p hp
    exact (congrFun h_same.cell p).trans (h_blank p hp)

/-! ### The text -/

/-- The cells of a character that comes behind `n` cells. -/
def charCells (input : BitVec 8) (back fore : VgaColor) (n : ℕ) : List Cell :=
  if input = 0x09#8 then List.replicate 4 (0#8, cellAttribute back fore)
  else if input = 0x0a#8 then List.replicate (80 - n % 80) (0#8, cellAttribute back fore)
  else [(input, cellAttribute back fore)]

/-- The text with the cells of a string behind it. -/
def appendString (back fore : VgaColor) : List (BitVec 8) → List Cell → List Cell
  | [], text => text
  | input :: rest, text =>
    if input = 0#8 then text
    else appendString back fore rest (text ++ charCells input back fore text.length)

/-- What holds between two calls, when the text has been printed. -/
structure Printed (s : Vga) (text : List Cell) : Prop where
  onScreen : s.OnScreen
  inStep : s.InStep
  inside : s.Inside
  shows : s.window.Shows 80 24 blankCell text

section Printed

variable {text : List Cell}

theorem Printed.vgaPutc (h : Printed s text) (input : BitVec 8) (back fore : VgaColor) :
    Printed (vgaPutc input back fore s) (text ++ [(input, cellAttribute back fore)]) := by
  have h_put := vgaPutc_spec h.onScreen input back fore
  exact ⟨h_put.onScreen, h_put.inStep, h_put.inside h.inside,
    (h.shows.put (by decide) _).congr h_put.agrees⟩

theorem Printed.iterate_vgaPutc (h : Printed s text) (input : BitVec 8) (back fore : VgaColor)
    (k : ℕ) : Printed ((ToiletOS.vgaPutc input back fore)^[k] s)
      (text ++ List.replicate k (input, cellAttribute back fore)) := by
  induction k with
  | zero => rwa [List.replicate_zero, List.append_nil]
  | succ k ih =>
    rw [Function.iterate_succ_apply', List.replicate_succ', ← List.append_assoc]
    exact ih.vgaPutc input back fore

/-- The column of the cursor is that of the next cell of the text. -/
theorem Printed.column (h : Printed s text) : s.cursorX.toNat = text.length % 80 := by
  obtain ⟨h_column, -⟩ := h.shows.row_column (by decide)
  have h_x := h.onScreen.cursorX
  rw [h.onScreen.next_eq] at h_column
  omega

theorem Printed.row (h : Printed s text) :
    s.cursorY.toNat = text.length / 80 - (text.length / 80 - 24) := by
  obtain ⟨-, h_row, -⟩ := h.shows.row_column (by decide)
  have h_x := h.onScreen.cursorX
  rw [h.onScreen.next_eq, TextWindow.scrolledOff] at h_row
  omega

theorem Printed.kputcColor (h : Printed s text) (input : BitVec 8) (back fore : VgaColor) :
    Printed (kputcColor input back fore s) (text ++ charCells input back fore text.length) := by
  have h_column := h.column
  have h_x := h.onScreen.cursorX
  unfold ToiletOS.kputcColor charCells
  split_ifs with h_tab h_line
  · exact h.iterate_vgaPutc 0#8 back fore 4
  · -- the rest of the row, which is never empty
    have h_left : (80#8 - s.cursorX).toNat = 80 - text.length % 80 := by
      rw [BitVec.toNat_sub]
      simp only [BitVec.toNat_ofNat]
      omega
    have h_ne : 80#8 - s.cursorX ≠ 0#8 := by
      intro h_eq
      rw [h_eq] at h_left
      simp only [BitVec.toNat_ofNat] at h_left
      omega
    dsimp only
    rw [if_neg h_ne, h_left]
    exact h.iterate_vgaPutc 0#8 back fore _
  · exact h.vgaPutc input back fore

theorem Printed.kputsColor (h : Printed s text) (back fore : VgaColor) (str : List (BitVec 8)) :
    Printed (kputsColor back fore str s) (appendString back fore str text) := by
  induction str generalizing s text with
  | nil => exact h
  | cons input rest ih =>
    unfold ToiletOS.kputsColor appendString
    split
    · exact h
    · exact ih (h.kputcColor input back fore)

end Printed

/-! ### The end of the text -/

/-- A call of `kputs_color`. -/
structure KputsCall where
  inputStr : List (BitVec 8)
  back : VgaColor
  fore : VgaColor

/-- `clear_screen`, and then the calls. -/
def printAll (calls : List KputsCall) (s : Vga) : Vga :=
  calls.foldl (fun s call => kputsColor call.back call.fore call.inputStr s) (clearScreen s)

/-- The cells of all strings. -/
def textOf (calls : List KputsCall) : List Cell :=
  calls.foldl (fun text call => appendString call.back call.fore call.inputStr text) []

/-- The screen shows the last rows of the text, and the cursors stand behind it. -/
structure ShowsEnd (s : Vga) (text : List Cell) : Prop where
  cursorX : s.cursorX.toNat = text.length % 80
  cursorY : s.cursorY.toNat = text.length / 80 - (text.length / 80 - 24)
  hardware : s.hardwareCursor = s.cursorY.toNat * 80 + s.cursorX.toNat
  inside : ∀ a ∈ s.written, ∃ i < 4000, a = addr videoMemory i
  cells : ∀ r < 25, ∀ x < 80,
    s.cell (r * 80 + x) = text.getD ((text.length / 80 - 24 + r) * 80 + x) (0#8, 0x0f#8)

theorem Printed.showsEnd {text : List Cell} (h : Printed s text) : ShowsEnd s text where
  cursorX := h.column
  cursorY := h.row
  hardware := by
    rw [h.inStep, h.onScreen.toNat_location, Nat.mul_comm]
  inside := h.inside
  cells r hr x hx := by
    have h_cell := h.shows.cells (r * 80 + x) (by omega)
    rw [TextWindow.scrolledOff] at h_cell
    refine h_cell.trans (congrArg (fun i => text.getD i blankCell) ?_)
    omega

theorem printed_printAll (s : Vga) (h_written : s.written = []) (calls : List KputsCall) :
    Printed (printAll calls s) (textOf calls) := by
  unfold printAll textOf
  have h_start : Printed (clearScreen s) [] := by
    obtain ⟨h_on, h_step, h_inside, h_shows⟩ := clearScreen_spec s
    refine ⟨h_on, h_step, h_inside fun a h_a => ?_, h_shows⟩
    rw [h_written] at h_a
    exact absurd h_a List.not_mem_nil
  generalize clearScreen s = t, ([] : List Cell) = text at h_start ⊢
  induction calls generalizing t text with
  | nil => exact h_start
  | cons call calls ih => exact ih _ _ (h_start.kputsColor call.back call.fore call.inputStr)

/-- **The console shows the end of the text**, from any state, whatever is printed. -/
theorem console_shows_end (s : Vga) (calls : List KputsCall) :
    ShowsEnd (printAll calls { s with written := [] }) (textOf calls) :=
  (printed_printAll _ rfl calls).showsEnd

end ToiletOS
