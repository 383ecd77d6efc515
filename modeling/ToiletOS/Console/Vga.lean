import ToiletOS.Framework.ByteMemory
import ToiletOS.Framework.TextWindow

/-!
# The console driver

The functions of `vga_basic.c` over the text memory of the VGA card and its cursor registers. A cell
of the screen is two bytes, the character and its attribute. The position of the next cell is kept
twice: in `cursor_x` and `cursor_y`, and in the registers 14 and 15 of the card, which `move_cursor`
writes.

The state has three ghost components: the addresses that were written, how often the screen was
rolled up, and the places at which cells were put, counted from the first cell of the text.
-/

namespace ToiletOS

/-! ### The card -/

/-- `vga_color_t`. -/
inductive VgaColor
  | black | blue | green | cyan | red | magenta | brown | lightGrey | darkGrey | lightBlue
  | lightGreen | lightCyan | lightRed | lightMagenta | yellow | white
  deriving DecidableEq, Repr

/-- The value of a colour. -/
def VgaColor.code : VgaColor → BitVec 32
  | black => 0 | blue => 1 | green => 2 | cyan => 3 | red => 4 | magenta => 5 | brown => 6
  | lightGrey => 7 | darkGrey => 8 | lightBlue => 9 | lightGreen => 10 | lightCyan => 11
  | lightRed => 12 | lightMagenta => 13 | yellow => 14 | white => 15

/-- `(back<<4)|(fore&0x0F)`, as a `char`. -/
def cellAttribute (back fore : VgaColor) : BitVec 8 :=
  (back.code <<< 4 ||| fore.code &&& 0x0f#32).setWidth 8

/-- A character and its attribute. -/
abbrev Cell : Type := BitVec 8 × BitVec 8

/-- `video_memory`. -/
def videoMemory : BitVec 32 := 0xb8000#32

/-- The static variables of `vga_basic.c`, and the card. -/
structure Vga where
  cursorX : BitVec 8
  cursorY : BitVec 8
  mem : ByteMemory
  -- the register that the port 0x3d5 stands for, and the registers
  crtcIndex : BitVec 8
  crtc : BitVec 8 → BitVec 8
  -- ghost
  written : List (BitVec 32)
  rolls : ℕ
  puts : List ℕ

namespace Vga

variable (s : Vga)

/-- `outb`, to one of the ports of the card. -/
def outb (port : BitVec 16) (value : BitVec 8) : Vga :=
  if port = 0x3d4#16 then { s with crtcIndex := value }
  else if port = 0x3d5#16 then { s with crtc := Function.update s.crtc s.crtcIndex value }
  else s

/-- `inb`, from the data port of the card. -/
def inb : BitVec 8 := s.crtc s.crtcIndex

/-- Store a byte. -/
def store8 (a : BitVec 32) (v : BitVec 8) : Vga :=
  { s with mem := s.mem.store8 a v, written := a :: s.written }

/-- Load a `uint16_t`. -/
def load16 (a : BitVec 32) : BitVec 16 := s.mem (a + 1#32) ++ s.mem a

/-- Store a `uint16_t`. -/
def store16 (a : BitVec 32) (v : BitVec 16) : Vga :=
  (s.store8 a (v.extractLsb' 0 8)).store8 (a + 1#32) (v.extractLsb' 8 8)

/-- Assign `cursor_x` and `cursor_y`. -/
def setXY (x y : BitVec 8) : Vga := { s with cursorX := x, cursorY := y }

/-- Ghost: a cell is put at this place of the screen. -/
def notePut (location : ℕ) : Vga := { s with puts := (80 * s.rolls + location) :: s.puts }

/-- Ghost: a row is scrolled off. -/
def noteRoll : Vga := { s with rolls := s.rolls + 1 }

end Vga

/-! ### The functions -/

/-- The local `cursorLocation`. -/
def Vga.cursorLocation (s : Vga) : BitVec 16 :=
  s.cursorY.setWidth 16 * 80#16 + s.cursorX.setWidth 16

/-- `move_cursor`. -/
def moveCursor (s : Vga) : Vga :=
  let cursorLocation := s.cursorLocation
  (((s.outb 0x3d4#16 14#8).outb 0x3d5#16 ((cursorLocation >>> 8).setWidth 8)).outb 0x3d4#16
    15#8).outb 0x3d5#16 (cursorLocation.setWidth 8)

/-- `move_cursor_by_XY`. -/
def moveCursorByXY (x y : BitVec 8) (s : Vga) : Vga :=
  if x > 79#8 ∨ y > 24#8 then s else moveCursor (s.setXY x y)

/-- The body of the first loops of `screen_uproll_once`. -/
def uprollCell (j i : ℕ) (s : Vga) : Vga :=
  let cursorLocation := BitVec.ofNat 16 (j * 80 + i)
  let targetCursorLocation := BitVec.ofNat 16 ((j - 1) * 80 + i)
  s.store16 (videoMemory + 2#32 * targetCursorLocation.setWidth 32)
    (s.load16 (videoMemory + 2#32 * cursorLocation.setWidth 32))

/-- The body of the last loop of `screen_uproll_once`. -/
def uprollBlank (i : ℕ) (s : Vga) : Vga :=
  let lastRowCur := BitVec.ofNat 16 (24 * 80 + i)
  (s.store8 (videoMemory + 2#32 * lastRowCur.setWidth 32) 0#8).store8
    (videoMemory + 2#32 * lastRowCur.setWidth 32 + 1#32) 0x0f#8

/-- The loop over one row. -/
def uprollRow (j : ℕ) (s : Vga) : Vga := (List.range 80).foldl (fun s i => uprollCell j i s) s

/-- The loops of `screen_uproll_once`. -/
def uprollRows (s : Vga) : Vga := (List.range 24).foldl (fun s j => uprollRow (j + 1) s) s

/-- The last loop of `screen_uproll_once`. -/
def uprollLastRow (s : Vga) : Vga := (List.range 80).foldl (fun s i => uprollBlank i s) s

/-- The end of `screen_uproll_once`. -/
def uprollCursor (s : Vga) : Vga :=
  if s.cursorY ≠ 0#8 then moveCursor (s.setXY s.cursorX (s.cursorY - 1#8)) else s

/-- `screen_uproll_once`. -/
def screenUprollOnce (s : Vga) : Vga := uprollCursor (uprollLastRow (uprollRows s)).noteRoll

/-- The two stores of `vga_putc`. -/
def vgaStore (input : BitVec 8) (back fore : VgaColor) (s : Vga) : Vga :=
  let cursorLocation := s.cursorLocation
  ((s.store8 (videoMemory + 2#32 * cursorLocation.setWidth 32) input).store8
    (videoMemory + 2#32 * cursorLocation.setWidth 32 + 1#32) (cellAttribute back fore)).notePut
      cursorLocation.toNat

/-- `vga_putc`. -/
def vgaPutc (input : BitVec 8) (back fore : VgaColor) (s : Vga) : Vga :=
  let s := vgaStore input back fore s
  if s.cursorX = 79#8 then
    if s.cursorY = 24#8 then moveCursor ((screenUprollOnce s).setXY 0#8 24#8)
    else moveCursor (s.setXY 0#8 (s.cursorY + 1#8))
  else moveCursor (s.setXY (s.cursorX + 1#8) s.cursorY)

/-- `clear_screen`. -/
def clearScreen (s : Vga) : Vga :=
  let s := s.setXY 0#8 0#8
  let s := ((vgaPutc 0#8 .black .white)^[80])^[25] s
  moveCursor (s.setXY 0#8 0#8)

/-- `tab_length`. -/
def tabLength : BitVec 8 := 4#8

/-- `kputc_color`. -/
def kputcColor (input : BitVec 8) (back fore : VgaColor) (s : Vga) : Vga :=
  if input = 0x09#8 then (vgaPutc 0#8 back fore)^[tabLength.toNat] s
  else if input = 0x0a#8 then
    let tempNum := 80#8 - s.cursorX
    let tempNum := if tempNum = 0#8 then 80#8 else tempNum
    (vgaPutc 0#8 back fore)^[tempNum.toNat] s
  else vgaPutc input back fore s

/-- `kputs_color`. A string is the list of its characters, up to the zero that ends it. -/
def kputsColor (back fore : VgaColor) : List (BitVec 8) → Vga → Vga
  | [], s => s
  | input :: rest, s =>
    if input = 0#8 then s else kputsColor back fore rest (kputcColor input back fore s)

/-- `kputs`. -/
def kputs (inputStr : List (BitVec 8)) (s : Vga) : Vga := kputsColor .black .white inputStr s

/-! ### The screen -/

/-- The cell at a place of the screen. -/
def Vga.cell (s : Vga) (p : ℕ) : Cell :=
  (s.mem (addr videoMemory (2 * p)), s.mem (addr videoMemory (2 * p + 1)))

/-- The position in the registers of the card. -/
def Vga.hardwareCursor (s : Vga) : ℕ := (s.crtc 14#8 ++ s.crtc 15#8).toNat

end ToiletOS
