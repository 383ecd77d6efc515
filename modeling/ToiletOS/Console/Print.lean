import ToiletOS.Console.Vga

/-!
# The console in assembly

`aput_char` of `print.S`, over the same card. It reads the position of the next cell from the
registers of the card and writes it back, and knows nothing of `cursor_x` and `cursor_y`. The
segment of `gs` is that of `VIDEO_DESC`: it starts at the text memory and has 32 KiB. A store behind
it is a general protection fault, and then `aput_char` does not return.
-/

namespace ToiletOS

/-! ### The instructions -/

/-- The bytes of the segment of `gs`. -/
def videoSegment : ℕ := 0x8000

/-- `mov byte [gs:bx], v`. Outside the segment it faults. -/
def Vga.gsStore8 (s : Vga) (bx : BitVec 16) (v : BitVec 8) : Option Vga :=
  if bx.toNat < videoSegment then some (s.store8 (videoMemory + bx.setWidth 32) v) else none

/-- `movsd`, with the numbers of bytes from the start of the text memory. -/
def Vga.movsd (s : Vga) (esi edi : ℕ) : Vga :=
  let v := s.mem.load32 (addr videoMemory esi)
  (((s.store8 (addr videoMemory edi) (v.extractLsb' 0 8)).store8
    (addr videoMemory (edi + 1)) (v.extractLsb' 8 8)).store8
    (addr videoMemory (edi + 2)) (v.extractLsb' 16 8)).store8
    (addr videoMemory (edi + 3)) (v.extractLsb' 24 8)

/-! ### The routine -/

/-- `set_cursor`. -/
def setCursor (bx : BitVec 16) (s : Vga) : Vga :=
  (((s.outb 0x3d4#16 0x0e#8).outb 0x3d5#16 ((bx >>> 8).setWidth 8)).outb 0x3d4#16 0x0f#8).outb
    0x3d5#16 (bx.setWidth 8)

/-- `rep movsd`, from the second row to the first. -/
def rollRows (s : Vga) : Vga := (List.range 960).foldl (fun s i => s.movsd (0xa0 + 4 * i) (4 * i)) s

/-- The body of the loop `.cls`. -/
def clsCell (ebx : ℕ) (s : Vga) : Vga := s.store16 (addr videoMemory ebx) 0x0720#16

/-- `.cls`. -/
def clsRow (s : Vga) : Vga := (List.range 80).foldl (fun s i => clsCell (3840 + 2 * i) s) s

/-- `.roll_screeen`. -/
def rollScreen (s : Vga) : Vga := setCursor 1920#16 (clsRow (rollRows s)).noteRoll

/-- `.is_line_feed` and `.is_carriage_return`. -/
def isLineFeed (bx : BitVec 16) (s : Vga) : Vga :=
  let dx := bx % 80#16
  let bx := bx - dx + 80#16
  if bx.slt 2000#16 then setCursor bx s else rollScreen s

/-- `.is_backspace`. -/
def isBackspace (bx : BitVec 16) (s : Vga) : Option Vga := do
  let bx := (bx - 1#16) <<< 1
  let s ← s.gsStore8 bx 0x20#8
  let bx := bx + 1#16
  let s ← s.gsStore8 bx 0x07#8
  return setCursor (bx >>> 1) s

/-- `.put_other`. -/
def putOther (bx : BitVec 16) (cl : BitVec 8) (s : Vga) : Option Vga := do
  let s := s.notePut bx.toNat
  let bx := bx <<< 1
  let s ← s.gsStore8 bx cl
  let bx := bx + 1#16
  let s ← s.gsStore8 bx 0x07#8
  let bx := (bx >>> 1) + 1#16
  return if bx.slt 2000#16 then setCursor bx s else isLineFeed bx s

/-- `aput_char`. -/
def aputChar (cl : BitVec 8) (s : Vga) : Option Vga :=
  let s := s.outb 0x3d4#16 0x0e#8
  let ah := s.inb
  let s := s.outb 0x3d4#16 0x0f#8
  let al := s.inb
  let bx := ah ++ al
  if cl = 0x0d#8 then some (isLineFeed bx s)
  else if cl = 0x0a#8 then some (isLineFeed bx s)
  else if cl = 0x08#8 then isBackspace bx s
  else putOther bx cl s

end ToiletOS
