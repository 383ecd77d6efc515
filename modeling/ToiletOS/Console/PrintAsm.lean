import ToiletOS.Console.CursorDrift
import ToiletOS.Interrupt.Entry

/-!
# The instructions of `print.S`

`aput_char` and `set_cursor` on the registers and the stack of the processor, one line for each
instruction. The text memory is that of the card, at `0xb8000` and, for `movsd`, at `0xc00b8000`;
the stack is in the memory of the processor, so it is not in the text memory. What comparisons do to
`eflags` is left out, and a conditional jump is taken on what was compared.

`aput_char` saves all registers, jumps to `set_cursor`, and that restores them and returns. So
`set_cursor` is also the end of `aput_char`, and as a function of its own it takes eight words off
a stack on which nothing was saved: `print_obeys_iff` says that it never returns as it should, and
that `aput_char` does unless it stores behind the segment of `gs`. What `aput_char` does to the card
is `aputChar` of `ToiletOS/Console/Print.lean` (`aputChar_vga`).
-/

namespace ToiletOS

/-! ### Parts of registers -/

namespace Cpu

variable (s : Cpu) (r : Gpr)

/-- `ax`, and so on. -/
def low16 : BitVec 16 := (s.gpr r).extractLsb' 0 16

/-- `al`, and so on. -/
def low8 : BitVec 8 := (s.gpr r).extractLsb' 0 8

/-- `ah`, and so on. -/
def high8 : BitVec 8 := (s.gpr r).extractLsb' 8 8

/-- Write `ax`, and so on. -/
def setLow16 (v : BitVec 16) : Cpu := s.setGpr r ((s.gpr r).extractLsb' 16 16 ++ v)

/-- Write `al`, and so on. -/
def setLow8 (v : BitVec 8) : Cpu := s.setGpr r ((s.gpr r).extractLsb' 8 24 ++ v)

/-- Write `ah`, and so on. -/
def setHigh8 (v : BitVec 8) : Cpu :=
  s.setGpr r ((s.gpr r).extractLsb' 16 16 ++ v ++ (s.gpr r).extractLsb' 0 8)

section Parts

variable {s r} (r' : Gpr) (w : BitVec 32) (h : BitVec 16) (b : BitVec 8)

@[simp] theorem low16_setGpr :
    (s.setGpr r w).low16 r' = if r' = r then w.extractLsb' 0 16 else s.low16 r' := by
  unfold low16
  rw [setGpr_gpr, Function.update_apply]
  split <;> rfl

@[simp] theorem low8_setGpr :
    (s.setGpr r w).low8 r' = if r' = r then w.extractLsb' 0 8 else s.low8 r' := by
  unfold low8
  rw [setGpr_gpr, Function.update_apply]
  split <;> rfl

@[simp] theorem high8_setGpr :
    (s.setGpr r w).high8 r' = if r' = r then w.extractLsb' 8 8 else s.high8 r' := by
  unfold high8
  rw [setGpr_gpr, Function.update_apply]
  split <;> rfl

@[simp] theorem low16_setLow16 :
    (s.setLow16 r h).low16 r' = if r' = r then h else s.low16 r' := by
  rw [setLow16, low16_setGpr, BitVec.extractLsb'_append_eq_right]

@[simp] theorem low8_setLow16 :
    (s.setLow16 r h).low8 r' = if r' = r then h.extractLsb' 0 8 else s.low8 r' := by
  rw [setLow16, low8_setGpr, BitVec.extractLsb'_append_eq_of_add_le (by decide)]

@[simp] theorem high8_setLow16 :
    (s.setLow16 r h).high8 r' = if r' = r then h.extractLsb' 8 8 else s.high8 r' := by
  rw [setLow16, high8_setGpr, BitVec.extractLsb'_append_eq_of_add_le (by decide)]

@[simp] theorem low8_setLow8 :
    (s.setLow8 r b).low8 r' = if r' = r then b else s.low8 r' := by
  rw [setLow8, low8_setGpr, BitVec.extractLsb'_append_eq_right]

@[simp] theorem low16_setLow8 :
    (s.setLow8 r b).low16 r' = if r' = r then s.high8 r ++ b else s.low16 r' := by
  have h_low : ((s.gpr r).extractLsb' 8 24 ++ b).extractLsb' 0 16 = s.high8 r ++ b := by
    apply BitVec.eq_of_getLsbD_eq
    intro i hi
    rw [high8, BitVec.getLsbD_extractLsb', BitVec.getLsbD_append, BitVec.getLsbD_append,
      BitVec.getLsbD_extractLsb', BitVec.getLsbD_extractLsb', Nat.zero_add]
    by_cases h_i : i < 8
    · simp [h_i, hi]
    · simp [h_i, hi, show i - 8 < 24 by omega, show i - 8 < 8 by omega]
  rw [setLow8, low16_setGpr, h_low]

@[simp] theorem high8_setLow8 : (s.setLow8 r b).high8 r' = s.high8 r' := by
  have h_high : ((s.gpr r).extractLsb' 8 24 ++ b).extractLsb' 8 8 = s.high8 r := by
    rw [BitVec.extractLsb'_append_eq_of_le (by decide), high8]
    apply BitVec.eq_of_getLsbD_eq
    intro i hi
    rw [BitVec.getLsbD_extractLsb', BitVec.getLsbD_extractLsb', BitVec.getLsbD_extractLsb']
    simp [hi, show i < 24 by omega]
  rw [setLow8, high8_setGpr, h_high]
  split
  · next h_eq => rw [h_eq]
  · rfl

@[simp] theorem high8_setHigh8 :
    (s.setHigh8 r b).high8 r' = if r' = r then b else s.high8 r' := by
  rw [setHigh8, high8_setGpr, BitVec.extractLsb'_append_eq_of_le (by decide),
    BitVec.extractLsb'_append_eq_right]

end Parts

end Cpu

/-! ### Instructions -/

/-- The processor and the card. -/
structure PrintState where
  cpu : Cpu
  vga : Vga

/-- The address of the text memory in the kernel's half. -/
def kernelText : BitVec 32 := 0xc00b8000#32

namespace PrintState

variable (s : PrintState)

def mov (r : Gpr) (v : BitVec 32) : PrintState := { s with cpu := s.cpu.setGpr r v }

def mov16 (r : Gpr) (v : BitVec 16) : PrintState := { s with cpu := s.cpu.setLow16 r v }

def mov8 (r : Gpr) (v : BitVec 8) : PrintState := { s with cpu := s.cpu.setLow8 r v }

/-- `out dx, al`. -/
def out : PrintState := { s with vga := s.vga.outb (s.cpu.low16 .edx) (s.cpu.low8 .eax) }

/-- `in al, dx`, from the data port of the card. -/
def inAl : PrintState := s.mov8 .eax s.vga.inb

/-- `mov byte [gs:bx], v`. -/
def gsStore8 (v : BitVec 8) : Option PrintState :=
  (s.vga.gsStore8 (s.cpu.low16 .ebx) v).map fun vga => { s with vga := vga }

/-- An access to the text memory through the kernel's half. -/
def ToText (a : BitVec 32) : Prop := (a - kernelText).toNat < 0x8000

instance (a : BitVec 32) : Decidable (ToText a) :=
  inferInstanceAs (Decidable ((a - kernelText).toNat < 0x8000))

/-- The word at an address. -/
def load (a : BitVec 32) : BitVec 32 :=
  if ToText a then s.vga.mem.load32 (addr videoMemory (a - kernelText).toNat) else s.cpu.load a

/-- Write a word to the text memory. -/
def textStore (edi : ℕ) (v : BitVec 32) (vga : Vga) : Vga :=
  (((vga.store8 (addr videoMemory edi) (v.extractLsb' 0 8)).store8
    (addr videoMemory (edi + 1)) (v.extractLsb' 8 8)).store8
    (addr videoMemory (edi + 2)) (v.extractLsb' 16 8)).store8
    (addr videoMemory (edi + 3)) (v.extractLsb' 24 8)

/-- Write a word to an address. -/
def store (a v : BitVec 32) : PrintState :=
  if ToText a then { s with vga := textStore (a - kernelText).toNat v s.vga }
  else { s with cpu := s.cpu.store a v }

/-- `movsd`, under `rep`. -/
def movsd : PrintState :=
  let s := s.store (s.cpu.gpr .edi) (s.load (s.cpu.gpr .esi))
  let s := s.mov .esi (s.cpu.gpr .esi + 4)
  let s := s.mov .edi (s.cpu.gpr .edi + 4)
  s.mov .ecx (s.cpu.gpr .ecx - 1)

/-- `rep movsd`. -/
def repMovsd : PrintState := movsd^[(s.cpu.gpr .ecx).toNat] s

/-- `div si`, when the quotient fits: `dx` is zero here. -/
def divSi : PrintState :=
  let n := s.cpu.low16 .edx ++ s.cpu.low16 .eax
  let si := (s.cpu.low16 .esi).setWidth 32
  let s := s.mov16 .eax ((n / si).setWidth 16)
  s.mov16 .edx ((n % si).setWidth 16)

/-- Ghost: what is noted about the card. -/
def note (f : Vga → Vga) : PrintState := { s with vga := f s.vga }

/-! ### `print.S` -/

/-- `set_cursor`, up to `.put_char_done`. -/
def setCursorBody : PrintState :=
  let s := s.mov16 .edx 0x03d4#16
  let s := s.mov8 .eax 0x0e#8
  let s := s.out
  let s := s.mov16 .edx 0x03d5#16
  let s := s.mov8 .eax (s.cpu.high8 .ebx)
  let s := s.out
  let s := s.mov16 .edx 0x03d4#16
  let s := s.mov8 .eax 0x0f#8
  let s := s.out
  let s := s.mov16 .edx 0x03d5#16
  let s := s.mov8 .eax (s.cpu.low8 .ebx)
  s.out

/-- The body of the loop `.cls`, with `loop`. -/
def clsStep : PrintState :=
  let s := s.note fun vga => vga.store16 (addr videoMemory (s.cpu.gpr .ebx).toNat) 0x0720#16
  let s := s.mov .ebx (s.cpu.gpr .ebx + 2)
  s.mov .ecx (s.cpu.gpr .ecx - 1)

/-- `.cls`. -/
def cls : PrintState := clsStep^[(s.cpu.gpr .ecx).toNat] s

/-- `.roll_screeen`. -/
def rollScreeen : PrintState :=
  let s := s.mov .ecx 960
  let s := s.mov .esi 0xc00b80a0#32
  let s := s.mov .edi 0xc00b8000#32
  let s := s.repMovsd
  let s := s.mov .ebx 3840
  let s := s.mov .ecx 80
  let s := s.cls
  let s := s.note Vga.noteRoll
  let s := s.mov16 .ebx 1920#16
  s.setCursorBody

/-- `.is_line_feed`, which is also `.is_carriage_return`, up to its comparison. -/
def nextRow : PrintState :=
  let s := s.mov16 .edx 0#16
  let s := s.mov16 .eax (s.cpu.low16 .ebx)
  let s := s.mov16 .esi 80#16
  let s := s.divSi
  let s := s.mov16 .ebx (s.cpu.low16 .ebx - s.cpu.low16 .edx)
  s.mov16 .ebx (s.cpu.low16 .ebx + 80#16)

/-- `.is_line_feed`. -/
def isLineFeed : PrintState :=
  let s := s.nextRow
  if (s.cpu.low16 .ebx).slt 2000#16 then s.setCursorBody else s.rollScreeen

/-- `.is_backspace`. -/
def isBackspace : Option PrintState := do
  let s := s.mov16 .ebx (s.cpu.low16 .ebx - 1#16)
  let s := s.mov16 .ebx (s.cpu.low16 .ebx <<< 1)
  let s ← s.gsStore8 0x20#8
  let s := s.mov16 .ebx (s.cpu.low16 .ebx + 1#16)
  let s ← s.gsStore8 0x07#8
  let s := s.mov16 .ebx (s.cpu.low16 .ebx >>> 1)
  return s.setCursorBody

/-- `.put_other`. -/
def putOther : Option PrintState := do
  let s := s.note fun vga => vga.notePut (s.cpu.low16 .ebx).toNat
  let s := s.mov16 .ebx (s.cpu.low16 .ebx <<< 1)
  let s ← s.gsStore8 (s.cpu.low8 .ecx)
  let s := s.mov16 .ebx (s.cpu.low16 .ebx + 1#16)
  let s ← s.gsStore8 0x07#8
  let s := s.mov16 .ebx (s.cpu.low16 .ebx >>> 1)
  let s := s.mov16 .ebx (s.cpu.low16 .ebx + 1#16)
  return if (s.cpu.low16 .ebx).slt 2000#16 then s.setCursorBody else s.isLineFeed

/-- `aput_char`, from behind `pushad` up to its first comparison. `SELECTOR_VIDEO` is `0x18`. -/
def fetch : PrintState :=
  let s := s.mov16 .eax 0x18#16
  let s := { s with cpu := s.cpu.setSeg .gs (s.cpu.low16 .eax) }
  let s := s.mov16 .edx 0x03d4#16
  let s := s.mov8 .eax 0x0e#8
  let s := s.out
  let s := s.mov16 .edx 0x03d5#16
  let s := s.inAl
  let s := { s with cpu := s.cpu.setHigh8 .eax (s.cpu.low8 .eax) }
  let s := s.mov16 .edx 0x03d4#16
  let s := s.mov8 .eax 0x0f#8
  let s := s.out
  let s := s.mov16 .edx 0x03d5#16
  let s := s.inAl
  let s := s.mov16 .ebx (s.cpu.low16 .eax)
  s.mov .ecx (s.cpu.load (addr s.cpu.esp 36))

/-- `aput_char`, from behind `pushad` up to `.put_char_done`. -/
def aputCharBody : Option PrintState :=
  let s := s.fetch
  let cl := s.cpu.low8 .ecx
  if cl = 0x0d#8 then some s.isLineFeed
  else if cl = 0x0a#8 then some s.isLineFeed
  else if cl = 0x08#8 then s.isBackspace
  else s.putOther

/-- `.put_char_done`. -/
def putCharDone : PrintState := { s with cpu := s.cpu.popad.ret }

/-- `set_cursor`. -/
def setCursor : PrintState := s.setCursorBody.putCharDone

/-- `aput_char`. -/
def aputChar : Option PrintState := do
  let s := { s with cpu := s.cpu.pushad }
  let s ← s.aputCharBody
  return s.putCharDone

end PrintState

/-! ### What the instructions do to the card -/

/-- The stack is as it was, and the card is this one. -/
structure PrintState.Draws (s s' : PrintState) (vga : Vga) : Prop where
  esp : s'.cpu.esp = s.cpu.esp
  mem : s'.cpu.mem = s.cpu.mem
  vga : s'.vga = vga

namespace PrintState

variable {s s' s'' : PrintState} {vga : Vga}

theorem Draws.trans {v : Vga} (h : s.Draws s' v) (h' : s'.Draws s'' vga) : s.Draws s'' vga :=
  ⟨h'.esp.trans h.esp, h'.mem.trans h.mem, h'.vga⟩

/-- Registers are of no account. -/
theorem Draws.mov (h : s.Draws s' vga) (r : Gpr) (v : BitVec 32) : s.Draws (s'.mov r v) vga :=
  ⟨h.esp, h.mem, h.vga⟩

theorem Draws.mov16 (h : s.Draws s' vga) (r : Gpr) (v : BitVec 16) : s.Draws (s'.mov16 r v) vga :=
  ⟨h.esp, h.mem, h.vga⟩

theorem Draws.note (h : s.Draws s' vga) (f : Vga → Vga) : s.Draws (s'.note f) (f vga) :=
  ⟨h.esp, h.mem, congrArg f h.vga⟩

/-- From a state that has drawn to the next. -/
theorem Draws.next {g : Vga → Vga} (h : s.Draws s' vga) (h' : s'.Draws s'' (g s'.vga)) :
    s.Draws s'' (g vga) := by
  rw [h.vga] at h'
  exact h.trans h'

theorem setCursorBody_draws (s : PrintState) :
    s.Draws s.setCursorBody (ToiletOS.setCursor (s.cpu.low16 .ebx) s.vga) := by
  refine ⟨rfl, rfl, ?_⟩
  -- `bh` and `bl` are the two bytes of `bx`
  have h_high : (s.cpu.low16 .ebx >>> 8).setWidth 8 = s.cpu.high8 .ebx := by
    apply BitVec.eq_of_getLsbD_eq
    intro i hi
    rw [Cpu.low16, Cpu.high8, BitVec.getLsbD_setWidth, BitVec.getLsbD_ushiftRight,
      BitVec.getLsbD_extractLsb', BitVec.getLsbD_extractLsb']
    simp [hi, show 8 + i < 16 by omega]
  have h_low : (s.cpu.low16 .ebx).setWidth 8 = s.cpu.low8 .ebx := by
    apply BitVec.eq_of_getLsbD_eq
    intro i hi
    rw [Cpu.low16, Cpu.low8, BitVec.getLsbD_setWidth, BitVec.getLsbD_extractLsb',
      BitVec.getLsbD_extractLsb']
    simp [hi, show i < 16 by omega]
  rw [ToiletOS.setCursor, h_high, h_low]
  simp [setCursorBody, mov16, mov8, out]

/-! ### Rolling up -/

theorem kernelText_sub {k : ℕ} (h : k < 0x8000) :
    ToText (addr kernelText k) ∧ (addr kernelText k - kernelText).toNat = k := by
  have h_nat := addr_sub_toNat kernelText (show k < 2 ^ 32 by omega)
  exact ⟨show (addr kernelText k - kernelText).toNat < 0x8000 by omega, h_nat⟩

/-- One word from one place of the text to another. -/
theorem movsd_vga {esi edi : ℕ} (h_esi : s.cpu.gpr .esi = addr kernelText esi)
    (h_edi : s.cpu.gpr .edi = addr kernelText edi) (h : esi < 0x8000) (h' : edi < 0x8000) :
    s.Draws s.movsd (s.vga.movsd esi edi) ∧
      s.movsd.cpu.gpr .esi = addr kernelText (esi + 4) ∧
      s.movsd.cpu.gpr .edi = addr kernelText (edi + 4) := by
  obtain ⟨h_src, h_src_nat⟩ := kernelText_sub h
  obtain ⟨h_dst, h_dst_nat⟩ := kernelText_sub h'
  -- both addresses are in the segment of the text
  have h_store : s.store (s.cpu.gpr .edi) (s.load (s.cpu.gpr .esi))
      = { s with vga := s.vga.movsd esi edi } := by
    rw [h_esi, h_edi, load, if_pos h_src, h_src_nat, store, if_pos h_dst, h_dst_nat]
    rfl
  have h_movsd : s.movsd = ((({ s with vga := s.vga.movsd esi edi } : PrintState).mov .esi
      (s.cpu.gpr .esi + 4)).mov .edi (s.cpu.gpr .edi + 4)).mov .ecx (s.cpu.gpr .ecx - 1) := by
    rw [movsd, h_store]
    rfl
  rw [h_movsd]
  refine ⟨⟨rfl, rfl, rfl⟩, ?_, ?_⟩
  · rw [← addr_addr, ← h_esi]
    rfl
  · rw [← addr_addr, ← h_edi]
    rfl

/-- Some rounds of `rep movsd`. -/
theorem movsd_iterate (esi edi : ℕ) (h_esi : s.cpu.gpr .esi = addr kernelText esi)
    (h_edi : s.cpu.gpr .edi = addr kernelText edi) {k : ℕ} (h : esi + 4 * k < 0x8000)
    (h' : edi + 4 * k < 0x8000) :
    s.Draws (movsd^[k] s)
        ((List.range k).foldl (fun vga i => vga.movsd (esi + 4 * i) (edi + 4 * i)) s.vga) ∧
      (movsd^[k] s).cpu.gpr .esi = addr kernelText (esi + 4 * k) ∧
      (movsd^[k] s).cpu.gpr .edi = addr kernelText (edi + 4 * k) := by
  induction k with
  | zero => exact ⟨⟨rfl, rfl, rfl⟩, h_esi, h_edi⟩
  | succ k ih =>
    obtain ⟨h_draws, h_esi', h_edi'⟩ := ih (by omega) (by omega)
    obtain ⟨h_step, h_next, h_next'⟩ := movsd_vga h_esi' h_edi' (by omega) (by omega)
    rw [Function.iterate_succ_apply', List.range_succ, List.foldl_append]
    rw [h_draws.vga] at h_step
    exact ⟨h_draws.trans h_step, h_next, h_next'⟩

/-- Some rounds of the loop `.cls`. -/
theorem clsStep_iterate (ebx : ℕ) (h_ebx : s.cpu.gpr .ebx = BitVec.ofNat 32 ebx) {k : ℕ}
    (h : ebx + 2 * k < 2 ^ 32) :
    s.Draws (clsStep^[k] s) ((List.range k).foldl (fun vga i => clsCell (ebx + 2 * i) vga) s.vga) ∧
      (clsStep^[k] s).cpu.gpr .ebx = BitVec.ofNat 32 (ebx + 2 * k) := by
  induction k with
  | zero => exact ⟨⟨rfl, rfl, rfl⟩, h_ebx⟩
  | succ k ih =>
    obtain ⟨h_draws, h_ebx'⟩ := ih (by omega)
    rw [Function.iterate_succ_apply', List.range_succ, List.foldl_append]
    set t := clsStep^[k] s with h_t
    -- `ebx` has not wrapped, so the place it points to is the one the model writes
    have h_nat : (t.cpu.gpr .ebx).toNat = ebx + 2 * k := by
      rw [h_ebx', BitVec.toNat_ofNat]
      exact Nat.mod_eq_of_lt (by omega)
    have h_step : t.Draws t.clsStep (clsCell (ebx + 2 * k) t.vga) := by
      refine ⟨rfl, rfl, ?_⟩
      rw [← h_nat]
      rfl
    rw [h_draws.vga] at h_step
    refine ⟨h_draws.trans h_step, ?_⟩
    have h_next : t.clsStep.cpu.gpr .ebx = t.cpu.gpr .ebx + 2 := rfl
    rw [h_next, h_ebx', Nat.mul_succ, ← Nat.add_assoc]
    exact (BitVec.ofNat_add _ _).symm

theorem rollScreeen_draws (s : PrintState) : s.Draws s.rollScreeen (rollScreen s.vga) := by
  -- `rep movsd`
  set s₁ := ((s.mov .ecx 960).mov .esi 0xc00b80a0#32).mov .edi 0xc00b8000#32 with h_s₁
  have h_start : s.Draws s₁ s.vga := ⟨rfl, rfl, rfl⟩
  have h_count : (s₁.cpu.gpr .ecx).toNat = 960 := rfl
  obtain ⟨h_rep, -⟩ := movsd_iterate (s := s₁) (k := 960) 0xa0 0 rfl rfl (by decide) (by decide)
  simp only [Nat.zero_add] at h_rep
  have h_rollRows : rollRows s₁.vga
      = (List.range 960).foldl (fun vga i => vga.movsd (0xa0 + 4 * i) (4 * i)) s₁.vga := by
    rw [rollRows]
  rw [← h_rollRows, ← h_count, ← repMovsd] at h_rep
  -- `.cls`
  set s₂ := (s₁.repMovsd.mov .ebx 3840).mov .ecx 80 with h_s₂
  have h_rows : s.Draws s₂ (rollRows s.vga) := ((h_start.next h_rep).mov _ _).mov _ _
  have h_count' : (s₂.cpu.gpr .ecx).toNat = 80 := rfl
  obtain ⟨h_loop, -⟩ := clsStep_iterate (s := s₂) (k := 80) 3840 rfl (by decide)
  have h_clsRow : clsRow s₂.vga
      = (List.range 80).foldl (fun vga i => clsCell (3840 + 2 * i) vga) s₂.vga := by
    rw [clsRow]
  rw [← h_clsRow, ← h_count', ← cls] at h_loop
  -- and the cursor goes to the last row
  have h_cls := ((h_rows.next h_loop).note Vga.noteRoll).mov16 .ebx 1920#16
  have h_bx : ((s₂.cls.note Vga.noteRoll).mov16 .ebx 1920#16).cpu.low16 .ebx = 1920#16 := by
    simp [mov16]
  have h_cursor := setCursorBody_draws ((s₂.cls.note Vga.noteRoll).mov16 .ebx 1920#16)
  rw [h_bx] at h_cursor
  unfold rollScreeen rollScreen
  exact h_cls.next (g := ToiletOS.setCursor 1920#16) h_cursor

/-! ### The branches -/

/-- The jump to `set_cursor` or past it, after instructions on registers only. -/
theorem jl_draws {t : PrintState} {bx : BitVec 16} {f : PrintState → PrintState} {g : Vga → Vga}
    (h_esp : t.cpu.esp = s.cpu.esp) (h_mem : t.cpu.mem = s.cpu.mem) (h_bx : t.cpu.low16 .ebx = bx)
    (h_other : t.Draws (f t) (g t.vga)) :
    s.Draws (if (t.cpu.low16 .ebx).slt 2000#16 then t.setCursorBody else f t)
      (if bx.slt 2000#16 then ToiletOS.setCursor bx t.vga else g t.vga) := by
  rw [h_bx]
  split
  · have h_cursor := setCursorBody_draws t
    rw [h_bx] at h_cursor
    exact ⟨h_cursor.esp.trans h_esp, h_cursor.mem.trans h_mem, h_cursor.vga⟩
  · exact ⟨h_other.esp.trans h_esp, h_other.mem.trans h_mem, h_other.vga⟩

theorem isLineFeed_draws (s : PrintState) :
    s.Draws s.isLineFeed (ToiletOS.isLineFeed (s.cpu.low16 .ebx) s.vga) := by
  -- the remainder of the division of 32 bits is that of 16 bits
  have h_rem (bx : BitVec 16) :
      ((0#16 ++ bx) % 80#32).setWidth 16 = bx % 80#16 := by
    apply BitVec.eq_of_toNat_eq
    have h_lt := bx.isLt
    rw [BitVec.toNat_setWidth, BitVec.toNat_umod, BitVec.toNat_umod, BitVec.toNat_append]
    simp
    omega
  have h_bx : s.nextRow.cpu.low16 .ebx
      = s.cpu.low16 .ebx - s.cpu.low16 .ebx % 80#16 + 80#16 := by
    simp [nextRow, mov16, divSi, h_rem]
  exact jl_draws rfl rfl h_bx (rollScreeen_draws s.nextRow)

/-- A store through `gs` faults in both, or the instructions behind it decide. -/
theorem gsStore8_draws {t : PrintState} {bx : BitVec 16} {f : PrintState → Option PrintState}
    {g : Vga → Option Vga} (h : s.Draws t vga) (h_bx : t.cpu.low16 .ebx = bx) (v : BitVec 8)
    (h_next : ∀ vga', s.Draws { t with vga := vga' } vga' →
      Option.Rel s.Draws (f { t with vga := vga' }) (g vga')) :
    Option.Rel s.Draws (t.gsStore8 v >>= f) (vga.gsStore8 bx v >>= g) := by
  rw [gsStore8, h_bx, h.vga]
  cases vga.gsStore8 bx v with
  | none => exact .none
  | some vga' => exact h_next vga' ⟨h.esp, h.mem, rfl⟩

theorem putOther_draws (s : PrintState) :
    Option.Rel s.Draws s.putOther
      (ToiletOS.putOther (s.cpu.low16 .ebx) (s.cpu.low8 .ecx) s.vga) := by
  unfold putOther ToiletOS.putOther
  dsimp only
  set bx := s.cpu.low16 .ebx with h_s
  -- the character, and then the attribute
  set s₁ := (s.note fun vga => vga.notePut (s.cpu.low16 .ebx).toNat).mov16 .ebx
    ((s.note fun vga => vga.notePut (s.cpu.low16 .ebx).toNat).cpu.low16 .ebx <<< 1) with h_s₁
  have h₁ : s.Draws s₁ (s.vga.notePut bx.toNat) := ⟨rfl, rfl, rfl⟩
  have h_bx₁ : s₁.cpu.low16 .ebx = bx <<< 1 := by
    simp [h_s₁, mov16, note, h_s]
  have h_cl : s₁.cpu.low8 .ecx = s.cpu.low8 .ecx := by
    simp [h_s₁, mov16, note]
  rw [h_cl]
  refine gsStore8_draws h₁ h_bx₁ _ fun vga₁ h₂ => ?_
  refine gsStore8_draws (h₂.mov16 _ _) (by simp [mov16, h_bx₁]) _ fun vga₂ h₃ => .some ?_
  -- `t` is the state at the comparison
  generalize h_t : PrintState.mov16 (PrintState.mov16 _ _ _) _ _ = t
  have h_bx : t.cpu.low16 .ebx = (bx <<< 1 + 1#16) >>> 1 + 1#16 := by
    rw [← h_t]
    simp [mov16, h_bx₁]
  obtain ⟨h_esp, h_mem, h_vga⟩ : s.Draws t vga₂ := h_t ▸ (h₃.mov16 _ _).mov16 _ _
  have h_line := isLineFeed_draws t
  rw [h_bx] at h_line
  have h_jump := jl_draws (f := isLineFeed) (g := ToiletOS.isLineFeed _) h_esp h_mem h_bx h_line
  rw [h_vga] at h_jump
  exact h_jump

theorem isBackspace_draws (s : PrintState) :
    Option.Rel s.Draws s.isBackspace (ToiletOS.isBackspace (s.cpu.low16 .ebx) s.vga) := by
  unfold isBackspace ToiletOS.isBackspace
  dsimp only
  set bx := s.cpu.low16 .ebx with h_s
  set s₁ := (s.mov16 .ebx (bx - 1#16)).mov16 .ebx
    ((s.mov16 .ebx (bx - 1#16)).cpu.low16 .ebx <<< 1) with h_s₁
  have h₁ : s.Draws s₁ s.vga := ⟨rfl, rfl, rfl⟩
  have h_bx₁ : s₁.cpu.low16 .ebx = (bx - 1#16) <<< 1 := by
    simp [h_s₁, mov16]
  -- the two stores of the blank, and then the code of `set_cursor`
  refine gsStore8_draws h₁ h_bx₁ _ fun vga₁ h₂ => ?_
  refine gsStore8_draws (h₂.mov16 _ _) (by simp [mov16, h_bx₁]) _ fun vga₂ h₃ => ?_
  generalize h_t : PrintState.mov16 _ _ _ = t
  have h_bx : t.cpu.low16 .ebx = ((bx - 1#16) <<< 1 + 1#16) >>> 1 := by
    rw [← h_t]
    simp [mov16, h_bx₁]
  have h_cursor := setCursorBody_draws t
  rw [h_bx] at h_cursor
  have h_at : s.Draws t vga₂ := h_t ▸ h₃.mov16 _ _
  exact Option.Rel.some (h_at.next (g := ToiletOS.setCursor _) h_cursor)

/-- The position of the cursor and the character, in their registers. The character is the argument,
above the eight words that are saved and the return address. -/
theorem fetch_spec (s : PrintState) :
    s.Draws s.fetch ((s.vga.outb 0x3d4#16 0x0e#8).outb 0x3d4#16 0x0f#8) ∧
      s.fetch.cpu.low16 .ebx = (s.vga.outb 0x3d4#16 0x0e#8).inb ++
        ((s.vga.outb 0x3d4#16 0x0e#8).outb 0x3d4#16 0x0f#8).inb ∧
      s.fetch.cpu.low8 .ecx = (s.cpu.load (addr s.cpu.esp 36)).extractLsb' 0 8 := by
  refine ⟨⟨rfl, rfl, ?_⟩, ?_, ?_⟩
  · simp [fetch, mov16, mov8, mov, out, inAl]
  · simp [fetch, mov16, mov8, mov, out, inAl]
  · simp only [fetch, mov, Cpu.low8_setGpr, if_pos]
    rfl

/-- What was drawn first does not matter for the rest. -/
theorem Draws.rel {o : Option PrintState} {v : Option Vga} (h : s.Draws s' vga)
    (h' : Option.Rel s'.Draws o v) : Option.Rel s.Draws o v := by
  cases h' with
  | none => exact .none
  | some h_next => exact .some (h.trans h_next)

/-- **What `aput_char` does to the card.** -/
theorem aputCharBody_draws (s : PrintState) :
    Option.Rel s.Draws s.aputCharBody
      (ToiletOS.aputChar ((s.cpu.load (addr s.cpu.esp 36)).extractLsb' 0 8) s.vga) := by
  obtain ⟨h_fetch, h_bx, h_cl⟩ := fetch_spec s
  have h_line := isLineFeed_draws s.fetch
  have h_back := isBackspace_draws s.fetch
  have h_other := putOther_draws s.fetch
  unfold aputCharBody ToiletOS.aputChar
  dsimp only
  rw [h_fetch.vga, h_bx] at h_line h_back h_other
  rw [h_cl] at h_other ⊢
  -- the tests come in the order of the source: return, line feed, backspace
  split
  · exact .some (h_fetch.trans h_line)
  · split
    · exact .some (h_fetch.trans h_line)
    · split
      · exact h_fetch.rel h_back
      · exact h_fetch.rel h_other

end PrintState

/-! ### The calling convention -/

/-- What a function with one argument, entered in `s`, is to leave in `s'`: it has returned to its
caller, which takes the argument off the stack, and the registers that are the caller's are as
they were. -/
structure CdeclCall (s s' : Cpu) : Prop where
  eip : s'.eip = s.top
  esp : s'.esp = addr s.esp 4
  saved : ∀ r ∈ [Gpr.ebx, .ebp, .esi, .edi], s'.gpr r = s.gpr r

section Stack

variable {s t : Cpu}

/-- `popad` and `ret` take nine words off. -/
theorem popad_ret_esp (t : Cpu) : t.popad.ret.esp = addr t.esp 36 := by
  simp only [Cpu.popad, Cpu.ret_esp, Cpu.pop_esp, Cpu.drop_esp, addr_addr]

/-- Each of them is where `popad` and `ret` look for it. -/
theorem popad_ret {edi esi ebp esp ebx edx ecx eax eip : BitVec 32}
    (h : t.Holds [edi, esi, ebp, esp, ebx, edx, ecx, eax, eip]) :
    t.popad.ret.eip = eip ∧ t.popad.ret.gpr .ebx = ebx ∧ t.popad.ret.gpr .ebp = ebp ∧
      t.popad.ret.gpr .esi = esi ∧ t.popad.ret.gpr .edi = edi := by
  simp only [Cpu.Holds, Stacked, addr_addr] at h
  obtain ⟨h_edi, h_esi, h_ebp, -, h_ebx, -, -, -, h_eip, -⟩ := h
  have h_gpr (r : Gpr) : t.popad.ret.gpr r = t.popad.gpr r := rfl
  refine ⟨?_, ?_, ?_, ?_, ?_⟩
  · simp only [Cpu.ret_eip, Cpu.popad, Cpu.drop_esp, Cpu.pop_esp, Cpu.drop_load, Cpu.pop_load,
      addr_addr]
    exact h_eip
  -- each register is loaded from its place, and the pops behind it leave it alone
  all_goals
    rw [h_gpr]
    simp only [Cpu.popad, Cpu.drop_gpr, Cpu.pop_gpr, Cpu.drop_esp, Cpu.pop_esp, Cpu.drop_load,
      Cpu.pop_load, addr_addr]
  · exact h_ebx
  · exact h_ebp
  · exact h_esi
  · exact h_edi

/-- **Registers that are saved are restored**, if the stack in between is left alone. -/
theorem CdeclCall.of_pushad (h_esp : t.esp = s.pushad.esp) (h_mem : t.mem = s.pushad.mem) :
    CdeclCall s t.popad.ret := by
  have h_top : s.Holds [s.top] := ⟨rfl, trivial⟩
  -- `pushad` puts the eight registers on the return address
  have h_saved := h_top.pushes [s.gpr .eax, s.gpr .ecx, s.gpr .edx, s.gpr .ebx, s.esp, s.gpr .ebp,
    s.gpr .esi, s.gpr .edi] (by simp)
  have h_holds : t.Holds [s.gpr .edi, s.gpr .esi, s.gpr .ebp, s.esp, s.gpr .ebx, s.gpr .edx,
      s.gpr .ecx, s.gpr .eax, s.top] := by
    rw [Cpu.Holds, h_esp, h_mem]
    exact h_saved
  obtain ⟨h_eip, h_ebx, h_ebp, h_esi, h_edi⟩ := popad_ret h_holds
  have h_pushed : addr s.pushad.esp 32 = s.esp := s.pushes_esp [s.gpr .eax, s.gpr .ecx,
    s.gpr .edx, s.gpr .ebx, s.esp, s.gpr .ebp, s.gpr .esi, s.gpr .edi]
  refine ⟨h_eip, ?_, ?_⟩
  · rw [popad_ret_esp, h_esp, ← h_pushed, addr_addr]
  · intro r hr
    simp only [List.mem_cons, List.not_mem_nil, or_false] at hr
    rcases hr with rfl | rfl | rfl | rfl
    · exact h_ebx
    · exact h_ebp
    · exact h_esi
    · exact h_edi

end Stack

/-- The functions that `print.h` declares. -/
inductive PrintEntry
  | aputChar | setCursor
  deriving DecidableEq, Repr

/-- The call of a function, if it does not fault. -/
def PrintEntry.exec : PrintEntry → PrintState → Option PrintState
  | aputChar, s => s.aputChar
  | setCursor, s => some s.setCursor

/-- The argument of a call. -/
def PrintState.argument (s : PrintState) : BitVec 32 := s.cpu.load (addr s.cpu.esp 4)

/-- The character that is passed. -/
def PrintState.character (s : PrintState) : BitVec 8 := s.argument.extractLsb' 0 8

/-- The call keeps to the calling convention, and `set_cursor` sets the cursor. -/
def PrintEntry.Obeys (entry : PrintEntry) (s : PrintState) : Prop :=
  ∃ s', entry.exec s = some s' ∧ CdeclCall s.cpu s'.cpu ∧
    (entry = setCursor → s'.vga.hardwareCursor = s.argument.toNat)

/-- `set_cursor` takes off what it has not put on the stack. -/
theorem setCursor_esp (s : PrintState) : s.setCursor.cpu.esp = addr s.cpu.esp 36 := by
  rw [PrintState.setCursor, PrintState.putCharDone]
  dsimp only
  rw [popad_ret_esp, (PrintState.setCursorBody_draws s).esp]

theorem setCursor_disobeys (s : PrintState) : ¬ PrintEntry.setCursor.Obeys s := by
  rintro ⟨s', h_run, h_cdecl, -⟩
  obtain rfl := Option.some.inj h_run
  have h_esp := h_cdecl.esp
  rw [setCursor_esp] at h_esp
  exact absurd h_esp (addr_ne _ (by decide) (by decide) (by decide))

/-- The argument is where `aput_char` looks for it when it has saved the registers. -/
theorem argument_pushad (s : Cpu) :
    s.pushad.load (addr s.pushad.esp 36) = s.load (addr s.esp 4) := by
  have h_pushed : addr s.pushad.esp 32 = s.esp := s.pushes_esp [s.gpr .eax, s.gpr .ecx,
    s.gpr .edx, s.gpr .ebx, s.esp, s.gpr .ebp, s.gpr .esi, s.gpr .edi]
  have h_above : addr s.pushad.esp 36 = addr s.esp 4 := by
    rw [← h_pushed, addr_addr]
  rw [h_above]
  apply ByteMemory.load32_congr
  intro i hi
  rw [addr_addr]
  exact s.pushes_mem [s.gpr .eax, s.gpr .ecx, s.gpr .edx, s.gpr .ebx, s.esp, s.gpr .ebp,
    s.gpr .esi, s.gpr .edi] (show 4 + i + 32 < 2 ^ 32 by omega)

/-- A call of `aput_char` does to the card what `aputChar` does, and returns if that does. -/
theorem aputChar_cdecl (s : PrintState) :
    Option.Rel (fun s' vga => CdeclCall s.cpu s'.cpu ∧ s'.vga = vga) s.aputChar
      (aputChar s.character s.vga) := by
  have h_body := PrintState.aputCharBody_draws { s with cpu := s.cpu.pushad }
  have h_argument : s.cpu.pushad.load (addr s.cpu.pushad.esp 36) = s.argument :=
    argument_pushad s.cpu
  simp only [h_argument] at h_body
  unfold PrintState.aputChar
  dsimp only
  rw [PrintState.character]
  generalize PrintState.aputCharBody _ = o at h_body ⊢
  generalize aputChar _ _ = v at h_body ⊢
  cases h_body with
  | none => exact .none
  | some h_draws => exact .some ⟨CdeclCall.of_pushad h_draws.esp h_draws.mem, h_draws.vga⟩

/-- **The calling convention of `print.S`**: no call of `set_cursor` keeps it, and a call of
`aput_char` does if and only if what it stores is in the segment of `gs`. On the screen that is
always so, but for a backspace at the first cell. -/
theorem print_obeys_iff (entry : PrintEntry) (s : PrintState) :
    (entry.Obeys s ↔ entry = .aputChar ∧ StoresInSegment s.vga s.character) ∧
      (s.vga.hardwareCursor < 2000 → s.character ≠ 0x08#8 →
        StoresInSegment s.vga s.character) := by
  refine ⟨?_, fun h_cursor h_char => ?_⟩
  · cases entry with
    | setCursor => exact iff_of_false (setCursor_disobeys s) fun h => by cases h.1
    | aputChar =>
      have h_call := aputChar_cdecl s
      rw [PrintEntry.Obeys, PrintEntry.exec, ← aputChar_isSome]
      generalize s.aputChar = o at h_call ⊢
      generalize aputChar s.character s.vga = v at h_call ⊢
      cases h_call with
      | none => simp
      | some h_cdecl => simp [h_cdecl.1]
  · obtain ⟨s', h_run, -⟩ := aputChar_spec h_cursor h_char
    rw [← aputChar_isSome, h_run]
    rfl

/-- A call of `set_cursor(0)`. -/
def cursorCall : PrintState := ⟨someCpu, zeroVga⟩

/-- It does not come back. -/
theorem set_cursor_disobeys : cursorCall.vga.hardwareCursor < 2000 ∧
    cursorCall.argument.toNat < 2000 ∧ ¬ PrintEntry.setCursor.Obeys cursorCall :=
  ⟨by decide, by decide, setCursor_disobeys cursorCall⟩

end ToiletOS
