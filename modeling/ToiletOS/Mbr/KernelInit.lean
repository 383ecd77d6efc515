import ToiletOS.Framework.X86
import ToiletOS.Mem.Paging

/-!
# Loading the kernel

`kernel_init` and `mem_cpy` of `mbr/loader.S`. They run with paging on, so that every access goes
through the tables of `setup_page`, and a run ends with no result at a page fault, or
when `mem_cpy` does not come back to where it was called.

The program headers are read from the ELF image that lies at `KERNEL_BIN_BASE_ADDR`. The second
half of the module says what the image is to be like, what is to be in memory once it has
been loaded, and which of its headers the code leaves out of account.
-/

namespace ToiletOS

/-! ### Accesses through the page tables -/

namespace Cpu

variable (s : Cpu)

/-- The byte at an address. -/
def read8 (a : BitVec 32) : Option (BitVec 8) := (translate s.mem a).map s.mem

/-- The two bytes at an address. -/
def read16 (a : BitVec 32) : Option (BitVec 16) := do
  let b₀ ← s.read8 a
  let b₁ ← s.read8 (addr a 1)
  return b₁ ++ b₀

/-- The word at an address. -/
def read32 (a : BitVec 32) : Option (BitVec 32) := do
  let b₀ ← s.read8 a
  let b₁ ← s.read8 (addr a 1)
  let b₂ ← s.read8 (addr a 2)
  let b₃ ← s.read8 (addr a 3)
  return b₃ ++ b₂ ++ b₁ ++ b₀

/-- Write a byte. -/
def write8 (a : BitVec 32) (v : BitVec 8) : Option Cpu :=
  (translate s.mem a).map fun p => { s with mem := s.mem.store8 p v }

/-- Write a word. -/
def write32 (a v : BitVec 32) : Option Cpu := do
  let s ← s.write8 a (v.extractLsb' 0 8)
  let s ← s.write8 (addr a 1) (v.extractLsb' 8 8)
  let s ← s.write8 (addr a 2) (v.extractLsb' 16 8)
  s.write8 (addr a 3) (v.extractLsb' 24 8)

/-- `push`. -/
def pushWord (v : BitVec 32) : Option Cpu := do
  let s ← s.write32 (s.esp - 4#32) v
  return s.setEsp (s.esp - 4#32)

/-- `pop`. -/
def popWord (r : Gpr) : Option Cpu := do
  let v ← s.read32 s.esp
  return (s.setGpr r v).setEsp (addr s.esp 4)

/-- `ret`. -/
def return' : Option Cpu := do
  let eip ← s.read32 s.esp
  return { s with eip := eip, esp := addr s.esp 4 }

/-- `movsb`, upwards. -/
def movsb : Option Cpu := do
  let b ← s.read8 (s.gpr .esi)
  let s ← s.write8 (s.gpr .edi) b
  return (s.setGpr .esi (addr (s.gpr .esi) 1)).setGpr .edi (addr (s.gpr .edi) 1)

/-- `mov` to the lower half of a register. -/
def setLow (r : Gpr) (v : BitVec 16) : Cpu :=
  s.setGpr r ((s.gpr r &&& 0xffff0000#32) ||| v.setWidth 32)

end Cpu

/-! ### `loader.S` -/

namespace Loader

/-- `KERNEL_BIN_BASE_ADDR`. -/
def kernelBinBaseAddr : BitVec 32 := 0x70000#32

/-- `PT_NULL`. -/
def ptNull : BitVec 8 := 0#8

/-- `rep movsb`, with `ecx` rounds to go. -/
def repMovsb : ℕ → Cpu → Option Cpu
  | 0, s => some s
  | ecx + 1, s => do
    let s ← s.movsb
    repMovsb ecx (s.setGpr .ecx (s.gpr .ecx - 1#32))

/-- `mem_cpy`. -/
def memCpy (s : Cpu) : Option Cpu := do
  let s ← s.pushWord (s.gpr .ebp)
  let s := s.setGpr .ebp s.esp
  let s ← s.pushWord (s.gpr .ecx)
  let s := s.setGpr .edi (← s.read32 (addr (s.gpr .ebp) 8))
  let s := s.setGpr .esi (← s.read32 (addr (s.gpr .ebp) 12))
  let s := s.setGpr .ecx (← s.read32 (addr (s.gpr .ebp) 16))
  let s ← repMovsb (s.gpr .ecx).toNat s
  let s ← s.popWord .ecx
  let s ← s.popWord .ebp
  s.return'

/-- From `.each_segment` to `.PTNULL`. The call of `mem_cpy` is going to return to `ret`. -/
def segment (ret : BitVec 32) (s : Cpu) : Option Cpu := do
  let type ← s.read8 (s.gpr .ebx)
  if type = ptNull then
    return s
  let s ← s.pushWord (← s.read32 (addr (s.gpr .ebx) 16))
  let s := s.setGpr .eax (← s.read32 (addr (s.gpr .ebx) 4))
  let s := s.setGpr .eax (s.gpr .eax + kernelBinBaseAddr)
  let s ← s.pushWord (s.gpr .eax)
  let s ← s.pushWord (← s.read32 (addr (s.gpr .ebx) 8))
  let s ← s.pushWord ret
  let s ← memCpy s
  if s.eip = ret then
    return s.setEsp (addr s.esp 12)
  none

/-- The loop over the headers, for at most so many rounds. -/
def eachSegment (ret : BitVec 32) : ℕ → Cpu → Option Cpu
  | 0, _ => none
  | rounds + 1, s => do
    let s ← segment ret s
    -- .PTNULL
    let s := s.setGpr .ebx (s.gpr .ebx + s.gpr .edx)
    let s := s.setGpr .ecx (s.gpr .ecx - 1#32)
    if s.gpr .ecx = 0#32 then
      return s
    eachSegment ret rounds s

/-- `kernel_init`. -/
def kernelInit (ret : BitVec 32) (rounds : ℕ) (s : Cpu) : Option Cpu := do
  let s := s.setGpr .eax 0#32
  let s := s.setGpr .ebx 0#32
  let s := s.setGpr .ecx 0#32
  let s := s.setGpr .edx 0#32
  let s := s.setLow .edx (← s.read16 (addr kernelBinBaseAddr 42))
  let s := s.setGpr .ebx (← s.read32 (addr kernelBinBaseAddr 28))
  let s := s.setGpr .ebx (s.gpr .ebx + kernelBinBaseAddr)
  let s := s.setLow .ecx (← s.read16 (addr kernelBinBaseAddr 44))
  let s ← eachSegment ret rounds s
  s.return'

end Loader

/-! ### The image -/

/-- The half word at a physical address. -/
def ByteMemory.half (m : ByteMemory) (n : ℕ) : BitVec 16 := m (phys (n + 1)) ++ m (phys n)

/-- A program header of an ELF file. -/
structure Phdr where
  type : BitVec 32
  offset : BitVec 32
  vaddr : BitVec 32
  filesz : BitVec 32
  memsz : BitVec 32
  deriving DecidableEq

namespace Phdr

/-- `PT_LOAD`. -/
def IsLoad (h : Phdr) : Prop := h.type = 1#32

/-- The loader copies what belongs to the header. -/
def IsCopied (h : Phdr) : Prop := h.type.setWidth 8 ≠ Loader.ptNull

/-- The loader copies it although it is not to be loaded. -/
def IsStray (h : Phdr) : Prop := h.IsCopied ∧ ¬ h.IsLoad

instance : DecidablePred IsLoad := fun h => inferInstanceAs (Decidable (h.type = 1#32))

instance : DecidablePred IsCopied := fun h =>
  inferInstanceAs (Decidable (h.type.setWidth 8 ≠ Loader.ptNull))

/-- Where the virtual address lies in low memory, which is mapped twice. -/
def dest (h : Phdr) : ℕ := h.vaddr.toNat % 0xc0000000

/-- The address is among the `p_filesz` bytes of the destination. -/
def Covers (h : Phdr) (x : ℕ) : Prop := h.dest ≤ x ∧ x < h.dest + h.filesz.toNat

instance (h : Phdr) (x : ℕ) : Decidable (h.Covers x) :=
  inferInstanceAs (Decidable (h.dest ≤ x ∧ x < h.dest + h.filesz.toNat))

/-- The address is in the destination, `[p_vaddr, p_vaddr + p_memsz)`. -/
def InRange (h : Phdr) (x : ℕ) : Prop := h.dest ≤ x ∧ x < h.dest + h.memsz.toNat

/-- The byte of the file that belongs to an address. -/
def fileByte (m : ByteMemory) (h : Phdr) (x : ℕ) : BitVec 8 :=
  m (phys (0x70000 + h.offset.toNat + (x - h.dest)))

end Phdr

/-- `e_phentsize`. -/
def phentsize (m : ByteMemory) : ℕ := (m.half 0x7002a).toNat

/-- `e_phnum`. -/
def phnum (m : ByteMemory) : ℕ := (m.half 0x7002c).toNat

/-- `e_phoff`. -/
def phoff (m : ByteMemory) : ℕ := (m.word 0x7001c).toNat

/-- The program header at a physical address. -/
def phdrAt (m : ByteMemory) (n : ℕ) : Phdr where
  type := m.word n
  offset := m.word (n + 4)
  vaddr := m.word (n + 8)
  filesz := m.word (n + 16)
  memsz := m.word (n + 20)

/-- The address of a program header. -/
def phdrAddr (m : ByteMemory) (i : ℕ) : ℕ := 0x70000 + phoff m + i * phentsize m

/-- A program header. -/
def phdr (m : ByteMemory) (i : ℕ) : Phdr := phdrAt m (phdrAddr m i)

/-- The words that are pushed below the return address of `kernel_init`, and that address. -/
def LoaderStack (x : ℕ) : Prop := 0x8e4 ≤ x ∧ x < 0x900

/-- The address is neither in the image nor in the loader, which has `code` bytes of instructions
and data above its stack. -/
def ClearOfLoader (len code x : ℕ) : Prop :=
  ¬ (0x8e4 ≤ x ∧ x < 0x900 + code) ∧ ¬ (0x70000 ≤ x ∧ x < 0x70000 + len)

/-- An ELF image of `len` bytes, of which 200 sectors have been read. -/
structure ElfImage (m : ByteMemory) (len code : ℕ) : Prop where
  sectors : len ≤ 200 * 512
  ehdr : 52 ≤ len
  nonempty : 0 < phnum m
  entry : 32 ≤ phentsize m
  table : phoff m + phnum m * phentsize m ≤ len
  filesz : ∀ i < phnum m, (phdr m i).IsLoad →
    (phdr m i).filesz.toNat ≤ (phdr m i).memsz.toNat
  file : ∀ i < phnum m, (phdr m i).IsLoad → ∀ x, (phdr m i).Covers x →
    (phdr m i).offset.toNat + (x - (phdr m i).dest) < len
  clear : ∀ i < phnum m, (phdr m i).IsLoad → ∀ x, (phdr m i).InRange x → ClearOfLoader len code x
  disjoint : ∀ i < phnum m, ∀ j < phnum m, (phdr m i).IsLoad → (phdr m j).IsLoad → ∀ x,
    (phdr m i).InRange x → (phdr m j).InRange x → i = j

/-- What is to be at an address. -/
structure Wanted (m : ByteMemory) (x : ℕ) (b : BitVec 8) : Prop where
  file : ∀ i < phnum m, (phdr m i).IsLoad → (phdr m i).Covers x → b = (phdr m i).fileByte m x
  zero : ∀ i < phnum m, (phdr m i).IsLoad → (phdr m i).InRange x → ¬ (phdr m i).Covers x → b = 0#8
  outside : (∀ i < phnum m, (phdr m i).IsLoad → ¬ (phdr m i).InRange x) → b = m (phys x)

/-- The image has been loaded. -/
def Loaded (m m' : ByteMemory) : Prop :=
  ∀ x < 2 ^ 32, ¬ LoaderStack x → Wanted m x (m' (phys x))

/-! ### What the loader relies on -/

/-- All that is loaded or copied goes to the MiB that `setup_page` has mapped; and what is copied
without being loaded comes from the image and stays clear of it and of the loader. -/
structure Copyable (m : ByteMemory) (len code : ℕ) : Prop where
  load : ∀ i < phnum m, (phdr m i).IsLoad → ∀ x, (phdr m i).InRange x → x < 0x100000
  stray : ∀ i < phnum m, (phdr m i).IsStray → ∀ x, (phdr m i).Covers x →
    x < 0x100000 ∧ ClearOfLoader len code x ∧
      (phdr m i).offset.toNat + (x - (phdr m i).dest) < len

/-- The bytes behind the file part of a segment are zero before, unless a stray header is copied
there; and where a stray header is the last one that is copied to an address, it puts there
what is wanted. -/
structure Harmless (m : ByteMemory) : Prop where
  zero : ∀ i < phnum m, (phdr m i).IsLoad → ∀ x, (phdr m i).InRange x → ¬ (phdr m i).Covers x →
    (∀ j < phnum m, (phdr m j).IsStray → ¬ (phdr m j).Covers x) → m (phys x) = 0#8
  stray : ∀ i < phnum m, (phdr m i).IsStray → ∀ x, (phdr m i).Covers x →
    (∀ j < phnum m, i < j → (phdr m j).IsCopied → ¬ (phdr m j).Covers x) →
    Wanted m x ((phdr m i).fileByte m x)

end ToiletOS
