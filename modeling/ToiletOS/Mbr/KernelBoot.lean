import ToiletOS.Mbr.DiskRead
import ToiletOS.Mbr.MemoryDetect
import ToiletOS.Console.Print

/-!
# From the disk to the kernel

The part of `mbr/loader.S` that is left when the memory has been detected: it takes the processor to
protected mode, reads the image of the kernel from the disk, turns paging on, moves the GDT to the
kernel's half of the address space, loads the image and jumps to it. `rd_disk_m_32`, `setup_page`
and `kernel_init` are those of the modules before; here they are called one after the other, by the
same code and on the same memory.

A run ends with no result if a call does not come back to where it was made. Where that is, is laid
out by the assembler (`ReturnSites`). The gate for the line A20 is not part of the memory, and the
registers that `setup_page` leaves are not used by the code after it.
-/

namespace ToiletOS

/-! ### Descriptors -/

/-- `gdtr`. -/
structure Gdtr where
  limit : BitVec 16
  base : BitVec 32
  deriving DecidableEq, Repr

/-- The two words of a segment descriptor. -/
structure Descriptor where
  low : BitVec 32
  high : BitVec 32
  deriving DecidableEq, Repr

namespace Descriptor

variable (d : Descriptor)

/-- Where the segment starts. -/
def base : BitVec 32 := d.high.extractLsb' 24 8 ++ d.high.extractLsb' 0 8 ++ d.low.extractLsb' 16 16

/-- The last offset. -/
def limit : BitVec 32 :=
  let limit := d.high.extractLsb' 16 4 ++ d.low.extractLsb' 0 16
  if d.high.getLsbD 23 then limit ++ 0xfff#12 else limit.setWidth 32

/-- A present segment of the kernel, for 32-bit code or for data that may be written. -/
def Usable (code : Bool) : Prop :=
  d.high.extractLsb' 12 4 = 0b1001#4 ∧ d.high.getLsbD 11 = code ∧
    if code then d.high.getLsbD 22 = true else d.high.getLsbD 9 = true

instance (code : Bool) : Decidable (d.Usable code) := by
  unfold Usable
  infer_instance

end Descriptor

/-! ### The data of `loader.S` -/

/-- `gdt_ptr`, behind `total_memory_bytes`. -/
def gdtPtr : BitVec 32 := totalMemoryBytes + 4

/-- `GDT_BASE`, behind a near `jmp`. -/
def gdtBase : BitVec 32 := loaderBaseAddr + 3

/-- `DESC_G_4K + DESC_D_32 + DESC_L + DESC_AVL`. -/
def descFlags : BitVec 32 := (1#32 <<< 23) + (1#32 <<< 22) + 0#32 + 0#32

/-- `DESC_P + DESC_DPL_0 + DESC_S_CODE`, which is `DESC_S_DATA` as well. -/
def descKind : BitVec 32 := (1#32 <<< 15) + 0#32 + (1#32 <<< 12)

/-- `DESC_LIMIT_CODE2`, `DESC_LIMIT_DATA2`. -/
def descLimit2 : BitVec 32 := 0b1111#32 <<< 16

/-- `DESC_LIMIT_VIDEO2`. -/
def descLimitVideo2 : BitVec 32 := 0b1011#32

/-- `DESC_TYPE_CODE`. -/
def descTypeCode : BitVec 32 := 1#32 <<< 11

/-- `DESC_TYPE_DATA`. -/
def descTypeData : BitVec 32 := 1#32 <<< 9

/-- `CODE_DESC`, with `DESC_CODE_HIGH4`. -/
def codeDesc : Descriptor := ⟨0x0000ffff, descFlags + descLimit2 + descKind + descTypeCode⟩

/-- `DATA_STACK_DESC`, with `DESC_DATA_HIGH4`. -/
def dataStackDesc : Descriptor := ⟨0x0000ffff, descFlags + descLimit2 + descKind + descTypeData⟩

/-- `VIDEO_DESC`, with `DESC_VIDEO_HIGH4`. -/
def videoDesc : Descriptor := ⟨0x80000007, descFlags + descLimitVideo2 + descKind + descTypeData⟩

/-- The segment that `aput_char` stores through has the limit of the descriptor. -/
theorem videoDesc_limit : videoDesc.limit.toNat + 1 = videoSegment := by decide

/-- `SELECTOR_CODE`. -/
def selectorCode : BitVec 16 := 1 <<< 3

/-- `SELECTOR_DATA`. -/
def selectorData : BitVec 16 := 2 <<< 3

/-- `SELECTOR_VIDEO`. -/
def selectorVideo : BitVec 16 := 3 <<< 3

/-- The descriptor in the slot `i` of the table at a physical address. -/
def ByteMemory.descriptor (m : ByteMemory) (table : BitVec 32) (i : ℕ) : Descriptor :=
  ⟨m.load32 (addr table (8 * i)), m.load32 (addr table (8 * i + 4))⟩

/-- The data of the loader as it was assembled. -/
structure LoaderData (m : ByteMemory) : Prop where
  code : m.descriptor gdtBase 1 = codeDesc
  data : m.descriptor gdtBase 2 = dataStackDesc
  video : m.descriptor gdtBase 3 = videoDesc
  limit : m.load16 gdtPtr = 4 * 8 - 1
  base : m.load32 (addr gdtPtr 2) = gdtBase

/-! ### The code -/

/-- Where the calls return to. -/
structure ReturnSites where
  rdDisk : BitVec 32
  setupPage : BitVec 32
  kernelInit : BitVec 32
  memCpy : BitVec 32

namespace Loader

/-- `KERNEL_START_SECTOR`. -/
def kernelStartSector : BitVec 32 := 9

/-- `LOADER_STACK_TOP`. -/
def loaderStackTop : BitVec 32 := loaderBaseAddr

/-- `KERNEL_ENTRY_POINT`. -/
def kernelEntryPoint : BitVec 32 := 0xc0001500

/-- A call, while there is no paging. -/
def call (ret : BitVec 32) (body : DiskCpu → Option DiskCpu) (s : DiskCpu) : Option DiskCpu := do
  let s ← body { s with cpu := s.cpu.push ret }
  let s := { s with cpu := s.cpu.ret }
  if s.cpu.eip = ret then return s
  none

/-- `setup_page`, but for the registers. -/
def clearAndMap (s : DiskCpu) : DiskCpu :=
  { s with cpu := { s.cpu with mem := setupPage s.cpu.mem } }

/-- `lgdt [gdt_ptr]` in real mode, which takes 24 bits of the base. -/
def lgdtReal (m : ByteMemory) : Gdtr := ⟨m.load16 gdtPtr, m.load32 (addr gdtPtr 2) &&& 0xffffff⟩

/-- From `p_mode_start` to the return from `setup_page`. -/
def pModeStart (M : AtaMedium) (r : ReturnSites) (polls : ℕ) (s : DiskCpu) : Option DiskCpu := do
  let s := s.setLow .eax selectorData
  let s := { s with cpu := s.cpu.setSeg .ds (s.low16 .eax) }
  let s := { s with cpu := s.cpu.setSeg .es (s.low16 .eax) }
  let s := { s with cpu := s.cpu.setEsp loaderStackTop }
  let s := s.setLow .eax selectorVideo
  let s := { s with cpu := s.cpu.setSeg .gs (s.low16 .eax) }
  let s := s.set .eax kernelStartSector
  let s := s.set .ebx kernelBinBaseAddr
  let s := s.set .ecx 200
  let s ← call r.rdDisk (rdDiskM32 M polls) s
  call r.setupPage (fun s => some (clearAndMap s)) s

/-- From `sgdt [gdt_ptr]` to `mov cr0, eax`, which turns paging on. -/
def moveGdt (gdtr : Gdtr) (s : Cpu) : Cpu :=
  let s := { s with mem := (s.mem.store16 gdtPtr gdtr.limit).store32 (addr gdtPtr 2) gdtr.base }
  let s := s.setGpr .ebx (s.load (addr gdtPtr 2))
  let s := s.store (addr (s.gpr .ebx) (0x18 + 4))
    (s.load (addr (s.gpr .ebx) (0x18 + 4)) ||| 0xc0000000)
  let s := s.store (addr gdtPtr 2) (s.load (addr gdtPtr 2) + 0xc0000000)
  let s := s.setEsp (s.esp + 0xc0000000)
  let s := s.setGpr .eax pageDirTablePos
  s

/-- From there to `jmp KERNEL_ENTRY_POINT`, with paging on. -/
def enterKernel (r : ReturnSites) (rounds : ℕ) (s : Cpu) : Option (Cpu × Gdtr) := do
  -- `lgdt [gdt_ptr]`
  let gdtr : Gdtr := ⟨← s.read16 gdtPtr, ← s.read32 (addr gdtPtr 2)⟩
  let s := { s with cs := selectorCode }
  let s ← s.pushWord r.kernelInit
  let s ← kernelInit r.memCpy rounds s
  if s.eip = r.kernelInit then
    let s := s.setEsp 0xc009f000
    return ({ s with eip := kernelEntryPoint }, gdtr)
  none

/-- From the first `lgdt [gdt_ptr]` to the kernel. -/
def bootKernel (M : AtaMedium) (r : ReturnSites) (polls rounds : ℕ) (s : DiskCpu) :
    Option (Cpu × Gdtr) := do
  let gdtr := lgdtReal s.cpu.mem
  let s ← pModeStart M r polls s
  enterKernel r rounds (moveGdt gdtr s.cpu)

end Loader
/-! ### The image after it has been read -/

section SameImage

variable {m m' : ByteMemory} {len code : ℕ}

/-- The image is the same, and so is what is clear of it and of the loader. -/
structure SameImage (len code : ℕ) (m m' : ByteMemory) : Prop where
  image : ∀ x, 0x70000 ≤ x → x < 0x70000 + len → m' (phys x) = m (phys x)
  clear : ∀ x < 0x100000, ClearOfLoader len code x → m' (phys x) = m (phys x)

namespace SameImage

variable (h : SameImage len code m m') (h_image : ElfImage m len code)

include h h_image

theorem phnum_eq : phnum m' = phnum m := by
  have h_ehdr := h_image.ehdr
  unfold phnum ByteMemory.half
  rw [h.image 0x7002c (by decide) (by omega), h.image (0x7002c + 1) (by decide) (by omega)]

theorem phentsize_eq : phentsize m' = phentsize m := by
  have h_ehdr := h_image.ehdr
  unfold phentsize ByteMemory.half
  rw [h.image 0x7002a (by decide) (by omega), h.image (0x7002a + 1) (by decide) (by omega)]

theorem phoff_eq : phoff m' = phoff m := by
  have h_ehdr := h_image.ehdr
  unfold phoff
  rw [ByteMemory.word_congr m fun k hk => h.image (0x7001c + k) (by omega) (by omega)]

theorem phdr_eq {i : ℕ} (hi : i < phnum m) : phdr m' i = phdr m i := by
  have h_end := h_image.phdrAddr_le hi
  have h_addr : phdrAddr m' i = phdrAddr m i := by
    rw [phdrAddr, phdrAddr, h.phoff_eq h_image, h.phentsize_eq h_image]
  have h_start : 0x70000 ≤ phdrAddr m i := by
    unfold phdrAddr
    omega
  have h_word {k : ℕ} (hk : k + 4 ≤ 32) : m'.word (phdrAddr m i + k) = m.word (phdrAddr m i + k) :=
    ByteMemory.word_congr m fun x hx => h.image _ (by omega) (by omega)
  rw [phdr, phdr, phdrAt, phdrAt, h_addr, h_word (k := 4) (by decide), h_word (k := 8) (by decide),
    h_word (k := 16) (by decide), h_word (k := 20) (by decide),
    show m'.word (phdrAddr m i) = m.word (phdrAddr m i) from h_word (k := 0) (by decide)]

theorem elfImage : ElfImage m' len code := by
  have h_phnum := h.phnum_eq h_image
  have h_phdr {i : ℕ} (hi : i < phnum m') : i < phnum m ∧ phdr m' i = phdr m i := by
    rw [h_phnum] at hi
    exact ⟨hi, h.phdr_eq h_image hi⟩
  refine ⟨h_image.sectors, h_image.ehdr, ?_, ?_, ?_, ?_, ?_, ?_, ?_⟩
  · rw [h_phnum]
    exact h_image.nonempty
  · rw [h.phentsize_eq h_image]
    exact h_image.entry
  · rw [h_phnum, h.phentsize_eq h_image, h.phoff_eq h_image]
    exact h_image.table
  · intro i hi
    rw [(h_phdr hi).2]
    exact h_image.filesz i (h_phdr hi).1
  · intro i hi
    rw [(h_phdr hi).2]
    exact h_image.file i (h_phdr hi).1
  · intro i hi
    rw [(h_phdr hi).2]
    exact h_image.clear i (h_phdr hi).1
  · intro i hi j hj
    rw [(h_phdr hi).2, (h_phdr hj).2]
    exact h_image.disjoint i (h_phdr hi).1 j (h_phdr hj).1

theorem copyable (h_copy : Copyable m len code) : Copyable m' len code := by
  have h_phnum := h.phnum_eq h_image
  refine ⟨fun i hi => ?_, fun i hi => ?_⟩
  · rw [h_phnum] at hi
    rw [h.phdr_eq h_image hi]
    exact h_copy.load i hi
  · rw [h_phnum] at hi
    rw [h.phdr_eq h_image hi]
    exact h_copy.stray i hi

/-- The bytes of a segment lie in the image. -/
theorem fileByte_eq {i x : ℕ} (hx : (phdr m i).offset.toNat + (x - (phdr m i).dest) < len) :
    (phdr m i).fileByte m' x = (phdr m i).fileByte m x := by
  have h_sectors := h_image.sectors
  exact h.image _ (by omega) (by omega)

theorem wanted {x : ℕ} (hx : x < 0x100000) (h_clear : ClearOfLoader len code x) {b : BitVec 8}
    (h_wanted : Wanted m x b) : Wanted m' x b := by
  have h_phnum := h.phnum_eq h_image
  refine ⟨?_, ?_, ?_⟩
  · intro i hi h_load h_covers
    rw [h_phnum] at hi
    rw [h.phdr_eq h_image hi] at h_load h_covers ⊢
    rw [h.fileByte_eq h_image (h_image.file i hi h_load x h_covers)]
    exact h_wanted.file i hi h_load h_covers
  · intro i hi
    rw [h_phnum] at hi
    rw [h.phdr_eq h_image hi]
    exact h_wanted.zero i hi
  · intro h_outside
    rw [h.clear x hx h_clear]
    refine h_wanted.outside fun i hi => ?_
    rw [← h.phdr_eq h_image hi]
    exact h_outside i (by rw [h_phnum]; exact hi)

theorem harmless (h_copy : Copyable m len code) (h_harmless : Harmless m) : Harmless m' := by
  have h_phnum := h.phnum_eq h_image
  have h_phdr {j : ℕ} (hj : j < phnum m) : phdr m' j = phdr m j ∧ j < phnum m' := by
    rw [h_phnum]
    exact ⟨h.phdr_eq h_image hj, hj⟩
  refine ⟨?_, ?_⟩
  · intro i hi h_load x h_range h_not h_stray
    rw [h_phnum] at hi
    rw [h.phdr_eq h_image hi] at h_load h_range h_not
    rw [h.clear x (h_copy.load i hi h_load x h_range) (h_image.clear i hi h_load x h_range)]
    refine h_harmless.zero i hi h_load x h_range h_not fun j hj => ?_
    rw [← (h_phdr hj).1]
    exact h_stray j (h_phdr hj).2
  · intro i hi h_stray x h_covers h_last
    rw [h_phnum] at hi
    rw [h.phdr_eq h_image hi] at h_stray h_covers ⊢
    obtain ⟨hx, h_clear, h_inside⟩ := h_copy.stray i hi h_stray x h_covers
    rw [h.fileByte_eq h_image h_inside]
    refine h.wanted h_image hx h_clear (h_harmless.stray i hi h_stray x h_covers fun j hj => ?_)
    rw [← (h_phdr hj).1]
    exact h_last j (h_phdr hj).2

end SameImage
end SameImage

/-! ### Protected mode -/

/-- The image of the kernel where the loader puts it, and the rest of memory. -/
def imageFile (M : AtaMedium) (m : ByteMemory) : ByteMemory :=
  fun a => M.readTo 9 0x70000 (256 * 200) m a.toNat

theorem imageFile_phys (M : AtaMedium) (m : ByteMemory) {x : ℕ} (hx : x < 2 ^ 32) :
    imageFile M m (phys x) = M.readTo 9 0x70000 (256 * 200) m x := by
  rw [imageFile, toNat_phys hx]

section Calls

variable {s t : DiskCpu} {ret : BitVec 32} (body : DiskCpu → Option DiskCpu)

/-- A call that comes back. -/
theorem call_return (h_body : body { s with cpu := s.cpu.push ret } = some t)
    (h_esp : t.cpu.esp = s.cpu.esp - 4#32) (h_top : t.cpu.mem.load32 (s.cpu.esp - 4#32) = ret) :
    ∃ u, Loader.call ret body s = some u ∧ u.cpu.mem = t.cpu.mem ∧ u.cpu.esp = s.cpu.esp := by
  have h_eip : t.cpu.ret.eip = ret := by
    rw [Cpu.ret_eip, Cpu.load, h_esp, h_top]
  refine ⟨{ t with cpu := t.cpu.ret }, ?_, rfl, ?_⟩
  · rw [Loader.call, bind_of_some h_body]
    exact if_pos h_eip
  · show t.cpu.ret.esp = s.cpu.esp
    rw [Cpu.ret_esp, h_esp]
    exact BitVec.sub_add_cancel ..

end Calls

section Mode

variable {M : AtaMedium} {s : DiskCpu} {m : ByteMemory}

/-- The memory when `setup_page` has returned. -/
structure PagesSet (M : AtaMedium) (m : ByteMemory) (s : DiskCpu) : Prop where
  esp : s.cpu.esp = 0x900
  mapped : BootMapped s.cpu.mem
  bytes : ∀ x < 2 ^ 32, ¬ (0x8fc ≤ x ∧ x < 0x900) → ¬ (0x100000 ≤ x ∧ x < 0x101400) →
    s.cpu.mem (phys x) = imageFile M m (phys x)

theorem setupPage_byte (m : ByteMemory) {x : ℕ} (hx : x < 2 ^ 32)
    (h : ¬ (0x100000 ≤ x ∧ x < 0x101400)) : setupPage m (phys x) = m (phys x) := by
  rw [(setupPage m).byte_eq_word, m.byte_eq_word, setupPage_word m (by omega) (by omega)]

theorem clearAndMap_mem (s : DiskCpu) : (Loader.clearAndMap s).cpu.mem = setupPage s.cpu.mem := by
  rw [Loader.clearAndMap]

theorem clearAndMap_esp (s : DiskCpu) : (Loader.clearAndMap s).cpu.esp = s.cpu.esp := by
  rw [Loader.clearAndMap]

/-- `p_mode_start`, if the drive is not busy between the sectors. -/
theorem pModeStart_run (h_steady : M.Steady 200) (r : ReturnSites) (s : DiskCpu) :
    ∃ s', (∃ few, ∀ polls, few < polls → Loader.pModeStart M r polls s = some s') ∧
      PagesSet M s.cpu.mem s' := by
  -- the state in which `rd_disk_m_32` is called
  obtain ⟨s₁, h_enter, h_eax, h_ebx, h_ecx, h_esp, h_mem⟩ : ∃ s₁ : DiskCpu,
      (∀ polls, Loader.pModeStart M r polls s = do
        let s ← Loader.call r.rdDisk (Loader.rdDiskM32 M polls) s₁
        Loader.call r.setupPage (fun s => some (Loader.clearAndMap s)) s) ∧
      s₁.gpr .eax = BitVec.ofNat 32 9 ∧ s₁.gpr .ebx = phys 0x70000 ∧
      s₁.gpr .ecx = BitVec.ofNat 32 200 ∧ s₁.cpu.esp = 0x900 ∧ s₁.cpu.mem = s.cpu.mem := by
    refine ⟨_, fun polls => rfl, ?_, ?_, ?_, rfl, rfl⟩ <;> simp <;> rfl
  have h_push : s₁.cpu.esp - 4#32 = phys 0x8fc := by
    rw [h_esp]
    rfl
  have h_request : DiskRequest .bits32 9 200 0x70000 { s₁ with cpu := s₁.cpu.push r.rdDisk } :=
    ⟨by decide, by decide, by decide, by decide, h_eax, h_ecx, h_ebx⟩
  obtain ⟨t, ⟨few, h_disk⟩, h_esp', h_bytes⟩ := getsSectors_of_steady h_request h_steady
  have h_mem' : (s₁.cpu.push r.rdDisk).mem = s.cpu.mem.store32 (phys 0x8fc) r.rdDisk := by
    rw [Cpu.push_mem, h_push, h_mem]
  -- the sectors do not reach the return address
  have h_byte {x : ℕ} (hx : x < 2 ^ 32) : t.cpu.mem (phys x) =
      M.readTo 9 0x70000 (256 * 200) (s.cpu.mem.store32 (phys 0x8fc) r.rdDisk) x := by
    rw [h_bytes x hx]
    dsimp only
    rw [h_mem']
  have h_top : t.cpu.mem.load32 (phys 0x8fc) = r.rdDisk := by
    have h_word : t.cpu.mem.word 0x8fc =
        (s.cpu.mem.store32 (phys 0x8fc) r.rdDisk).word 0x8fc :=
      ByteMemory.word_congr _ fun k hk => by
        rw [h_byte (by omega), AtaMedium.readTo, if_neg (by omega)]
    exact h_word.trans (ByteMemory.word_store32_self ..)
  obtain ⟨u, h_mem_u, h_esp_u, h_call⟩ : ∃ u : DiskCpu, u.cpu.mem = t.cpu.mem ∧
      u.cpu.esp = 0x900 ∧ ∀ polls, few < polls →
        Loader.call r.rdDisk (Loader.rdDiskM32 M polls) s₁ = some u := by
    have h_back (polls : ℕ) (h_polls : few < polls) :=
      call_return _ (h_disk polls h_polls) h_esp' (by rw [h_push]; exact h_top)
    obtain ⟨u, h_call, h_mem_u, h_esp_u⟩ := h_back (few + 1) (Nat.lt_succ_self few)
    refine ⟨u, h_mem_u, h_esp_u.trans h_esp, fun polls h_polls => ?_⟩
    rw [← h_call, Loader.call, Loader.call]
    exact congrArg (fun o => o >>= _)
      ((h_disk polls h_polls).trans (h_disk (few + 1) (Nat.lt_succ_self few)).symm)
  -- the call of `setup_page`
  have h_push' : u.cpu.esp - 4#32 = phys 0x8fc := by
    rw [h_esp_u]
    rfl
  have h_word : (setupPage (u.cpu.push r.setupPage).mem).word 0x8fc = r.setupPage := by
    rw [setupPage_word _ (by decide) (by decide), Cpu.push_mem, h_push']
    exact ByteMemory.word_store32_self ..
  have h_mem_body := clearAndMap_mem { u with cpu := u.cpu.push r.setupPage }
  have h_top' : (Loader.clearAndMap { u with cpu := u.cpu.push r.setupPage }).cpu.mem.load32
      (u.cpu.esp - 4#32) = r.setupPage := by
    rewrite [h_mem_body, h_push']
    exact h_word
  have h_esp_body : (Loader.clearAndMap { u with cpu := u.cpu.push r.setupPage }).cpu.esp =
      u.cpu.esp - 4#32 := by
    rw [clearAndMap_esp, Cpu.push_esp]
  obtain ⟨v, h_page, h_mem_v, h_esp_v⟩ := call_return (s := u)
    (fun s => some (Loader.clearAndMap s)) rfl h_esp_body h_top'
  refine ⟨v, ⟨few, fun polls h_polls => ?_⟩, h_esp_v.trans h_esp_u, ?_, ?_⟩
  · rw [h_enter, bind_of_some (h_call polls h_polls), h_page]
  · rw [h_mem_v, h_mem_body]
    exact bootMapped_setupPage _
  · intro x hx h_stack h_tables
    have h_v : v.cpu.mem (phys x) = t.cpu.mem (phys x) := by
      rw [h_mem_v, h_mem_body, setupPage_byte _ hx h_tables, Cpu.push_mem, h_push',
        ByteMemory.byte_store32 _ _ hx (by decide) (by omega), h_mem_u]
    rw [h_v, h_byte hx, imageFile_phys _ _ hx, AtaMedium.readTo, AtaMedium.readTo,
      ByteMemory.byte_store32 _ _ hx (by decide) (by omega)]

end Mode

/-! ### The GDT -/

theorem gdtBase_addr (k : ℕ) : addr gdtBase k = phys (0x903 + k) := phys_add 0x903 k

/-- What `moveGdt` writes: the word of the descriptor of the screen, and `gdt_ptr`. -/
def IsMoved (x : ℕ) : Prop := (0x91f ≤ x ∧ x < 0x923) ∨ (0xb07 ≤ x ∧ x < 0xb0d)

section Gdt

variable {s : Cpu}

/-- The memory after `moveGdt`. -/
def movedMem (m : ByteMemory) : ByteMemory :=
  (((m.store16 (phys 0xb07) 31).store32 (phys 0xb09) gdtBase).store32 (phys 0x91f)
    (m.word 0x91f ||| 0xc0000000)).store32 (phys 0xb09) (gdtBase + 0xc0000000)

/-- The stores of `moveGdt`, one after the other. -/
theorem moveGdt_stores (gdtr : Gdtr) {m₁ m₂ : ByteMemory} {ebx : BitVec 32}
    (h₁ : m₁ = (s.mem.store16 gdtPtr gdtr.limit).store32 (addr gdtPtr 2) gdtr.base)
    (h_ebx : m₁.load32 (addr gdtPtr 2) = ebx)
    (h₂ : m₂ = m₁.store32 (addr ebx (0x18 + 4)) (m₁.load32 (addr ebx (0x18 + 4)) ||| 0xc0000000)) :
    (Loader.moveGdt gdtr s).mem =
      m₂.store32 (addr gdtPtr 2) (m₂.load32 (addr gdtPtr 2) + 0xc0000000) := by
  subst h₁ h_ebx h₂
  rfl

theorem moveGdt_mem : (Loader.moveGdt ⟨31, gdtBase⟩ s).mem = movedMem s.mem := by
  have h_base : ((s.mem.store16 gdtPtr 31).store32 (addr gdtPtr 2) gdtBase).load32 (addr gdtPtr 2) =
      gdtBase := ByteMemory.load32_store32 ..
  have h_high : ((s.mem.store16 gdtPtr 31).store32 (addr gdtPtr 2) gdtBase).load32
      (addr gdtBase (0x18 + 4)) = s.mem.word 0x91f := by
    refine ByteMemory.word_congr (n := 0x91f) _ fun k hk => ?_
    have h_ptr : gdtPtr = phys 0xb07 := rfl
    have h_ptr2 : addr gdtPtr 2 = phys 0xb09 := rfl
    rw [h_ptr2, ByteMemory.byte_store32 _ _ (by omega) (by omega) (by omega), h_ptr,
      store16_phys _ _ (by omega) (by omega), if_neg (by omega), if_neg (by omega)]
  have h_kept (m : ByteMemory) (v : BitVec 32) :
      (m.store32 (phys 0x91f) v).load32 (phys 0xb09) = m.load32 (phys 0xb09) :=
    m.word_store32 (i := 0xb09) v (by decide) (by decide) (by decide)
  rw [moveGdt_stores ⟨31, gdtBase⟩ rfl h_base rfl, h_high]
  exact congrArg _ (congrArg (fun v => v + 0xc0000000) ((h_kept _ _).trans h_base))

theorem moveGdt_esp (gdtr : Gdtr) : (Loader.moveGdt gdtr s).esp = s.esp + 0xc0000000 := rfl

theorem movedMem_byte (m : ByteMemory) {x : ℕ} (hx : x < 2 ^ 32) (h : ¬ IsMoved x) :
    movedMem m (phys x) = m (phys x) := by
  unfold IsMoved at h
  rw [movedMem, ByteMemory.byte_store32 _ _ hx (by decide) (by omega),
    ByteMemory.byte_store32 _ _ hx (by decide) (by omega),
    ByteMemory.byte_store32 _ _ hx (by decide) (by omega), store16_phys _ _ (by decide) hx,
    if_neg (by omega), if_neg (by omega)]

theorem movedMem_base (m : ByteMemory) : (movedMem m).word 0xb09 = gdtBase + 0xc0000000 :=
  ByteMemory.word_store32_self ..

theorem movedMem_limit (m : ByteMemory) : (movedMem m).half 0xb07 = 31 := by
  have h_byte {x : ℕ} (hx : x < 0xb09) (hx' : 0x923 ≤ x) :
      movedMem m (phys x) = m.store16 (phys 0xb07) 31 (phys x) := by
    rw [movedMem, ByteMemory.byte_store32 _ _ (by omega) (by decide) (by omega),
      ByteMemory.byte_store32 _ _ (by omega) (by decide) (by omega),
      ByteMemory.byte_store32 _ _ (by omega) (by decide) (by omega)]
  rw [ByteMemory.half, h_byte (by decide) (by decide), h_byte (by decide) (by decide)]
  exact ByteMemory.load16_store16 ..

theorem movedMem_video (m : ByteMemory) :
    (movedMem m).word 0x91f = m.word 0x91f ||| 0xc0000000 := by
  rw [movedMem, ByteMemory.word_store32 _ _ (by decide) (by decide) (by decide),
    ByteMemory.word_store32_self]

theorem BootMapped.movedMem {m : ByteMemory} (h : BootMapped m) : BootMapped (movedMem m) := by
  have h_limit : BootMapped (m.store16 (phys 0xb07) 31) :=
    (h.store8 (n := 0xb07) (by decide) _).store8 (n := 0xb08) (by decide) _
  exact ((h_limit.store32 (by decide) _).store32 (by decide) _).store32 (by decide) _

end Gdt

/-! ### What the kernel finds -/

/-- The descriptor that a selector of slot `i` refers to. The table is read through the page tables.
-/
def Cpu.descriptor (s : Cpu) (gdtr : Gdtr) (i : ℕ) : Option Descriptor := do
  let low ← s.read32 (addr gdtr.base (8 * i))
  let high ← s.read32 (addr gdtr.base (8 * i + 4))
  return ⟨low, high⟩

/-- A segment for code or data that spans all addresses. -/
def Cpu.FlatAt (s : Cpu) (gdtr : Gdtr) (code : Bool) (i : ℕ) : Prop :=
  ∃ d, s.descriptor gdtr i = some d ∧ d.Usable code ∧ d.base = 0 ∧ d.limit = 0xffffffff

/-- A segment for the 32 KiB of the memory of the screen, at the physical address `0xb8000`. -/
def Cpu.ScreenAt (s : Cpu) (gdtr : Gdtr) (i : ℕ) : Prop :=
  ∃ d, s.descriptor gdtr i = some d ∧ d.Usable false ∧ d.limit = 0x7fff ∧
    ∀ k ≤ 0x7fff, translate s.mem (addr d.base k) = some (phys (0xb8000 + k))

/-- The kernel has been entered, with the segments of the image in memory and a table of descriptors
that it can use. -/
structure KernelEntered (file : ByteMemory) (s : Cpu) (gdtr : Gdtr) : Prop where
  eip : s.eip = 0xc0001500
  esp : s.esp = 0xc009f000
  mapped : BootMapped s.mem
  segment : ∀ i < phnum file, (phdr file i).IsLoad → ∀ x, (phdr file i).InRange x →
    s.mem (phys x) = if (phdr file i).Covers x then (phdr file i).fileByte file x else 0
  rest : ∀ x < 0x100000, ¬ LoaderStack x → ¬ IsMoved x →
    (∀ i < phnum file, (phdr file i).IsLoad → ¬ (phdr file i).InRange x) →
    s.mem (phys x) = file (phys x)
  limit : gdtr.limit = 4 * 8 - 1
  code : s.FlatAt gdtr true 1
  data : s.FlatAt gdtr false 2
  screen : s.ScreenAt gdtr 3

section Entered

variable {M : AtaMedium} {m : ByteMemory} {len code : ℕ}

/-- The memory when `kernel_init` is called. -/
def callInitMem (u : DiskCpu) (ret : BitVec 32) : ByteMemory :=
  (movedMem u.cpu.mem).store32 (phys 0x8fc) ret

theorem callInitMem_byte {u : DiskCpu} (h : PagesSet M m u) (ret : BitVec 32) {x : ℕ}
    (hx : x < 0x100000) (h_stack : ¬ (0x8fc ≤ x ∧ x < 0x900)) (h_moved : ¬ IsMoved x) :
    callInitMem u ret (phys x) = imageFile M m (phys x) := by
  rw [callInitMem, ByteMemory.byte_store32 _ _ (by omega) (by decide) (by omega),
    movedMem_byte _ (by omega) h_moved, h.bytes x (by omega) h_stack (by omega)]

/-- A word of the loader, which lies in front of the image. -/
theorem imageFile_word (M : AtaMedium) (m : ByteMemory) {n : ℕ} (hn : n + 4 ≤ 0x70000) :
    (imageFile M m).word n = m.word n := by
  refine ByteMemory.word_congr _ fun k hk => ?_
  rw [imageFile_phys _ _ (by omega), AtaMedium.readTo, if_neg (by omega)]

theorem callInitMem_word {u : DiskCpu} (h : PagesSet M m u) (ret : BitVec 32) {n : ℕ}
    (hn : 0x900 ≤ n) (hn' : n + 4 ≤ 0x91f) : (callInitMem u ret).word n = m.word n := by
  rw [← imageFile_word M m (by omega)]
  refine ByteMemory.word_congr _ fun k hk => callInitMem_byte h ret (by omega) (by omega) ?_
  unfold IsMoved
  omega

theorem callInitMem_video {u : DiskCpu} (h : PagesSet M m u) (ret : BitVec 32) :
    (callInitMem u ret).word 0x91f = m.word 0x91f ||| 0xc0000000 := by
  have h_word : u.cpu.mem.word 0x91f = m.word 0x91f := by
    rw [← imageFile_word M m (by decide)]
    exact ByteMemory.word_congr _ fun k hk => h.bytes _ (by omega) (by omega) (by omega)
  rw [callInitMem, ByteMemory.word_store32 _ _ (by decide) (by decide) (by decide), movedMem_video,
    h_word]

theorem bootMapped_callInitMem {u : DiskCpu} (h : PagesSet M m u) (ret : BitVec 32) :
    BootMapped (callInitMem u ret) := h.mapped.movedMem.store32 (by decide) ret

/-- Nothing in front of the image has been changed but what is moved. -/
theorem sameImage_callInitMem {u : DiskCpu} (h : PagesSet M m u) (h_code : 0x20d ≤ code)
    (h_len : len ≤ 200 * 512) (ret : BitVec 32) :
    SameImage len code (imageFile M m) (callInitMem u ret) := by
  refine ⟨fun x hx hx' => callInitMem_byte h ret (by omega) (by omega) ?_, fun x hx h_clear =>
    callInitMem_byte h ret hx ?_ ?_⟩
  · unfold IsMoved
    omega
  · have h_loader := h_clear.1
    omega
  · have h_loader := h_clear.1
    unfold IsMoved
    omega

/-- The table is read at its place in the kernel's half. -/
theorem descriptor_low {s : Cpu} (h : BootMapped s.mem) {gdtr : Gdtr}
    (h_base : gdtr.base = gdtBase + 0xc0000000) {i : ℕ} (hi : i < 4) :
    s.descriptor gdtr i =
      some ⟨s.mem.word (0x903 + 8 * i), s.mem.word (0x903 + (8 * i + 4))⟩ := by
  have h_low : Low gdtr.base 0x903 := by
    rw [h_base]
    decide
  rw [Cpu.descriptor, bind_of_some (Cpu.read32_low h (h_low.addr (by omega)) (by omega)),
    bind_of_some (Cpu.read32_low h (h_low.addr (by omega)) (by omega))]
  rfl

/-- From the call of `kernel_init` on. -/
theorem enterKernel_run (h_image : ElfImage (imageFile M m) len code)
    (h_copy : Copyable (imageFile M m) len code) (h_code : 0x20d ≤ code) (r : ReturnSites)
    {u : DiskCpu} (h : PagesSet M m u) :
    ∃ s' : Cpu, (∀ rounds, phnum (imageFile M m) ≤ rounds →
        Loader.enterKernel r rounds (Loader.moveGdt ⟨31, gdtBase⟩ u.cpu) =
          some (s', ⟨31, gdtBase + 0xc0000000⟩)) ∧
      s'.eip = 0xc0001500 ∧ s'.esp = 0xc009f000 ∧
      ∀ x < 2 ^ 32, ¬ (0x8e4 ≤ x ∧ x < 0x8fc) → s'.mem (phys x) =
        (written (callInitMem u r.kernelInit) (phnum (callInitMem u r.kernelInit)) x).getD
          (callInitMem u r.kernelInit (phys x)) := by
  have h_mem := moveGdt_mem (s := u.cpu)
  have h_esp : (Loader.moveGdt ⟨31, gdtBase⟩ u.cpu).esp = 0xc0000900#32 := by
    rw [moveGdt_esp, h.esp]
    rfl
  generalize Loader.moveGdt ⟨31, gdtBase⟩ u.cpu = s at h_mem h_esp ⊢
  have h_mapped : BootMapped s.mem := by
    rw [h_mem]
    exact h.mapped.movedMem
  have h_limit : s.read16 gdtPtr = some 31 := by
    rw [Cpu.read16_low (n := 0xb07) h_mapped (by decide) (by decide), h_mem, movedMem_limit]
  have h_base : s.read32 (addr gdtPtr 2) = some (gdtBase + 0xc0000000) := by
    rw [Cpu.read32_low (n := 0xb09) h_mapped (by decide) (by decide), h_mem, movedMem_base]
  have h_low : Low (({ s with cs := selectorCode } : Cpu).esp - 4#32) 0x8fc := by
    dsimp only
    rw [h_esp]
    decide
  obtain ⟨s₂, h_push, h_pushed⟩ := Cpu.exists_pushed (s := { s with cs := selectorCode }) h_mapped
    h_low (by decide) r.kernelInit
  have h_mem₂ : s₂.mem = callInitMem u r.kernelInit := by
    rw [h_pushed.mem]
    dsimp only
    rw [h_mem, callInitMem]
  have h_esp₂ : s₂.esp = 0xc00008fc#32 := by
    rw [h_pushed.esp]
    dsimp only
    rw [h_esp]
    rfl
  have h_same := sameImage_callInitMem h h_code h_image.sectors r.kernelInit
  rw [← h_mem₂] at h_same ⊢
  have h_phnum := h_same.phnum_eq h_image
  obtain ⟨s₃, h_run, h_eip, -, h_bytes⟩ := kernelInit_run r.memCpy h_pushed.mapped
    (h_same.elfImage h_image) (h_same.copyable h_image h_copy) (s := s₂) rfl h_esp₂
  rw [h_phnum] at h_run
  have h_ret : s₃.eip = r.kernelInit := by
    rw [h_eip, h_mem₂, callInitMem]
    exact ByteMemory.word_store32_self ..
  refine ⟨{ s₃.setEsp 0xc009f000 with eip := Loader.kernelEntryPoint }, fun rounds h_rounds => ?_,
    rfl, rfl, h_bytes⟩
  rw [Loader.enterKernel, bind_of_some h_limit, bind_of_some h_base]
  dsimp only
  rw [bind_of_some h_push, bind_of_some (h_run rounds h_rounds), if_pos h_ret]
  rfl

/-- `kernel_init` keeps off the loader and the page tables. -/
theorem written_off {m : ByteMemory} (h_image : ElfImage m len code) (h_copy : Copyable m len code)
    {x : ℕ} (hx : 0x100000 ≤ x ∨ (0x900 ≤ x ∧ x < 0x900 + code)) :
    written m (phnum m) x = none := by
  rcases written_cases m (phnum m) x with ⟨h_none, -⟩ | ⟨i, hi, h_copied, h_covers, -, -⟩
  · exact h_none
  · obtain ⟨h_low, h_clear, -⟩ := covers_clear h_image h_copy hi h_copied h_covers
    have h_loader := h_clear.1
    omega

/-- The page tables stay, if their words do. -/
theorem BootMapped.congr {m m' : ByteMemory} (h : BootMapped m)
    (h_same : ∀ x, 0x100000 ≤ x → x < 0x102000 → m' (phys x) = m (phys x)) : BootMapped m' where
  mapped := h.mapped.congr
    (fun i hi => ByteMemory.word_congr _ fun k hk =>
      h_same _ (by rw [dirAddr]; omega) (by rw [dirAddr]; omega))
    (fun j hj => ByteMemory.word_congr _ fun k hk =>
      h_same _ (by rw [tableAddr]; omega) (by rw [tableAddr]; omega))
  first := (ByteMemory.word_congr _ fun k hk =>
    h_same _ (by rw [dirAddr]; omega) (by rw [dirAddr]; omega)).trans h.first

theorem bootMapped_of_kept {u : DiskCpu} (h_pages : PagesSet M m u) (r : ReturnSites) {s' : Cpu}
    (h_kept : ∀ x < 2 ^ 32, 0x100000 ≤ x →
      s'.mem (phys x) = callInitMem u r.kernelInit (phys x)) : BootMapped s'.mem :=
  (bootMapped_callInitMem h_pages r.kernelInit).congr fun x hx hx' => h_kept x (by omega) hx

/-- The descriptors of the loader, the last one moved, are what the kernel finds. -/
theorem descriptors_usable {s : Cpu} (gdtr : Gdtr) (h_mapped : BootMapped s.mem)
    (h_base : gdtr.base = gdtBase + 0xc0000000) (h_data : LoaderData m)
    (h_words : ∀ n, 0x903 ≤ n → n + 4 ≤ 0x91f → s.mem.word n = m.word n)
    (h_video : s.mem.word 0x91f = m.word 0x91f ||| 0xc0000000) :
    s.FlatAt gdtr true 1 ∧ s.FlatAt gdtr false 2 ∧ s.ScreenAt gdtr 3 := by
  obtain ⟨h_code, h_flat, h_screen, -, -⟩ := h_data
  have h_desc {i : ℕ} (hi : i < 3) : s.descriptor gdtr i = some (m.descriptor gdtBase i) := by
    rw [descriptor_low h_mapped h_base (by omega), h_words _ (by omega) (by omega),
      h_words _ (by omega) (by omega), ByteMemory.descriptor, gdtBase_addr, gdtBase_addr]
    rfl
  have h_three : s.descriptor gdtr 3 = some ⟨videoDesc.low, videoDesc.high ||| 0xc0000000⟩ := by
    have h_low : m.word 0x91b = videoDesc.low := congrArg Descriptor.low h_screen
    have h_high : m.word 0x91f = videoDesc.high := congrArg Descriptor.high h_screen
    rw [descriptor_low h_mapped h_base (by decide), h_words _ (by decide) (by decide), h_low,
      h_video, h_high]
  refine ⟨⟨_, h_desc (by decide), ?_⟩, ⟨_, h_desc (by decide), ?_⟩, ⟨_, h_three, by decide,
    by decide, fun k hk => ?_⟩⟩
  · rw [h_code]
    decide
  · rw [h_flat]
    decide
  · have h_start : (⟨videoDesc.low, videoDesc.high ||| 0xc0000000⟩ : Descriptor).base =
        0xc00b8000 := by decide
    have h_low : Low (0xc00b8000 : BitVec 32) 0xb8000 := by decide
    rw [h_start]
    exact h_mapped.translate_low (h_low.addr (by omega))

/-- The whole run, and every byte it leaves. -/
theorem bootKernel_run (h_steady : M.Steady 200) (s : DiskCpu) (h_data : LoaderData s.cpu.mem)
    (h_code : 0x20d ≤ code) (h_image : ElfImage (imageFile M s.cpu.mem) len code)
    (h_copy : Copyable (imageFile M s.cpu.mem) len code) (r : ReturnSites) :
    ∃ u s' few, PagesSet M s.cpu.mem u ∧
      (∀ polls rounds, few < polls → phnum (imageFile M s.cpu.mem) ≤ rounds →
        Loader.bootKernel M r polls rounds s = some (s', ⟨31, gdtBase + 0xc0000000⟩)) ∧
      s'.eip = 0xc0001500 ∧ s'.esp = 0xc009f000 ∧
      ∀ x < 2 ^ 32, ¬ (0x8e4 ≤ x ∧ x < 0x8fc) → s'.mem (phys x) =
        (written (callInitMem u r.kernelInit) (phnum (callInitMem u r.kernelInit)) x).getD
          (callInitMem u r.kernelInit (phys x)) := by
  obtain ⟨u, ⟨few, h_mode⟩, h_pages⟩ := pModeStart_run h_steady r s
  obtain ⟨s', h_enter, h_eip, h_esp, h_bytes⟩ := enterKernel_run h_image h_copy h_code r h_pages
  have h_gdtr : Loader.lgdtReal s.cpu.mem = ⟨31, gdtBase⟩ := by
    rw [Loader.lgdtReal, h_data.limit, h_data.base]
    rfl
  refine ⟨u, s', few, h_pages, fun polls rounds h_polls h_rounds => ?_, h_eip, h_esp, h_bytes⟩
  rw [Loader.bootKernel, bind_of_some (h_mode polls h_polls), h_gdtr]
  exact h_enter rounds h_rounds

/-- Where no header reaches, the bytes are those of the call of `kernel_init`. -/
theorem kept_of_bytes (h_image : ElfImage (imageFile M m) len code)
    (h_copy : Copyable (imageFile M m) len code) (h_code : 0x20d ≤ code) (r : ReturnSites)
    {u : DiskCpu} (h_pages : PagesSet M m u) {s' : Cpu}
    (h_bytes : ∀ x < 2 ^ 32, ¬ (0x8e4 ≤ x ∧ x < 0x8fc) → s'.mem (phys x) =
      (written (callInitMem u r.kernelInit) (phnum (callInitMem u r.kernelInit)) x).getD
        (callInitMem u r.kernelInit (phys x)))
    {x : ℕ} (hx : x < 2 ^ 32) (h_off : 0x100000 ≤ x ∨ (0x900 ≤ x ∧ x < 0x900 + code)) :
    s'.mem (phys x) = callInitMem u r.kernelInit (phys x) := by
  have h_same := sameImage_callInitMem h_pages h_code h_image.sectors r.kernelInit
  rw [h_bytes x hx (by omega),
    written_off (h_same.elfImage h_image) (h_same.copyable h_image h_copy) h_off]
  rfl

/-- **From the disk to the kernel.** If the drive is not busy between the sectors and the image on
the disk is one that the loader can load, then the code after the detection of the memory ends with
the jump to the kernel: the segments are in memory as the image asks for, nothing else of the first
MiB has changed but the stack and the words that are moved, and the descriptors are flat ones and
the screen. -/
theorem kernel_booted (h_steady : M.Steady 200) (s : DiskCpu) (h_data : LoaderData s.cpu.mem)
    (h_code : 0x20d ≤ code) (h_image : ElfImage (imageFile M s.cpu.mem) len code)
    (h_copy : Copyable (imageFile M s.cpu.mem) len code)
    (h_harmless : Harmless (imageFile M s.cpu.mem)) (r : ReturnSites) :
    ∃ s' gdtr few, (∀ polls rounds, few < polls → phnum (imageFile M s.cpu.mem) ≤ rounds →
        Loader.bootKernel M r polls rounds s = some (s', gdtr)) ∧
      KernelEntered (imageFile M s.cpu.mem) s' gdtr := by
  obtain ⟨u, s', few, h_pages, h_run, h_eip, h_esp, h_bytes⟩ :=
    bootKernel_run h_steady s h_data h_code h_image h_copy r
  have h_same := sameImage_callInitMem h_pages h_code h_image.sectors r.kernelInit
  have h_image' := h_same.elfImage h_image
  have h_copy' := h_same.copyable h_image h_copy
  have h_loaded : Loaded (callInitMem u r.kernelInit) s'.mem :=
    loaded_of_harmless h_bytes h_image' (h_same.harmless h_image h_copy h_harmless)
  have h_phnum := h_same.phnum_eq h_image
  have h_kept {x : ℕ} (hx : x < 2 ^ 32) (h_off : 0x100000 ≤ x ∨ (0x900 ≤ x ∧ x < 0x900 + code)) :=
    kept_of_bytes h_image h_copy h_code r h_pages h_bytes hx h_off
  have h_mapped : BootMapped s'.mem :=
    bootMapped_of_kept h_pages r fun x hx hx' => h_kept hx (.inl hx')
  have h_word {n : ℕ} (hn : 0x903 ≤ n) (hn' : n + 4 ≤ 0x923) :
      s'.mem.word n = (callInitMem u r.kernelInit).word n :=
    ByteMemory.word_congr _ fun k hk => h_kept (by omega) (.inr ⟨by omega, by omega⟩)
  obtain ⟨h_flat, h_flat', h_screen⟩ := descriptors_usable ⟨31, gdtBase + 0xc0000000⟩ h_mapped rfl
    h_data
    (fun n hn hn' => (h_word hn (by omega)).trans
      (callInitMem_word h_pages r.kernelInit (by omega) hn'))
    ((h_word (by decide) (by decide)).trans (callInitMem_video h_pages r.kernelInit))
  refine ⟨s', ⟨31, gdtBase + 0xc0000000⟩, few, h_run, h_eip, h_esp, h_mapped, ?_, ?_, rfl,
    h_flat, h_flat', h_screen⟩
  · intro i hi h_load x h_range
    have h_low := h_copy.load i hi h_load x h_range
    have h_loader := (h_image.clear i hi h_load x h_range).1
    have h_wanted := h_loaded x (by omega) (by unfold LoaderStack; omega)
    rw [← h_same.phdr_eq h_image hi] at h_load h_range ⊢
    rw [← h_phnum] at hi
    split
    · next h_covers =>
      rw [h_wanted.file i hi h_load h_covers]
      rw [h_phnum] at hi
      rw [h_same.phdr_eq h_image hi] at h_load h_covers ⊢
      exact h_same.fileByte_eq h_image (h_image.file i hi h_load x h_covers)
    · next h_not => exact h_wanted.zero i hi h_load h_range h_not
  · intro x hx h_stack h_moved h_outside
    rw [(h_loaded x (by omega) h_stack).outside]
    · unfold LoaderStack at h_stack
      exact callInitMem_byte h_pages r.kernelInit hx (by omega) h_moved
    · intro i hi
      rw [h_phnum] at hi
      rw [h_same.phdr_eq h_image hi]
      exact h_outside i hi

end Entered

/-! ### A small disk -/

/-- The data of the loader, in any memory. -/
def placeLoader (m : ByteMemory) : ByteMemory :=
  let m := m.store32 (phys 0x90b) codeDesc.low
  let m := m.store32 (phys 0x90f) codeDesc.high
  let m := m.store32 (phys 0x913) dataStackDesc.low
  let m := m.store32 (phys 0x917) dataStackDesc.high
  let m := m.store32 (phys 0x91b) videoDesc.low
  let m := m.store32 (phys 0x91f) videoDesc.high
  let m := m.store32 (phys 0xb09) gdtBase
  m.store16 (phys 0xb07) 31

theorem placeLoader_byte (m : ByteMemory) {x : ℕ} (hx : x < 2 ^ 32)
    (h : ¬ (0x90b ≤ x ∧ x < 0xb0d)) : placeLoader m (phys x) = m (phys x) := by
  unfold placeLoader
  rw [store16_phys _ _ (by decide) hx, if_neg (by omega), if_neg (by omega)]
  repeat rw [ByteMemory.byte_store32 _ _ hx (by decide) (by omega)]

theorem loaderData_placeLoader (m : ByteMemory) : LoaderData (placeLoader m) := by
  have h_word (m : ByteMemory) (v : BitVec 16) {n : ℕ} (hn : n + 4 ≤ 2 ^ 32)
      (h : n + 4 ≤ 0xb07 ∨ 0xb09 ≤ n) : (m.store16 (phys 0xb07) v).word n = m.word n := by
    refine ByteMemory.word_congr _ fun k hk => ?_
    rw [store16_phys _ _ (by decide) (by omega), if_neg (by omega), if_neg (by omega)]
  have h_desc (m : ByteMemory) (i : ℕ) : m.descriptor gdtBase i =
      ⟨m.word (0x903 + 8 * i), m.word (0x903 + (8 * i + 4))⟩ := by
    rw [ByteMemory.descriptor, gdtBase_addr, gdtBase_addr]
    rfl
  -- each word is the last one that was stored at its place
  have h_last (m : ByteMemory) (v : BitVec 32) {n k : ℕ} (hn : n + 4 ≤ 2 ^ 32) (hk : k + 4 ≤ 2 ^ 32)
      (h : n + 4 ≤ k ∨ k + 4 ≤ n) : (m.store32 (phys k) v).word n = m.word n :=
    m.word_store32 v hn hk h
  unfold placeLoader
  refine ⟨?_, ?_, ?_, ByteMemory.load16_store16 .., ?_⟩
  · rw [h_desc, h_word _ _ (by decide) (by decide), h_word _ _ (by decide) (by decide)]
    simp (disch := decide) only [h_last, ByteMemory.word_store32_self]
  · rw [h_desc, h_word _ _ (by decide) (by decide), h_word _ _ (by decide) (by decide)]
    simp (disch := decide) only [h_last, ByteMemory.word_store32_self]
  · rw [h_desc, h_word _ _ (by decide) (by decide), h_word _ _ (by decide) (by decide)]
    simp (disch := decide) only [h_last, ByteMemory.word_store32_self]
  · exact (h_word _ _ (n := 0xb09) (by decide) (by decide)).trans (ByteMemory.word_store32_self ..)

/-- A disk with the small image from sector 9 on. -/
def smallDisk : AtaMedium where
  sector k w := (smallImage 0).half (0x70000 + ((k - 9) * 512 + 2 * w))
  delay _ := 0
  idle := 0

theorem smallDisk_byteAt (i : ℕ) : smallDisk.byteAt 9 i = smallImage 0 (phys (0x70000 + i)) := by
  have h_word : smallDisk.wordAt 9 (i / 2) = (smallImage 0).half (0x70000 + 2 * (i / 2)) := by
    show (smallImage 0).half (0x70000 + ((9 + i / 2 / 256 - 9) * 512 + 2 * (i / 2 % 256))) = _
    rw [show (9 + i / 2 / 256 - 9) * 512 + 2 * (i / 2 % 256) = 2 * (i / 2) by omega]
  rw [AtaMedium.byteAt, h_word, ByteMemory.half]
  rcases Nat.mod_two_eq_zero_or_one i with h | h
  · rw [h, show 0x70000 + 2 * (i / 2) = 0x70000 + i by omega, Nat.mul_zero]
    exact BitVec.extractLsb'_append_eq_right
  · rw [h, show 0x70000 + 2 * (i / 2) + 1 = 0x70000 + i by omega]
    exact BitVec.extractLsb'_append_eq_left

/-- The processor when the memory has been detected. -/
def startingSmall : DiskCpu where
  cpu := callingKernelInit (placeLoader (smallImage 0))
  drive := ⟨0, 0, 0, 0, 0, 0, 0, 0, 0⟩

/-- It is read in front of whatever the loader has in its own memory. -/
theorem sameImage_smallDisk {m : ByteMemory} (h : ∀ x < 0x100000, ¬ (0x8e4 ≤ x ∧ x < 0x1100) →
    m (phys x) = smallImage 0 (phys x)) :
    SameImage 88 2048 (smallImage 0) (imageFile smallDisk m) := by
  refine ⟨fun x hx hx' => ?_, fun x hx h_clear => ?_⟩
  · rw [imageFile_phys _ _ (by omega), AtaMedium.readTo, if_pos ⟨hx, by omega⟩, smallDisk_byteAt,
      Nat.add_sub_cancel' hx]
  · rw [imageFile_phys _ _ (by omega), AtaMedium.readTo]
    split
    · next h_range => rw [smallDisk_byteAt, Nat.add_sub_cancel' h_range.1]
    · have h_loader := h_clear.1
      rw [h x hx (by omega)]

theorem harmless_smallImage : Harmless (smallImage 0) := by
  have h_phnum : phnum (smallImage 0) = 1 := (smallImage_phdr true).1
  have h_phdr : phdr (smallImage 0) 0 = smallHeader := (smallImage_phdr true).2.2.2
  refine ⟨?_, ?_⟩
  · intro i hi _ x h_range h_not _
    obtain rfl : i = 0 := Nat.lt_one_iff.mp (hi.trans_eq h_phnum)
    rw [h_phdr, smallHeader_inRange] at h_range
    rw [h_phdr, smallHeader_covers] at h_not
    obtain rfl : x = 0x1501 := by omega
    exact ByteMemory.store8_self ..
  · intro i hi h_stray
    exact absurd h_stray (smallImage_stray true hi)

/-- The small image is booted, and the first byte of the kernel is the byte 84 of the file. -/
theorem kernel_booted_small : ∃ s' gdtr polls,
    Loader.bootKernel smallDisk ⟨0, 1, 2, 3⟩ polls 1 startingSmall = some (s', gdtr) ∧
      s'.mem (phys 0x1500) = 0x55 ∧ s'.ScreenAt gdtr 3 := by
  obtain ⟨h_image, h_copy⟩ := elfImage_smallImage true
  have h_same : SameImage 88 2048 (smallImage 0) (imageFile smallDisk startingSmall.cpu.mem) :=
    sameImage_smallDisk fun x hx h_off => placeLoader_byte _ (by omega) (by omega)
  have h_phnum : phnum (imageFile smallDisk startingSmall.cpu.mem) = 1 :=
    (h_same.phnum_eq h_image).trans (smallImage_phdr true).1
  have h_phdr : phdr (imageFile smallDisk startingSmall.cpu.mem) 0 = smallHeader :=
    (h_same.phdr_eq h_image (by decide)).trans (smallImage_phdr true).2.2.2
  obtain ⟨s', gdtr, few, h_run, h⟩ := kernel_booted (M := smallDisk) (fun _ _ _ => rfl)
    startingSmall (loaderData_placeLoader _) (by decide) (h_same.elfImage h_image)
    (h_same.copyable h_image h_copy)
    (h_same.harmless h_image h_copy harmless_smallImage) ⟨0, 1, 2, 3⟩
  refine ⟨s', gdtr, few + 1, h_run _ 1 (Nat.lt_succ_self few) h_phnum.le, ?_, h.screen⟩
  have h_byte := h.segment 0 (by rw [h_phnum]; decide) (by rw [h_phdr]; rfl) 0x1500
    (by rw [h_phdr, smallHeader_inRange]; decide)
  have h_covers : smallHeader.Covers 0x1500 := smallHeader_covers.mpr ⟨le_rfl, by decide⟩
  rw [h_phdr, if_pos h_covers] at h_byte
  rw [h_byte]
  have h_file := h_same.image 0x70054 (by decide) (by decide)
  exact h_file.trans (by decide)

end ToiletOS
