import ToiletOS.Mbr.KernelBoot
import ToiletOS.Mem.PoolLayout

/-!
# The size of memory that the kernel finds

The loader stores the size of memory at `total_memory_bytes`, and `mem_init` of `kernel/memory.c`
reads it at `0xb00`. The loader starts with a `jmp` of three bytes, so that its data lies three
bytes behind where `mem_init` looks: of the word that is read, only the highest byte belongs to the
size, and it is the lowest one of it.

`total_memory_misread` follows the size through the whole start: the detection, the loading of the
kernel and `mem_init`. Memory that ends on a multiple of 256 is counted as none, and the pools then
have the same 65024 pages on every machine.
-/

namespace ToiletOS

/-- `mem_init`, but for its messages. -/
def memInit : Kern MemPools := do
  let totalMemory ← Kern.load32 0xb00#32
  memPoolInit totalMemory

/-! ### What the detection leaves alone -/

namespace DetectState

variable {st st' : DetectState} {a : BitVec 32}

/-- Bytes that have not been written since are as they were. -/
structure Since (st st' : DetectState) : Prop where
  log : ∀ a ∈ st.written, a ∈ st'.written
  mem : ∀ a, a ∉ st'.written → st'.mem a = st.mem a

namespace Since

theorem refl (st : DetectState) : Since st st := ⟨fun _ h => h, fun _ _ => rfl⟩

theorem trans {st'' : DetectState} (h : Since st st') (h' : Since st' st'') : Since st st'' where
  log a h_a := h'.log a (h.log a h_a)
  mem a h_a := (h'.mem a h_a).trans (h.mem a fun h_mem => h_a (h'.log a h_mem))

theorem store16 (h : Since st st') (a : BitVec 32) (v : BitVec 16) :
    Since st (st'.store16 a v) := by
  refine h.trans ⟨fun b h_b => List.mem_append_left _ h_b, fun b h_b => ?_⟩
  have h_ne : b ∉ [a, addr a 1] := fun h_mem => h_b (List.mem_append_right _ h_mem)
  refine ByteMemory.store16_of_ne _ v fun i hi => ?_
  rintro rfl
  have h_i : i = 0 ∨ i = 1 := by omega
  rcases h_i with rfl | rfl <;> simp at h_ne

theorem store32 (h : Since st st') (a v : BitVec 32) : Since st (st'.store32 a v) := by
  refine h.trans ⟨fun b h_b => List.mem_append_left _ h_b, fun b h_b => ?_⟩
  have h_ne : b ∉ [a, addr a 1, addr a 2, addr a 3] :=
    fun h_mem => h_b (List.mem_append_right _ h_mem)
  refine ByteMemory.store32_of_ne _ v fun i hi => ?_
  rintro rfl
  have h_i : i = 0 ∨ i = 1 ∨ i = 2 ∨ i = 3 := by omega
  rcases h_i with rfl | rfl | rfl | rfl <;> simp at h_ne

theorem int15 (h : Since st st') (e : Ards) : Since st (st'.int15 e) :=
  ((((h.store32 _ _).store32 _ _).store32 _ _).store32 _ _).store32 _ _

theorem setDi (h : Since st st') (di : BitVec 16) : Since st { st' with di := di } :=
  ⟨h.log, h.mem⟩

theorem incArdsNr (h : Since st st') : Since st st'.incArdsNr := h.store16 _ _

/-- The loop over the entries. -/
theorem loop {replies : List (Ards × BitVec 32)} (h : st.e820MemGetLoop replies = .ok st') :
    Since st st' := by
  induction replies generalizing st with
  | nil => cases h
  | cons reply replies ih =>
    obtain ⟨e, ebx⟩ := reply
    rw [e820MemGetLoop] at h
    split at h
    · cases h
    · have h_entry := (((refl st).int15 e).setDi ((st.int15 e).di + 20)).incArdsNr
      dsimp only at h
      split at h
      · cases h
        exact h_entry
      · exact h_entry.trans (ih h)

end Since
end DetectState

/-- The detection writes nothing but what it logs. -/
theorem detectMemory_since {m : ByteMemory} {replies : List (Ards × BitVec 32)} {st : DetectState}
    (h : detectMemory m replies = .ok st) :
    DetectState.Since ⟨m, ardsBuf.setWidth 16, []⟩ st := by
  unfold detectMemory at h
  cases h_loop : DetectState.e820MemGetLoop ⟨m, ardsBuf.setWidth 16, []⟩ replies with
  | error f =>
    rw [h_loop] at h
    cases h
  | ok st₁ =>
    rw [h_loop] at h
    cases h
    exact (DetectState.Since.loop h_loop).store32 _ _

/-! ### The loader's data after the detection -/

/-- An address that the detection does not collect anything at. -/
def OffDetectData (x : ℕ) : Prop :=
  x < 0x100000 ∧ (x < 0xb03 ∨ (0xb07 ≤ x ∧ x < 0xb0d) ∨ 0xc03 ≤ x)

theorem OffDetectData.not_isDetectData {x : ℕ} (hx : OffDetectData x) :
    ¬ IsDetectData (phys x) := by
  have h_buf (i : ℕ) : addr ardsBuf i = phys (0xb0d + i) := phys_add 0xb0d i
  have h_nr (i : ℕ) : addr ardsNr i = phys (0xc01 + i) := phys_add 0xc01 i
  have h_total (i : ℕ) : addr totalMemoryBytes i = phys (0xb03 + i) := phys_add 0xb03 i
  obtain ⟨h_lt, hx⟩ := hx
  rintro (⟨i, hi, h_eq⟩ | ⟨i, hi, h_eq⟩ | ⟨i, hi, h_eq⟩)
  · rw [h_buf] at h_eq
    exact phys_ne (by omega) (by omega) (by omega) h_eq
  · rw [h_nr] at h_eq
    exact phys_ne (by omega) (by omega) (by omega) h_eq
  · rw [h_total] at h_eq
    exact phys_ne (by omega) (by omega) (by omega) h_eq

section Detected

variable {m : ByteMemory} {replies : List (Ards × BitVec 32)} {st : DetectState}

theorem OffDetectData.byte_eq {x : ℕ} (hx : OffDetectData x) (h : detectMemory m replies = .ok st)
    (h_data : ∀ a ∈ st.written, IsDetectData a) : st.mem (phys x) = m (phys x) :=
  (detectMemory_since h).mem _ fun h_mem => hx.not_isDetectData (h_data _ h_mem)

/-- The descriptors and `gdt_ptr` survive the detection. -/
theorem LoaderData.detected (h_loader : LoaderData m) (h : detectMemory m replies = .ok st)
    (h_data : ∀ a ∈ st.written, IsDetectData a) : LoaderData st.mem := by
  obtain ⟨h_code, h_flat, h_video, h_limit, h_base⟩ := h_loader
  have h_word {n : ℕ} (hn : ∀ k < 4, OffDetectData (n + k)) : st.mem.word n = m.word n :=
    ByteMemory.word_congr _ fun k hk => (hn k hk).byte_eq h h_data
  have h_desc {i : ℕ} (hi : i < 4) : st.mem.descriptor gdtBase i = m.descriptor gdtBase i := by
    have h_low : st.mem.word (0x903 + 8 * i) = m.word (0x903 + 8 * i) :=
      h_word fun k hk => ⟨by omega, .inl (by omega)⟩
    have h_high : st.mem.word (0x903 + (8 * i + 4)) = m.word (0x903 + (8 * i + 4)) :=
      h_word fun k hk => ⟨by omega, .inl (by omega)⟩
    rw [ByteMemory.descriptor, ByteMemory.descriptor, gdtBase_addr, gdtBase_addr]
    exact congrArg₂ Descriptor.mk h_low h_high
  refine ⟨(h_desc (by decide)).trans h_code, (h_desc (by decide)).trans h_flat,
    (h_desc (by decide)).trans h_video, ?_, ?_⟩
  · rw [← h_limit]
    refine ByteMemory.load16_congr _ fun i hi => ?_
    rw [show addr gdtPtr i = phys (0xb07 + i) from phys_add 0xb07 i]
    have h_off : OffDetectData (0xb07 + i) := ⟨by omega, .inr (.inl ⟨by omega, by omega⟩)⟩
    exact h_off.byte_eq h h_data
  · rw [← h_base]
    exact h_word (n := 0xb09) fun k hk => ⟨by omega, .inr (.inl ⟨by omega, by omega⟩)⟩

end Detected

/-! ### The word at `0xb00` -/

/-- The word three bytes before another one, if these bytes are zero. -/
theorem word_before (m : ByteMemory) {n : ℕ} (h : ∀ k < 3, m (phys (n + k)) = 0) :
    m.word n = m.word (n + 3) <<< 24 := by
  have h_addr (k i : ℕ) : addr (phys k) i = phys (k + i) := phys_add k i
  have h0 := h 0 (by decide)
  have h1 := h 1 (by decide)
  have h2 := h 2 (by decide)
  rw [ByteMemory.word, ByteMemory.word, ByteMemory.load32, ByteMemory.load32, h_addr, h_addr,
    h_addr, h_addr, h_addr, h_addr, h1, h2, show m (phys n) = 0 from h0]
  generalize m (phys (n + 3)) = b
  generalize m (phys (n + 3 + 1)) = b₁
  generalize m (phys (n + 3 + 2)) = b₂
  generalize m (phys (n + 3 + 3)) = b₃
  apply BitVec.eq_of_getLsbD_eq
  intro i hi
  simp only [BitVec.getLsbD_append, BitVec.getLsbD_shiftLeft]
  by_cases h24 : i < 24
  · simp [h24]
    omega
  · -- the highest byte
    simp only [show ¬ i < 8 by omega, show ¬ i - 8 < 8 by omega, show ¬ i - 8 - 8 < 8 by omega,
      show i - 24 < 8 by omega, show i - 8 - 8 - 8 = i - 24 by omega, h24, if_true, if_false]
    simp [hi]

/-- What `mem_init` makes of a memory in which the size is three bytes further on. -/
theorem memInit_run {m : ByteMemory} (hm : BootMapped m)
    (h_room : ∀ k < 3, m (phys (0xb00 + k)) = 0) :
    ∃ m', memInit.run kernelSem m = .ok (memPools (m.word 0xb03 <<< 24), m') := by
  have h_low : translate m 0xb00#32 = some (phys 0xb00) :=
    hm.translate_low (n := 0xb00) (by decide)
  have h_word : m.load32 (phys 0xb00) = m.word 0xb03 <<< 24 := word_before m h_room
  obtain ⟨nb, ub, hL⟩ := memPools_layout (m.word 0xb03 <<< 24)
  obtain ⟨m', h_run, -, -⟩ := memPoolInit_run hL hm.mapped
  refine ⟨m', ?_⟩
  rw [memInit, run_load32 h_low, h_word]
  exact h_run

/-- The pools for a memory of no bytes: the number of pages in use wraps around, and is cut. -/
theorem pools_of_zero :
    (memPools 0).kernelPool.addresses ∪ (memPools 0).userPool.addresses =
      Set.Ico 0x200000 0x10000000 := by
  have h_values := memPools_values 0
  have h_free : freePages 0 = 65024 := by decide
  rw [h_free] at h_values
  rw [Pool.addresses, Pool.addresses, h_values.kernel_start, h_values.kernel_size,
    h_values.user_start, h_values.user_size]
  exact Set.Ico_union_Ico_eq_Ico (by decide) (by decide)

/-- **The size of memory is misread.** However the memory is laid out: the kernel that the loader
starts sets its pools up for 16 MiB times the lowest byte of the size that was detected. If the size
is a multiple of 256, these are the pages up to 256 MiB, whether they exist or not. -/
theorem total_memory_misread {m₀ : ByteMemory} (h_nr : m₀.load16 ardsNr = 0)
    (h_loader : LoaderData m₀) (h_room : ∀ k < 3, m₀ (phys (0xb00 + k)) = 0)
    {replies : List (Ards × BitVec 32)} (h_map : IsE820Map replies)
    (h_ends : ∀ r ∈ replies, r.1.finish < 2 ^ 32) (h_few : replies.length ≤ 12)
    {st : DetectState} (h_detect : detectMemory m₀ replies = .ok st)
    {M : AtaMedium} (h_steady : M.Steady 200) (s : DiskCpu) (h_mem : s.cpu.mem = st.mem)
    {len code : ℕ} (h_code : 0x20d ≤ code) (h_image : ElfImage (imageFile M st.mem) len code)
    (h_copy : Copyable (imageFile M st.mem) len code) (r : ReturnSites) :
    ∃ s' gdtr few, (∀ polls rounds, few < polls → phnum (imageFile M st.mem) ≤ rounds →
        Loader.bootKernel M r polls rounds s = some (s', gdtr)) ∧ BootMapped s'.mem ∧
      ∀ m, BootMapped m → (∀ x, 0xb00 ≤ x → x < 0xb07 → m (phys x) = s'.mem (phys x)) →
        ∃ pools m', memInit.run kernelSem m = .ok (pools, m') ∧
          pools = memPools (BitVec.ofNat 32 (lowEnd (replies.map Prod.fst)) <<< 24) ∧
          (256 ∣ lowEnd (replies.map Prod.fst) →
            pools.kernelPool.addresses ∪ pools.userPool.addresses =
              Set.Ico 0x200000 0x10000000) := by
  -- the detection
  obtain ⟨st', h_detect', h_total, h_written⟩ := detectMemory_room h_nr h_map h_ends h_few
  obtain rfl := Except.ok.inj (h_detect.symm.trans h_detect')
  have h_total' : st.mem.word 0xb03 = BitVec.ofNat 32 (lowEnd (replies.map Prod.fst)) := by
    rw [← h_total]
    exact (BitVec.ofNat_toNat ..).trans (BitVec.setWidth_eq _) |>.symm
  have h_data := h_loader.detected h_detect h_written
  -- the start of the kernel
  rw [← h_mem] at h_data h_image h_copy ⊢
  obtain ⟨u, s', few, h_pages, h_run, -, -, h_bytes⟩ :=
    bootKernel_run h_steady s h_data h_code h_image h_copy r
  have h_kept {x : ℕ} (hx : 0xb00 ≤ x) (hx' : x < 0xb07) : s'.mem (phys x) = st.mem (phys x) := by
    have h_moved : ¬ IsMoved x := by
      unfold IsMoved
      omega
    rw [kept_of_bytes h_image h_copy h_code r h_pages h_bytes (by omega)
        (.inr ⟨by omega, by omega⟩),
      callInitMem_byte h_pages r.kernelInit (by omega) (by omega) h_moved,
      imageFile_phys _ _ (by omega), AtaMedium.readTo, if_neg (by omega), h_mem]
  have h_mapped : BootMapped s'.mem := bootMapped_of_kept h_pages r fun x hx hx' =>
    kept_of_bytes h_image h_copy h_code r h_pages h_bytes hx (.inl hx')
  refine ⟨s', _, few, h_run, h_mapped, fun m hm h_same => ?_⟩
  -- `mem_init`
  have h_room' (k : ℕ) (hk : k < 3) : m (phys (0xb00 + k)) = 0 := by
    have h_off : OffDetectData (0xb00 + k) := ⟨by omega, .inl (by omega)⟩
    rw [h_same _ (by omega) (by omega), h_kept (by omega) (by omega),
      h_off.byte_eq h_detect h_written, h_room k hk]
  have h_word : m.word 0xb03 = st.mem.word 0xb03 :=
    ByteMemory.word_congr _ fun k hk => by
      rw [h_same _ (by omega) (by omega), h_kept (by omega) (by omega)]
  obtain ⟨m', h_init⟩ := memInit_run hm h_room'
  rw [h_word, h_total'] at h_init
  refine ⟨_, m', h_init, rfl, fun h_dvd => ?_⟩
  obtain ⟨q, h_q⟩ := h_dvd
  have h_zero : BitVec.ofNat 32 (lowEnd (replies.map Prod.fst)) <<< 24 = 0#32 := by
    apply BitVec.eq_of_toNat_eq
    rw [h_q, BitVec.toNat_shiftLeft, BitVec.toNat_ofNat, Nat.shiftLeft_eq, BitVec.toNat_ofNat]
    omega
  rw [h_zero]
  exact pools_of_zero

/-- On a machine of 32 MiB the pools have the pages up to 256 MiB. -/
theorem total_memory_misread_32 : ∃ st s' gdtr polls pools m',
    detectMemory (placeLoader (smallImage 0)) map32 = .ok st ∧
      lowEnd (map32.map Prod.fst) = 0x2000000 ∧
      Loader.bootKernel smallDisk ⟨0, 1, 2, 3⟩ polls 1 ⟨callingKernelInit st.mem,
        startingSmall.drive⟩ = some (s', gdtr) ∧
      memInit.run kernelSem s'.mem = .ok (pools, m') ∧
      pools.kernelPool.addresses ∪ pools.userPool.addresses = Set.Ico 0x200000 0x10000000 := by
  have h_nr : (placeLoader (smallImage 0)).load16 ardsNr = 0 := by decide
  have h_map : IsE820Map map32 := ⟨by decide, by decide, rfl⟩
  have h_ends : ∀ r ∈ map32, r.1.finish < 2 ^ 32 := by decide
  obtain ⟨st, h_detect, -, h_written⟩ := detectMemory_room h_nr h_map h_ends (by decide)
  -- the detection writes into the loader only
  have h_off (x : ℕ) (hx : x < 0x100000) (h : ¬ (0x8e4 ≤ x ∧ x < 0x1100)) :
      st.mem (phys x) = smallImage 0 (phys x) := by
    have h_data : OffDetectData x := ⟨hx, by omega⟩
    rw [h_data.byte_eq h_detect h_written, placeLoader_byte _ (by omega) (by omega)]
  have h_same := sameImage_smallDisk h_off
  obtain ⟨h_image, h_copy⟩ := elfImage_smallImage true
  have h_phnum : phnum (imageFile smallDisk st.mem) = 1 :=
    (h_same.phnum_eq h_image).trans (smallImage_phdr true).1
  obtain ⟨s', gdtr, few, h_run, h_mapped, h_init⟩ := total_memory_misread h_nr
    (loaderData_placeLoader _) (by decide) h_map h_ends (by decide) h_detect (M := smallDisk)
    (fun _ _ _ => rfl) ⟨callingKernelInit st.mem, startingSmall.drive⟩ rfl (by decide)
    (h_same.elfImage h_image) (h_same.copyable h_image h_copy) ⟨0, 1, 2, 3⟩
  obtain ⟨pools, m', h_pools, -, h_ico⟩ := h_init s'.mem h_mapped fun _ _ _ => rfl
  exact ⟨st, s', gdtr, few + 1, pools, m', h_detect, by decide,
    h_run _ 1 (Nat.lt_succ_self few) h_phnum.le, h_pools, h_ico (by decide)⟩

end ToiletOS
