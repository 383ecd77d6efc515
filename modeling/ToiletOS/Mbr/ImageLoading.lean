import ToiletOS.Mbr.KernelInit
import ToiletOS.Mem.Boot

/-!
# What `kernel_init` leaves in memory

`kernelInit_run` says it for each byte: what the last header whose copy reaches the byte puts
there, or else what was there before (`written`). The loop keeps this of the headers
behind it (`EachSegment`), because no copy reaches the image it reads from or the stack it
works on.

`kernel_loaded_iff` compares this with what is wanted. The code never writes the zeros behind
the `p_filesz` bytes of a segment, and it copies the headers of all types whose lowest byte is not
zero; the image is loaded exactly if neither does harm.
-/

namespace ToiletOS

/-! ### Low memory -/

/-- An address of low memory, at either of the two places where it is mapped. -/
def Low (a : BitVec 32) (n : ℕ) : Prop := n < 0x100000 ∧ a.toNat % 0xc0000000 = n

instance (a : BitVec 32) (n : ℕ) : Decidable (Low a n) :=
  inferInstanceAs (Decidable (n < 0x100000 ∧ a.toNat % 0xc0000000 = n))

theorem Low.addr {a : BitVec 32} {n k : ℕ} (h : Low a n) (hk : n + k < 0x100000) :
    Low (addr a k) (n + k) := by
  obtain ⟨h_lt, h_mod⟩ := h
  have h_a := a.isLt
  refine ⟨hk, ?_⟩
  rw [ToiletOS.addr, BitVec.toNat_add, BitVec.toNat_ofNat, Nat.mod_eq_of_lt (a := k) (by omega)]
  have h_view : a.toNat = n ∨ a.toNat = 0xc0000000 + n := by omega
  rcases h_view with h_view | h_view
  · rw [h_view, Nat.mod_eq_of_lt (a := n + k) (by omega), Nat.mod_eq_of_lt (by omega)]
  · rw [h_view, Nat.mod_eq_of_lt (a := 0xc0000000 + n + k) (by omega)]
    omega

/-- The tables of `setup_page`, before the kernel takes its first slot away. -/
structure BootMapped (m : ByteMemory) : Prop where
  mapped : Mapped m
  first : m.word (dirAddr 0) = entry 0x101

theorem bootMapped_setupPage (m : ByteMemory) : BootMapped (setupPage m) where
  mapped := mapped_setupPage m
  first := setupPage_dir m (i := 0) (by decide)

namespace BootMapped

variable {m : ByteMemory} {a : BitVec 32} {n : ℕ}

theorem translate_low (h : BootMapped m) (ha : Low a n) : translate m a = some (phys n) := by
  obtain ⟨h_lt, h_mod⟩ := ha
  have h_a := a.isLt
  by_cases h_high : 0xc0000000 ≤ a.toNat
  · rw [eq_phys (show a.toNat = 0xc0000000 + n by omega)]
    exact h.mapped.translate_low h_lt
  · -- an address of the first MiB itself goes through slot 0 of the directory
    have h_nat : a.toNat = n := by omega
    have h_slot : a.toNat / 2 ^ 22 = 0 := by omega
    have h_page : a.toNat / 4096 % 1024 = n / 4096 := by omega
    have h_dir : m.word (0x100 * 4096 + 4 * (a.toNat / 2 ^ 22)) = entry 0x101 := by
      rw [h_slot]
      exact h.first
    have h_table : m.word (0x101 * 4096 + 4 * (a.toNat / 4096 % 1024)) = entry (n / 4096) := by
      rw [h_page]
      exact h.mapped.low _ (by omega)
    have h_walk := walk_entry (D := 0x100) (by omega) (by omega) (by omega) h_dir h_table
    rw [show n / 4096 * 4096 + a.toNat % 4096 = n by omega] at h_walk
    exact h_walk

theorem store8 (h : BootMapped m) (hn : n < 0x100000) (b : BitVec 8) :
    BootMapped (m.store8 (phys n) b) where
  mapped := h.mapped.store8 hn b
  first := (m.word_store8 b (by decide) (by omega) (.inr hn)).trans h.first

theorem store32 (h : BootMapped m) (hn : n + 4 ≤ 0x100000) (v : BitVec 32) :
    BootMapped (m.store32 (phys n) v) := by
  have h_addr (k : ℕ) : addr (phys n) k = phys (n + k) := phys_add n k
  unfold ByteMemory.store32
  rw [h_addr, h_addr, h_addr]
  exact (((h.store8 (by omega) _).store8 (by omega) _).store8 (by omega) _).store8 (by omega) _

end BootMapped

/-! ### Accesses to low memory -/

theorem bind_of_some {α β : Type} {x : Option α} {a : α} (h : x = some a) (f : α → Option β) :
    (x >>= f) = f a := by
  rw [h]
  rfl

namespace Cpu

variable {s : Cpu} {a : BitVec 32} {n : ℕ}

theorem read8_low (h : BootMapped s.mem) (ha : Low a n) : s.read8 a = some (s.mem (phys n)) := by
  rw [read8, h.translate_low ha]
  rfl

theorem read16_low (h : BootMapped s.mem) (ha : Low a n) (hn : n + 2 ≤ 0x100000) :
    s.read16 a = some (s.mem.half n) := by
  rw [read16, bind_of_some (read8_low h ha),
    bind_of_some (read8_low h (ha.addr (k := 1) (by omega)))]
  rfl

theorem read32_low (h : BootMapped s.mem) (ha : Low a n) (hn : n + 4 ≤ 0x100000) :
    s.read32 a = some (s.mem.word n) := by
  have h_addr (k : ℕ) : addr (phys n) k = phys (n + k) := phys_add n k
  rw [read32, bind_of_some (read8_low h ha),
    bind_of_some (read8_low h (ha.addr (k := 1) (by omega))),
    bind_of_some (read8_low h (ha.addr (k := 2) (by omega))),
    bind_of_some (read8_low h (ha.addr (k := 3) (by omega))),
    ByteMemory.word, ByteMemory.load32, h_addr, h_addr, h_addr]
  rfl

theorem write8_low (h : BootMapped s.mem) (ha : Low a n) (v : BitVec 8) :
    s.write8 a v = some { s with mem := s.mem.store8 (phys n) v } := by
  rw [write8, h.translate_low ha]
  rfl

theorem write32_low (h : BootMapped s.mem) (ha : Low a n) (hn : n + 4 ≤ 0x100000) (v : BitVec 32) :
    s.write32 a v = some { s with mem := s.mem.store32 (phys n) v } := by
  have h_addr (k : ℕ) : addr (phys n) k = phys (n + k) := phys_add n k
  have h₁ := h.store8 (n := n) (by omega) (v.extractLsb' 0 8)
  have h₂ := h₁.store8 (n := n + 1) (by omega) (v.extractLsb' 8 8)
  have h₃ := h₂.store8 (n := n + 2) (by omega) (v.extractLsb' 16 8)
  rw [write32, bind_of_some (write8_low h ha _),
    bind_of_some (write8_low h₁ (ha.addr (k := 1) (by omega)) _),
    bind_of_some (write8_low h₂ (ha.addr (k := 2) (by omega)) _),
    write8_low h₃ (ha.addr (k := 3) (by omega)), ByteMemory.store32, h_addr, h_addr, h_addr]

/-- The state after a push to the physical address `n`. -/
def pushAt (s : Cpu) (n : ℕ) (v : BitVec 32) : Cpu :=
  { s with esp := s.esp - 4#32, mem := s.mem.store32 (phys n) v }

@[simp] theorem pushAt_gpr (v : BitVec 32) : (s.pushAt n v).gpr = s.gpr := rfl
@[simp] theorem pushAt_esp (v : BitVec 32) : (s.pushAt n v).esp = s.esp - 4#32 := rfl
@[simp] theorem pushAt_mem (v : BitVec 32) :
    (s.pushAt n v).mem = s.mem.store32 (phys n) v := rfl

theorem pushWord_low (h : BootMapped s.mem) (ha : Low (s.esp - 4#32) n) (hn : n + 4 ≤ 0x100000)
    (v : BitVec 32) : s.pushWord v = some (s.pushAt n v) := by
  rw [pushWord, bind_of_some (write32_low h ha hn v)]
  rfl

/-- What a push does. -/
structure Pushed (s s' : Cpu) (n : ℕ) (v : BitVec 32) : Prop where
  gpr : s'.gpr = s.gpr
  esp : s'.esp = s.esp - 4#32
  mem : s'.mem = s.mem.store32 (phys n) v
  mapped : BootMapped s'.mem

theorem exists_pushed (h : BootMapped s.mem) (ha : Low (s.esp - 4#32) n) (hn : n + 4 ≤ 0x100000)
    (v : BitVec 32) : ∃ s', s.pushWord v = some s' ∧ Pushed s s' n v :=
  ⟨_, pushWord_low h ha hn v, rfl, rfl, rfl, h.store32 hn v⟩

theorem popWord_low (h : BootMapped s.mem) (ha : Low s.esp n) (hn : n + 4 ≤ 0x100000) (r : Gpr) :
    s.popWord r = some ((s.setGpr r (s.mem.word n)).setEsp (addr s.esp 4)) := by
  rw [popWord, bind_of_some (read32_low h ha hn)]
  rfl

theorem return'_low (h : BootMapped s.mem) (ha : Low s.esp n) (hn : n + 4 ≤ 0x100000) :
    s.return' = some { s with eip := s.mem.word n, esp := addr s.esp 4 } := by
  rw [return', bind_of_some (read32_low h ha hn)]
  rfl

end Cpu

/-! ### `mem_cpy` -/

/-- What a copy leaves at an address. -/
def copied (m : ByteMemory) (dst src n x : ℕ) : BitVec 8 :=
  if dst ≤ x ∧ x < dst + n then m (phys (src + (x - dst))) else m (phys x)

/-- What a copy does. -/
structure Copied (s s' : Cpu) (dst src n : ℕ) : Prop where
  gpr : ∀ r, r ≠ .esi → r ≠ .edi → r ≠ .ecx → s'.gpr r = s.gpr r
  esp : s'.esp = s.esp
  mapped : BootMapped s'.mem
  bytes : ∀ x < 2 ^ 32, s'.mem (phys x) = copied s.mem dst src n x

/-- A place that code copies from or to. -/
def Area (a : BitVec 32) (base n : ℕ) : Prop := 0 < n → Low a base ∧ base + n ≤ 0x100000

theorem Area.next {a : BitVec 32} {base n : ℕ} (h : Area a base (n + 1)) :
    Area (addr a 1) (base + 1) n := by
  intro h_pos
  obtain ⟨h_low, h_fits⟩ := h (Nat.succ_pos n)
  exact ⟨h_low.addr (by omega), by omega⟩

theorem copied_succ (m : ByteMemory) {dst src n x : ℕ} (hx : x < 2 ^ 32) (h_dst : dst < 2 ^ 32)
    (h_src : src + n < 2 ^ 32) (h_apart : dst + (n + 1) ≤ src ∨ src + (n + 1) ≤ dst) :
    copied (m.store8 (phys dst) (m (phys src))) (dst + 1) (src + 1) n x =
      copied m dst src (n + 1) x := by
  have h_byte {i : ℕ} (hi : i < 2 ^ 32) (h_ne : i ≠ dst) :
      m.store8 (phys dst) (m (phys src)) (phys i) = m (phys i) :=
    m.byte_store8 _ hi h_dst h_ne
  unfold copied
  by_cases h_first : x = dst
  · -- the byte of this round, and then those of the others
    subst h_first
    rw [if_neg (by omega), if_pos (by omega), ByteMemory.store8_self, Nat.sub_self, Nat.add_zero]
  · rw [h_byte hx h_first]
    by_cases h_in : dst + 1 ≤ x ∧ x < dst + 1 + n
    · rw [if_pos h_in, if_pos (by omega), h_byte (by omega) (by omega),
        show src + 1 + (x - (dst + 1)) = src + (x - dst) by omega]
    · rw [if_neg h_in, if_neg (by omega)]

theorem repMovsb_run {s : Cpu} {dst src n : ℕ} (h : BootMapped s.mem)
    (h_src : Area (s.gpr .esi) src n) (h_dst : Area (s.gpr .edi) dst n)
    (h_apart : dst + n ≤ src ∨ src + n ≤ dst) :
    ∃ s', Loader.repMovsb n s = some s' ∧ Copied s s' dst src n := by
  induction n generalizing s dst src with
  | zero =>
    refine ⟨s, rfl, fun _ _ _ _ => rfl, rfl, h, fun x _ => ?_⟩
    rw [copied, if_neg (by omega)]
  | succ n ih =>
    obtain ⟨h_esi, h_src_fits⟩ := h_src (Nat.succ_pos n)
    obtain ⟨h_edi, h_dst_fits⟩ := h_dst (Nat.succ_pos n)
    -- one byte, and both pointers go up
    have h_movsb : ∃ s₁, s.movsb = some s₁ ∧ s₁.esp = s.esp ∧
        s₁.mem = s.mem.store8 (phys dst) (s.mem (phys src)) ∧
        s₁.gpr .esi = addr (s.gpr .esi) 1 ∧ s₁.gpr .edi = addr (s.gpr .edi) 1 ∧
        ∀ r, r ≠ .esi → r ≠ .edi → s₁.gpr r = s.gpr r := by
      rw [Cpu.movsb, bind_of_some (Cpu.read8_low h h_esi), bind_of_some (Cpu.write8_low h h_edi _)]
      refine ⟨_, rfl, rfl, rfl, rfl, rfl, fun r h_ne h_ne' => ?_⟩
      simp only [Cpu.setGpr_gpr, Function.update_of_ne h_ne, Function.update_of_ne h_ne']
    obtain ⟨s₁, h_run, h_esp, h_mem, h_esi', h_edi', h_gpr⟩ := h_movsb
    have h_mapped : BootMapped s₁.mem := by
      rw [h_mem]
      exact h.store8 (by omega) _
    obtain ⟨s', h_rest, h_copied⟩ := ih (s := s₁.setGpr .ecx (s₁.gpr .ecx - 1#32))
      h_mapped
      (show Area (s₁.gpr .esi) _ _ from h_esi' ▸ h_src.next)
      (show Area (s₁.gpr .edi) _ _ from h_edi' ▸ h_dst.next) (by omega)
    refine ⟨s', ?_, ?_, ?_, h_copied.mapped, ?_⟩
    · rw [Loader.repMovsb, bind_of_some h_run]
      exact h_rest
    · intro r h_ne h_ne' h_ne''
      rw [h_copied.gpr r h_ne h_ne' h_ne'', Cpu.setGpr_gpr, Function.update_of_ne h_ne'',
        h_gpr r h_ne h_ne']
    · exact h_copied.esp.trans h_esp
    · intro x hx
      -- the areas are apart, so the byte that is read was not written before
      rw [h_copied.bytes x hx, Cpu.setGpr_mem, h_mem]
      exact copied_succ s.mem hx (by omega) (by omega) h_apart

/-- The stack at the first instruction of `mem_cpy`. -/
structure Arguments (s : Cpu) (ret vaddr src count : BitVec 32) : Prop where
  mapped : BootMapped s.mem
  esp : s.esp = 0xc00008ec#32
  ret : s.mem.word 0x8ec = ret
  vaddr : s.mem.word 0x8f0 = vaddr
  src : s.mem.word 0x8f4 = src
  count : s.mem.word 0x8f8 = count

/-- The memory when `mem_cpy` has pushed two registers. -/
def enterMem (s : Cpu) : ByteMemory :=
  (s.mem.store32 (phys 0x8e8) (s.gpr .ebp)).store32 (phys 0x8e4) (s.gpr .ecx)

/-- The state at `rep movsb`. -/
structure AtMovsb (s s₁ : Cpu) (vaddr src count : BitVec 32) : Prop where
  esp : s₁.esp = 0xc00008e4#32
  mem : s₁.mem = enterMem s
  edi : s₁.gpr .edi = vaddr
  esi : s₁.gpr .esi = src
  ecx : s₁.gpr .ecx = count
  gpr : ∀ r, r ≠ .esi → r ≠ .edi → r ≠ .ecx → r ≠ .ebp → s₁.gpr r = s.gpr r

section MemCpy

variable {s : Cpu} {ret vaddr from' count : BitVec 32}

/-- The pushes leave the bytes above alone. -/
theorem enterMem_byte {x : ℕ} (hx : x < 2 ^ 32) (h : ¬ (0x8e4 ≤ x ∧ x < 0x8ec)) :
    enterMem s (phys x) = s.mem (phys x) := by
  rw [enterMem, ByteMemory.byte_store32 _ _ hx (by decide) (by omega),
    ByteMemory.byte_store32 _ _ hx (by decide) (by omega)]

theorem enterMem_word {n : ℕ} (hn : 0x8ec ≤ n) (hn' : n + 4 ≤ 0x900) :
    (enterMem s).word n = s.mem.word n :=
  ByteMemory.word_congr _ fun _ _ => enterMem_byte (by omega) (by omega)

/-- What `mem_cpy` does after `rep movsb`. -/
def memCpyExit (s : Cpu) : Option Cpu := do
  let s ← s.popWord .ecx
  let s ← s.popWord .ebp
  s.return'

/-- What it does before. -/
theorem memCpy_enter (h : Arguments s ret vaddr from' count) :
    ∃ s₁, AtMovsb s s₁ vaddr from' count ∧
      Loader.memCpy s = Loader.repMovsb count.toNat s₁ >>= memCpyExit := by
  obtain ⟨h_mapped, h_esp, -, h_vaddr, h_from, h_count⟩ := h
  have h_mapped₁ := h_mapped.store32 (n := 0x8e8) (by decide) (s.gpr .ebp)
  have h_mapped₂ : BootMapped (enterMem s) := h_mapped₁.store32 (by decide) (s.gpr .ecx)
  -- the arguments lie above the two registers that are saved
  have h_arg {S : Cpu} (h_mem : S.mem = enterMem s) (h_ebp : S.gpr .ebp = 0xc00008e8#32) {k n : ℕ}
      (h_low : Low (addr 0xc00008e8#32 k) n) (hn : 0x8ec ≤ n) (hn' : n + 4 ≤ 0x900) :
      S.read32 (addr (S.gpr .ebp) k) = some (s.mem.word n) := by
    rw [h_ebp, Cpu.read32_low (h_mem ▸ h_mapped₂) h_low (by omega), h_mem,
      enterMem_word hn hn']
  have h_top : (s.esp - 4#32 : BitVec 32) = 0xc00008e8#32 := by
    rw [h_esp]
    decide
  rw [Loader.memCpy, bind_of_some (Cpu.pushWord_low (n := 0x8e8) h_mapped (by rw [h_top]; decide)
      (by decide) _)]
  simp only []
  rw [bind_of_some (Cpu.pushWord_low (n := 0x8e4) h_mapped₁
      (by rw [Cpu.setGpr_esp, Cpu.pushAt_esp, h_top]; decide) (by decide) _),
    bind_of_some (h_arg (k := 8) (n := 0x8f0) rfl h_top (by decide) (by decide) (by decide)),
    bind_of_some (h_arg (k := 12) (n := 0x8f4) rfl h_top (by decide) (by decide) (by decide)),
    bind_of_some (h_arg (k := 16) (n := 0x8f8) rfl h_top (by decide) (by decide) (by decide)),
    h_vaddr, h_from, h_count]
  refine ⟨_, ?_, rfl⟩
  refine ⟨?_, rfl, rfl, rfl, rfl, fun r h₁ h₂ h₃ h₄ => ?_⟩
  · simp only [Cpu.setGpr_esp, Cpu.pushAt_esp, h_top]
    decide
  · simp only [Cpu.setGpr_gpr, Cpu.pushAt_gpr, Function.update_of_ne h₁, Function.update_of_ne h₂,
      Function.update_of_ne h₃, Function.update_of_ne h₄]

/-- What a call of `mem_cpy` does. It leaves the registers of the loop alone. -/
structure MemCpyDone (s s' : Cpu) (ret : BitVec 32) (dst src n : ℕ) : Prop where
  gpr : ∀ r, r ≠ .esi → r ≠ .edi → s'.gpr r = s.gpr r
  esp : s'.esp = 0xc00008f0#32
  eip : s'.eip = ret
  mapped : BootMapped s'.mem
  bytes : ∀ x < 2 ^ 32, ¬ (0x8e4 ≤ x ∧ x < 0x8ec) → s'.mem (phys x) = copied s.mem dst src n x

/-- A copy between places off the stack. -/
structure OffStack (dst src n : ℕ) : Prop where
  apart : dst + n ≤ src ∨ src + n ≤ dst
  dst : n = 0 ∨ dst + n ≤ 0x8e4 ∨ 0x900 ≤ dst
  src : 0x900 ≤ src

/-- The pops find what has been pushed. -/
theorem memCpyExit_run {s₂ : Cpu} {ecx ebp ret : BitVec 32} (h : BootMapped s₂.mem)
    (h_esp : s₂.esp = 0xc00008e4#32) (h_ecx : s₂.mem.word 0x8e4 = ecx)
    (h_ebp : s₂.mem.word 0x8e8 = ebp) (h_ret : s₂.mem.word 0x8ec = ret) :
    ∃ s', memCpyExit s₂ = some s' ∧ s'.mem = s₂.mem ∧ s'.esp = 0xc00008f0#32 ∧ s'.eip = ret ∧
      s'.gpr = Function.update (Function.update s₂.gpr .ecx ecx) .ebp ebp := by
  have h_pop := Cpu.popWord_low (n := 0x8e4) h (by rw [h_esp]; decide) (by decide) .ecx
  have h_low : Low 0xc00008e8#32 0x8e8 := by decide
  have h_low' : Low 0xc00008ec#32 0x8ec := by decide
  have h_pop' := Cpu.popWord_low (s := (s₂.setGpr .ecx ecx).setEsp 0xc00008e8#32) h h_low
    (by decide) .ebp
  have h_return := Cpu.return'_low
    (s := (((s₂.setGpr .ecx ecx).setEsp 0xc00008e8#32).setGpr .ebp ebp).setEsp 0xc00008ec#32)
    h h_low' (by decide)
  -- `esp` goes up by a word each time
  have h_next : addr 0xc00008e4#32 4 = 0xc00008e8#32 := by decide
  have h_next' : addr 0xc00008e8#32 4 = 0xc00008ec#32 := by decide
  have h_next'' : addr 0xc00008ec#32 4 = 0xc00008f0#32 := by decide
  rw [h_esp, h_next, h_ecx] at h_pop
  rw [Cpu.setEsp_esp, h_next', Cpu.setEsp_mem, Cpu.setGpr_mem, h_ebp] at h_pop'
  rw [memCpyExit, bind_of_some h_pop, bind_of_some h_pop', h_return]
  exact ⟨_, rfl, rfl, h_next'', h_ret, rfl⟩

theorem memCpy_run {dst src : ℕ} (h : Arguments s ret vaddr from' count)
    (h_src : Area from' src count.toNat) (h_dst : Area vaddr dst count.toNat)
    (h_off : OffStack dst src count.toNat) :
    ∃ s', Loader.memCpy s = some s' ∧ MemCpyDone s s' ret dst src count.toNat := by
  obtain ⟨s₁, h_at, h_enter⟩ := memCpy_enter h
  have h_mapped₁ : BootMapped s₁.mem := by
    rw [h_at.mem]
    exact (h.mapped.store32 (by decide) _).store32 (by decide) _
  obtain ⟨s₂, h_copy, h_copied⟩ := repMovsb_run h_mapped₁ (h_at.esi.symm ▸ h_src)
    (h_at.edi.symm ▸ h_dst) h_off.apart
  -- the copy leaves the stack alone
  have h_word {n : ℕ} (hn : 0x8e4 ≤ n) (hn' : n + 4 ≤ 0x900) :
      s₂.mem.word n = (enterMem s).word n := by
    refine ByteMemory.word_congr _ fun k hk => ?_
    have h_dst := h_off.dst
    rw [h_copied.bytes _ (by omega), copied, if_neg (by omega), h_at.mem]
  -- what the exit takes from the stack
  have h_ecx : s₂.mem.word 0x8e4 = s.gpr .ecx := by
    rw [h_word (by decide) (by decide)]
    exact ByteMemory.word_store32_self ..
  have h_ebp : s₂.mem.word 0x8e8 = s.gpr .ebp := by
    rw [h_word (by decide) (by decide), enterMem,
      ByteMemory.word_store32 _ _ (by decide) (by decide) (.inr (by decide))]
    exact ByteMemory.word_store32_self ..
  have h_ret : s₂.mem.word 0x8ec = ret := by
    rw [h_word (by decide) (by decide), enterMem_word (by decide) (by decide)]
    exact h.ret
  have h_esp : s₂.esp = 0xc00008e4#32 := h_copied.esp.trans h_at.esp
  obtain ⟨s', h_exit, h_mem, h_esp', h_eip, h_gpr⟩ := memCpyExit_run h_copied.mapped h_esp h_ecx
    h_ebp h_ret
  rw [h_enter, bind_of_some h_copy]
  refine ⟨s', h_exit, ?_, h_esp', h_eip, h_mem ▸ h_copied.mapped, ?_⟩
  · intro r h_ne h_ne'
    rw [h_gpr]
    by_cases h_r : r = .ebp
    · rw [h_r, Function.update_self]
    rw [Function.update_of_ne h_r]
    by_cases h_r' : r = .ecx
    · rw [h_r', Function.update_self]
    rw [Function.update_of_ne h_r', h_copied.gpr r h_ne h_ne' h_r', h_at.gpr r h_ne h_ne' h_r' h_r]
  · intro x hx h_below
    have h_src' := h_off.src
    rw [h_mem, h_copied.bytes x hx, copied, copied, h_at.mem]
    split
    · next h_in =>
      obtain ⟨-, h_fits⟩ := h_src (by omega)
      exact enterMem_byte (by omega) (by omega)
    · exact enterMem_byte hx h_below

end MemCpy

/-! ### One header -/

/-- The loader can copy what belongs to the header. -/
structure Placed (h : Phdr) : Prop where
  src : Area (h.offset + Loader.kernelBinBaseAddr) (0x70000 + h.offset.toNat) h.filesz.toNat
  dst : Area h.vaddr h.dest h.filesz.toNat
  off : OffStack h.dest (0x70000 + h.offset.toNat) h.filesz.toNat

/-- What a round of the loop does, for the header `h`. -/
structure SegmentDone (s s' : Cpu) (h : Phdr) : Prop where
  gpr : ∀ r, r = .ebx ∨ r = .ecx ∨ r = .edx → s'.gpr r = s.gpr r
  esp : s'.esp = s.esp
  mapped : BootMapped s'.mem
  bytes : ∀ x < 2 ^ 32, ¬ (0x8e4 ≤ x ∧ x < 0x8fc) →
    s'.mem (phys x) = if h.IsCopied ∧ h.Covers x then h.fileByte s.mem x else s.mem (phys x)

/-- The lowest byte of a word. -/
theorem setWidth_word (m : ByteMemory) (n : ℕ) : (m.word n).setWidth 8 = m (phys n) := by
  apply BitVec.eq_of_getLsbD_eq
  intro i hi
  unfold ByteMemory.word ByteMemory.load32
  simp only [BitVec.getLsbD_setWidth, BitVec.getLsbD_append, hi, decide_true, Bool.true_and]
  simp

section Segment

variable {s : Cpu} {n : ℕ} {ret : BitVec 32}

/-- The memory when the arguments of `mem_cpy` and its return address have been pushed. -/
def callMem (m : ByteMemory) (h : Phdr) (ret : BitVec 32) : ByteMemory :=
  (((m.store32 (phys 0x8f8) h.filesz).store32 (phys 0x8f4)
    (h.offset + Loader.kernelBinBaseAddr)).store32 (phys 0x8f0) h.vaddr).store32 (phys 0x8ec) ret

theorem callMem_byte (m : ByteMemory) (h : Phdr) {x : ℕ} (hx : x < 2 ^ 32)
    (h_off : ¬ (0x8ec ≤ x ∧ x < 0x8fc)) : callMem m h ret (phys x) = m (phys x) := by
  rw [callMem, ByteMemory.byte_store32 _ _ hx (by decide) (by omega),
    ByteMemory.byte_store32 _ _ hx (by decide) (by omega),
    ByteMemory.byte_store32 _ _ hx (by decide) (by omega),
    ByteMemory.byte_store32 _ _ hx (by decide) (by omega)]

/-- What the loop does when `mem_cpy` has returned. -/
def segmentExit (ret : BitVec 32) (s : Cpu) : Option Cpu :=
  if s.eip = ret then some (s.setEsp (addr s.esp 12)) else none

variable (ret) in
/-- The call of `mem_cpy`. -/
theorem segment_enter (h_mapped : BootMapped s.mem) (h_esp : s.esp = 0xc00008fc#32)
    (h_ebx : Low (s.gpr .ebx) n) (hn : 0x900 ≤ n) (hn' : n + 32 ≤ 0x100000)
    (h_copied : (phdrAt s.mem n).IsCopied) :
    ∃ s₁, Arguments s₁ ret (phdrAt s.mem n).vaddr
        ((phdrAt s.mem n).offset + Loader.kernelBinBaseAddr) (phdrAt s.mem n).filesz ∧
      s₁.mem = callMem s.mem (phdrAt s.mem n) ret ∧ (∀ r, r ≠ .eax → s₁.gpr r = s.gpr r) ∧
      Loader.segment ret s = Loader.memCpy s₁ >>= segmentExit ret := by
  have h_type : s.mem (phys n) ≠ Loader.ptNull := by
    have h_type' : (s.mem.word n).setWidth 8 ≠ Loader.ptNull := h_copied
    rw [setWidth_word] at h_type'
    exact h_type'
  have h_read {s₁ : Cpu} (h : BootMapped s₁.mem) (h_gpr : s₁.gpr .ebx = s.gpr .ebx) {k : ℕ}
      (hk : k + 4 ≤ 32) : s₁.read32 (addr (s₁.gpr .ebx) k) = some (s₁.mem.word (n + k)) := by
    rw [h_gpr]
    exact Cpu.read32_low h (h_ebx.addr (by omega)) (by omega)
  -- push dword [ebx + 16]
  obtain ⟨s₁, h_push₁, h_gpr₁, h_esp₁, h_mem₁, h_mapped₁⟩ := Cpu.exists_pushed (n := 0x8f8)
    h_mapped (by rw [h_esp]; decide) (by decide) (phdrAt s.mem n).filesz
  rw [h_esp] at h_esp₁
  have h_offset : s₁.mem.word (n + 4) = (phdrAt s.mem n).offset := by
    rw [h_mem₁]
    exact s.mem.word_store32 _ (by omega) (by decide) (.inr (by omega))
  -- push eax
  obtain ⟨s₂, h_push₂, h_gpr₂, h_esp₂, h_mem₂, h_mapped₂⟩ := Cpu.exists_pushed (n := 0x8f4)
    (s := (s₁.setGpr .eax (phdrAt s.mem n).offset).setGpr .eax
      ((phdrAt s.mem n).offset + Loader.kernelBinBaseAddr))
    h_mapped₁ (by rw [Cpu.setGpr_esp, Cpu.setGpr_esp, h_esp₁]; decide) (by decide)
    ((phdrAt s.mem n).offset + Loader.kernelBinBaseAddr)
  rw [Cpu.setGpr_esp, Cpu.setGpr_esp, h_esp₁] at h_esp₂
  rw [Cpu.setGpr_mem, Cpu.setGpr_mem, h_mem₁] at h_mem₂
  rw [Cpu.setGpr_gpr, Cpu.setGpr_gpr, Function.update_idem, h_gpr₁] at h_gpr₂
  have h_ebx₂ : s₂.gpr .ebx = s.gpr .ebx := by
    rw [h_gpr₂]
    rfl
  have h_vaddr : s₂.mem.word (n + 8) = (phdrAt s.mem n).vaddr := by
    rw [h_mem₂, ByteMemory.word_store32 _ _ (by omega) (by decide) (.inr (by omega))]
    exact s.mem.word_store32 _ (by omega) (by decide) (.inr (by omega))
  -- push dword [ebx + 8]
  obtain ⟨s₃, h_push₃, h_gpr₃, h_esp₃, h_mem₃, h_mapped₃⟩ := Cpu.exists_pushed (n := 0x8f0)
    h_mapped₂ (by rw [h_esp₂]; decide) (by decide) (phdrAt s.mem n).vaddr
  rw [h_esp₂] at h_esp₃
  -- call mem_cpy
  obtain ⟨s₄, h_push₄, h_gpr₄, h_esp₄, h_mem₄, h_mapped₄⟩ := Cpu.exists_pushed (n := 0x8ec)
    h_mapped₃ (by rw [h_esp₃]; decide) (by decide) ret
  rw [h_esp₃] at h_esp₄
  have h_mem : s₄.mem = callMem s.mem (phdrAt s.mem n) ret := by
    rw [h_mem₄, h_mem₃, h_mem₂]
    rfl
  refine ⟨s₄, ⟨h_mapped₄, ?_, ?_, ?_, ?_, ?_⟩, h_mem, ?_, ?_⟩
  · rw [h_esp₄]
    decide
  · rw [h_mem₄]
    exact ByteMemory.word_store32_self ..
  · rw [h_mem₄, h_mem₃, ByteMemory.word_store32 _ _ (by decide) (by decide) (.inr (by decide))]
    exact ByteMemory.word_store32_self ..
  · rw [h_mem₄, h_mem₃, h_mem₂, ByteMemory.word_store32 _ _ (by decide) (by decide)
      (.inr (by decide)), ByteMemory.word_store32 _ _ (by decide) (by decide) (.inr (by decide))]
    exact ByteMemory.word_store32_self ..
  · rw [h_mem₄, h_mem₃, h_mem₂, ByteMemory.word_store32 _ _ (by decide) (by decide)
      (.inr (by decide)), ByteMemory.word_store32 _ _ (by decide) (by decide) (.inr (by decide)),
      ByteMemory.word_store32 _ _ (by decide) (by decide) (.inr (by decide))]
    exact ByteMemory.word_store32_self ..
  · intro r h_ne
    rw [h_gpr₄, h_gpr₃, h_gpr₂, Function.update_of_ne h_ne]
  · rw [Loader.segment, bind_of_some (Cpu.read8_low h_mapped h_ebx)]
    simp only [if_neg h_type]
    have h_filesz : s.mem.word (n + 16) = (phdrAt s.mem n).filesz := rfl
    rw [bind_of_some (h_read h_mapped rfl (k := 16) (by decide)), h_filesz, bind_of_some h_push₁,
      bind_of_some (h_read h_mapped₁ (congrFun h_gpr₁ .ebx) (k := 4) (by decide)), h_offset]
    simp only [Cpu.setGpr_gpr, Function.update_self]
    rw [bind_of_some h_push₂, bind_of_some (h_read h_mapped₂ h_ebx₂ (k := 8) (by decide)), h_vaddr,
      bind_of_some h_push₃, bind_of_some h_push₄]
    rfl

variable (ret) in
/-- One round of the loop. -/
theorem segment_run (h_mapped : BootMapped s.mem) (h_esp : s.esp = 0xc00008fc#32)
    (h_ebx : Low (s.gpr .ebx) n) (hn : 0x900 ≤ n) (hn' : n + 32 ≤ 0x100000)
    (h_placed : (phdrAt s.mem n).IsCopied → Placed (phdrAt s.mem n)) :
    ∃ s', Loader.segment ret s = some s' ∧ SegmentDone s s' (phdrAt s.mem n) := by
  by_cases h_copied : (phdrAt s.mem n).IsCopied
  · obtain ⟨h_src, h_dst, h_off⟩ := h_placed h_copied
    obtain ⟨s₁, h_args, h_mem₁, h_gpr₁, h_enter⟩ := segment_enter ret h_mapped h_esp h_ebx
      hn hn' h_copied
    obtain ⟨s₂, h_run, h_gpr₂, h_esp₂, h_eip₂, h_mapped₂, h_bytes₂⟩ := memCpy_run h_args h_src h_dst
      h_off
    rw [h_enter, bind_of_some h_run, segmentExit, if_pos h_eip₂]
    refine ⟨_, rfl, ?_, ?_, h_mapped₂, ?_⟩
    · rintro r h_r
      have h_ne : r ≠ .esi ∧ r ≠ .edi ∧ r ≠ .eax := by rcases h_r with rfl | rfl | rfl <;> decide
      rw [Cpu.setEsp_gpr, h_gpr₂ r h_ne.1 h_ne.2.1, h_gpr₁ r h_ne.2.2]
    · rw [Cpu.setEsp_esp, h_esp₂, h_esp]
      decide
    · intro x hx h_stack
      have h_src_off := h_off.src
      rw [Cpu.setEsp_mem, h_bytes₂ x hx (by omega), copied, h_mem₁]
      by_cases h_in : (phdrAt s.mem n).Covers x
      · obtain ⟨h_ge, h_lt⟩ := h_in
        obtain ⟨-, h_fits⟩ := h_src (by omega)
        rw [if_pos ⟨h_ge, h_lt⟩, if_pos ⟨h_copied, h_ge, h_lt⟩]
        exact callMem_byte _ _ (by omega) (by omega)
      · have h_out : ¬ ((phdrAt s.mem n).dest ≤ x ∧
            x < (phdrAt s.mem n).dest + (phdrAt s.mem n).filesz.toNat) := h_in
        rw [if_neg h_out, if_neg fun h => h_in h.2]
        exact callMem_byte _ _ hx (by omega)
  · have h_type : s.mem (phys n) = Loader.ptNull := by
      have h_type' : (s.mem.word n).setWidth 8 = Loader.ptNull := not_not.mp h_copied
      rw [setWidth_word] at h_type'
      exact h_type'
    rw [Loader.segment, bind_of_some (Cpu.read8_low h_mapped h_ebx)]
    simp only [if_pos h_type]
    refine ⟨s, rfl, fun _ _ => rfl, rfl, h_mapped, fun x _ _ => ?_⟩
    rw [if_neg fun h => h_copied h.1]

end Segment

/-! ### The loop -/

/-- The byte that the first `n` headers put at an address, if any of them does. -/
def written (m : ByteMemory) : ℕ → ℕ → Option (BitVec 8)
  | 0, _ => none
  | n + 1, x => if (phdr m n).IsCopied ∧ (phdr m n).Covers x then some ((phdr m n).fileByte m x)
    else written m n x

section Loop

variable {m : ByteMemory} {len code : ℕ} {ret : BitVec 32}

/-- A header that is copied is one that is loaded, or a stray one. -/
theorem covers_clear (h_image : ElfImage m len code) (h_copy : Copyable m len code) {i : ℕ}
    (hi : i < phnum m) (h_copied : (phdr m i).IsCopied) {x : ℕ} (hx : (phdr m i).Covers x) :
    x < 0x100000 ∧ ClearOfLoader len code x ∧
      (phdr m i).offset.toNat + (x - (phdr m i).dest) < len := by
  by_cases h_load : (phdr m i).IsLoad
  · have h_filesz := h_image.filesz i hi h_load
    have h_range : (phdr m i).InRange x := ⟨hx.1, hx.2.trans_le (by omega)⟩
    exact ⟨h_copy.load i hi h_load x h_range, h_image.clear i hi h_load x h_range,
      h_image.file i hi h_load x hx⟩
  · exact h_copy.stray i hi ⟨h_copied, h_load⟩ x hx

/-- No header writes where the loader reads. -/
theorem written_eq_none (h_image : ElfImage m len code) (h_copy : Copyable m len code) {n x : ℕ}
    (hn : n ≤ phnum m) (hx : ¬ ClearOfLoader len code x) : written m n x = none := by
  induction n with
  | zero => rfl
  | succ n ih =>
    rw [written, if_neg, ih (Nat.le_of_succ_le hn)]
    intro ⟨h_copied, h_covers⟩
    exact hx (covers_clear h_image h_copy hn h_copied h_covers).2.1

/-- What the loader can copy, `mem_cpy` can. -/
theorem placed_phdr (h_image : ElfImage m len code) (h_copy : Copyable m len code) {i : ℕ}
    (hi : i < phnum m) (h_copied : (phdr m i).IsCopied) : Placed (phdr m i) := by
  have h_len := h_image.sectors
  have h_clear {k : ℕ} (hk : k < (phdr m i).filesz.toNat) :
      (phdr m i).dest + k < 0x100000 ∧
      ¬ (0x8e4 ≤ (phdr m i).dest + k ∧ (phdr m i).dest + k < 0x900 + code) ∧
      ¬ (0x70000 ≤ (phdr m i).dest + k ∧ (phdr m i).dest + k < 0x70000 + len) ∧
      (phdr m i).offset.toNat + k < len := by
    obtain ⟨h_low, ⟨h_code, h_file⟩, h_offset⟩ := covers_clear h_image h_copy hi h_copied
      (x := (phdr m i).dest + k) ⟨Nat.le_add_right _ k, Nat.add_lt_add_left hk _⟩
    rw [Nat.add_sub_cancel_left] at h_offset
    exact ⟨h_low, h_code, h_file, h_offset⟩
  refine ⟨fun h_pos => ?_, fun h_pos => ?_, ?_, ?_, ?_⟩
  · obtain ⟨-, -, -, h_last⟩ := h_clear (Nat.sub_lt h_pos Nat.one_pos)
    refine ⟨⟨by omega, ?_⟩, by omega⟩
    rw [Loader.kernelBinBaseAddr, BitVec.toNat_add, BitVec.toNat_ofNat]
    omega
  · obtain ⟨h_last, -⟩ := h_clear (Nat.sub_lt h_pos Nat.one_pos)
    exact ⟨⟨by omega, rfl⟩, by omega⟩
  · by_contra h_meet
    -- the higher one of the two starts lies in both places
    by_cases h_le : 0x70000 + (phdr m i).offset.toNat ≤ (phdr m i).dest
    · have h_first := h_clear (k := 0) (by omega)
      have h_last := h_clear (k := (phdr m i).filesz.toNat - 1) (by omega)
      omega
    · have h_first := h_clear (k := 0x70000 + (phdr m i).offset.toNat - (phdr m i).dest) (by omega)
      have h_last := h_clear (k := (phdr m i).filesz.toNat - 1) (by omega)
      omega
  · by_contra h_meet
    by_cases h_le : 0x8e4 ≤ (phdr m i).dest
    · have h_first := h_clear (k := 0) (by omega)
      omega
    · have h_first := h_clear (k := 0x8e4 - (phdr m i).dest) (by omega)
      omega
  · omega

/-- The loop, when it comes to header `i`. -/
structure AtSegment (m : ByteMemory) (i : ℕ) (s : Cpu) : Prop where
  mapped : BootMapped s.mem
  esp : s.esp = 0xc00008fc#32
  ebx : s.gpr .ebx = phys (phdrAddr m i)
  edx : s.gpr .edx = phys (phentsize m)
  ecx : s.gpr .ecx = phys (phnum m - i)
  bytes : ∀ x < 2 ^ 32, ¬ (0x8e4 ≤ x ∧ x < 0x8fc) →
    s.mem (phys x) = (written m i x).getD (m (phys x))

/-- The image stays as it is. -/
theorem AtSegment.image_byte {i : ℕ} {s : Cpu} (h : AtSegment m i s)
    (h_image : ElfImage m len code) (h_copy : Copyable m len code) (hi : i ≤ phnum m) {x : ℕ}
    (hx : 0x70000 ≤ x) (hx' : x < 0x70000 + len) : s.mem (phys x) = m (phys x) := by
  have h_len := h_image.sectors
  rw [h.bytes x (by omega) (by omega),
    written_eq_none h_image h_copy hi fun h_clear => h_clear.2 ⟨hx, hx'⟩]
  rfl

/-- A header lies in the image. -/
theorem ElfImage.phdrAddr_le (h : ElfImage m len code) {i : ℕ} (hi : i < phnum m) :
    phdrAddr m i + 32 ≤ 0x70000 + len := by
  have h_table := h.table
  have h_entry := h.entry
  have h_end : (i + 1) * phentsize m ≤ phnum m * phentsize m := Nat.mul_le_mul_right _ hi
  rw [Nat.succ_mul] at h_end
  unfold phdrAddr
  omega

theorem AtSegment.phdr_eq {i : ℕ} {s : Cpu} (h : AtSegment m i s) (h_image : ElfImage m len code)
    (h_copy : Copyable m len code) (hi : i < phnum m) :
    phdrAt s.mem (phdrAddr m i) = phdr m i := by
  have h_end := h_image.phdrAddr_le hi
  have h_start : 0x70000 ≤ phdrAddr m i := by
    unfold phdrAddr
    omega
  have h_word {k : ℕ} (hk : k + 4 ≤ 32) :
      s.mem.word (phdrAddr m i + k) = m.word (phdrAddr m i + k) :=
    ByteMemory.word_congr m fun x hx =>
      h.image_byte h_image h_copy hi.le (by omega) (by omega)
  unfold phdr phdrAt
  rw [h_word (k := 4) (by decide), h_word (k := 8) (by decide), h_word (k := 16) (by decide),
    h_word (k := 20) (by decide)]
  rw [show s.mem.word (phdrAddr m i) = m.word (phdrAddr m i) from h_word (k := 0) (by decide)]

variable (ret) in
/-- One round, for the header `i`. -/
theorem AtSegment.next {i : ℕ} {s : Cpu} (h : AtSegment m i s) (h_image : ElfImage m len code)
    (h_copy : Copyable m len code) (hi : i < phnum m) :
    ∃ s', Loader.segment ret s = some s' ∧
      AtSegment m (i + 1)
        ((s'.setGpr .ebx (s'.gpr .ebx + s'.gpr .edx)).setGpr .ecx (s'.gpr .ecx - 1#32)) := by
  have h_len := h_image.sectors
  have h_end := h_image.phdrAddr_le hi
  have h_start : 0x70000 ≤ phdrAddr m i := by
    unfold phdrAddr
    omega
  -- the header has not been overwritten, so the loop reads the one of the image
  have h_phdr := h.phdr_eq h_image h_copy hi
  have h_ebx : Low (s.gpr .ebx) (phdrAddr m i) := by
    rw [h.ebx]
    refine ⟨by omega, ?_⟩
    rw [toNat_phys (by omega)]
    omega
  obtain ⟨s', h_run, h_gpr, h_esp, h_mapped, h_bytes⟩ := segment_run ret h.mapped h.esp
    h_ebx (by omega) (by omega) (h_phdr.symm ▸ placed_phdr h_image h_copy hi)
  rw [h_phdr] at h_bytes
  refine ⟨s', h_run, h_mapped, h_esp.trans h.esp, ?_, ?_, ?_, ?_⟩
  · rw [Cpu.setGpr_gpr, Function.update_of_ne (by decide), Cpu.setGpr_gpr, Function.update_self,
      h_gpr _ (.inl rfl), h_gpr _ (.inr (.inr rfl)), h.ebx, h.edx, phys_add, phdrAddr, phdrAddr]
    congr 1
    ring
  · rw [Cpu.setGpr_gpr, Function.update_of_ne (by decide), Cpu.setGpr_gpr,
      Function.update_of_ne (by decide), h_gpr _ (.inr (.inr rfl)), h.edx]
  · have h_pred : phys (phnum m - i) = phys (phnum m - (i + 1)) + phys 1 := by
      rw [phys_add]
      congr 1
      omega
    rw [Cpu.setGpr_gpr, Function.update_self, h_gpr _ (.inr (.inl rfl)), h.ecx, h_pred]
    exact BitVec.add_sub_cancel _ _
  · intro x hx h_stack
    rw [Cpu.setGpr_mem, Cpu.setGpr_mem, h_bytes x hx h_stack, written]
    split
    · next h_in =>
      -- nor has what it copies
      obtain ⟨-, -, h_src⟩ := covers_clear h_image h_copy hi h_in.1 h_in.2
      exact h.image_byte h_image h_copy hi.le (by omega) (by omega)
    · exact h.bytes x hx h_stack

variable (ret) in
/-- **The loop** comes to its end after one round for each header. -/
theorem eachSegment_run (h_image : ElfImage m len code) (h_copy : Copyable m len code) {i k : ℕ}
    {s : Cpu} (h : AtSegment m i s) (hk : phnum m = i + k + 1) :
    ∃ s', AtSegment m (phnum m) s' ∧
      ∀ rounds, k + 1 ≤ rounds → Loader.eachSegment ret rounds s = some s' := by
  induction k generalizing i s with
  | zero =>
    obtain ⟨s₁, h_run, h_next⟩ := h.next ret h_image h_copy (by omega)
    refine ⟨_, hk ▸ h_next, fun rounds h_rounds => ?_⟩
    obtain ⟨rounds, rfl⟩ := Nat.exists_eq_add_of_le' h_rounds
    -- the last header: `loop` counts down to zero
    have h_ecx := h_next.ecx
    rw [hk, Nat.add_zero, Nat.sub_self] at h_ecx
    rw [Loader.eachSegment, bind_of_some h_run]
    exact if_pos h_ecx
  | succ k ih =>
    obtain ⟨s₁, h_run, h_next⟩ := h.next ret h_image h_copy (by omega)
    obtain ⟨s', h_end, h_rest⟩ := ih h_next (by omega)
    refine ⟨s', h_end, fun rounds h_rounds => ?_⟩
    obtain ⟨rounds, rfl⟩ := Nat.exists_eq_add_of_le' (Nat.one_le_of_lt h_rounds)
    -- there is another header, so `loop` goes back
    have h_ecx : phys (phnum m - (i + 1)) ≠ 0#32 := by
      intro h_zero
      have h_nat := congrArg BitVec.toNat h_zero
      have h_lt : phnum m < 2 ^ 16 := (m.half 0x7002c).isLt
      rw [toNat_phys (by omega)] at h_nat
      change phnum m - (i + 1) = 0 at h_nat
      omega
    rw [← h_next.ecx] at h_ecx
    rw [Loader.eachSegment, bind_of_some h_run]
    exact (if_neg h_ecx).trans (h_rest rounds (by omega))

/-- A half word in a register that was cleared. -/
theorem setLow_gpr {s : Cpu} {r : Gpr} (h : s.gpr r = 0#32) (v : BitVec 16) :
    (s.setLow r v).gpr = Function.update s.gpr r (phys v.toNat) := by
  have h_nat : (v.setWidth 32).toNat = v.toNat := BitVec.toNat_setWidth_of_le (by decide)
  rw [Cpu.setLow, Cpu.setGpr_gpr, h, BitVec.zero_and, BitVec.zero_or, eq_phys h_nat]

variable (ret) in
/-- Up to the loop. -/
theorem kernelInit_enter (h_mapped : BootMapped m) {s : Cpu} (h_mem : s.mem = m)
    (h_esp : s.esp = 0xc00008fc#32) :
    ∃ s₁, AtSegment m 0 s₁ ∧ ∀ rounds,
      Loader.kernelInit ret rounds s = Loader.eachSegment ret rounds s₁ >>= Cpu.return' := by
  -- what the loader reads from the header of the image
  have h_half {s₁ : Cpu} (h : s₁.mem = m) {k n : ℕ}
      (h_low : Low (addr Loader.kernelBinBaseAddr k) n) (hn : n < 0x80000) :
      s₁.read16 (addr Loader.kernelBinBaseAddr k) = some (m.half n) := by
    rw [Cpu.read16_low (h ▸ h_mapped) h_low (by omega), h]
  have h_word {s₁ : Cpu} (h : s₁.mem = m) :
      s₁.read32 (addr Loader.kernelBinBaseAddr 28) = some (m.word 0x7001c) := by
    rw [Cpu.read32_low (n := 0x7001c) (h ▸ h_mapped) (by decide) (by decide), h]
  -- the registers are cleared, and then `edx`, `ebx` and `ecx` are loaded
  obtain ⟨s₀, h_s₀, h_mem₀, h_esp₀, h_gpr₀⟩ : ∃ s₀,
      s₀ = (((s.setGpr .eax 0#32).setGpr .ebx 0#32).setGpr .ecx 0#32).setGpr .edx 0#32 ∧
      s₀.mem = m ∧ s₀.esp = s.esp ∧ s₀.gpr .ecx = 0#32 ∧ s₀.gpr .edx = 0#32 :=
    ⟨_, rfl, h_mem, rfl, rfl, rfl⟩
  have h_edx := setLow_gpr h_gpr₀.2 (m.half 0x7002a)
  obtain ⟨s₁, h_s₁, h_mem₁, h_esp₁, h_gpr₁⟩ : ∃ s₁,
      s₁ = ((s₀.setLow .edx (m.half 0x7002a)).setGpr .ebx (m.word 0x7001c)).setGpr .ebx
        (m.word 0x7001c + Loader.kernelBinBaseAddr) ∧ s₁.mem = m ∧ s₁.esp = s.esp ∧
      s₁.gpr = Function.update (Function.update s₀.gpr .edx (phys (phentsize m))) .ebx
        (m.word 0x7001c + Loader.kernelBinBaseAddr) := by
    refine ⟨_, rfl, h_mem₀, h_esp₀, ?_⟩
    rw [Cpu.setGpr_gpr, Cpu.setGpr_gpr, Function.update_idem, h_edx]
    rfl
  have h_ecx₁ : s₁.gpr .ecx = 0#32 := by
    rw [h_gpr₁, Function.update_of_ne (by decide), Function.update_of_ne (by decide)]
    exact h_gpr₀.1
  have h_ecx := setLow_gpr h_ecx₁ (m.half 0x7002c)
  refine ⟨s₁.setLow .ecx (m.half 0x7002c), ⟨?_, ?_, ?_, ?_, ?_, ?_⟩, fun rounds => ?_⟩
  · exact h_mem₁.symm ▸ h_mapped
  · exact h_esp₁.trans h_esp
  · rw [h_ecx, Function.update_of_ne (by decide), h_gpr₁, Function.update_self, phdrAddr,
      Nat.zero_mul, Nat.add_zero, Nat.add_comm, ← phys_add, phoff, phys_toNat]
    rfl
  · rw [h_ecx, Function.update_of_ne (by decide), h_gpr₁, Function.update_of_ne (by decide),
      Function.update_self]
  · rw [h_ecx, Function.update_self]
    rfl
  · intro x _ _
    exact congrFun h_mem₁ _
  · rw [Loader.kernelInit]
    simp only [← h_s₀]
    rw [bind_of_some (h_half h_mem₀ (k := 42) (n := 0x7002a) (by decide) (by decide)),
      bind_of_some (@h_word (s₀.setLow .edx (m.half 0x7002a)) h_mem₀)]
    simp only [Cpu.setGpr_gpr, Function.update_self, ← h_s₁]
    rw [bind_of_some (h_half h_mem₁ (k := 44) (n := 0x7002c) (by decide) (by decide))]

variable (ret) in
/-- **What `kernel_init` leaves in memory**, byte by byte. -/
theorem kernelInit_run (h_mapped : BootMapped m) (h_image : ElfImage m len code)
    (h_copy : Copyable m len code) {s : Cpu} (h_mem : s.mem = m) (h_esp : s.esp = 0xc00008fc#32) :
    ∃ s', (∀ rounds, phnum m ≤ rounds → Loader.kernelInit ret rounds s = some s') ∧
      s'.eip = m.word 0x8fc ∧ s'.esp = 0xc0000900#32 ∧
      ∀ x < 2 ^ 32, ¬ (0x8e4 ≤ x ∧ x < 0x8fc) →
        s'.mem (phys x) = (written m (phnum m) x).getD (m (phys x)) := by
  obtain ⟨s₁, h_at, h_enter⟩ := kernelInit_enter ret h_mapped h_mem h_esp
  have h_pos := h_image.nonempty
  obtain ⟨s₂, h_end, h_rounds⟩ := eachSegment_run ret h_image h_copy (k := phnum m - 1)
    h_at (by omega)
  have h_low : Low s₂.esp 0x8fc := by
    rw [h_end.esp]
    decide
  have h_ret : s₂.mem.word 0x8fc = m.word 0x8fc := by
    refine ByteMemory.word_congr m fun k hk => ?_
    rw [h_end.bytes _ (by omega) (by omega),
      written_eq_none h_image h_copy le_rfl fun h_clear => h_clear.1 ⟨by omega, by omega⟩]
    rfl
  refine ⟨{ s₂ with eip := s₂.mem.word 0x8fc, esp := addr s₂.esp 4 }, fun rounds h => ?_, h_ret, ?_,
    h_end.bytes⟩
  · rw [h_enter, bind_of_some (h_rounds rounds (by omega)),
      Cpu.return'_low h_end.mapped h_low (by decide)]
  · show addr s₂.esp 4 = _
    rw [h_end.esp]
    decide

/-! ### What is wanted -/

/-- The last header that reaches an address decides. -/
theorem written_cases (m : ByteMemory) (n x : ℕ) :
    (written m n x = none ∧ ∀ i < n, (phdr m i).IsCopied → ¬ (phdr m i).Covers x) ∨
    ∃ i < n, (phdr m i).IsCopied ∧ (phdr m i).Covers x ∧
      written m n x = some ((phdr m i).fileByte m x) ∧
      ∀ j < n, i < j → (phdr m j).IsCopied → ¬ (phdr m j).Covers x := by
  induction n with
  | zero => exact .inl ⟨rfl, fun i hi => absurd hi (Nat.not_lt_zero i)⟩
  | succ n ih =>
    rw [written]
    by_cases h_last : (phdr m n).IsCopied ∧ (phdr m n).Covers x
    · -- the last header wins over all before it
      refine .inr ⟨n, Nat.lt_succ_self n, h_last.1, h_last.2, if_pos h_last, fun j hj h_lt => ?_⟩
      omega
    · rw [if_neg h_last]
      rcases ih with ⟨h_none, h_all⟩ | ⟨i, hi, h_copied, h_covers, h_some, h_later⟩
      · refine .inl ⟨h_none, fun i hi h_copied h_covers => ?_⟩
        rcases Nat.lt_succ_iff_lt_or_eq.mp hi with hi | rfl
        · exact h_all i hi h_copied h_covers
        · exact h_last ⟨h_copied, h_covers⟩
      · refine .inr ⟨i, Nat.lt_succ_of_lt hi, h_copied, h_covers, h_some, ?_⟩
        intro j hj h_lt h_copied' h_covers'
        rcases Nat.lt_succ_iff_lt_or_eq.mp hj with hj | rfl
        · exact h_later j hj h_lt h_copied' h_covers'
        · exact h_last ⟨h_copied', h_covers'⟩

/-- The type `PT_LOAD` is not `PT_NULL`. -/
theorem Phdr.IsLoad.isCopied {h : Phdr} (h_load : h.IsLoad) : h.IsCopied := by
  unfold Phdr.IsCopied
  rw [h_load]
  decide

/-- The part that comes from the file lies in the segment. -/
theorem ElfImage.inRange_of_covers (h_image : ElfImage m len code) {i x : ℕ} (hi : i < phnum m)
    (h_load : (phdr m i).IsLoad) (h_covers : (phdr m i).Covers x) : (phdr m i).InRange x := by
  have h_filesz := h_image.filesz i hi h_load
  exact ⟨h_covers.1, h_covers.2.trans_le (by omega)⟩

/-- The bytes of the file are what is wanted there. -/
theorem wanted_fileByte (h_image : ElfImage m len code) {i x : ℕ} (hi : i < phnum m)
    (h_load : (phdr m i).IsLoad) (h_covers : (phdr m i).Covers x) :
    Wanted m x ((phdr m i).fileByte m x) := by
  have h_range := h_image.inRange_of_covers hi h_load h_covers
  refine ⟨?_, ?_, ?_⟩
  · intro j hj h_load' h_covers'
    have h_range' := h_image.inRange_of_covers hj h_load' h_covers'
    rw [h_image.disjoint i hi j hj h_load h_load' x h_range h_range']
  · intro j hj h_load' h_range' h_not
    have h_same := h_image.disjoint i hi j hj h_load h_load' x h_range h_range'
    rw [h_same] at h_covers
    exact absurd h_covers h_not
  · intro h_outside
    exact absurd h_range (h_outside i hi h_load)

section Loaded

variable {m' : ByteMemory} (h_bytes : ∀ x < 2 ^ 32, ¬ (0x8e4 ≤ x ∧ x < 0x8fc) →
  m' (phys x) = (written m (phnum m) x).getD (m (phys x)))

include h_bytes in
/-- A place that is clear of the loader is off its stack, so it is known what stands there. -/
theorem ClearOfLoader.byte_eq {x : ℕ} (h : ClearOfLoader len code x) (h_low : x < 0x100000) :
    x < 2 ^ 32 ∧ ¬ LoaderStack x ∧ m' (phys x) = (written m (phnum m) x).getD (m (phys x)) := by
  have h_code := h.1
  refine ⟨by omega, ?_, h_bytes x (by omega) (by omega)⟩
  unfold LoaderStack
  omega

include h_bytes in
theorem harmless_of_loaded (h_image : ElfImage m len code) (h_copy : Copyable m len code)
    (h_loaded : Loaded m m') : Harmless m := by
  refine ⟨?_, ?_⟩
  · intro i hi h_load x h_range h_not h_stray
    obtain ⟨h_lt, h_stack, h_eq⟩ := (h_image.clear i hi h_load x h_range).byte_eq h_bytes
      (h_copy.load i hi h_load x h_range)
    have h_zero := (h_loaded x h_lt h_stack).zero i hi h_load h_range h_not
    rcases written_cases m (phnum m) x with ⟨h_none, -⟩ | ⟨j, hj, h_copied, h_covers, h_some, -⟩
    · rw [h_eq, h_none] at h_zero
      exact h_zero
    · -- it is not a stray header, so it is the same segment
      have h_load' : (phdr m j).IsLoad := by
        by_contra h_load'
        exact h_stray j hj ⟨h_copied, h_load'⟩ h_covers
      have h_range' := h_image.inRange_of_covers hj h_load' h_covers
      rw [h_image.disjoint i hi j hj h_load h_load' x h_range h_range'] at h_not
      exact absurd h_covers h_not
  · intro i hi h_stray x h_covers h_last
    obtain ⟨h_low, h_clear, -⟩ := h_copy.stray i hi h_stray x h_covers
    obtain ⟨h_lt, h_stack, h_eq⟩ := h_clear.byte_eq h_bytes h_low
    have h_wanted := h_loaded x h_lt h_stack
    rcases written_cases m (phnum m) x with
      ⟨-, h_all⟩ | ⟨j, hj, h_copied, h_covers', h_some, h_later⟩
    · exact absurd h_covers (h_all i hi h_stray.1)
    · -- the last one that is copied there is this one
      have h_eq' : j = i := by
        rcases Nat.lt_trichotomy i j with h_lt | h_eq | h_lt
        · exact absurd h_covers' (h_last j hj h_lt h_copied)
        · exact h_eq.symm
        · exact absurd h_covers (h_later i hi h_lt h_stray.1)
      subst h_eq'
      rw [h_eq, h_some] at h_wanted
      exact h_wanted

include h_bytes in
theorem loaded_of_harmless (h_image : ElfImage m len code) (h_harmless : Harmless m) :
    Loaded m m' := by
  intro x hx h_stack
  have h_out : ¬ (0x8e4 ≤ x ∧ x < 0x8fc) := fun h => h_stack ⟨h.1, by omega⟩
  rw [h_bytes x hx h_out]
  rcases written_cases m (phnum m) x with
    ⟨h_none, h_all⟩ | ⟨i, hi, h_copied, h_covers, h_some, h_later⟩
  · -- nothing is copied there, so it stays as it was
    rw [h_none]
    refine ⟨?_, ?_, fun _ => rfl⟩
    · intro i hi h_load h_covers
      exact absurd h_covers (h_all i hi h_load.isCopied)
    · intro i hi h_load h_range h_not
      exact h_harmless.zero i hi h_load x h_range h_not fun j hj h_stray => h_all j hj h_stray.1
  · rw [h_some]
    by_cases h_load : (phdr m i).IsLoad
    · exact wanted_fileByte h_image hi h_load h_covers
    · exact h_harmless.stray i hi ⟨h_copied, h_load⟩ x h_covers fun j hj h_lt => h_later j hj h_lt

include h_bytes in
/-- **When the image is loaded.** -/
theorem loaded_iff_harmless (h_image : ElfImage m len code) (h_copy : Copyable m len code) :
    Loaded m m' ↔ Harmless m :=
  ⟨harmless_of_loaded h_bytes h_image h_copy, loaded_of_harmless h_bytes h_image⟩

end Loaded

end Loop

/-- **Kernel image loading.** `kernel_init` returns, and it has loaded the image if and only if the
bytes behind the file part of each segment were zero before and the stray headers do no
harm. -/
theorem kernel_loaded_iff {m : ByteMemory} {len code : ℕ} (h_mapped : BootMapped m)
    (h_image : ElfImage m len code) (h_copy : Copyable m len code) (ret : BitVec 32) (s : Cpu)
    (h_mem : s.mem = m) (h_esp : s.esp = 0xc00008fc#32) :
    ∃ s', (∀ rounds, phnum m ≤ rounds → Loader.kernelInit ret rounds s = some s') ∧
      s'.eip = m.word 0x8fc ∧ s'.esp = 0xc0000900#32 ∧ (Loaded m s'.mem ↔ Harmless m) := by
  obtain ⟨s', h_run, h_eip, h_esp', h_bytes⟩ := kernelInit_run ret h_mapped h_image h_copy
    h_mem h_esp
  exact ⟨s', h_run, h_eip, h_esp', loaded_iff_harmless h_bytes h_image h_copy⟩

/-! ### A small image -/

/-- Memory with an image that has a single segment: one byte of the file and one zero behind it, for
which there is `old` in memory. -/
def smallImage (old : BitVec 8) : ByteMemory :=
  let m := bootImage.store32 (phys 0x7001c) 52#32
  let m := m.store32 (phys 0x70028) 0x00200034#32
  let m := m.store32 (phys 0x7002c) 1#32
  let m := m.store32 (phys 0x70034) 1#32
  let m := m.store32 (phys 0x70038) 84#32
  let m := m.store32 (phys 0x7003c) 0xc0001500#32
  let m := m.store32 (phys 0x70044) 1#32
  let m := m.store32 (phys 0x70048) 2#32
  let m := m.store8 (phys 0x70054) 0x55#8
  m.store8 (phys 0x1501) old

/-- The processor when `kernel_init` is called. -/
def callingKernelInit (m : ByteMemory) : Cpu where
  gpr _ := 0
  esp := 0xc00008fc
  eip := 0
  eflags := 2
  cs := 8
  seg _ := 16
  mem := m

theorem bootMapped_smallImage (old : BitVec 8) : BootMapped (smallImage old) := by
  have h_boot : BootMapped bootImage := by
    rw [← setupPage_zero]
    exact bootMapped_setupPage _
  unfold smallImage
  refine BootMapped.store8 ?_ (by decide) _
  refine BootMapped.store8 ?_ (by decide) _
  refine BootMapped.store32 ?_ (by decide) _
  refine BootMapped.store32 ?_ (by decide) _
  refine BootMapped.store32 ?_ (by decide) _
  refine BootMapped.store32 ?_ (by decide) _
  refine BootMapped.store32 ?_ (by decide) _
  refine BootMapped.store32 ?_ (by decide) _
  refine BootMapped.store32 ?_ (by decide) _
  exact h_boot.store32 (by decide) _

/-- Its program header. -/
def smallHeader : Phdr where
  type := 1
  offset := 84
  vaddr := 0xc0001500
  filesz := 1
  memsz := 2

/-- What the loader reads from it. -/
theorem smallImage_phdr (clean : Bool) :
    phnum (smallImage (if clean then 0 else 1)) = 1 ∧
    phentsize (smallImage (if clean then 0 else 1)) = 32 ∧
    phoff (smallImage (if clean then 0 else 1)) = 52 ∧
    phdr (smallImage (if clean then 0 else 1)) 0 = smallHeader := by
  cases clean <;> decide +kernel

theorem smallHeader_inRange {x : ℕ} : smallHeader.InRange x ↔ 0x1500 ≤ x ∧ x < 0x1502 := Iff.rfl

theorem smallHeader_covers {x : ℕ} : smallHeader.Covers x ↔ 0x1500 ≤ x ∧ x < 0x1501 := Iff.rfl

/-- It is an image as it should be. -/
theorem elfImage_smallImage (clean : Bool) :
    ElfImage (smallImage (if clean then 0 else 1)) 88 2048 ∧
      Copyable (smallImage (if clean then 0 else 1)) 88 2048 := by
  obtain ⟨h_phnum, h_phentsize, h_phoff, h_phdr⟩ := smallImage_phdr clean
  have h_load : smallHeader.IsLoad := rfl
  have h_first {i : ℕ} (hi : i < phnum (smallImage (if clean then 0 else 1))) :
      phdr (smallImage (if clean then 0 else 1)) i = smallHeader := by
    obtain rfl : i = 0 := by omega
    exact h_phdr
  refine ⟨⟨by decide, by decide, by omega, by omega, ?_, ?_, ?_, ?_, ?_⟩, ⟨?_, ?_⟩⟩
  · rw [h_phnum, h_phentsize, h_phoff]
    decide
  · intro i hi _
    rw [h_first hi]
    decide
  · intro i hi _ x hx
    rw [h_first hi] at hx ⊢
    have h_offset : smallHeader.offset.toNat = 84 := rfl
    have h_dest : smallHeader.dest = 0x1500 := rfl
    have h_x := smallHeader_covers.mp hx
    omega
  · intro i hi _ x hx
    rw [h_first hi] at hx
    have h_x := smallHeader_inRange.mp hx
    exact ⟨by omega, by omega⟩
  · intro i hi j hj _ _ x _ _
    omega
  · intro i hi _ x hx
    rw [h_first hi] at hx
    have h_x := smallHeader_inRange.mp hx
    omega
  · intro i hi h_stray
    rw [h_first hi] at h_stray
    exact absurd h_load h_stray.2

/-- No header of it is stray. -/
theorem smallImage_stray (clean : Bool) {i : ℕ}
    (hi : i < phnum (smallImage (if clean then 0 else 1))) :
    ¬ (phdr (smallImage (if clean then 0 else 1)) i).IsStray := by
  obtain ⟨h_phnum, -, -, h_phdr⟩ := smallImage_phdr clean
  obtain rfl : i = 0 := by omega
  rw [h_phdr]
  exact fun h_stray => h_stray.2 rfl

/-- With a zero in its place, the image is loaded. -/
theorem kernel_loaded_iff_zero : ∃ s',
    Loader.kernelInit 0xc0000d00 1 (callingKernelInit (smallImage 0)) = some s' ∧
      Loaded (smallImage 0) s'.mem := by
  obtain ⟨h_image, h_copy⟩ := elfImage_smallImage true
  have h_phnum : phnum (smallImage 0) = 1 := (smallImage_phdr true).1
  have h_phdr : phdr (smallImage 0) 0 = smallHeader := (smallImage_phdr true).2.2.2
  obtain ⟨s', h_run, -, -, h_iff⟩ := kernel_loaded_iff (bootMapped_smallImage 0) h_image h_copy
    0xc0000d00 (callingKernelInit (smallImage 0)) rfl rfl
  refine ⟨s', h_run 1 h_phnum.le, h_iff.mpr ⟨?_, ?_⟩⟩
  · intro i hi _ x h_range h_not _
    obtain rfl : i = 0 := Nat.lt_one_iff.mp (hi.trans_eq h_phnum)
    rw [h_phdr, smallHeader_inRange] at h_range
    rw [h_phdr, smallHeader_covers] at h_not
    -- the segment has one byte more than the file
    obtain rfl : x = 0x1501 := by omega
    exact ByteMemory.store8_self ..
  · intro i hi h_stray
    exact absurd h_stray (smallImage_stray true hi)

/-- **The zeros are missing.** The byte behind the segment is one, as it was before. -/
theorem kernel_bss_not_cleared :
    BootMapped (smallImage 1) ∧ ElfImage (smallImage 1) 88 2048 ∧ ∃ s',
      Loader.kernelInit 0xc0000d00 1 (callingKernelInit (smallImage 1)) = some s' ∧
      ¬ Loaded (smallImage 1) s'.mem := by
  obtain ⟨h_image, h_copy⟩ := elfImage_smallImage false
  have h_phnum : phnum (smallImage 1) = 1 := (smallImage_phdr false).1
  have h_phdr : phdr (smallImage 1) 0 = smallHeader := (smallImage_phdr false).2.2.2
  obtain ⟨s', h_run, -, -, h_bytes⟩ := kernelInit_run 0xc0000d00 (bootMapped_smallImage 1)
    h_image h_copy (s := callingKernelInit (smallImage 1)) rfl rfl
  refine ⟨bootMapped_smallImage 1, h_image, s', h_run 1 h_phnum.le, fun h_loaded => ?_⟩
  have h_harmless : Harmless (smallImage 1) :=
    (loaded_iff_harmless h_bytes h_image h_copy).mp h_loaded
  have h_zero := h_harmless.zero 0 (by rw [h_phnum]; decide) (by rw [h_phdr]; rfl) 0x1501
    (by rw [h_phdr, smallHeader_inRange]; decide) (by rw [h_phdr, smallHeader_covers]; decide)
    fun j hj h_stray => absurd h_stray (smallImage_stray false hj)
  -- the byte behind the file part still has its old value
  have h_one : smallImage 1 (phys 0x1501) = 1 := ByteMemory.store8_self ..
  exact absurd (h_one.symm.trans h_zero) (by decide)

end ToiletOS
