import ToiletOS.Framework.PageTable

/-!
# The page tables of `mbr/loader.S` and the pointers into them

`setup_page` builds the page directory at `0x100000` while paging is still off: slots
0 and 768 point to the first table, which maps the lowest MiB to itself, slots 769
to 1022 to the 254 tables that follow, and slot 1023 to the directory. From then on
the kernel's half of the address space is one row of page table entries, the entry
of the address `0xc0000000 + 4096 * p` being the word at `tableAddr p`.

`Mapped` states what of this the kernel keeps for good: the directory slots from
768 up and the map of the lowest MiB. It is all that the rest of the development uses of
`setup_page`, and says where the three kinds of addresses that the allocator works
with lead to: an address of low memory (`Mapped.walk_low`), and the results of
`pde_ptr` and `pte_ptr` in `kernel/memory.c` (`Mapped.walk_pdePtr`, `Mapped.walk_ptePtr`).
-/

namespace ToiletOS

/-! ### `setup_page` -/

/-- `PAGE_DIR_TABLE_POS`. -/
def pageDirTablePos : BitVec 32 := 0x100000#32

/-- `PG_P`, in C `PG_P_1`. -/
def pgP : BitVec 32 := 1#32

/-- `PG_RW_W`. -/
def pgRwW : BitVec 32 := 2#32

/-- `PG_US_U`. -/
def pgUsU : BitVec 32 := 4#32

/-- The loop `.clear_page_dir`, with `ecx` rounds to go. -/
def clearPageDir : ℕ → BitVec 32 → ByteMemory → ByteMemory
  | 0, _, m => m
  | ecx + 1, esi, m => clearPageDir ecx (esi + 1#32) (m.store8 (pageDirTablePos + esi) 0#8)

/-- The loops `.create_pte` and `.create_kernel_pde`, with `ecx` rounds to go: the
entry in `eax` (`edx`) goes to the slot `esi` of the table at `ebx`. -/
def createEntries (ebx : BitVec 32) : ℕ → BitVec 32 → BitVec 32 → ByteMemory → ByteMemory
  | 0, _, _, m => m
  | ecx + 1, esi, eax, m =>
    createEntries ebx ecx (esi + 1#32) (eax + 0x1000#32) (m.store32 (ebx + esi * 4#32) eax)

/-- `setup_page`. -/
def setupPage (m : ByteMemory) : ByteMemory :=
  let m := clearPageDir 4096 0#32 m
  -- .create_pde
  let ebx := pageDirTablePos + 0x1000#32
  let eax := ebx ||| (pgUsU ||| pgRwW ||| pgP)
  let m := m.store32 pageDirTablePos eax
  let m := m.store32 (pageDirTablePos + 0xc00#32) eax
  let m := m.store32 (pageDirTablePos + 4092#32) (eax - 0x1000#32)
  let m := createEntries ebx 256 0#32 (pgUsU ||| pgRwW ||| pgP) m
  -- .create_kernel_pde
  let eax := (pageDirTablePos + 0x2000#32) ||| (pgUsU ||| pgRwW ||| pgP)
  createEntries pageDirTablePos 254 769#32 eax m

/-- The address of a directory slot. -/
def dirAddr (i : ℕ) : ℕ := 0x100000 + 4 * i

/-- The address of the page table entry of page `p` of the kernel's half. -/
def tableAddr (p : ℕ) : ℕ := 0x101000 + 4 * p

section Loops

variable {m : ByteMemory}

theorem clearPageDir_byte {n e x : ℕ} (he : e + n ≤ 4096) (hx : x < 2 ^ 32) :
    clearPageDir n (BitVec.ofNat 32 e) m (phys x)
      = if 0x100000 + e ≤ x ∧ x < 0x100000 + e + n then 0#8 else m (phys x) := by
  induction n generalizing e m with
  | zero => simp [clearPageDir, show ¬ (0x100000 + e ≤ x ∧ x < 0x100000 + e) by omega]
  | succ n ih =>
    have h_addr : pageDirTablePos + BitVec.ofNat 32 e = phys (0x100000 + e) := phys_add 0x100000 e
    rw [clearPageDir, h_addr, ← BitVec.ofNat_add, ih (by omega)]
    by_cases h_x : x = 0x100000 + e
    · subst h_x
      simp
    · rw [ByteMemory.byte_store8 m 0#8 hx (by omega) h_x]
      congr 1
      exact propext ⟨fun h => by omega, fun h => by omega⟩

variable {b e i n x : ℕ}

theorem entry_succ (e : ℕ) : entry e + 0x1000#32 = entry (e + 1) := by
  rw [entry, entry, show 0x1000#32 = phys 4096 from rfl, phys_add,
    show (e + 1) * 4096 + 7 = e * 4096 + 7 + 4096 by ring]

theorem createEntries_succ (b n i e : ℕ) :
    createEntries (phys b) (n + 1) (BitVec.ofNat 32 i) (entry e) m
      = createEntries (phys b) n (BitVec.ofNat 32 (i + 1)) (entry (e + 1))
          (m.store32 (phys (b + 4 * i)) (entry e)) := by
  have h_slot : phys b + BitVec.ofNat 32 i * 4#32 = phys (b + 4 * i) := by
    rw [show BitVec.ofNat 32 i * 4#32 = phys (i * 4) from (BitVec.ofNat_mul ..).symm, phys_add,
      mul_comm]
  rw [createEntries, h_slot, entry_succ, ← BitVec.ofNat_add]

/-- The loop leaves the words before and behind its slots alone. -/
theorem createEntries_word_of_disjoint (hb : b + 4 * (i + n) ≤ 2 ^ 32) (hx : x + 4 ≤ 2 ^ 32)
    (h : x + 4 ≤ b + 4 * i ∨ b + 4 * (i + n) ≤ x) :
    (createEntries (phys b) n (BitVec.ofNat 32 i) (entry e) m).word x = m.word x := by
  induction n generalizing i e m with
  | zero => rfl
  | succ n ih =>
    rw [createEntries_succ, ih (by omega) (by omega),
      m.word_store32 _ hx (by omega) (by omega)]

/-- Slot `i + j` gets the entry of frame `e + j`. -/
theorem createEntries_word {j : ℕ} (hb : b + 4 * (i + n) ≤ 2 ^ 32) (hj : j < n) :
    (createEntries (phys b) n (BitVec.ofNat 32 i) (entry e) m).word (b + 4 * (i + j))
      = entry (e + j) := by
  induction n generalizing i e j m with
  | zero => exact absurd hj (Nat.not_lt_zero j)
  | succ n ih =>
    rw [createEntries_succ]
    cases j with
    | zero =>
      rw [createEntries_word_of_disjoint (by omega) (by omega) (by omega)]
      exact m.word_store32_self _
    | succ j =>
      rw [show i + (j + 1) = i + 1 + j by ring, show e + (j + 1) = e + 1 + j by ring]
      exact ih (by omega) (by omega)

end Loops

/-- The directory after `.create_pde`. -/
def createPde (m : ByteMemory) : ByteMemory :=
  (((clearPageDir 4096 (BitVec.ofNat 32 0) m).store32 (phys (dirAddr 0)) (entry 0x101)).store32
    (phys (dirAddr 768)) (entry 0x101)).store32 (phys (dirAddr 1023)) (entry 0x100)

/-- `setup_page` with its addresses and entries as numbers. -/
theorem setupPage_eq (m : ByteMemory) :
    setupPage m = createEntries (phys 0x100000) 254 (BitVec.ofNat 32 769) (entry 0x102)
      (createEntries (phys 0x101000) 256 (BitVec.ofNat 32 0) (entry 0) (createPde m)) := by
  have h_first : pageDirTablePos + 0x1000#32 ||| (pgUsU ||| pgRwW ||| pgP) = entry 0x101 := by
    decide
  have h_self : entry 0x101 - 0x1000#32 = entry 0x100 := by decide
  have h_next : pageDirTablePos + 0x2000#32 ||| (pgUsU ||| pgRwW ||| pgP) = entry 0x102 := by
    decide
  have h_flags : pgUsU ||| pgRwW ||| pgP = entry 0 := by decide
  rw [setupPage, h_first, h_self, h_next, h_flags]
  rfl

theorem createPde_word (m : ByteMemory) {i : ℕ} (hi : i < 1024) :
    (createPde m).word (dirAddr i) =
      if i = 1023 then entry 0x100 else if i = 768 ∨ i = 0 then entry 0x101 else 0#32 := by
  have h_store (m : ByteMemory) (v : BitVec 32) {j : ℕ} (hj : j < 1024) :
      (m.store32 (phys (dirAddr j)) v).word (dirAddr i)
        = if i = j then v else m.word (dirAddr i) := by
    by_cases h : i = j
    · subst h
      rw [if_pos rfl, m.word_store32_self]
    · rw [if_neg h]
      apply m.word_store32 <;> simp only [dirAddr] <;> omega
  -- the directory is cleared before its entries are written
  have h_clear : (clearPageDir 4096 (BitVec.ofNat 32 0) m).word (dirAddr i) = 0#32 := by
    apply ByteMemory.word_eq_zero
    intro k hk
    simp only [dirAddr]
    rw [clearPageDir_byte (by omega) (by omega), if_pos (by omega)]
  rw [createPde, h_store _ _ (by omega), h_store _ _ (by omega), h_store _ _ (by omega), h_clear]
  by_cases h : i = 768 <;> simp [h]

/-- The words of the directory. -/
theorem setupPage_dir (m : ByteMemory) {i : ℕ} (hi : i < 1024) :
    (setupPage m).word (dirAddr i) =
      if i = 1023 then entry 0x100
      else if 768 ≤ i then entry (0x101 + (i - 768))
      else if i = 0 then entry 0x101 else 0#32 := by
  rw [setupPage_eq]
  -- the loop writes the slots from 769 to 1022
  by_cases h_loop : 769 ≤ i ∧ i < 1023
  · obtain ⟨j, rfl⟩ := Nat.exists_eq_add_of_le h_loop.1
    rw [dirAddr, createEntries_word (by omega) (by omega), if_neg (by omega), if_pos (by omega),
      show 0x101 + (769 + j - 768) = 0x102 + j by omega]
  · rw [createEntries_word_of_disjoint (by omega) (by simp only [dirAddr]; omega)
        (by simp only [dirAddr]; omega),
      createEntries_word_of_disjoint (by omega) (by simp only [dirAddr]; omega)
        (by simp only [dirAddr]; omega),
      createPde_word m hi]
    by_cases h : i = 768
    · simp [h]
    · have h_le : 768 ≤ i ↔ i = 1023 := by omega
      by_cases h' : i = 1023 <;> simp [h, h', h_le]

/-- The first 256 words behind the directory. -/
theorem setupPage_low (m : ByteMemory) {p : ℕ} (hp : p < 256) :
    (setupPage m).word (tableAddr p) = entry p := by
  have h_p : tableAddr p = 0x101000 + 4 * (0 + p) := by rw [Nat.zero_add]; rfl
  rw [setupPage_eq, h_p, createEntries_word_of_disjoint (by omega) (by omega) (by omega),
    createEntries_word (by omega) hp, Nat.zero_add]

/-- `setup_page` writes nothing else. -/
theorem setupPage_word (m : ByteMemory) {x : ℕ} (hx : x + 4 ≤ 2 ^ 32)
    (h : x + 4 ≤ 0x100000 ∨ 0x101400 ≤ x) : (setupPage m).word x = m.word x := by
  rw [setupPage_eq, createEntries_word_of_disjoint (by omega) hx (by omega),
    createEntries_word_of_disjoint (by omega) hx (by omega)]
  apply ByteMemory.word_congr
  intro k hk
  have h_dir (j : ℕ) : dirAddr j = 0x100000 + 4 * j := rfl
  rw [createPde,
    ByteMemory.byte_store32 _ _ (by omega) (by rw [h_dir]; omega) (by rw [h_dir]; omega),
    ByteMemory.byte_store32 _ _ (by omega) (by rw [h_dir]; omega) (by rw [h_dir]; omega),
    ByteMemory.byte_store32 _ _ (by omega) (by rw [h_dir]; omega) (by rw [h_dir]; omega),
    clearPageDir_byte (by omega) (by omega), if_neg (by omega)]

/-! ### What stays -/

/-- The part of the page tables that is never written after `setup_page`. -/
structure Mapped (m : ByteMemory) : Prop where
  self : m.word (dirAddr 1023) = entry 0x100
  directory : ∀ i, i < 255 → m.word (dirAddr (768 + i)) = entry (0x101 + i)
  low : ∀ j, j < 256 → m.word (tableAddr j) = entry j

/-- `setup_page` maps the kernel, whatever is in memory. -/
theorem mapped_setupPage (m : ByteMemory) : Mapped (setupPage m) where
  self := by rw [setupPage_dir m (by omega)]; rfl
  directory i hi := by
    rw [setupPage_dir m (by omega), if_neg (by omega), if_pos (by omega), Nat.add_sub_cancel_left]
  low j hj := setupPage_low m hj

/-- The translation by the tables at `PAGE_DIR_TABLE_POS`, to which `cr3` is set. -/
def translate (m : ByteMemory) (v : BitVec 32) : Option (BitVec 32) := walk m pageDirTablePos v

/-- `PDE_INDEX`. -/
def pdeIndex (addr : BitVec 32) : BitVec 32 := (addr &&& 0xffc00000#32) >>> 22

/-- `PTE_INDEX`. -/
def pteIndex (addr : BitVec 32) : BitVec 32 := (addr &&& 0x003ff000#32) >>> 12

/-- `pte_ptr`. -/
def ptePtr (vaddr : BitVec 32) : BitVec 32 :=
  0xffc00000#32 + ((vaddr &&& 0xffc00000#32) >>> 10) + pteIndex vaddr <<< 2

/-- `pde_ptr`. -/
def pdePtr (vaddr : BitVec 32) : BitVec 32 := 0xfffff000#32 + pdeIndex vaddr <<< 2

theorem toNat_pdePtr (v : BitVec 32) : (pdePtr v).toNat = 0xfffff000 + v.toNat / 2 ^ 22 * 4 := by
  have h_lt := v.isLt
  rw [pdePtr, pdeIndex, BitVec.toNat_add, BitVec.toNat_shiftLeft, BitVec.toNat_ushiftRight,
    toNat_and_directory, Nat.shiftRight_eq_div_pow, Nat.shiftLeft_eq, BitVec.toNat_ofNat]
  omega

theorem toNat_ptePtr (v : BitVec 32) :
    (ptePtr v).toNat = 0xffc00000 + v.toNat / 2 ^ 22 * 4096 + v.toNat / 4096 % 1024 * 4 := by
  have h_lt := v.isLt
  rw [ptePtr, pteIndex, BitVec.toNat_add, BitVec.toNat_add, BitVec.toNat_shiftLeft,
    BitVec.toNat_ushiftRight, BitVec.toNat_ushiftRight, toNat_and_directory, toNat_and_table,
    Nat.shiftRight_eq_div_pow, Nat.shiftRight_eq_div_pow, Nat.shiftLeft_eq, BitVec.toNat_ofNat]
  omega

/-- The page of the kernel's half that an address lies in. -/
def kernelPage (v : BitVec 32) : ℕ := (v.toNat - 0xc0000000) / 4096

namespace Mapped

variable {m : ByteMemory} {v : BitVec 32}

/-- Any address of the kernel's half is translated by its page table entry. -/
theorem translate_eq (h : Mapped m) (h_ge : 0xc0000000 ≤ v.toNat) (h_lt : v.toNat < 0xffc00000) :
    translate m v =
      if Present (m.word (tableAddr (kernelPage v))) then
        some (phys (frameOf (m.word (tableAddr (kernelPage v))) * 4096 + v.toNat % 4096))
      else none := by
  obtain ⟨i, h_i⟩ := Nat.exists_eq_add_of_le (show 768 ≤ v.toNat / 2 ^ 22 by omega)
  have h_dir : m.word (0x100 * 4096 + 4 * (v.toNat / 2 ^ 22)) = entry (0x101 + i) := by
    rw [h_i]
    exact h.directory i (by omega)
  have h_slot : (0x101 + i) * 4096 + 4 * (v.toNat / 4096 % 1024) = tableAddr (kernelPage v) := by
    simp only [tableAddr, kernelPage]
    omega
  rw [← h_slot]
  exact walk_eq (D := 0x100) (by omega) (by omega) h_dir

/-- Low memory lies at the start of the kernel's half. -/
theorem translate_low (h : Mapped m) {n : ℕ} (hn : n < 0x100000) :
    translate m (phys (0xc0000000 + n)) = some (phys n) := by
  have h_nat : (phys (0xc0000000 + n)).toNat = 0xc0000000 + n := toNat_phys (by omega)
  have h_entry : m.word (tableAddr (kernelPage (phys (0xc0000000 + n)))) = entry (n / 4096) := by
    rw [kernelPage, h_nat, Nat.add_sub_cancel_left]
    exact h.low _ (by omega)
  rw [h.translate_eq (by omega) (by omega), h_entry, if_pos present_entry,
    frameOf_entry (by omega), h_nat, show n / 4096 * 4096 + (0xc0000000 + n) % 4096 = n by omega]

/-- `pde_ptr` points to the directory slot of an address. -/
theorem translate_pdePtr (h : Mapped m) (v : BitVec 32) :
    translate m (pdePtr v) = some (phys (dirAddr (v.toNat / 2 ^ 22))) :=
  walk_self_directory (D := 0x100) (by omega) (by omega) h.self (toNat_pdePtr v)

/-- `pte_ptr` points to the page table entry of an address. -/
theorem translate_ptePtr (h : Mapped m) (h_ge : 0xc0000000 ≤ v.toNat)
    (h_lt : v.toNat < 0xffc00000) :
    translate m (ptePtr v) = some (phys (tableAddr (kernelPage v))) := by
  obtain ⟨i, h_i⟩ := Nat.exists_eq_add_of_le (show 768 ≤ v.toNat / 2 ^ 22 by omega)
  have h_slot : tableAddr (kernelPage v) = (0x101 + i) * 4096 + 4 * (v.toNat / 4096 % 1024) := by
    simp only [tableAddr, kernelPage]
    omega
  have h_dir : m.word (0x100 * 4096 + 4 * (768 + i)) = entry (0x101 + i) :=
    h.directory i (by omega)
  rw [h_slot]
  refine walk_self_table (D := 0x100) (by omega) (by omega) (by omega) (by omega) h.self h_dir ?_
  rw [toNat_ptePtr, h_i]

/-- A store that does not reach what stays. -/
theorem congr (h : Mapped m) {m' : ByteMemory}
    (h_dir : ∀ i < 1024, m'.word (dirAddr i) = m.word (dirAddr i))
    (h_low : ∀ j < 256, m'.word (tableAddr j) = m.word (tableAddr j)) : Mapped m' where
  self := (h_dir _ (by omega)).trans h.self
  directory i hi := (h_dir _ (by omega)).trans (h.directory i hi)
  low j hj := (h_low j hj).trans (h.low j hj)

/-- A store into low memory does not reach the page tables. -/
theorem word_store8 (m : ByteMemory) {n p : ℕ} (hn : n < 0x100000) (hp : p < 255 * 1024)
    (b : BitVec 8) : (m.store8 (phys n) b).word (tableAddr p) = m.word (tableAddr p) := by
  have h_p : tableAddr p = 0x101000 + 4 * p := rfl
  exact m.word_store8 b (by omega) (by omega) (by omega)

theorem store8 (h : Mapped m) {n : ℕ} (hn : n < 0x100000) (b : BitVec 8) :
    Mapped (m.store8 (phys n) b) := by
  refine h.congr (fun i hi => ?_) fun j hj => word_store8 m hn (by omega) b
  have h_i : dirAddr i = 0x100000 + 4 * i := rfl
  exact m.word_store8 b (by omega) (by omega) (by omega)

/-- Nor does a store to the entry of another page. -/
theorem word_store32 (m : ByteMemory) {p q : ℕ} (hp : p < 255 * 1024) (hq : q < 255 * 1024)
    (w : BitVec 32) :
    (m.store32 (phys (tableAddr q)) w).word (tableAddr p)
      = if p = q then w else m.word (tableAddr p) := by
  by_cases h : p = q
  · subst h
    rw [if_pos rfl, m.word_store32_self]
  · have h_p : tableAddr p = 0x101000 + 4 * p := rfl
    have h_q : tableAddr q = 0x101000 + 4 * q := rfl
    rw [if_neg h]
    exact m.word_store32 w (by omega) (by omega) (by omega)

theorem store32 (h : Mapped m) {p : ℕ} (hp : 256 ≤ p) (hp' : p < 255 * 1024) (w : BitVec 32) :
    Mapped (m.store32 (phys (tableAddr p)) w) := by
  refine h.congr (fun i hi => ?_) fun j hj => ?_
  · have h_i : dirAddr i = 0x100000 + 4 * i := rfl
    have h_p : tableAddr p = 0x101000 + 4 * p := rfl
    exact m.word_store32 w (by omega) (by omega) (by omega)
  · rw [word_store32 m (by omega) hp' w, if_neg (by omega)]

end Mapped
end ToiletOS
