import ToiletOS.Mem.Kern

/-!
# A directory that shows itself

The walk of an address through any page tables, with the two entries it comes by (`entries`), and
the directories whose last slot, and no other, points to the directory (`SelfMapped`). In
these the results of `pde_ptr` and `pte_ptr` lead to the entries of an address, whatever else the
tables hold (`SelfMapped.translate_pdePtr`, `SelfMapped.translate_ptePtr`).

Nothing here depends on what `setup_page` has built. `SelfMapped` asks for no table, while
`Mapped` is about those of the kernel's half.
-/

namespace ToiletOS

/-! ### The entries of an address -/

/-- The directory entry of an address. -/
def pdeOf (m : ByteMemory) (v : BitVec 32) : BitVec 32 := m.word (dirAddr (v.toNat / 2 ^ 22))

/-- Where the page table entry of an address is, if it has a page table. -/
def pteAddr (m : ByteMemory) (v : BitVec 32) : Option ℕ :=
  if Present (pdeOf m v) then some (frameOf (pdeOf m v) * 4096 + 4 * (v.toNat / 4096 % 1024))
  else none

/-- The two entries on the way to an address, if both are present. -/
def entries (m : ByteMemory) (v : BitVec 32) : Option (BitVec 32 × BitVec 32) :=
  (pteAddr m v).bind fun a => if Present (m.word a) then some (pdeOf m v, m.word a) else none

theorem dirAddr_word {i : ℕ} (hi : i < 1024) :
    dirAddr i % 4 = 0 ∧ dirAddr i < 2 ^ 32 ∧ dirAddr i / 4096 = 0x100 := by
  simp only [dirAddr]
  refine ⟨?_, ?_, ?_⟩ <;> omega

/-- Words do not overlap. -/
theorem ByteMemory.word_store32_of_ne (m : ByteMemory) {a b : ℕ} (e : BitVec 32)
    (ha : a % 4 = 0 ∧ a < 2 ^ 32) (hb : b % 4 = 0 ∧ b < 2 ^ 32) (h : b ≠ a) :
    (m.store32 (phys a) e).word b = m.word b :=
  m.word_store32 e (by omega) (by omega) (by omega)

section Entries

variable {m : ByteMemory} {v w : BitVec 32}

theorem pteAddr_of_present (h : Present (pdeOf m v)) :
    pteAddr m v = some (frameOf (pdeOf m v) * 4096 + 4 * (v.toNat / 4096 % 1024)) := by
  rw [pteAddr, if_pos h]

theorem pteAddr_of_absent (h : ¬ Present (pdeOf m v)) : pteAddr m v = none := by
  rw [pteAddr, if_neg h]

theorem frameOf_lt (e : BitVec 32) : frameOf e < 2 ^ 20 := by
  have h_lt := e.isLt
  rw [frameOf]
  omega

/-- The table is a frame, and the entry one of its words. -/
theorem pteAddr_eq {a : ℕ} (h : pteAddr m v = some a) :
    Present (pdeOf m v) ∧ a = frameOf (pdeOf m v) * 4096 + 4 * (v.toNat / 4096 % 1024) := by
  have h_present : Present (pdeOf m v) := by
    by_contra h_absent
    rw [pteAddr_of_absent h_absent] at h
    cases h
  rw [pteAddr_of_present h_present] at h
  exact ⟨h_present, (Option.some.inj h).symm⟩

theorem pteAddr_word {a : ℕ} (h : pteAddr m v = some a) :
    a % 4 = 0 ∧ a < 2 ^ 32 ∧ a / 4096 = frameOf (pdeOf m v) := by
  have h_lt := frameOf_lt (pdeOf m v)
  obtain ⟨-, rfl⟩ := pteAddr_eq h
  refine ⟨?_, ?_, ?_⟩ <;> omega

theorem entries_of_pteAddr_none (h : pteAddr m v = none) : entries m v = none := by
  rw [entries, h]
  rfl

theorem entries_of_absent (h : ¬ Present (pdeOf m v)) : entries m v = none :=
  entries_of_pteAddr_none (pteAddr_of_absent h)

theorem entries_of_pteAddr {a : ℕ} (h : pteAddr m v = some a) :
    entries m v = if Present (m.word a) then some (pdeOf m v, m.word a) else none := by
  rw [entries, h]
  rfl

/-- A walk is kept if the two words it reads are. -/
theorem entries_congr {m' : ByteMemory} (h_pde : pdeOf m' v = pdeOf m v)
    (h_word : ∀ a, pteAddr m v = some a → m'.word a = m.word a) : entries m' v = entries m v := by
  have h_pte : pteAddr m' v = pteAddr m v := by rw [pteAddr, pteAddr, h_pde]
  cases h_v : pteAddr m v with
  | none => rw [entries_of_pteAddr_none (h_pte.trans h_v), entries_of_pteAddr_none h_v]
  | some a =>
    rw [entries_of_pteAddr (h_pte.trans h_v), entries_of_pteAddr h_v, h_word a h_v, h_pde]

/-- **The translation** is the frame of the second entry, with the offset of the address. -/
theorem translate_eq_entries (m : ByteMemory) (v : BitVec 32) :
    translate m v = (entries m v).map fun e => phys (frameOf e.2 * 4096 + v.toNat % 4096) := by
  have h_pde : m.load32 (pageDirTablePos + (v >>> 22) <<< 2) = pdeOf m v := by
    rw [show pageDirTablePos = phys (0x100 * 4096) from rfl, directory_slot (by omega)]
    rfl
  unfold translate walk
  rw [h_pde]
  dsimp only
  rw [table_slot]
  by_cases h_present : Present (pdeOf m v)
  · -- the directory has the slot: the entry of the table decides
    rw [entries_of_pteAddr (pteAddr_of_present h_present)]
    simp only [if_pos h_present, page_address]
    change (if Present (m.word _) then some _ else none) = _
    split <;> rfl
  · rw [entries_of_absent h_present]
    exact if_neg h_present

theorem translate_eq_none_iff : translate m v = none ↔ entries m v = none := by
  rw [translate_eq_entries, Option.map_eq_none_iff]

/-- The walk is that of the page. -/
theorem entries_of_page (h : v.toNat / 4096 = w.toNat / 4096) : entries m v = entries m w := by
  have h_pde : pdeOf m v = pdeOf m w := by
    rw [pdeOf, pdeOf, show v.toNat / 2 ^ 22 = w.toNat / 2 ^ 22 by omega]
  have h_pte : pteAddr m v = pteAddr m w := by rw [pteAddr, pteAddr, h_pde, h]
  rw [entries, entries, h_pte, h_pde]

/-- Two addresses of a page that is mapped lead into one frame. -/
theorem translate_of_page {x : BitVec 32} (h : v.toNat / 4096 = w.toNat / 4096)
    (hw : translate m w = some x) :
    translate m v = some (phys (x.toNat / 4096 * 4096 + v.toNat % 4096)) := by
  rw [translate_eq_entries, Option.map_eq_some_iff] at hw
  obtain ⟨e, h_e, rfl⟩ := hw
  have h_frame := frameOf_lt e.2
  have h_x : (phys (frameOf e.2 * 4096 + w.toNat % 4096)).toNat / 4096 = frameOf e.2 := by
    rw [toNat_phys (by omega)]
    omega
  rw [translate_eq_entries, entries_of_page h, h_e, h_x]
  rfl

end Entries

/-! ### The last slot -/

/-- The last slot of the directory points to the directory, and no other slot does. -/
structure SelfMapped (m : ByteMemory) : Prop where
  present : Present (m.word (dirAddr 1023))
  frame : frameOf (m.word (dirAddr 1023)) = 0x100
  only : ∀ i < 1023, Present (m.word (dirAddr i)) → frameOf (m.word (dirAddr i)) ≠ 0x100

/-- The frame is that of the directory or of a page table. -/
def PagingFrame (m : ByteMemory) (f : ℕ) : Prop :=
  f = 0x100 ∨ ∃ i < 1023, Present (m.word (dirAddr i)) ∧ frameOf (m.word (dirAddr i)) = f

namespace SelfMapped

variable {m m' : ByteMemory} {v x : BitVec 32}

/-- Only the words of the directory matter. -/
theorem congr (h : SelfMapped m) (h_dir : ∀ i < 1024, m'.word (dirAddr i) = m.word (dirAddr i)) :
    SelfMapped m' where
  present := by rw [h_dir _ (by omega)]; exact h.present
  frame := by rw [h_dir _ (by omega)]; exact h.frame
  only i hi := by rw [h_dir i (by omega)]; exact h.only i hi

/-- A table is seen as a page. -/
theorem translate_table (h : SelfMapped m) {i k : ℕ} (hi : i < 1024) (hk : k < 4096)
    (h_present : Present (m.word (dirAddr i))) (hx : x.toNat = 0xffc00000 + i * 4096 + k) :
    translate m x = some (phys (frameOf (m.word (dirAddr i)) * 4096 + k)) := by
  have h_pde : pdeOf m x = m.word (dirAddr 1023) := by
    rw [pdeOf, show x.toNat / 2 ^ 22 = 1023 by omega]
  have h_slot : pteAddr m x = some (dirAddr i) := by
    rw [pteAddr_of_present (h_pde ▸ h.present), h_pde, h.frame,
      show x.toNat / 4096 % 1024 = i by omega]
    rfl
  rw [translate_eq_entries, entries_of_pteAddr h_slot, if_pos h_present,
    show x.toNat % 4096 = k by omega]
  rfl

/-- `pde_ptr` leads to the directory entry of an address. -/
theorem translate_pdePtr (h : SelfMapped m) (v : BitVec 32) :
    translate m (pdePtr v) = some (phys (dirAddr (v.toNat / 2 ^ 22))) := by
  have h_lt := v.isLt
  have h_table := h.translate_table (x := pdePtr v) (i := 1023) (k := v.toNat / 2 ^ 22 * 4)
    (by omega) (by omega) h.present (by rw [toNat_pdePtr])
  rw [h_table, h.frame, dirAddr, Nat.mul_comm _ 4]

/-- `pte_ptr` leads to the page table entry of an address. -/
theorem translate_ptePtr (h : SelfMapped m) {a : ℕ} (ha : pteAddr m v = some a) :
    translate m (ptePtr v) = some (phys a) := by
  have h_lt := v.isLt
  obtain ⟨h_present, h_a⟩ := pteAddr_eq ha
  have h_table := h.translate_table (x := ptePtr v) (k := v.toNat / 4096 % 1024 * 4) (by omega)
    (by omega) h_present (toNat_ptePtr v)
  rw [h_table, h_a, pdeOf, Nat.mul_comm 4]

/-- A page table is not the directory. -/
theorem frame_ne (h : SelfMapped m) (h_slot : v.toNat / 2 ^ 22 ≠ 1023)
    (h_present : Present (pdeOf m v)) :
    frameOf (pdeOf m v) ≠ 0x100 := by
  have h_lt := v.isLt
  exact h.only _ (by omega) h_present

/-- A store that does not reach the directory. -/
theorem store8 (h : SelfMapped m) {n : ℕ} (hn : n < 2 ^ 32) (h_ne : n / 4096 ≠ 0x100)
    (b : BitVec 8) :
    SelfMapped (m.store8 (phys n) b) := by
  refine h.congr fun i hi => ?_
  have h_i : dirAddr i = 0x100000 + 4 * i := rfl
  exact m.word_store8 b (by omega) (by omega) (by omega)

/-- A slot of its own leads to a frame that is not the directory. -/
theorem store_pde (h : SelfMapped m) {i f : ℕ} (hi : i < 1023) (hf : f < 2 ^ 20)
    (h_ne : f ≠ 0x100) :
    SelfMapped (m.store32 (phys (dirAddr i)) (entry f)) := by
  have h_word {j : ℕ} (hj : j < 1024) : (m.store32 (phys (dirAddr i)) (entry f)).word (dirAddr j)
      = if j = i then entry f else m.word (dirAddr j) := by
    split
    · next h_eq =>
      rw [h_eq]
      exact m.word_store32_self _
    · next h_j =>
      have h_addr (n : ℕ) : dirAddr n = 0x100000 + 4 * n := rfl
      have h_addr_i := h_addr i
      have h_addr_j := h_addr j
      exact m.word_store32 _ (by omega) (by omega) (by omega)
  refine ⟨?_, ?_, fun j hj => ?_⟩
  · rw [h_word (by omega), if_neg (by omega)]
    exact h.present
  · rw [h_word (by omega), if_neg (by omega)]
    exact h.frame
  · rw [h_word (by omega)]
    split
    · intro _
      rw [frameOf_entry hf]
      exact h_ne
    · exact h.only j hj

/-- The loop of `memset` over a page table, through the last slot. The entry that shows the table
is in the directory, which the loop does not reach. -/
theorem memsetLoop_run (h : SelfMapped m) {i f k len : ℕ} (hi : i < 1023) (hf : f < 2 ^ 20)
    (h_dir : m.word (dirAddr i) = entry f) (h_len : k + len ≤ 4096) :
    ∃ m', (Kern.memsetLoop 0#8 len (phys (0xffc00000 + i * 4096 + k))).run kernelSem m
        = .ok ((), m') ∧
      ∀ x < 2 ^ 32, m' (phys x)
        = if f * 4096 + k ≤ x ∧ x < f * 4096 + k + len then 0#8 else m (phys x) := by
  induction len generalizing m k with
  | zero =>
    refine ⟨m, rfl, fun x _ => ?_⟩
    rw [if_neg (by omega)]
  | succ len ih =>
    have h_present : Present (m.word (dirAddr i)) := h_dir ▸ present_entry
    -- the table is not the directory itself
    have h_ne : f ≠ 0x100 := by
      have h_only := h.only i hi h_present
      rwa [h_dir, frameOf_entry hf] at h_only
    have h_map := h.translate_table (x := phys (0xffc00000 + i * 4096 + k)) (k := k) (by omega)
      (by omega) h_present (toNat_phys (by omega))
    rw [h_dir, frameOf_entry hf] at h_map
    have h_store := run_store8 h_map 0#8
    -- so the entry of the directory is not overwritten
    have h_same : (m.store8 (phys (f * 4096 + k)) 0#8).word (dirAddr i) = entry f := by
      have h_i : dirAddr i = 0x100000 + 4 * i := rfl
      rw [m.word_store8 _ (by omega) (by omega) (by omega), h_dir]
    obtain ⟨m', h_run, h_bytes⟩ := ih (h.store8 (n := f * 4096 + k) (by omega) (by omega) 0#8)
      h_same (k := k + 1) (by omega)
    refine ⟨m', ?_, fun x hx => ?_⟩
    · rw [Kern.memsetLoop, Prog.run_bind_of_ok kernelSem h_store,
        show phys (0xffc00000 + i * 4096 + k) + 1#32 = phys (0xffc00000 + i * 4096 + (k + 1)) from
          phys_add _ 1]
      exact h_run
    · rw [h_bytes x hx]
      by_cases h_x : x = f * 4096 + k
      · subst h_x
        simp
      · rw [m.byte_store8 _ hx (by omega) h_x]
        congr 1
        exact propext ⟨fun h => by omega, fun h => by omega⟩

end SelfMapped
end ToiletOS
