import ToiletOS.Mem.Boot
import ToiletOS.Mem.SeenMemory

/-!
# `page_table_add` adds one mapping

`page_table_add` works on the tables through the addresses that the tables themselves give
(`SelfMapped`). It writes the page table entry of the page; where there is no table, it makes one
from a frame of `kernel_pool`, and then the entry that shows the new table is written just before
the table is cleared through it.

The memory after it is said word by word: `pageTableAdd_run_present` for a page that has a table,
and `newTable_run` for the second half of the other branch. What follows for the walks of all pages
(`MapsOnly`) only compares words.

The bitmap of `kernel_pool` is memory that the tables map, too. If they map it to one of the paging
structures, then taking a frame sets a bit in an entry (`page_table_add_maps_other`), so this has
to be excluded where a frame is taken.
-/

namespace ToiletOS

variable {m m' : ByteMemory} {v p : BitVec 32} {allMemory : BitVec 32}

/-! ### What is asked for -/

/-- The number of the frame that `palloc` makes of bit `i`. -/
def Pool.frame (pool : Pool) (i : ℕ) : ℕ := (phys i * pageSize + pool.phyAddrStart).toNat / 4096

/-- The directory shows itself, `kernel_pool` has a clear bit, and the frames of its clear bits are
not used for paging. -/
structure ReadyToMap (pool : Pool) (m : ByteMemory) : Prop extends SelfMapped m where
  clear : ∃ i < pool.poolBitmap.size, pool.poolBitmap.Clear (seen m) i
  unused : ∀ i < pool.poolBitmap.size, pool.poolBitmap.Clear (seen m) i →
    ¬ PagingFrame m (pool.frame i)

/-- No byte of the bitmap lies in the directory or in a page table. -/
def BitmapApart (pool : Pool) (m : ByteMemory) : Prop :=
  ∀ a x, pool.poolBitmap.Inside a → translate m a = some x → ¬ PagingFrame m (x.toNat / 4096)

/-- The entry of a frame with the bits "present", "writable" and "user". -/
def pteFor (p : BitVec 32) : BitVec 32 := p ||| pgUsU ||| pgRwW ||| pgP

/-- From `m` to `m'`, the page of `v` gets the frame `p`, and no other page is touched, unless it
shares its page table entry with that of `v`. The table of `v` is the one it had, or else a frame
whose bit was clear. -/
structure MapsOnly (pool : Pool) (m : ByteMemory) (v p : BitVec 32) (m' : ByteMemory) : Prop where
  walk : entries m' v = some (pdeOf m' v, pteFor p)
  page : ∀ w, w.toNat / 4096 = v.toNat / 4096 →
    translate m' w = some (p + phys (w.toNat % 4096))
  old_table : Present (pdeOf m v) → pdeOf m' v = pdeOf m v
  new_table : ¬ Present (pdeOf m v) → ∃ i < pool.poolBitmap.size,
    pool.poolBitmap.Clear (seen m) i ∧ pdeOf m' v = entry (pool.frame i)
  others : ∀ w, w.toNat < 0xffc00000 → w.toNat / 4096 ≠ v.toNat / 4096 →
    (∀ a, pteAddr m w = some a → pteAddr m v ≠ some a) → entries m' w = entries m w

/-- An entry for an aligned frame. -/
theorem pteFor_eq (h : p.toNat % 4096 = 0) : pteFor p = entry (p.toNat / 4096) := by
  have h_lt := p.isLt
  have h_p : p = phys (p.toNat / 4096 * 4096) := eq_phys (by omega)
  calc pteFor p
      = phys (p.toNat / 4096 * 4096) ||| 4#32 ||| 2#32 ||| 1#32 := by rw [← h_p]; rfl
    _ = entry (p.toNat / 4096) := or_flags (by omega)

/-- The walk says where the page is. -/
theorem translate_of_walk {e : BitVec 32} (h : entries m v = some (e, pteFor p))
    (h_p : p.toNat % 4096 = 0) (w : BitVec 32) (hw : w.toNat / 4096 = v.toNat / 4096) :
    translate m w = some (p + phys (w.toNat % 4096)) := by
  have h_lt := p.isLt
  have h_base : phys (p.toNat / 4096 * 4096) = p := (eq_phys (by omega)).symm
  rw [translate_eq_entries, entries_of_page hw, h, Option.map_some, pteFor_eq h_p,
    frameOf_entry (by omega), ← phys_add, h_base]

/-! ### A page that has a table -/

/-- The entry is written, and nothing else. -/
theorem pageTableAdd_run_present (pools : MemPools) (h : SelfMapped m)
    (h_present : Present (pdeOf m v)) {a : ℕ} (ha : pteAddr m v = some a)
    (h_absent : ¬ Present (m.word a)) :
    (pageTableAdd pools v p).run kernelSem m = .ok ((), m.store32 (phys a) (pteFor p)) := by
  unfold pageTableAdd
  dsimp only
  rw [run_load32 (h.translate_pdePtr v)]
  change (if Present (pdeOf m v) then _ else _ : Kern Unit).run kernelSem m = _
  rw [if_pos h_present, run_load32 (h.translate_ptePtr ha)]
  change (if ¬ Present (m.word a) then _ else _ : Kern Unit).run kernelSem m = _
  rw [if_pos h_absent]
  exact run_store32 (h.translate_ptePtr ha) _

/-- The page table of `v` is not the directory, so an entry written to it leaves the directory as it
was. -/
theorem SelfMapped.pdeOf_store_pte (h : SelfMapped m) (h_slot : v.toNat / 2 ^ 22 ≠ 1023)
    (h_present : Present (pdeOf m v)) {a : ℕ} (ha : pteAddr m v = some a) (x w : BitVec 32) :
    pdeOf (m.store32 (phys a) x) w = pdeOf m w := by
  have h_v := v.isLt
  have h_w := w.isLt
  have h_frame := h.frame_ne h_slot h_present
  obtain ⟨h_a_mod, h_a_lt, h_a_frame⟩ := pteAddr_word ha
  obtain ⟨h_mod, h_lt, h_dir⟩ := dirAddr_word (i := w.toNat / 2 ^ 22) (by omega)
  apply m.word_store32_of_ne x ⟨h_a_mod, h_a_lt⟩ ⟨h_mod, h_lt⟩
  intro h_eq
  apply h_frame
  rw [← h_a_frame, ← h_eq, h_dir]

/-- The walks that do not use the entry that is written. -/
theorem SelfMapped.entries_store_pte (h : SelfMapped m) (h_slot : v.toNat / 2 ^ 22 ≠ 1023)
    (h_present : Present (pdeOf m v)) {a : ℕ} (ha : pteAddr m v = some a) (x : BitVec 32)
    {w : BitVec 32} (h_apart : pteAddr m w ≠ some a) :
    entries (m.store32 (phys a) x) w = entries m w := by
  refine entries_congr (h.pdeOf_store_pte h_slot h_present ha x w) fun b h_w => ?_
  obtain ⟨h_a_mod, h_a_lt, -⟩ := pteAddr_word ha
  obtain ⟨h_b_mod, h_b_lt, -⟩ := pteAddr_word h_w
  apply m.word_store32_of_ne x ⟨h_a_mod, h_a_lt⟩ ⟨h_b_mod, h_b_lt⟩
  rintro rfl
  exact h_apart h_w

/-- The walk that uses the entry. -/
theorem SelfMapped.entries_store_pteFor (h : SelfMapped m) (h_slot : v.toNat / 2 ^ 22 ≠ 1023)
    (h_present : Present (pdeOf m v)) {a : ℕ} (ha : pteAddr m v = some a)
    (h_p : p.toNat % 4096 = 0) :
    entries (m.store32 (phys a) (pteFor p)) v = some (pdeOf m v, pteFor p) := by
  have h_pde := h.pdeOf_store_pte h_slot h_present ha (pteFor p) v
  have h_pte : pteAddr (m.store32 (phys a) (pteFor p)) v = some a := by
    rw [pteAddr, h_pde]
    exact ha
  rw [entries_of_pteAddr h_pte, m.word_store32_self, h_pde, pteFor_eq h_p, if_pos present_entry]

/-- **The first branch.** -/
theorem pageTableAdd_present (pools : MemPools) (h : SelfMapped m)
    (h_slot : v.toNat / 2 ^ 22 ≠ 1023) (h_none : translate m v = none)
    (h_p : p.toNat % 4096 = 0) (h_present : Present (pdeOf m v)) :
    ∃ m', (pageTableAdd pools v p).run kernelSem m = .ok ((), m') ∧
      MapsOnly pools.kernelPool m v p m' := by
  obtain ⟨a, h_a⟩ : ∃ a, pteAddr m v = some a := ⟨_, pteAddr_of_present h_present⟩
  -- the page was not mapped, so its entry is not present
  have h_absent : ¬ Present (m.word a) := by
    intro h_pte
    rw [translate_eq_none_iff, entries_of_pteAddr h_a, if_pos h_pte] at h_none
    cases h_none
  have h_pde := h.pdeOf_store_pte h_slot h_present h_a (pteFor p) v
  have h_walk := h.entries_store_pteFor h_slot h_present h_a h_p
  refine ⟨_, pageTableAdd_run_present pools h h_present h_a h_absent, ?_⟩
  constructor
  case walk => rw [h_walk, h_pde]
  case page => exact translate_of_walk h_walk h_p
  case old_table => exact fun _ => h_pde
  case new_table => exact fun h_not => absurd h_present h_not
  case others =>
    intro w _ _ h_apart
    apply h.entries_store_pte h_slot h_present h_a
    intro h_w
    exact h_apart a h_w h_a

/-! ### A new table -/

/-- A word of memory with a new table for `v` in frame `f`. -/
def newTableWord (m : ByteMemory) (v p : BitVec 32) (f n : ℕ) : BitVec 32 :=
  if n = dirAddr (v.toNat / 2 ^ 22) then entry f
  else if n = f * 4096 + 4 * (v.toNat / 4096 % 1024) then pteFor p
  else if n / 4096 = f then 0#32
  else m.word n

/-- **The new table.** As soon as the directory entry is written, `pte_ptr` leads into the
frame, which is then cleared and gets its first entry. -/
theorem newTable_run (h : SelfMapped m) (h_slot : v.toNat / 2 ^ 22 < 1023) {f : ℕ} (hf : f < 2 ^ 20)
    (h_ne : f ≠ 0x100) (p : BitVec 32) :
    ∃ m', (do
        Kern.store32 (pdePtr v) (entry f)
        Kern.memset (ptePtr v &&& 0xfffff000#32) 0#8 pageSize
        Kern.store32 (ptePtr v) (pteFor p) : Kern Unit).run kernelSem m = .ok ((), m') ∧
      ∀ n, n % 4 = 0 → n < 2 ^ 32 → m'.word n = newTableWord m v p f n := by
  obtain ⟨h_dir_mod, h_dir_lt, h_dir_frame⟩ := dirAddr_word (i := v.toNat / 2 ^ 22) (by omega)
  have h_index : v.toNat / 4096 % 1024 < 1024 := Nat.mod_lt _ (by decide)
  -- the directory entry
  have h_pde := run_store32 (h.translate_pdePtr v) (entry f)
  have h₁ := h.store_pde h_slot hf h_ne
  have h_entry : (m.store32 (phys (dirAddr (v.toNat / 2 ^ 22))) (entry f)).word
      (dirAddr (v.toNat / 2 ^ 22)) = entry f := m.word_store32_self _
  -- the table is cleared through the entry
  obtain ⟨m₂, h_clear, h_bytes⟩ :=
    h₁.memsetLoop_run (k := 0) h_slot hf h_entry (show 0 + 4096 ≤ 4096 by decide)
  have h_start : ptePtr v &&& 0xfffff000#32 = phys (0xffc00000 + v.toNat / 2 ^ 22 * 4096 + 0) := by
    apply eq_phys
    rw [toNat_and_frame, toNat_ptePtr]
    omega
  have h_memset : (Kern.memset (ptePtr v &&& 0xfffff000#32) 0#8 pageSize).run kernelSem
      (m.store32 (phys (dirAddr (v.toNat / 2 ^ 22))) (entry f)) = .ok ((), m₂) := by
    have h_not_null : phys (0xffc00000 + v.toNat / 2 ^ 22 * 4096 + 0) ≠ 0#32 := by
      intro h_zero
      have h_nat := congrArg BitVec.toNat h_zero
      rw [toNat_phys (by omega)] at h_nat
      simp at h_nat
    rw [Kern.memset, h_start, run_assert h_not_null]
    exact h_clear
  have h_word₂ (n : ℕ) (h_mod : n % 4 = 0) (h_lt : n < 2 ^ 32) : m₂.word n
      = if n / 4096 = f then 0#32
        else (m.store32 (phys (dirAddr (v.toNat / 2 ^ 22))) (entry f)).word n := by
    split
    · next h_in =>
      refine ByteMemory.word_eq_zero _ fun k hk => ?_
      rw [h_bytes _ (by omega), if_pos (by omega)]
    · next h_out =>
      refine ByteMemory.word_congr _ fun k hk => ?_
      rw [h_bytes _ (by omega), if_neg (by omega)]
  -- and shows the entry of the page
  have h_dir₂ (i : ℕ) (hi : i < 1024) : m₂.word (dirAddr i)
      = (m.store32 (phys (dirAddr (v.toNat / 2 ^ 22))) (entry f)).word (dirAddr i) := by
    obtain ⟨h_mod, h_lt, h_frame⟩ := dirAddr_word hi
    rw [h_word₂ _ h_mod h_lt, if_neg (by rw [h_frame]; exact h_ne.symm)]
  have h₂ := h₁.congr h_dir₂
  have h_pte : pteAddr m₂ v = some (f * 4096 + 4 * (v.toNat / 4096 % 1024)) := by
    have h_pde₂ : pdeOf m₂ v = entry f := (h_dir₂ _ (by omega)).trans h_entry
    rw [pteAddr_of_present (h_pde₂ ▸ present_entry), h_pde₂, frameOf_entry hf]
  refine ⟨m₂.store32 (phys (f * 4096 + 4 * (v.toNat / 4096 % 1024))) (pteFor p), ?_,
    fun n h_mod h_lt => ?_⟩
  · rw [Prog.run_bind_of_ok kernelSem h_pde, Prog.run_bind_of_ok kernelSem h_memset]
    exact run_store32 (h₂.translate_ptePtr h_pte) _
  · rw [newTableWord]
    by_cases h_n : n = f * 4096 + 4 * (v.toNat / 4096 % 1024)
    · have h_frame : n / 4096 = f := by omega
      have h_ne_dir : n ≠ dirAddr (v.toNat / 2 ^ 22) := fun h_eq =>
        h_ne (by rw [← h_frame, h_eq, h_dir_frame])
      rw [if_neg h_ne_dir, if_pos h_n, h_n, m₂.word_store32_self]
    · rw [m₂.word_store32_of_ne _ ⟨by omega, by omega⟩ ⟨h_mod, h_lt⟩ h_n, h_word₂ n h_mod h_lt,
        if_neg h_n]
      by_cases h_dir : n = dirAddr (v.toNat / 2 ^ 22)
      · have h_out : n / 4096 ≠ f := fun h_eq => h_ne (by rw [← h_eq, h_dir, h_dir_frame])
        rw [if_pos h_dir, if_neg h_out, h_dir, m.word_store32_self]
      · rw [if_neg h_dir, m.word_store32_of_ne _ ⟨h_dir_mod, h_dir_lt⟩ ⟨h_mod, h_lt⟩ h_dir]

/-! ### The frame of the table -/

/-- `palloc` takes the first clear bit, wherever the bitmap is mapped to. -/
theorem palloc_seen_run {pool : Pool} {b : ℕ} {x : BitVec 32}
    (h : pool.poolBitmap.FirstClear (seen m) b) (h_size : pool.poolBitmap.size < 2 ^ 31)
    (h_mapped : ∀ a, pool.poolBitmap.Inside a → ∃ x, translate m a = some x)
    (h_byte : translate m (pool.poolBitmap.byteAddr b) = some x) :
    (palloc pool).run kernelSem m = .ok (phys b * pageSize + pool.phyAddrStart,
      m.store8 x (m x ||| bitmapMask (phys b % 8#32))) := by
  have h_lt := h.lt
  -- the index of a bit is not `-1`
  have h_found : phys b ≠ -1#32 := by
    intro h_eq
    have h_nat := congrArg BitVec.toNat h_eq
    rw [toNat_phys (by omega)] at h_nat
    simp at h_nat
    omega
  rw [palloc, Prog.run_bind_of_ok kernelSem (bitmapScan_seen_run h h_size h_mapped)]
  change (if phys b = -1#32 then _ else _ : Kern _).run kernelSem m = _
  rw [if_neg h_found, Prog.run_bind_of_ok kernelSem (bitmapSet_seen_run h_byte)]
  rfl

/-- The bitmap of the kernel's frames is small. -/
theorem kernelBitmap_length (allMemory : BitVec 32) :
    (memPools allMemory).kernelPool.poolBitmap.btmpBytesLen.toNat ≤ 4095 := by
  have h := memPools_values allMemory
  have h_free := h.free_lt
  rw [h.kernel_length]
  omega

/-- It lies in one page. -/
theorem page_of_inside {a : BitVec 32} (h : (memPools allMemory).kernelPool.poolBitmap.Inside a) :
    a.toNat / 4096 = 0xc009a := by
  have h_len := kernelBitmap_length allMemory
  obtain ⟨k, hk, rfl⟩ := h
  rw [BitVec.toNat_add, (memPools_values allMemory).kernel_bits, toNat_phys (by omega)]
  omega

theorem kernelBitmap_size (allMemory : BitVec 32) :
    (memPools allMemory).kernelPool.poolBitmap.size ≤ 8 * 4095 :=
  Nat.mul_le_mul_left 8 (kernelBitmap_length allMemory)

/-- A bit that is clear shows that the bitmap is mapped. -/
theorem mapped_of_clear
    (h : ∃ i < (memPools allMemory).kernelPool.poolBitmap.size,
      (memPools allMemory).kernelPool.poolBitmap.Clear (seen m) i) (a : BitVec 32)
    (ha : (memPools allMemory).kernelPool.poolBitmap.Inside a) : ∃ x, translate m a = some x := by
  have h_size := kernelBitmap_size allMemory
  obtain ⟨i, hi, h_clear⟩ := h
  have h_byte : seen m ((memPools allMemory).kernelPool.poolBitmap.byteAddr i) ≠ 0xff#8 := by
    intro h_full
    rw [Bitmap.Clear, h_full, show (0xff#8) = BitVec.allOnes 8 from rfl, BitVec.getLsbD_allOnes,
      decide_eq_true (Nat.mod_lt i (by decide))] at h_clear
    cases h_clear
  obtain ⟨x, h_x⟩ := translate_of_seen h_byte
  have h_inside := Bitmap.inside_byteAddr (lt_of_le_of_lt h_size (by decide)) hi
  exact ⟨_, translate_of_page ((page_of_inside ha).trans (page_of_inside h_inside).symm) h_x⟩

/-- The frames of the pool start behind the page tables. -/
theorem kernelPool_frame {i : ℕ} (hi : i < (memPools allMemory).kernelPool.poolBitmap.size) :
    (memPools allMemory).kernelPool.frame i = 0x200 + i ∧
      phys i * pageSize + (memPools allMemory).kernelPool.phyAddrStart
        = phys ((0x200 + i) * 4096) := by
  have h_size := kernelBitmap_size allMemory
  have h_addr : (phys i * pageSize + (memPools allMemory).kernelPool.phyAddrStart).toNat
      = (0x200 + i) * 4096 := by
    rw [BitVec.toNat_add, BitVec.toNat_mul, (memPools_values allMemory).kernel_start,
      toNat_phys (by omega), show pageSize.toNat = 4096 from rfl]
    omega
  refine ⟨?_, eq_phys h_addr⟩
  rw [Pool.frame, h_addr]
  omega

/-- **The second branch.** After `palloc`, which sets a bit at `x`, the new table is made. -/
theorem pageTableAdd_run_absent (h : SelfMapped m) (h_slot : v.toNat / 2 ^ 22 < 1023)
    (h_absent : ¬ Present (pdeOf m v)) {b : ℕ} {x : BitVec 32}
    (h_first : (memPools allMemory).kernelPool.poolBitmap.FirstClear (seen m) b)
    (h_byte : translate m ((memPools allMemory).kernelPool.poolBitmap.byteAddr b) = some x)
    (h_set : SelfMapped (m.store8 x (m x ||| bitmapMask (phys b % 8#32)))) (p : BitVec 32) :
    ∃ m', (pageTableAdd (memPools allMemory) v p).run kernelSem m = .ok ((), m') ∧
      ∀ n, n % 4 = 0 → n < 2 ^ 32 → m'.word n
        = newTableWord (m.store8 x (m x ||| bitmapMask (phys b % 8#32))) v p (0x200 + b) n := by
  have h_size := kernelBitmap_size allMemory
  have h_lt := h_first.lt
  have h_palloc := palloc_seen_run h_first (lt_of_le_of_lt h_size (by decide))
    (mapped_of_clear ⟨b, h_first.lt, h_first.clear⟩) h_byte
  rw [(kernelPool_frame h_first.lt).2] at h_palloc
  obtain ⟨m', h_run, h_words⟩ := newTable_run h_set h_slot (f := 0x200 + b) (by omega) (by omega) p
  refine ⟨m', ?_, h_words⟩
  -- the slot of the directory gets the new frame, and the rest is a run on the new table
  have h_flags : phys ((0x200 + b) * 4096) ||| pgUsU ||| pgRwW ||| pgP = entry (0x200 + b) :=
    or_flags (by omega)
  unfold pageTableAdd
  dsimp only
  rw [run_load32 (h.translate_pdePtr v)]
  change (if Present (pdeOf m v) then _ else _ : Kern Unit).run kernelSem m = _
  rw [if_neg h_absent, Prog.run_bind_of_ok kernelSem h_palloc, h_flags]
  exact h_run

/-! ### The walks with a new table -/

/-- A byte outside the paging structures is in none of the words that a walk reads. -/
theorem walk_store8 {x : BitVec 32} (h_bit : ¬ PagingFrame m (x.toNat / 4096)) (b : BitVec 8)
    (w : BitVec 32) : pdeOf (m.store8 x b) w = pdeOf m w ∧
      (w.toNat < 0xffc00000 → entries (m.store8 x b) w = entries m w) := by
  have h_w := w.isLt
  have h_x := x.isLt
  -- the byte is in none of the frames that the walks read
  have h_same {n : ℕ} (h_mod : n % 4 = 0) (h_lt : n < 2 ^ 32) (h_frame : PagingFrame m (n / 4096)) :
      (m.store8 x b).word n = m.word n := by
    have h_ne : n / 4096 ≠ x.toNat / 4096 := fun h_eq => h_bit (h_eq ▸ h_frame)
    have h_store := m.word_store8 (i := n) (n := x.toNat) b (by omega) h_x (by omega)
    rwa [phys_toNat] at h_store
  have h_pde : pdeOf (m.store8 x b) w = pdeOf m w := by
    obtain ⟨h_mod, h_lt, h_frame⟩ := dirAddr_word (i := w.toNat / 2 ^ 22) (by omega)
    exact h_same h_mod h_lt (.inl h_frame)
  refine ⟨h_pde, fun h_w_lt => entries_congr h_pde fun a h_a => ?_⟩
  obtain ⟨h_mod, h_lt, h_frame⟩ := pteAddr_word h_a
  exact h_same h_mod h_lt (.inr ⟨w.toNat / 2 ^ 22, by omega, (pteAddr_eq h_a).1, h_frame.symm⟩)

section NewTable

variable {f : ℕ} (hf : f < 2 ^ 20) (h_ne : f ≠ 0x100)
  (h_words : ∀ n, n % 4 = 0 → n < 2 ^ 32 → m'.word n = newTableWord m v p f n)

include h_ne h_words

/-- The directory has one new entry. -/
theorem pdeOf_newTable (w : BitVec 32) : pdeOf m' w
    = if w.toNat / 2 ^ 22 = v.toNat / 2 ^ 22 then entry f else pdeOf m w := by
  have h_w := w.isLt
  obtain ⟨h_mod, h_lt, h_frame⟩ := dirAddr_word (i := w.toNat / 2 ^ 22) (by omega)
  rw [pdeOf, h_words _ h_mod h_lt, newTableWord]
  by_cases h_eq : w.toNat / 2 ^ 22 = v.toNat / 2 ^ 22
  · rw [if_pos h_eq, if_pos (by rw [h_eq])]
  · have h_dir : dirAddr (w.toNat / 2 ^ 22) ≠ dirAddr (v.toNat / 2 ^ 22) := by
      simp only [dirAddr]
      omega
    rw [if_neg h_eq, if_neg h_dir, if_neg (by omega), if_neg (by omega)]
    rfl

include hf

/-- The new table has one entry. -/
theorem word_newTable {j : ℕ} (hj : j < 1024) : m'.word (f * 4096 + 4 * j)
    = if j = v.toNat / 4096 % 1024 then pteFor p else 0#32 := by
  have h_v := v.isLt
  obtain ⟨-, -, h_frame⟩ := dirAddr_word (i := v.toNat / 2 ^ 22) (by omega)
  rw [h_words _ (by omega) (by omega), newTableWord, if_neg (by omega)]
  by_cases h_j : j = v.toNat / 4096 % 1024
  · rw [if_pos (by rw [h_j]), if_pos h_j]
  · rw [if_neg (by omega), if_neg h_j, if_pos (by omega)]

/-- The walks that the new table is for. -/
theorem entries_newTable (h_p : p.toNat % 4096 = 0) {w : BitVec 32}
    (hw : w.toNat / 2 ^ 22 = v.toNat / 2 ^ 22) : entries m' w
      = if w.toNat / 4096 = v.toNat / 4096 then some (entry f, pteFor p) else none := by
  have h_pde : pdeOf m' w = entry f := by rw [pdeOf_newTable h_ne h_words, if_pos hw]
  have h_pte : pteAddr m' w = some (f * 4096 + 4 * (w.toNat / 4096 % 1024)) := by
    rw [pteAddr_of_present (h_pde ▸ present_entry), h_pde, frameOf_entry hf]
  -- the new table is clear but for the entry of the page
  have h_index : w.toNat / 4096 % 1024 = v.toNat / 4096 % 1024 ↔
      w.toNat / 4096 = v.toNat / 4096 := by omega
  rw [entries_of_pteAddr h_pte, word_newTable hf h_ne h_words (by omega), h_pde]
  simp only [h_index]
  split
  · have h_present : Present (pteFor p) := by
      rw [pteFor_eq h_p]
      exact present_entry
    rw [if_pos h_present]
  · rw [if_neg not_present_zero]

omit hf in
/-- The walks through other tables. -/
theorem entries_newTable_of_ne {w : BitVec 32} (hw : w.toNat / 2 ^ 22 ≠ v.toNat / 2 ^ 22)
    (h_frame : Present (pdeOf m w) → frameOf (pdeOf m w) ≠ 0x100 ∧ frameOf (pdeOf m w) ≠ f) :
    entries m' w = entries m w := by
  have h_v := v.isLt
  refine entries_congr ?_ fun a h_a => ?_
  · rw [pdeOf_newTable h_ne h_words, if_neg hw]
  · obtain ⟨h_mod, h_lt, h_a_frame⟩ := pteAddr_word h_a
    obtain ⟨h_not_dir, h_not_new⟩ := h_frame (pteAddr_eq h_a).1
    obtain ⟨-, -, h_dir_frame⟩ := dirAddr_word (i := v.toNat / 2 ^ 22) (by omega)
    have h_dir : a ≠ dirAddr (v.toNat / 2 ^ 22) := by
      rintro rfl
      exact h_not_dir (h_a_frame.symm.trans h_dir_frame)
    rw [h_words a h_mod h_lt, newTableWord, if_neg h_dir, if_neg (by omega),
      if_neg (by rw [h_a_frame]; exact h_not_new)]

end NewTable

/-- **The second branch.** The bit that `palloc` sets and the table that is made leave all other
walks alone, because neither is in a paging structure. -/
theorem pageTableAdd_absent (h : ReadyToMap (memPools allMemory).kernelPool m)
    (h_apart : BitmapApart (memPools allMemory).kernelPool m) (h_slot : v.toNat / 2 ^ 22 ≠ 1023)
    (h_p : p.toNat % 4096 = 0) (h_absent : ¬ Present (pdeOf m v)) :
    ∃ m', (pageTableAdd (memPools allMemory) v p).run kernelSem m = .ok ((), m') ∧
      MapsOnly (memPools allMemory).kernelPool m v p m' := by
  have h_v := v.isLt
  have h_size := kernelBitmap_size allMemory
  obtain ⟨b, h_first⟩ := Bitmap.exists_firstClear h.clear
  have h_b := h_first.lt
  have h_inside := Bitmap.inside_byteAddr (lt_of_le_of_lt h_size (by decide)) h_b
  obtain ⟨x, h_x⟩ := mapped_of_clear h.clear _ h_inside
  have h_bit : ¬ PagingFrame m (x.toNat / 4096) := h_apart _ _ h_inside h_x
  have h_frame := (kernelPool_frame h_b).1
  have h_new : ¬ PagingFrame m (0x200 + b) := by
    rw [← h_frame]
    exact h.unused b h_b h_first.clear
  have hf : 0x200 + b < 2 ^ 20 := by omega
  have h_ne : 0x200 + b ≠ 0x100 := by omega
  -- `palloc` leaves the paging structures alone
  have h_set : SelfMapped (m.store8 x (m x ||| bitmapMask (phys b % 8#32))) := by
    have h_store := h.toSelfMapped.store8 x.isLt (fun h_eq => h_bit (.inl h_eq))
      (m x ||| bitmapMask (phys b % 8#32))
    rwa [phys_toNat] at h_store
  have h_walk := walk_store8 h_bit (m x ||| bitmapMask (phys b % 8#32))
  obtain ⟨m', h_run, h_words⟩ := pageTableAdd_run_absent h.toSelfMapped (by omega) h_absent h_first
    h_x h_set p
  have h_pde : pdeOf m' v = entry (0x200 + b) := by rw [pdeOf_newTable h_ne h_words, if_pos rfl]
  have h_entries : entries m' v = some (entry (0x200 + b), pteFor p) := by
    rw [entries_newTable hf h_ne h_words h_p rfl, if_pos rfl]
  refine ⟨m', h_run, ?_⟩
  constructor
  case walk => rw [h_entries, h_pde]
  case page => exact translate_of_walk h_entries h_p
  case old_table => exact fun h_present => absurd h_present h_absent
  case new_table => exact fun _ => ⟨b, h_b, h_first.clear, by rw [h_pde, h_frame]⟩
  case others =>
    intro w h_w_lt h_page _
    by_cases h_table : w.toNat / 2 ^ 22 = v.toNat / 2 ^ 22
    · -- the page was not mapped, and its entry in the new table is zero
      have h_absent_w : ¬ Present (pdeOf m w) := by
        rw [pdeOf, h_table]
        exact h_absent
      rw [entries_of_absent h_absent_w, entries_newTable hf h_ne h_words h_p h_table,
        if_neg h_page]
    · -- its table is neither the new one nor where the bit was set
      refine (entries_newTable_of_ne h_ne h_words h_table fun h_present => ?_).trans
        ((h_walk w).2 h_w_lt)
      rw [(h_walk w).1] at h_present ⊢
      refine ⟨h.only _ (by omega) h_present, fun h_eq => h_new ?_⟩
      exact .inr ⟨w.toNat / 2 ^ 22, by omega, h_present, h_eq⟩

/-! ### One mapping -/

/-- **`page_table_add` adds one mapping**, to a page that has a table and to one for which a
table is made. -/
theorem page_table_add_maps_only (allMemory : BitVec 32) (m : ByteMemory) (v p : BitVec 32)
    (h : ReadyToMap (memPools allMemory).kernelPool m)
    (h_apart : ¬ Present (pdeOf m v) → BitmapApart (memPools allMemory).kernelPool m)
    (h_slot : v.toNat / 2 ^ 22 ≠ 1023) (h_none : translate m v = none) (h_p : p.toNat % 4096 = 0) :
    ∃ m', (pageTableAdd (memPools allMemory) v p).run kernelSem m = .ok ((), m') ∧
      MapsOnly (memPools allMemory).kernelPool m v p m' := by
  by_cases h_present : Present (pdeOf m v)
  · exact pageTableAdd_present _ h.toSelfMapped h_slot h_none h_p h_present
  · exact pageTableAdd_absent h (h_apart h_present) h_slot h_p h_present

/-! ### After a start from zeros -/

theorem bootImage_dir {i : ℕ} (hi : i < 1024) : bootImage.word (dirAddr i) =
    if i = 1023 then entry 0x100
    else if 768 ≤ i then entry (0x101 + (i - 768))
    else if i = 0 then entry 0x101 else 0#32 := by
  rw [← setupPage_zero]
  exact setupPage_dir _ hi

theorem bootImage_frame {i : ℕ} (hi : i < 1023) (h : Present (bootImage.word (dirAddr i))) :
    0x101 ≤ frameOf (bootImage.word (dirAddr i)) ∧
      frameOf (bootImage.word (dirAddr i)) < 0x200 := by
  rw [bootImage_dir (by omega), if_neg (by omega)] at h ⊢
  split_ifs at h ⊢
  · rw [frameOf_entry (by omega)]
    omega
  · rw [frameOf_entry (by omega)]
    omega
  · exact absurd h not_present_zero

theorem bootImage_pagingFrame {f : ℕ} (h : PagingFrame bootImage f) : 0x100 ≤ f ∧ f < 0x200 := by
  rcases h with rfl | ⟨i, hi, h_present, rfl⟩
  · omega
  · have h_frame := bootImage_frame hi h_present
    omega

/-- The bitmap lies in low memory. -/
theorem bootImage_bitmap {a : BitVec 32}
    (ha : (memPools 0x2000000#32).kernelPool.poolBitmap.Inside a) :
    translate bootImage a = some (phys (a.toNat - 0xc0000000)) := by
  have h_page := page_of_inside ha
  obtain ⟨n, h_n⟩ : ∃ n, a.toNat = 0xc0000000 + n := ⟨a.toNat - 0xc0000000, by omega⟩
  rw [eq_phys h_n, mapped_bootImage.translate_low (by omega), toNat_phys (by omega),
    Nat.add_sub_cancel_left]

theorem readyToMap_bootImage : ReadyToMap (memPools 0x2000000#32).kernelPool bootImage where
  present := by
    rw [bootImage_dir (by omega), if_pos rfl]
    exact present_entry
  frame := by
    rw [bootImage_dir (by omega), if_pos rfl]
    exact frameOf_entry (by omega)
  only i hi h_present := by
    have h_frame := bootImage_frame hi h_present
    omega
  clear := by
    -- the first byte of the bitmap is clear
    have h_map : translate bootImage ((memPools 0x2000000#32).kernelPool.poolBitmap.byteAddr 0)
        = some (phys 0x9a000) := mapped_bootImage.translate_low (n := 0x9a000) (by omega)
    refine ⟨0, by decide, ?_⟩
    rw [Bitmap.Clear, seen_of_translate h_map]
    decide
  unused i hi _ h_paging := by
    rw [(kernelPool_frame hi).1] at h_paging
    have h_frame := bootImage_pagingFrame h_paging
    omega

/-- The first page of the heap, which has a table, and a page of the user's half, which has none. -/
theorem page_table_add_maps_only_boot :
    (∃ m', (pageTableAdd (memPools 0x2000000#32) 0xc0100000#32 0x300000#32).run kernelSem bootImage
        = .ok ((), m') ∧
      MapsOnly (memPools 0x2000000#32).kernelPool bootImage 0xc0100000#32 0x300000#32 m') ∧
    ∃ m', (pageTableAdd (memPools 0x2000000#32) 0x00400000#32 0x300000#32).run kernelSem bootImage
        = .ok ((), m') ∧
      MapsOnly (memPools 0x2000000#32).kernelPool bootImage 0x00400000#32 0x300000#32 m' := by
  -- the bitmaps are in the first MiB, and the tables behind it
  have h_apart : BitmapApart (memPools 0x2000000#32).kernelPool bootImage := by
    intro a x ha h_x h_paging
    have h_page := page_of_inside ha
    have h_frame := bootImage_pagingFrame h_paging
    rw [bootImage_bitmap ha, Option.some.injEq] at h_x
    rw [← h_x, toNat_phys (by omega)] at h_frame
    omega
  constructor
  · exact page_table_add_maps_only _ _ _ _ readyToMap_bootImage (fun _ => h_apart) (by decide)
      (by decide +kernel) (by decide)
  · exact page_table_add_maps_only _ _ _ _ readyToMap_bootImage (fun _ => h_apart) (by decide)
      (by decide +kernel) (by decide)

/-! ### A bitmap in a page table -/

/-- A directory with the table of its slot 768, which maps the page of the bitmap to the table
itself. -/
def bitmapInTable : ByteMemory :=
  ((ByteMemory.store32 (fun _ => 0#8) (phys (dirAddr 1023)) (entry 0x100)).store32
    (phys (dirAddr 768)) (entry 0x101)).store32 (phys (tableAddr 0x9a)) (entry 0x101)

theorem bitmapInTable_dir {i : ℕ} (hi : i < 1024) : bitmapInTable.word (dirAddr i) =
    if i = 1023 then entry 0x100 else if i = 768 then entry 0x101 else 0#32 := by
  have h_i := dirAddr_word hi
  have h_addr (j : ℕ) : dirAddr j = 0x100000 + 4 * j := rfl
  have h_addr_i := h_addr i
  rw [bitmapInTable, ByteMemory.word_store32_of_ne _ _ (by decide) ⟨h_i.1, h_i.2.1⟩
    (by rw [show tableAddr 0x9a = 0x101268 from rfl]; omega)]
  -- the three entries, the last one first
  by_cases h_kernel : i = 768
  · rw [if_neg (by omega), if_pos h_kernel, h_kernel, ByteMemory.word_store32_self]
  · rw [ByteMemory.word_store32_of_ne _ _ (by decide) ⟨h_i.1, h_i.2.1⟩ (by rw [h_addr 768]; omega),
      if_neg h_kernel]
    by_cases h_self : i = 1023
    · rw [if_pos h_self, h_self, ByteMemory.word_store32_self]
    · rw [ByteMemory.word_store32_of_ne _ _ (by decide) ⟨h_i.1, h_i.2.1⟩
        (by rw [h_addr 1023]; omega), if_neg h_self]
      exact ByteMemory.word_eq_zero _ fun _ _ => rfl

theorem bitmapInTable_pagingFrame {f : ℕ} (h : PagingFrame bitmapInTable f) :
    f = 0x100 ∨ f = 0x101 := by
  rcases h with rfl | ⟨i, hi, h_present, rfl⟩
  · exact .inl rfl
  · rw [bitmapInTable_dir (by omega), if_neg (by omega)] at h_present ⊢
    split at h_present
    · next h_i =>
      rw [if_pos h_i, frameOf_entry (by omega)]
      exact .inr rfl
    · exact absurd h_present not_present_zero

theorem readyToMap_bitmapInTable :
    ReadyToMap (memPools 0x210000#32).kernelPool bitmapInTable where
  present := by decide +kernel
  frame := by decide +kernel
  only i hi h_present := by
    rw [bitmapInTable_dir (by omega), if_neg (by omega)] at h_present ⊢
    split at h_present
    · next h_i =>
      rw [if_pos h_i, frameOf_entry (by omega)]
      omega
    · exact absurd h_present not_present_zero
  clear := ⟨0, by decide, by decide +kernel⟩
  unused i hi _ h_paging := by
    rw [(kernelPool_frame hi).1] at h_paging
    have h_frame := bitmapInTable_pagingFrame h_paging
    omega

/-- The bit that `palloc` sets is the flag "present" of the entry of another page. -/
theorem page_table_add_maps_other :
    ReadyToMap (memPools 0x210000#32).kernelPool bitmapInTable ∧
      (0x00400000#32).toNat / 2 ^ 22 ≠ 1023 ∧ translate bitmapInTable 0x00400000#32 = none ∧
      (0x300000#32).toNat % 4096 = 0 ∧ ¬ PagingFrame bitmapInTable ((0x300000#32).toNat / 4096) ∧
      ∃ m', (pageTableAdd (memPools 0x210000#32) 0x00400000#32 0x300000#32).run kernelSem
          bitmapInTable = .ok ((), m') ∧
        pteAddr m' 0xc0000000#32 = some 0x101000 ∧ pteAddr m' 0x00400000#32 = some 0x200000 ∧
        translate bitmapInTable 0xc0000000#32 = none ∧ translate m' 0xc0000000#32 = some 0#32 := by
  have h_first : (memPools 0x210000#32).kernelPool.poolBitmap.FirstClear (seen bitmapInTable) 0 :=
    ⟨by decide, by decide +kernel, fun i hi => absurd hi (Nat.not_lt_zero i)⟩
  have h_byte : translate bitmapInTable ((memPools 0x210000#32).kernelPool.poolBitmap.byteAddr 0)
      = some (phys 0x101000) := by decide +kernel
  have h_set := readyToMap_bitmapInTable.toSelfMapped.store8 (n := 0x101000) (by omega) (by omega)
    (bitmapInTable (phys 0x101000) ||| bitmapMask (phys 0 % 8#32))
  obtain ⟨m', h_run, h_words⟩ := pageTableAdd_run_absent (v := 0x00400000#32)
    readyToMap_bitmapInTable.toSelfMapped (by decide) (by decide +kernel) h_first h_byte h_set
    0x300000#32
  -- the walk for `0xc0000000` goes through the table with the bitmap in it
  have h_dir : m'.word (dirAddr 768) = entry 0x101 := by
    rw [h_words _ (by decide) (by decide)]
    decide +kernel
  have h_new : m'.word (dirAddr 1) = entry 0x200 := by
    rw [h_words _ (by decide) (by decide)]
    decide +kernel
  have h_bit : m'.word 0x101000 = 1#32 := by
    rw [h_words _ (by decide) (by decide)]
    decide +kernel
  have h_pte : pteAddr m' 0xc0000000#32 = some 0x101000 := by
    have h_pde : pdeOf m' 0xc0000000#32 = entry 0x101 := h_dir
    rw [pteAddr_of_present (h_pde ▸ present_entry), h_pde]
    rfl
  have h_pte_new : pteAddr m' 0x00400000#32 = some 0x200000 := by
    have h_pde : pdeOf m' 0x00400000#32 = entry 0x200 := h_new
    rw [pteAddr_of_present (h_pde ▸ present_entry), h_pde]
    rfl
  refine ⟨readyToMap_bitmapInTable, by decide, by decide +kernel, by decide, fun h_paging => ?_, m',
    h_run, h_pte, h_pte_new, by decide +kernel, ?_⟩
  · have h_frame := bitmapInTable_pagingFrame h_paging
    revert h_frame
    decide
  · rw [translate_eq_entries, entries_of_pteAddr h_pte, h_bit, if_pos (by decide), Option.map_some]
    exact congrArg some
      (by decide : phys (frameOf 1#32 * 4096 + (0xc0000000#32).toNat % 4096) = 0#32)

end ToiletOS
