import ToiletOS.Mem.Boot
import Mathlib.Order.CompletePartialOrder
import Mathlib.Order.Interval.Set.Disjoint

/-!
# Where `mem_pool_init` puts the pools

Everything that `mem_pool_init` computes follows from the number of free pages, which is cut to
16 bits. The values of all fields are known as natural numbers (`memPools_values`), none of which
has wrapped around, and two results are read off from them:

* the pools and the bitmaps fit and keep apart, for every size of memory from `0x200000` on
  (`pool_layout`);
* the pools hold every free page if and only if there are fewer than 65536 of them, and memory
  is not smaller than what is in use (`memory_accounted_iff`).
-/

namespace ToiletOS

/-! ### What the pools denote -/

/-- The addresses of a pool. -/
def Pool.addresses (p : Pool) : Set ℕ :=
  Set.Ico p.phyAddrStart.toNat (p.phyAddrStart.toNat + p.poolSize.toNat)

/-- The addresses of the bytes of a bitmap. -/
def Bitmap.addresses (btmp : Bitmap) : Set ℕ :=
  Set.Ico btmp.bits.toNat (btmp.bits.toNat + btmp.btmpBytesLen.toNat)

/-- The frame that `palloc` returns for a bit. -/
def Pool.frameOf (p : Pool) (bitIndex : ℕ) : BitVec 32 := phys bitIndex * pageSize + p.phyAddrStart

/-- The page that `vaddr_get` returns for a bit. -/
def VirtualAddr.pageOf (v : VirtualAddr) (bitIndex : ℕ) : BitVec 32 :=
  v.vaddrStart + phys bitIndex * pageSize

/-- Each bit of the bitmap denotes a page of its own that lies in the pool as a whole. -/
def Pool.BitsInside (p : Pool) : Prop :=
  ∀ i < 8 * p.poolBitmap.btmpBytesLen.toNat,
    (p.frameOf i).toNat = p.phyAddrStart.toNat + 4096 * i ∧
      Set.Ico (p.frameOf i).toNat ((p.frameOf i).toNat + 4096) ⊆ p.addresses

/-- A pool starts and ends at the border of a page. -/
def Pool.PageAligned (p : Pool) : Prop := 4096 ∣ p.phyAddrStart.toNat ∧ 4096 ∣ p.poolSize.toNat

/-- The pools and their bitmaps fit into memory and keep apart. -/
structure PoolsFit (allMemory : BitVec 32) (pools : MemPools) : Prop where
  kernel_aligned : pools.kernelPool.PageAligned
  user_aligned : pools.userPool.PageAligned
  adjacent : pools.kernelPool.phyAddrStart.toNat + pools.kernelPool.poolSize.toNat =
    pools.userPool.phyAddrStart.toNat
  pools_apart : Disjoint pools.kernelPool.addresses pools.userPool.addresses
  kernel_inside : pools.kernelPool.addresses ⊆ Set.Ico 0x200000 allMemory.toNat
  user_inside : pools.userPool.addresses ⊆ Set.Ico 0x200000 allMemory.toNat
  kernel_bits : pools.kernelPool.BitsInside
  user_bits : pools.userPool.BitsInside
  bitmaps_apart : Disjoint pools.kernelPool.poolBitmap.addresses pools.userPool.poolBitmap.addresses
    ∧ Disjoint pools.kernelPool.poolBitmap.addresses pools.kernelAddr.vaddrBitmap.addresses
    ∧ Disjoint pools.userPool.poolBitmap.addresses pools.kernelAddr.vaddrBitmap.addresses
  /-- The page of the initial stack, which holds the PCB of `main`, starts at `0xc009e000`. -/
  bitmaps_inside : pools.kernelPool.poolBitmap.addresses ⊆ Set.Ico 0xc009a000 0xc009e000
    ∧ pools.userPool.poolBitmap.addresses ⊆ Set.Ico 0xc009a000 0xc009e000
    ∧ pools.kernelAddr.vaddrBitmap.addresses ⊆ Set.Ico 0xc009a000 0xc009e000
  virtual_pages : ∀ i < 8 * pools.kernelAddr.vaddrBitmap.btmpBytesLen.toNat,
    Set.Ico (pools.kernelAddr.pageOf i).toNat ((pools.kernelAddr.pageOf i).toNat + 4096) ⊆
        Set.Ico 0xc0100000 0xffc00000 ∧
      768 ≤ (pdeIndex (pools.kernelAddr.pageOf i)).toNat ∧
      (pdeIndex (pools.kernelAddr.pageOf i)).toNat ≤ 1022

/-- The sizes of the two pools add up to the whole pages beyond the memory in use. -/
def Accounted (allMemory : BitVec 32) (pools : MemPools) : Prop :=
  pools.kernelPool.poolSize.toNat + pools.userPool.poolSize.toNat =
    4096 * ((allMemory.toNat - 0x200000) / 4096)

instance (allMemory : BitVec 32) (pools : MemPools) : Decidable (Accounted allMemory pools) :=
  inferInstanceAs (Decidable (_ = _))

/-! ### The layout -/

section Layout

variable {allMemory : BitVec 32} {pools : MemPools} {free : ℕ}

theorem Pool.bitsInside {p : Pool} {start pages : ℕ} (h_start : p.phyAddrStart.toNat = start)
    (h_size : p.poolSize.toNat = pages * 4096)
    (h_length : p.poolBitmap.btmpBytesLen.toNat = pages / 8)
    (h_fits : start + pages * 4096 < 2 ^ 32) : p.BitsInside := by
  intro i hi
  have h_i : i < pages := by omega
  have h_frame : (p.frameOf i).toNat = start + 4096 * i := by
    rw [Pool.frameOf, BitVec.toNat_add, BitVec.toNat_mul, toNat_phys (by omega), h_start, pageSize,
      BitVec.toNat_ofNat]
    omega
  rw [Pool.addresses, h_frame, h_start, h_size]
  refine ⟨rfl, Set.Ico_subset_Ico (by omega) (by omega)⟩

theorem toNat_pdeIndex (a : BitVec 32) : (pdeIndex a).toNat = a.toNat / 2 ^ 22 := by
  rw [pdeIndex, BitVec.toNat_ushiftRight, toNat_and_directory, Nat.shiftRight_eq_div_pow]
  omega

/-- The pages of the virtual bitmap. -/
theorem PoolValues.pageOf (h : PoolValues free pools) {i : ℕ}
    (hi : i < 8 * pools.kernelAddr.vaddrBitmap.btmpBytesLen.toNat) :
    (pools.kernelAddr.pageOf i).toNat = 0xc0100000 + 4096 * i ∧ i < 2 ^ 15 := by
  have h_lt := h.free_lt
  rw [h.page_length] at hi
  rw [VirtualAddr.pageOf, BitVec.toNat_add, BitVec.toNat_mul, toNat_phys (by omega), h.page_start,
    pageSize, BitVec.toNat_ofNat]
  omega

/-- The pools end where memory ends, or before. -/
theorem freePages_le (h : 0x200000 ≤ allMemory.toNat) :
    0x200000 + freePages allMemory * 4096 ≤ allMemory.toNat := by
  have h_lt := allMemory.isLt
  unfold freePages
  omega

/-- **The layout of the pools.** For every size of memory that is not smaller than what is in
use, `mem_pool_init` runs through, and the pools it sets up fit into memory and keep apart. -/
theorem pool_layout (m₀ : ByteMemory) (allMemory : BitVec 32) (h : 0x200000 ≤ allMemory.toNat) :
    ∃ m, (memPoolInit allMemory).run kernelSem (setupPage m₀) = .ok (memPools allMemory, m) ∧
      PoolsFit allMemory (memPools allMemory) := by
  obtain ⟨nb, ub, hL⟩ := memPools_layout allMemory
  obtain ⟨m, h_run, -, -⟩ := memPoolInit_run hL (mapped_setupPage m₀)
  have h_values := memPools_values allMemory
  have h_le := freePages_le h
  have h_free := h_values.free_lt
  generalize freePages allMemory = free at *
  generalize memPools allMemory = pools at *
  refine ⟨m, h_run, ?_⟩
  -- the regions as intervals, so that what is left is to compare their ends
  have h_bitmap {btmp : Bitmap} {a b : ℕ} (h_bits : btmp.bits.toNat = a)
      (h_length : btmp.btmpBytesLen.toNat = b) : btmp.addresses = Set.Ico a (a + b) := by
    rw [Bitmap.addresses, h_bits, h_length]
  have h_kernel := h_bitmap h_values.kernel_bits h_values.kernel_length
  have h_user := h_bitmap h_values.user_bits h_values.user_length
  have h_page := h_bitmap h_values.page_bits h_values.page_length
  have h_apart {a b c d : ℕ} (h_order : b ≤ c) : Disjoint (Set.Ico a b) (Set.Ico c d) :=
    Set.Ico_disjoint_Ico.mpr ((min_le_left _ _).trans (h_order.trans (le_max_right _ _)))
  have h_half : free / 2 * 4096 ≤ free * 4096 := Nat.mul_le_mul_right _ (Nat.div_le_self _ _)
  have h_end : 0x200000 + free / 2 * 4096 ≤ allMemory.toNat :=
    (Nat.add_le_add_left h_half _).trans h_le
  have h_used : 4096 ∣ 0x200000 := Nat.dvd_mul_left 4096 512
  constructor
  · rw [Pool.PageAligned, h_values.kernel_start, h_values.kernel_size]
    exact ⟨h_used, Nat.dvd_mul_left _ _⟩
  · rw [Pool.PageAligned, h_values.user_start, h_values.user_size]
    exact ⟨Nat.dvd_add h_used (Nat.dvd_mul_left _ _), Nat.dvd_mul_left _ _⟩
  · rw [h_values.kernel_start, h_values.kernel_size, h_values.user_start]
  · rw [Pool.addresses, Pool.addresses, h_values.user_start, h_values.kernel_start,
      h_values.kernel_size]
    exact h_apart le_rfl
  · rw [Pool.addresses, h_values.kernel_start, h_values.kernel_size]
    exact Set.Ico_subset_Ico le_rfl h_end
  · rw [Pool.addresses, h_values.user_start, h_values.user_size]
    exact Set.Ico_subset_Ico (by omega) (by omega)
  · exact Pool.bitsInside h_values.kernel_start h_values.kernel_size h_values.kernel_length
      (by omega)
  · exact Pool.bitsInside h_values.user_start h_values.user_size h_values.user_length (by omega)
  · rw [h_kernel, h_user, h_page]
    exact ⟨h_apart le_rfl, h_apart (by omega), h_apart le_rfl⟩
  · rw [h_kernel, h_user, h_page]
    exact ⟨Set.Ico_subset_Ico (by omega) (by omega), Set.Ico_subset_Ico (by omega) (by omega),
      Set.Ico_subset_Ico (by omega) (by omega)⟩
  · intro i hi
    obtain ⟨h_i, h_lt⟩ := h_values.pageOf hi
    rw [toNat_pdeIndex, h_i]
    exact ⟨Set.Ico_subset_Ico (by omega) (by omega), by omega, by omega⟩

/-- A memory of 32 MB. -/
theorem pool_layout_emulator :
    ∃ m, (memPoolInit 0x2000000#32).run kernelSem (setupPage fun _ => 0#8) =
        .ok (memPools 0x2000000#32, m) ∧ PoolsFit 0x2000000#32 (memPools 0x2000000#32) :=
  pool_layout (fun _ => 0#8) 0x2000000#32 (by decide)

/-! ### The accounting -/

/-- **When the pools hold every free page.** Below `0x200000` the number of free pages wraps
around, and from 65536 free pages on it is cut. -/
theorem memory_accounted_iff (m₀ : ByteMemory) (allMemory : BitVec 32) :
    ∃ m, (memPoolInit allMemory).run kernelSem (setupPage m₀) = .ok (memPools allMemory, m) ∧
      (Accounted allMemory (memPools allMemory) ↔
        0x200000 ≤ allMemory.toNat ∧ allMemory.toNat < 0x10200000) := by
  obtain ⟨nb, ub, hL⟩ := memPools_layout allMemory
  obtain ⟨m, h_run, -, -⟩ := memPoolInit_run hL (mapped_setupPage m₀)
  have h_values := memPools_values allMemory
  have h_lt := allMemory.isLt
  refine ⟨m, h_run, ?_⟩
  -- the halves add up to all the pages that were counted
  have h_sum : (memPools allMemory).kernelPool.poolSize.toNat +
      (memPools allMemory).userPool.poolSize.toNat = 4096 * freePages allMemory := by
    rw [h_values.kernel_size, h_values.user_size]
    omega
  rw [Accounted, h_sum, freePages]
  constructor
  · intro h_eq
    omega
  · rintro ⟨h_used, h_pages⟩
    omega

/-- With 65536 free pages the pools are empty, and with less memory than is in use they are not. -/
theorem memory_not_accounted :
    ¬ Accounted 0x10200000#32 (memPools 0x10200000#32) ∧
      ¬ Accounted 0x100000#32 (memPools 0x100000#32) := by
  decide

end Layout
end ToiletOS
