import ToiletOS.Mem.KernelMap

/-!
# The state the allocator starts in

`setup_page` leaves the map of the kernel, and `mem_pool_init` clears the three bitmaps: no page is
reserved and no frame is taken (`StartedFrom.poolMap`). If the page tables were zero where
`setup_page` does not write them, no page is mapped either, and the memory holds the empty
`KernelMap` (`Booted.kernelMap`).

`bootImage` is the memory after a start from zeros, as a function one can compute with.
-/

namespace ToiletOS

variable {m : ByteMemory}

/-- The loop of `memset` over low memory. -/
theorem memsetLoop_run (hm : Mapped m) (base len : ℕ) (h_fits : base + len ≤ 0x100000)
    (val : BitVec 8) :
    ∃ m', (Kern.memsetLoop val len (phys (0xc0000000 + base))).run kernelSem m = .ok ((), m') ∧
      Mapped m' ∧ ∀ x < 2 ^ 32, m' (phys x)
        = if base ≤ x ∧ x < base + len then val else m (phys x) := by
  induction len generalizing m base with
  | zero =>
    refine ⟨m, rfl, hm, fun x _ => ?_⟩
    rw [if_neg (by omega)]
  | succ len ih =>
    have h_store := run_store8 (hm.translate_low (n := base) (by omega)) val
    obtain ⟨m', h_run, hm', h_bytes⟩ := ih (hm.store8 (n := base) (by omega) val)
      (base + 1) (by omega)
    refine ⟨m', ?_, hm', fun x hx => ?_⟩
    · rw [Kern.memsetLoop, Prog.run_bind_of_ok kernelSem h_store,
        show phys (0xc0000000 + base) + 1#32 = phys (0xc0000000 + (base + 1)) from phys_add _ 1]
      exact h_run
    · rw [h_bytes x hx]
      -- the byte of this round, and those of the others
      by_cases h_x : x = base
      · subst h_x
        simp
      · rw [m.byte_store8 val hx (by omega) h_x]
        congr 1
        exact propext ⟨fun h => by omega, fun h => by omega⟩

/-- `bitmap_init` clears the bytes of the bitmap. -/
theorem bitmapInit_run {btmp : Bitmap} {base len : ℕ} (h : btmp.LiesAt base len)
    (hm : Mapped m) :
    ∃ m', (bitmapInit btmp).run kernelSem m = .ok ((), m') ∧ Mapped m' ∧
      ∀ x < 2 ^ 32, m' (phys x) = if base ≤ x ∧ x < base + len then 0#8 else m (phys x) := by
  have h_fits := h.fits
  obtain ⟨m', h_run, h_rest⟩ := memsetLoop_run hm base len (by omega) 0#8
  refine ⟨m', ?_, h_rest⟩
  have h_ne : btmp.bits ≠ 0#32 := by
    rw [h.bits]
    exact phys_ne (k := 0) (by omega) (by omega) (by omega)
  rw [bitmapInit, Kern.memset, run_assert h_ne, h.toNat_length, h.bits]
  exact h_run

/-- `mem_pool_init` clears the three bitmaps, and nothing else. -/
theorem memPoolInit_run {allMemory : BitVec 32} {nb ub : ℕ}
    (hL : (memPools allMemory).Layout nb ub) (hm : Mapped m) :
    ∃ m', (memPoolInit allMemory).run kernelSem m = .ok (memPools allMemory, m') ∧ Mapped m' ∧
      ∀ x < 2 ^ 32, m' (phys x)
        = if frameBits ≤ x ∧ x < pageBits nb ub + nb then 0#8 else m (phys x) := by
  obtain ⟨h_nb, h_ub, h_frames, h_pages⟩ := hL.bounds
  obtain ⟨m₁, h_run₁, hm₁, h_bytes₁⟩ := bitmapInit_run hL.frames hm
  obtain ⟨m₂, h_run₂, hm₂, h_bytes₂⟩ := bitmapInit_run hL.users hm₁
  obtain ⟨m₃, h_run₃, hm₃, h_bytes₃⟩ := bitmapInit_run hL.pages hm₂
  refine ⟨m₃, ?_, hm₃, fun x hx => ?_⟩
  · rw [memPoolInit, Prog.run_bind_of_ok kernelSem h_run₁, Prog.run_bind_of_ok kernelSem h_run₂,
      Prog.run_bind_of_ok kernelSem h_run₃]
    rfl
  · rw [h_bytes₃ x hx, h_bytes₂ x hx, h_bytes₁ x hx]
    split_ifs <;> first | rfl | omega

/-- The memory after `setup_page` and `mem_pool_init`, with `m₀` before. -/
def StartedFrom (m₀ : ByteMemory) (allMemory : BitVec 32) (m : ByteMemory) : Prop :=
  (memPoolInit allMemory).run kernelSem (setupPage m₀) = .ok (memPools allMemory, m)

/-- The memory after `setup_page` and `mem_pool_init`, whatever it held before. -/
def Started (allMemory : BitVec 32) (m : ByteMemory) : Prop := ∃ m₀, StartedFrom m₀ allMemory m

/-- The memory after `setup_page` and `mem_pool_init`, when the page table entries that
`setup_page` does not write were zero. -/
def Booted (allMemory : BitVec 32) (m : ByteMemory) : Prop :=
  ∃ m₀ : ByteMemory, (∀ p, 256 ≤ p → p < 255 * 1024 → m₀.word (tableAddr p) = 0#32) ∧
    (memPoolInit allMemory).run kernelSem (setupPage m₀) = .ok (memPools allMemory, m)

theorem Booted.started {allMemory : BitVec 32} (h : Booted allMemory m) : Started allMemory m := by
  obtain ⟨m₀, -, h_run⟩ := h
  exact ⟨m₀, h_run⟩

/-- **The start.** No page is mapped, and no frame is taken. -/
theorem StartedFrom.poolMap {m₀ : ByteMemory} {allMemory : BitVec 32} {nb ub : ℕ}
    (hL : (memPools allMemory).Layout nb ub) (h : StartedFrom m₀ allMemory m) :
    PoolMap (fun i => m₀.word (tableAddr (256 + i))) nb ub m ⊥ 0 0 := by
  obtain ⟨h_nb, h_ub, h_frames, h_pages⟩ := hL.bounds
  obtain ⟨m', h_run', hm', h_bytes⟩ := memPoolInit_run hL (mapped_setupPage m₀)
  obtain rfl : m = m' := congrArg Prod.snd (Except.ok.inj (h.symm.trans h_run'))
  -- `mem_pool_init` clears the bitmaps, and touches nothing behind them
  have h_clear {base i : ℕ} (h_ge : frameBits ≤ base) (h_lt : base + i / 8 < pageBits nb ub + nb) :
      bitAt m base i = false := by
    rw [bitAt, h_bytes _ (by omega), if_pos (by omega)]
    exact BitVec.getLsbD_zero
  refine ⟨hm', fun i f h_f => ?_, fun i f h_f => ?_, fun i hi => ?_, fun f hf => ?_, fun i hi => ?_,
    fun i _ h_lt => ?_⟩
  · cases h_f
  · cases h_f
  · rw [h_clear (by omega) (by omega)]
    simp
  · rw [h_clear le_rfl (by omega)]
    rfl
  · have h_table : tableAddr (256 + i) = 0x101000 + 4 * (256 + i) := rfl
    have h_word : m.word (tableAddr (256 + i)) = (setupPage m₀).word (tableAddr (256 + i)) := by
      apply ByteMemory.word_congr
      intro k hk
      rw [h_bytes _ (by omega), if_neg (by omega)]
    rw [h_word, setupPage_word m₀ (by omega) (by omega)]
    rfl
  · exact absurd h_lt (Nat.not_lt_zero i)

/-- The tables held zeros. -/
theorem Booted.kernelMap {allMemory : BitVec 32} {nb ub : ℕ}
    (hL : (memPools allMemory).Layout nb ub) (h : Booted allMemory m) :
    KernelMap nb ub m ⊥ 0 0 := by
  obtain ⟨h_nb, -, -, -⟩ := hL.bounds
  obtain ⟨m₀, h_zero, h_run⟩ := h
  have h_pool := StartedFrom.poolMap hL h_run
  exact { h_pool with
    table := fun i hi => (h_pool.table i hi).trans (h_zero _ (by omega) (by omega)) }

/-! ### A start from zeros -/

/-- The words that `setup_page` writes. -/
def bootWord (n : ℕ) : BitVec 32 :=
  if n < 0x100000 ∨ 0x101400 ≤ n then 0#32
  else if 0x101000 ≤ n then entry ((n - 0x101000) / 4)
  else if n = 0x100ffc then entry 0x100
  else if 0x100c00 ≤ n then entry (0x101 + (n - 0x100c00) / 4)
  else if n = 0x100000 then entry 0x101
  else 0#32

/-- The memory after a start from zeros. -/
def bootImage : ByteMemory :=
  fun a => (bootWord (a.toNat / 4 * 4)).extractLsb' (8 * (a.toNat % 4)) 8

theorem setupPage_zero_word {k : ℕ} (hk : 4 * k + 4 ≤ 2 ^ 32) :
    (setupPage fun _ => 0#8).word (4 * k) = bootWord (4 * k) := by
  have h_zero (x : ℕ) : ByteMemory.word (fun _ => 0#8) x = 0#32 :=
    ByteMemory.word_eq_zero _ fun _ _ => rfl
  unfold bootWord
  -- `setup_page` writes one directory and one table: the words are tested in this order
  by_cases h_out : 4 * k < 0x100000 ∨ 0x101400 ≤ 4 * k
  · rw [if_pos h_out, setupPage_word _ hk (by omega), h_zero]
  rw [if_neg h_out]
  by_cases h_table : 0x101000 ≤ 4 * k
  · have h_k : 4 * k = tableAddr (k - 0x40400) := by
      simp only [tableAddr]
      omega
    rw [if_pos h_table, h_k, setupPage_low _ (by omega), tableAddr, Nat.add_sub_cancel_left,
      Nat.mul_div_cancel_left _ (by decide)]
  · have h_k : 4 * k = dirAddr (k - 0x40000) := by
      simp only [dirAddr]
      omega
    rw [if_neg h_table, h_k, setupPage_dir _ (by omega), ← h_k]
    by_cases h_self : 4 * k = 0x100ffc
    · rw [if_pos h_self, if_pos (by omega)]
    · rw [if_neg h_self, if_neg (by omega)]
      by_cases h_kernel : 0x100c00 ≤ 4 * k
      · rw [if_pos h_kernel, if_pos (by omega),
          show k - 0x40000 - 768 = (4 * k - 0x100c00) / 4 by omega]
      · rw [if_neg h_kernel, if_neg (by omega)]
        by_cases h_first : 4 * k = 0x100000
        · rw [if_pos h_first, if_pos (by omega)]
        · rw [if_neg h_first, if_neg (by omega)]

theorem setupPage_zero : setupPage (fun _ => 0#8) = bootImage := by
  funext a
  have h_lt := a.isLt
  have h_byte := ByteMemory.byte_eq_word (setupPage fun _ => 0#8) (n := a.toNat)
  rw [phys_toNat, Nat.mul_comm (_ / 4), setupPage_zero_word (by omega)] at h_byte
  rw [h_byte, bootImage, Nat.mul_comm 4]

theorem mapped_bootImage : Mapped bootImage := setupPage_zero ▸ mapped_setupPage _

/-- Zeros all over are a memory to start from. -/
theorem booted_bootImage (allMemory : BitVec 32) : Booted allMemory bootImage := by
  obtain ⟨nb, ub, hL⟩ := memPools_layout allMemory
  obtain ⟨h_nb, h_ub, h_frames, h_pages⟩ := hL.bounds
  obtain ⟨m, h_run, -, h_bytes⟩ := memPoolInit_run hL (mapped_setupPage fun _ => 0#8)
  have h_low (x : ℕ) (hx : x < 0x100000) : bootImage (phys x) = 0#8 := by
    rw [bootImage, toNat_phys (by omega), bootWord, if_pos (by omega)]
    exact BitVec.extractLsb'_zero
  -- the bitmaps are zero already, so `mem_pool_init` changes nothing
  have h_m : m = bootImage := by
    funext a
    rw [← phys_toNat a, h_bytes _ a.isLt, setupPage_zero]
    split
    · rw [h_low _ (by omega)]
    · rfl
  refine ⟨fun _ => 0#8, fun p _ _ => ByteMemory.word_eq_zero _ fun _ _ => rfl, ?_⟩
  rw [← h_m]
  exact h_run

end ToiletOS
