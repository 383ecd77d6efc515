import ToiletOS.Mem.NoAliasing

/-!
# A reservation never runs out of frames

The bitmap of the kernel's pages and that of its frames have the same length, and after
every call the same number of set bits: a page that is handed out has one frame, and no frame
goes into a page table, because every directory slot that the virtual pool reaches is
present from the start. So a call that has found its pages also finds its frames.

`Supplied` spells this out for the loop of `malloc_page`: whenever it has mapped some of
the pages of a call, `palloc` finds a bit that is clear and the directory slot of the next
page is present.

None of this depends on the entries of the tables, so `startedSys` starts from the memory behind
`setup_page` and `mem_pool_init` whatever it held before.
-/

namespace ToiletOS

/-- The number of set bits. -/
def Bitmap.countSet (btmp : Bitmap) (m : ByteMemory) : ℕ :=
  ((Finset.range (8 * btmp.btmpBytesLen.toNat)).filter fun i => btmp.bitSet m i = true).card

/-- The loop of `malloc_page` has come to the page `vaddr` with the memory `m`: `palloc` finds a
clear bit and takes its frame, and `page_table_add` finds the directory slot present. -/
def Supplied (pools : MemPools) (m : ByteMemory) (vaddr : BitVec 32) : Prop :=
  ∃ i frame m' w,
    i < 8 * pools.kernelPool.poolBitmap.btmpBytesLen.toNat ∧
    pools.kernelPool.poolBitmap.bitSet m i = false ∧
    (palloc pools.kernelPool).run kernelSem m = .ok (frame, m') ∧
    frame = pools.kernelPool.phyAddrStart + BitVec.ofNat 32 (i * 4096) ∧ frame ≠ null ∧
    (Kern.load32 (pdePtr vaddr)).run kernelSem m' = .ok (w, m') ∧ Present w

/-- The calls of `mallocSys`, from tables that held anything. -/
def startedSys (allMemory : BitVec 32) : Machine MallocState (BitVec 32) Halt :=
  { mallocSys allMemory with init := fun st => Started allMemory st.mem ∧ st.returned = [] }

instance (allMemory : BitVec 32) (st : MallocState) (n : BitVec 32) :
    Decidable ((startedSys allMemory).enabled st n) :=
  inferInstanceAs (Decidable ((mallocSys allMemory).enabled st n))

section

variable {allMemory : BitVec 32} {old : ℕ → BitVec 32} {nb ub : ℕ} {e : ℕ ≃. ℕ} {m : ByteMemory}
  {lo hi : ℕ} {st st' : MallocState}

/-- Every call leaves a map. -/
theorem poolMap_step (hL : (memPools allMemory).Layout nb ub) (h : PoolMap old nb ub st.mem e 0 0)
    {n : BitVec 32} (h_step : (startedSys allMemory).Step st n st') :
    ∃ e', PoolMap old nb ub st'.mem e' 0 0 := by
  obtain ⟨⟨⟨h_pos, h_max⟩, h_inside⟩, h_exec⟩ := h_step
  simp only [startedSys, mallocSys] at h_exec
  rcases mallocPage_run hL h h_pos h_max h_inside with
    ⟨err, h_run⟩ | h_run | ⟨r, m', e', h_run, -, h_map, -⟩
  · rw [h_run] at h_exec
    cases h_exec
  · -- the call fails and has changed nothing
    rw [h_run] at h_exec
    obtain rfl := Except.ok.inj h_exec
    exact ⟨e, h⟩
  · rw [h_run] at h_exec
    obtain rfl := Except.ok.inj h_exec
    exact ⟨e', h_map⟩

theorem poolMap_of_reachable (hL : (memPools allMemory).Layout nb ub)
    (h : (startedSys allMemory).Reachable st) : ∃ old e, PoolMap old nb ub st.mem e 0 0 := by
  refine h.invariant (P := fun st => ∃ old e, PoolMap old nb ub st.mem e 0 0) (fun st h_init => ?_)
    fun st n st' ⟨old, e, h_e⟩ h_step => ⟨old, poolMap_step hL h_e h_step⟩
  obtain ⟨⟨m₀, h_start⟩, -⟩ := h_init
  exact ⟨_, _, StartedFrom.poolMap hL h_start⟩

/-- Equal numbers of bits. -/
theorem PoolMap.countSet_eq (h : PoolMap old nb ub m e 0 0)
    (hL : (memPools allMemory).Layout nb ub) :
    (memPools allMemory).kernelAddr.vaddrBitmap.countSet m
      = (memPools allMemory).kernelPool.poolBitmap.countSet m := by
  have h_count (btmp : Bitmap) (base : ℕ) (h_at : btmp.LiesAt base nb) :
      btmp.countSet m = ((Finset.range (8 * nb)).filter fun i => bitAt m base i = true).card := by
    rw [Bitmap.countSet, h_at.toNat_length]
    apply congrArg
    apply Finset.filter_congr
    intro i hi
    rw [h_at.bitSet_eq h.mapped (Finset.mem_range.mp hi)]
  rw [h_count _ _ hL.pages, h_count _ _ hL.frames]
  exact h.card_bits

/-- As long as a page is reserved and not mapped, there is a frame for it. -/
theorem PoolMap.supplied (h : PoolMap old nb ub m e lo hi)
    (hL : (memPools allMemory).Layout nb ub) (h_lt : lo < hi) :
    Supplied (memPools allMemory) m (pageAddr lo) := by
  obtain ⟨h_nb, -, h_frames, -⟩ := hL.bounds
  obtain ⟨h_lo, -⟩ := h.reserved lo le_rfl h_lt
  -- a reserved page without a frame means that a frame is free
  obtain ⟨f, hf, h_bit, h_run⟩ := palloc_run hL h.mapped (h.exists_clear h_lt)
  have h_mapped : Mapped (setBitAt m frameBits f) := h.mapped.store8 (by omega) _
  have h_nat := toNat_pageAddr (i := lo) (by omega)
  obtain ⟨d, h_d⟩ := Nat.exists_eq_add_of_le (show 768 ≤ (pageAddr lo).toNat / 2 ^ 22 by omega)
  have h_pde := h_mapped.directory d (by omega)
  rw [← h_d] at h_pde
  refine ⟨f, frameAddr f, _, _, hL.frames.toNat_length.symm ▸ hf, ?_, h_run, ?_,
    phys_ne (k := 0) (by omega) (by omega) (by omega),
    run_load32 (h_mapped.translate_pdePtr (pageAddr lo)) .ret, ?_⟩
  · rw [hL.frames.bitSet_eq h.mapped hf]
    exact h_bit
  · rw [hL.frame_start, show BitVec.ofNat 32 (f * 4096) = phys (f * 4096) from rfl, phys_add,
      frameAddr, Nat.add_mul]
  · change Present (ByteMemory.word _ _)
    rw [h_pde]
    exact present_entry

end

/-- **A reservation never runs out of frames.** After every call the two bitmaps have equally
many set bits. When `vaddr_get` has reserved pages, the loop finds a frame for each of
them and the call returns them. -/
theorem reservation_supplied (allMemory : BitVec 32) {st : MallocState}
    (h : (startedSys allMemory).Reachable st) :
    (memPools allMemory).kernelAddr.vaddrBitmap.countSet st.mem
      = (memPools allMemory).kernelPool.poolBitmap.countSet st.mem ∧
    ∀ n vaddr m, (startedSys allMemory).enabled st n →
      (vaddrGet (memPools allMemory) .pfKernel n).run kernelSem st.mem = .ok (vaddr, m) →
      vaddr ≠ null →
      (∀ k < n.toNat, ∃ mₖ,
        (mallocLoop (memPools allMemory) (memPools allMemory).kernelPool k vaddr).run kernelSem m
          = .ok (true, mₖ) ∧
        Supplied (memPools allMemory) mₖ (vaddr + BitVec.ofNat 32 (k * 4096))) ∧
      ∃ m', (mallocPage (memPools allMemory) .pfKernel n).run kernelSem st.mem
        = .ok (vaddr, m') := by
  obtain ⟨nb, ub, hL⟩ := memPools_layout allMemory
  obtain ⟨h_nb, -, -, -⟩ := hL.bounds
  obtain ⟨old, e, h_map⟩ := poolMap_of_reachable hL h
  refine ⟨h_map.countSet_eq hL, fun n vaddr m h_enabled h_get h_ne => ?_⟩
  obtain ⟨h_bounds, h_inside⟩ := h_enabled
  rcases vaddrGet_run hL h_map h_inside with ⟨err, h_run⟩ | h_run | ⟨r, m₁, h_run, h₁, h_fits⟩
  · -- the reservation has stopped or failed, against the hypothesis
    rw [h_run] at h_get
    cases h_get
  · rw [h_run] at h_get
    exact absurd (congrArg Prod.fst (Except.ok.inj h_get)).symm h_ne
  obtain ⟨rfl, rfl⟩ : pageAddr r = vaddr ∧ m₁ = m := by
    simpa using Except.ok.inj (h_run.symm.trans h_get)
  refine ⟨fun k hk => ?_, ?_⟩
  · -- after `k` rounds the pages from `r + k` up are still without frames
    obtain ⟨mₖ, eₖ, h_loop, hₖ, -⟩ := mallocLoop_run hL k h₁ (by omega)
    refine ⟨mₖ, h_loop, ?_⟩
    have h_addr : pageAddr r + BitVec.ofNat 32 (k * 4096) = pageAddr (r + k) := by
      rw [pageAddr, pageAddr, show BitVec.ofNat 32 (k * 4096) = phys (k * 4096) from rfl, phys_add,
        Nat.add_assoc, ← Nat.add_mul]
    rw [h_addr]
    exact hₖ.supplied hL (by omega)
  · -- and so the loop comes to its end
    obtain ⟨m', e', h_loop, -⟩ := mallocLoop_run hL n.toNat h₁ le_rfl
    refine ⟨m', ?_⟩
    unfold mallocPage
    rw [run_assert h_bounds, Prog.run_bind_of_ok kernelSem h_run, if_neg h_ne, MemPools.poolOf,
      Prog.run_bind_of_ok kernelSem h_loop, if_pos rfl]
    rfl

/-- With 2 MiB and 64 KiB of memory there are eight frames. One call has taken the first,
and one for two pages succeeds. -/
theorem reservation_supplied_eight :
    ∃ st : MallocState, st.returned = [(0xc0100000#32, 1#32)] ∧
      (memPools 0x210000#32).kernelAddr.vaddrBitmap.countSet st.mem
        = (memPools 0x210000#32).kernelPool.poolBitmap.countSet st.mem ∧
      ∃ m', (mallocPage (memPools 0x210000#32) .pfKernel 2#32).run kernelSem st.mem
        = .ok (0xc0101000#32, m') := by
  have h_play : (((startedSys 0x210000#32).play ⟨bootImage, []⟩ [1#32]).any fun st =>
      decide (st.returned = [(0xc0100000#32, 1#32)] ∧ (startedSys 0x210000#32).enabled st 2#32 ∧
        ((vaddrGet (memPools 0x210000#32) .pfKernel 2#32).run kernelSem st.mem).toOption.map
          Prod.fst = some 0xc0101000#32)) = true := by
    decide +kernel
  obtain ⟨st, h_st, h_eval⟩ := (Option.any_eq_true _ _).mp h_play
  obtain ⟨h_returned, h_enabled, h_at⟩ := of_decide_eq_true h_eval
  have h_init : (startedSys 0x210000#32).Reachable ⟨bootImage, []⟩ :=
    .init ⟨(booted_bootImage _).started, rfl⟩
  obtain ⟨h_count, h_next⟩ := reservation_supplied _ (h_init.play _ h_st)
  cases h_get : (vaddrGet (memPools 0x210000#32) .pfKernel 2#32).run kernelSem st.mem with
  | error e => rw [h_get] at h_at; cases h_at
  | ok r =>
    rw [h_get] at h_at
    obtain h_v : r.1 = 0xc0101000#32 := Option.some.inj h_at
    obtain ⟨-, h_run⟩ := h_next 2#32 r.1 r.2 h_enabled h_get (by rw [h_v]; decide)
    exact ⟨st, h_returned, h_count, h_v ▸ h_run⟩

end ToiletOS
