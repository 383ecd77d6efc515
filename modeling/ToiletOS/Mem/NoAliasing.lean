import ToiletOS.Framework.Machine
import ToiletOS.Mem.Boot

/-!
# Kernel pages do not share frames

`mallocSys` makes one call of `malloc_page(PF_KERNEL, n)` after another, from the memory
that `setup_page` and `mem_pool_init` leave, and records what they return. A call is enabled
when its argument passes the assertion and the run it is going to choose lies inside
the bitmap of the pages.

Every state of a run holds a `KernelMap` in which the pages that were returned are mapped
(`MallocInv`). That pages of different calls differ and that no two pages share a frame
follows from this and from the map being a partial bijection (`notAliased_of_inv`).
-/

namespace ToiletOS

/-- The memory between two calls, and the results of the calls so far that succeeded. -/
structure MallocState where
  mem : ByteMemory
  returned : List (BitVec 32 × BitVec 32)

/-- Calls of `malloc_page(PF_KERNEL, n)` one after another, from page tables that were zero. -/
def mallocSys (allMemory : BitVec 32) : Machine MallocState (BitVec 32) Halt where
  init st := Booted allMemory st.mem ∧ st.returned = []
  enabled st n := (0#32 < n ∧ n < 3840#32) ∧ RunInside (memPools allMemory) st.mem n
  exec st n :=
    match (mallocPage (memPools allMemory) .pfKernel n).run kernelSem st.mem with
    | .ok (vaddr, m) =>
      .ok ⟨m, if vaddr = null then st.returned else st.returned ++ [(vaddr, n)]⟩
    | .error e => .error e

instance (allMemory : BitVec 32) (st : MallocState) (n : BitVec 32) :
    Decidable ((mallocSys allMemory).enabled st n) :=
  inferInstanceAs (Decidable ((0#32 < n ∧ n < 3840#32) ∧ RunInside _ st.mem n))

/-- The range of addresses of a call ends before that of another one starts, or the other
way round. -/
def RangesDisjoint (a b : BitVec 32 × BitVec 32) : Prop :=
  a.1.toNat + a.2.toNat * 4096 ≤ b.1.toNat ∨ b.1.toNat + b.2.toNat * 4096 ≤ a.1.toNat

/-- The page at `vaddr` belongs to a range that a call has returned. -/
def MallocState.HandedOut (st : MallocState) (vaddr : BitVec 32) : Prop :=
  ∃ start n, (start, n) ∈ st.returned ∧ ∃ k < n.toNat, vaddr = start + BitVec.ofNat 32 (k * 4096)

/-- The word `*pte_ptr(vaddr)`. -/
def pteOf (m : ByteMemory) (vaddr : BitVec 32) : Option (BitVec 32) :=
  (translate m (ptePtr vaddr)).map m.load32

/-- Kernel pages are not aliased. -/
structure NotAliased (pools : MemPools) (st : MallocState) : Prop where
  disjoint : st.returned.Pairwise RangesDisjoint
  /-- A page has a present entry, and it leads to a frame of the kernel's pool that is taken. -/
  backed : ∀ v, st.HandedOut v → ∃ w a, pteOf st.mem v = some w ∧ Present w ∧
    translate st.mem v = some a ∧ a.toNat % 4096 = 0 ∧
    pools.kernelPool.phyAddrStart.toNat ≤ a.toNat ∧
    a.toNat + 4096 ≤ pools.kernelPool.phyAddrStart.toNat + pools.kernelPool.poolSize.toNat ∧
    pools.kernelPool.poolBitmap.bitSet st.mem
      ((a.toNat - pools.kernelPool.phyAddrStart.toNat) / 4096) = true
  unshared : ∀ v w, st.HandedOut v → st.HandedOut w → v ≠ w →
    translate st.mem v ≠ translate st.mem w
  /-- An entry of the kernel's virtual pool is present only if its page is reserved. -/
  reserved : ∀ v : BitVec 32, kHeadStart ≤ v →
    v.toNat < kHeadStart.toNat + 8 * pools.kernelAddr.vaddrBitmap.btmpBytesLen.toNat * 4096 →
    (∃ w, pteOf st.mem v = some w ∧ Present w) →
    pools.kernelAddr.vaddrBitmap.bitSet st.mem ((v.toNat - kHeadStart.toNat) / 4096) = true

/-! ### The invariant -/

/-- The memory holds a map, and the pages that were returned are mapped. -/
structure MallocInv (nb ub : ℕ) (e : ℕ ≃. ℕ) (st : MallocState) : Prop where
  map : KernelMap nb ub st.mem e 0 0
  returned : ∀ x ∈ st.returned, 0 < x.2.toNat ∧ ∃ r, x.1 = pageAddr r ∧
    r + x.2.toNat ≤ 8 * nb ∧ ∀ i, r ≤ i → i < r + x.2.toNat → (e i).isSome
  disjoint : st.returned.Pairwise RangesDisjoint

section Inv

variable {allMemory : BitVec 32} {nb ub : ℕ} {e : ℕ ≃. ℕ} {st st' : MallocState}

theorem toNat_pageAddr {i : ℕ} (hi : i < 2 ^ 16) : (pageAddr i).toNat = 0xc0100000 + i * 4096 :=
  toNat_phys (by omega)

/-- What a call does to the invariant. -/
theorem mallocInv_step (hL : (memPools allMemory).Layout nb ub) (h : MallocInv nb ub e st)
    {n : BitVec 32} (h_step : (mallocSys allMemory).Step st n st') :
    ∃ e', MallocInv nb ub e' st' := by
  obtain ⟨h_nb, -, -, -⟩ := hL.bounds
  obtain ⟨⟨⟨h_pos, h_max⟩, h_inside⟩, h_exec⟩ := h_step
  simp only [mallocSys] at h_exec
  rcases mallocPage_run hL h.map h_pos h_max h_inside with
    ⟨err, h_run⟩ | h_run | ⟨r, m', e', h_run, h_fits, h_map, h_new, h_old⟩
  · rw [h_run] at h_exec
    cases h_exec
  · -- the call fails and has changed nothing
    rw [h_run] at h_exec
    obtain rfl := Except.ok.inj h_exec
    exact ⟨e, h.map, by simpa using h.returned, by simpa using h.disjoint⟩
  · have h_ne : pageAddr r ≠ null := phys_ne (k := 0) (by omega) (by omega) (by omega)
    have h_n : 0 < n.toNat := h_pos
    rw [h_run] at h_exec
    simp only [if_neg h_ne] at h_exec
    obtain rfl := Except.ok.inj h_exec
    refine ⟨e', h_map, fun x hx => ?_, ?_⟩
    · rcases List.mem_append.mp hx with hx | hx
      · obtain ⟨h_x, r', h_start, h_lt, h_some⟩ := h.returned x hx
        refine ⟨h_x, r', h_start, h_lt, fun i h_ge h_i => ?_⟩
        -- a page that was mapped is none of the new ones
        by_cases h_in : r ≤ i ∧ i < r + n.toNat
        · exact (h_new i h_in.1 h_in.2).2
        · rw [h_old i (by omega)]
          exact h_some i h_ge h_i
      · obtain rfl := List.mem_singleton.mp hx
        exact ⟨h_n, r, rfl, h_fits, fun i h_ge h_i => (h_new i h_ge h_i).2⟩
    · refine List.pairwise_append.mpr ⟨h.disjoint, List.pairwise_singleton _ _, ?_⟩
      intro x hx y hy
      obtain rfl := List.mem_singleton.mp hy
      obtain ⟨h_x, r', h_start, h_lt, h_some⟩ := h.returned x hx
      have h_apart : r' + x.2.toNat ≤ r ∨ r + n.toNat ≤ r' := by
        by_contra h_meet
        -- the larger of the two starts is a page of both
        have h_old_page := h_some (max r r') (by omega) (by omega)
        have h_new_page := (h_new (max r r') (by omega) (by omega)).1
        rw [h_new_page] at h_old_page
        cases h_old_page
      rw [RangesDisjoint, h_start, toNat_pageAddr (by omega), toNat_pageAddr (by omega)]
      dsimp only
      omega

/-- The invariant holds in every state of a run. -/
theorem mallocInv_of_reachable (hL : (memPools allMemory).Layout nb ub)
    (h : (mallocSys allMemory).Reachable st) : ∃ e, MallocInv nb ub e st := by
  refine h.invariant (P := fun st => ∃ e, MallocInv nb ub e st) (fun st h_init => ?_)
    fun st n st' h_inv h_step => ?_
  · obtain ⟨h_boot, h_nil⟩ := h_init
    exact ⟨⊥, h_boot.kernelMap hL, by simp [h_nil], by simp [h_nil]⟩
  · obtain ⟨e, h_e⟩ := h_inv
    exact mallocInv_step hL h_e h_step

/-! ### What follows from it -/

/-- The entry of a page of the kernel's virtual pool. -/
theorem PoolMap.pteOf_eq {m : ByteMemory} {lo hi : ℕ} (h : KernelMap nb ub m e lo hi)
    (hL : (memPools allMemory).Layout nb ub) {v : BitVec 32} {i : ℕ} (hi : i < 8 * nb)
    (h_v : kernelPage v = 256 + i) (h_ge : 0xc0000000 ≤ v.toNat) :
    pteOf m v = some (((e i).map fun f => entry (0x200 + f)).getD 0#32) := by
  obtain ⟨h_nb, -, -, -⟩ := hL.bounds
  have h_lt : v.toNat < 0xffc00000 := by
    rw [kernelPage] at h_v
    omega
  rw [pteOf, h.mapped.translate_ptePtr h_ge h_lt, h_v, Option.map_some]
  exact congrArg some (h.entry_eq hi)

/-- A page of the map leads to its frame. -/
theorem PoolMap.translate_pageAddr {m : ByteMemory} {lo hi : ℕ} (h : KernelMap nb ub m e lo hi)
    (hL : (memPools allMemory).Layout nb ub) {i f : ℕ} (h_some : e i = some f) :
    translate m (pageAddr i) = some (frameAddr f) := by
  obtain ⟨h_nb, -, -, -⟩ := hL.bounds
  have h_i := h.page_lt i f h_some
  have h_f := h.frame_lt i f h_some
  have h_nat := toNat_pageAddr (i := i) (by omega)
  have h_entry : m.word (tableAddr (kernelPage (pageAddr i))) = entry (0x200 + f) := by
    rw [kernelPage, h_nat, show (0xc0100000 + i * 4096 - 0xc0000000) / 4096 = 256 + i by omega,
      h.entry_eq h_i, h_some]
    rfl
  rw [h.mapped.translate_eq (by omega) (by omega), h_entry, if_pos present_entry,
    frameOf_entry (by omega), h_nat, show (0xc0100000 + i * 4096) % 4096 = 0 by omega,
    Nat.add_zero, frameAddr]

/-- A page that was handed out is a page of the map. -/
theorem MallocInv.handedOut (h : MallocInv nb ub e st) {v : BitVec 32} (h_v : st.HandedOut v) :
    ∃ i f, v = pageAddr i ∧ e i = some f := by
  obtain ⟨start, n, h_mem, k, hk, rfl⟩ := h_v
  obtain ⟨-, r, h_start, -, h_some⟩ := h.returned _ h_mem
  obtain ⟨f, h_f⟩ := Option.isSome_iff_exists.mp (h_some (r + k) (by omega) (by simpa using hk))
  refine ⟨r + k, f, ?_, h_f⟩
  rw [show start = pageAddr r from h_start, pageAddr, pageAddr,
    show BitVec.ofNat 32 (k * 4096) = phys (k * 4096) from rfl, phys_add, Nat.add_assoc,
    ← Nat.add_mul]

/-- The address of a frame, as a number. -/
theorem toNat_frameAddr (hL : (memPools allMemory).Layout nb ub) {f : ℕ} (hf : f < 8 * nb) :
    (frameAddr f).toNat = 0x200000 + f * 4096 := by
  obtain ⟨h_nb, -, -, -⟩ := hL.bounds
  rw [frameAddr, toNat_phys (by omega)]
  omega

/-- A page of the map has a present entry, and it leads to a frame of the pool that is taken. -/
theorem PoolMap.backed (hL : (memPools allMemory).Layout nb ub) {m : ByteMemory}
    (h : KernelMap nb ub m e 0 0) {i f : ℕ} (h_some : e i = some f) :
    ∃ w a, pteOf m (pageAddr i) = some w ∧ Present w ∧
      translate m (pageAddr i) = some a ∧ a.toNat % 4096 = 0 ∧
      (memPools allMemory).kernelPool.phyAddrStart.toNat ≤ a.toNat ∧
      a.toNat + 4096 ≤ (memPools allMemory).kernelPool.phyAddrStart.toNat +
        (memPools allMemory).kernelPool.poolSize.toNat ∧
      (memPools allMemory).kernelPool.poolBitmap.bitSet m
        ((a.toNat - (memPools allMemory).kernelPool.phyAddrStart.toNat) / 4096) = true := by
  obtain ⟨h_nb, -, -, -⟩ := hL.bounds
  have h_start : (memPools allMemory).kernelPool.phyAddrStart.toNat = 0x200000 := by
    rw [hL.frame_start, toNat_phys (by omega)]
  have h_i := h.page_lt i f h_some
  have h_f := h.frame_lt i f h_some
  have h_frame := toNat_frameAddr hL h_f
  have h_nat := toNat_pageAddr (i := i) (by omega)
  have h_page : kernelPage (pageAddr i) = 256 + i := by
    rw [kernelPage, h_nat]
    omega
  have h_size := hL.frame_size
  refine ⟨entry (0x200 + f), frameAddr f, ?_, present_entry, h.translate_pageAddr hL h_some, ?_,
    ?_, ?_, ?_⟩
  · rw [h.pteOf_eq hL h_i h_page (by omega), h_some]
    rfl
  · rw [h_frame]
    omega
  · rw [h_frame, h_start]
    omega
  · rw [h_frame, h_start]
    have h_le : (f + 1) * 4096 ≤ 8 * nb * 4096 := Nat.mul_le_mul_right _ h_f
    omega
  · -- the bit of a frame that has a page is set
    rw [h_frame, h_start, Nat.add_sub_cancel_left, Nat.mul_div_cancel f (by decide),
      hL.frames.bitSet_eq h.mapped h_f]
    have h_bit := h.frame_bit f h_f
    rw [(e.eq_some_iff).mpr h_some] at h_bit
    exact h_bit

/-- Two pages with one address are one page, because a frame belongs to one page. -/
theorem PoolMap.page_unique (hL : (memPools allMemory).Layout nb ub) {m : ByteMemory}
    (h : KernelMap nb ub m e 0 0) {i j f g : ℕ} (h_i : e i = some f) (h_j : e j = some g)
    (h_eq : translate m (pageAddr i) = translate m (pageAddr j)) : i = j := by
  rw [h.translate_pageAddr hL h_i, h.translate_pageAddr hL h_j] at h_eq
  have h_nat : (frameAddr f).toNat = (frameAddr g).toNat :=
    congrArg BitVec.toNat (Option.some.inj h_eq)
  rw [toNat_frameAddr hL (h.frame_lt i f h_i), toNat_frameAddr hL (h.frame_lt j g h_j)] at h_nat
  obtain rfl : f = g := by omega
  exact e.inj h_i h_j

/-- An entry that is present is that of a page with a frame, and such a page is reserved. -/
theorem PoolMap.reserved_of_present (hL : (memPools allMemory).Layout nb ub) {m : ByteMemory}
    (h : KernelMap nb ub m e 0 0) {v w : BitVec 32} (h_ge : kHeadStart ≤ v)
    (h_lt : v.toNat < kHeadStart.toNat +
      8 * (memPools allMemory).kernelAddr.vaddrBitmap.btmpBytesLen.toNat * 4096)
    (h_pte : pteOf m v = some w) (h_present : Present w) :
    (memPools allMemory).kernelAddr.vaddrBitmap.bitSet m
      ((v.toNat - kHeadStart.toNat) / 4096) = true := by
  obtain ⟨h_nb, -, -, -⟩ := hL.bounds
  have h_kHead : kHeadStart.toNat = 0xc0100000 := rfl
  have h_ge' : 0xc0100000 ≤ v.toNat := h_ge
  rw [hL.pages.toNat_length, h_kHead] at h_lt
  rw [h_kHead]
  have h_i : (v.toNat - 0xc0100000) / 4096 < 8 * nb := by omega
  have h_page : kernelPage v = 256 + (v.toNat - 0xc0100000) / 4096 := by
    rw [kernelPage]
    omega
  rw [h.pteOf_eq hL h_i h_page (by omega), Option.some.injEq] at h_pte
  rw [hL.pages.bitSet_eq h.mapped h_i]
  have h_bit := h.page_bit _ h_i
  cases h_e : e ((v.toNat - 0xc0100000) / 4096) with
  | none =>
    rw [h_e] at h_pte
    obtain rfl : 0#32 = w := h_pte
    exact absurd h_present not_present_zero
  | some f =>
    rw [h_e] at h_bit
    exact h_bit

theorem notAliased_of_inv (hL : (memPools allMemory).Layout nb ub) (h : MallocInv nb ub e st) :
    NotAliased (memPools allMemory) st := by
  refine ⟨h.disjoint, fun v h_v => ?_, fun v w h_v h_w h_ne h_eq => ?_,
    fun v h_ge h_lt ⟨w, h_pte, h_present⟩ => ?_⟩
  · obtain ⟨i, f, rfl, h_some⟩ := h.handedOut h_v
    exact h.map.backed hL h_some
  · obtain ⟨i, f, rfl, h_i⟩ := h.handedOut h_v
    obtain ⟨j, g, rfl, h_j⟩ := h.handedOut h_w
    exact h_ne (congrArg pageAddr (h.map.page_unique hL h_i h_j h_eq))
  · exact h.map.reserved_of_present hL h_ge h_lt h_pte h_present

end Inv

/-- **No aliasing of kernel pages**, in every state that calls of `malloc_page` lead to. -/
theorem kernel_pages_not_aliased (allMemory : BitVec 32) {st : MallocState}
    (h : (mallocSys allMemory).Reachable st) : NotAliased (memPools allMemory) st := by
  obtain ⟨nb, ub, hL⟩ := memPools_layout allMemory
  obtain ⟨e, h_e⟩ := mallocInv_of_reachable hL h
  exact notAliased_of_inv hL h_e

/-- Two calls with 32 MiB of memory. -/
theorem kernel_pages_not_aliased_two :
    ∃ st, (mallocSys 0x2000000#32).Reachable st ∧
      st.returned = [(0xc0100000#32, 1#32), (0xc0101000#32, 2#32)] ∧
      NotAliased (memPools 0x2000000#32) st := by
  have h_play : (((mallocSys 0x2000000#32).play ⟨bootImage, []⟩ [1#32, 2#32]).any fun st =>
      decide (st.returned = [(0xc0100000#32, 1#32), (0xc0101000#32, 2#32)])) = true := by
    decide +kernel
  obtain ⟨st, h_st, h_returned⟩ := (Option.any_eq_true _ _).mp h_play
  have h_init : (mallocSys 0x2000000#32).Reachable ⟨bootImage, []⟩ :=
    .init ⟨booted_bootImage _, rfl⟩
  have h_reach := h_init.play _ h_st
  exact ⟨st, h_reach, of_decide_eq_true h_returned, kernel_pages_not_aliased _ h_reach⟩

end ToiletOS
