import ToiletOS.Framework.PartialEquiv
import ToiletOS.Mem.Memory

/-!
# The kernel's pages and the frames behind them

What the allocator is for is a partial bijection between pages and frames: a page that is
handed out has a frame of its own. It is kept in three places, the bitmap of the
pages, the bitmap of the frames and the page tables, and `KernelMap` says that all three
agree with one such bijection `e`. Within a call there are pages that are reserved and
not mapped yet; they are an interval, from `lo` to `hi`, that `vaddr_get` builds from
above and the loop of `malloc_page` uses up from below.

The functions follow with one specification each, of what they do when they run alone.
A page that is reserved has no frame, so there are more pages reserved than frames
taken and a frame is left for it (`PoolMap.exists_clear`).

All this counts bits and does not depend on what the tables held before, so it is said of
`PoolMap`, which has that as a parameter. `KernelMap` is the case of zeros: there a
page is mapped to its own frame.
-/

namespace ToiletOS

/-- The physical address of the bitmap of the kernel's frames. -/
def frameBits : ℕ := 0x9a000

/-- The physical address of the bitmap of the kernel's pages. -/
def pageBits (nb ub : ℕ) : ℕ := 0x9a000 + nb + ub

/-- The address of page `i` of the kernel's virtual pool. -/
def pageAddr (i : ℕ) : BitVec 32 := phys (0xc0100000 + i * 4096)

/-- The address of frame `f` of the kernel's pool. -/
def frameAddr (f : ℕ) : BitVec 32 := phys ((0x200 + f) * 4096)

/-- The numbers behind `Layout`. -/
theorem MemPools.Layout.bounds {pools : MemPools} {nb ub : ℕ} (hL : pools.Layout nb ub) :
    nb ≤ 4095 ∧ ub ≤ 4096 ∧ frameBits = 0x9a000 ∧ pageBits nb ub = 0x9a000 + nb + ub :=
  ⟨hL.nb_le, hL.ub_le, rfl, rfl⟩

/-- The bitmaps and the page tables hold the map `e` of pages to frames. The pages from `lo`
to `hi` are reserved, but not mapped. `page_table_add` keeps an entry that it finds present, so
the tables also depend on what they held before, which is `old`. -/
structure PoolMap (old : ℕ → BitVec 32) (nb ub : ℕ) (m : ByteMemory) (e : ℕ ≃. ℕ) (lo hi : ℕ) :
    Prop where
  mapped : Mapped m
  page_lt : ∀ i f, e i = some f → i < 8 * nb
  frame_lt : ∀ i f, e i = some f → f < 8 * nb
  page_bit : ∀ i < 8 * nb, bitAt m (pageBits nb ub) i = ((e i).isSome || decide (lo ≤ i ∧ i < hi))
  frame_bit : ∀ f < 8 * nb, bitAt m frameBits f = (e.symm f).isSome
  table : ∀ i < 8 * nb, m.word (tableAddr (256 + i))
    = (e i).elim (old i) fun f => if Present (old i) then old i else entry (0x200 + f)
  reserved : ∀ i, lo ≤ i → i < hi → i < 8 * nb ∧ e i = none

/-- The tables held zeros before. -/
abbrev KernelMap (nb ub : ℕ) (m : ByteMemory) (e : ℕ ≃. ℕ) (lo hi : ℕ) : Prop :=
  PoolMap (fun _ => 0#32) nb ub m e lo hi

/-- `page_table_add` keeps an entry that is present. -/
def addEntry (m : ByteMemory) (i f : ℕ) : ByteMemory :=
  if Present (m.word (tableAddr (256 + i))) then m
  else m.store32 (phys (tableAddr (256 + i))) (entry (0x200 + f))

section AddEntry

variable {m : ByteMemory} {i : ℕ}

theorem Mapped.addEntry (hm : Mapped m) (hi : 256 + i < 255 * 1024) (f : ℕ) :
    Mapped (addEntry m i f) := by
  unfold ToiletOS.addEntry
  split
  · exact hm
  · exact hm.store32 (by omega) (by omega) _

/-- A store to a table does not reach the bitmaps. -/
theorem bitAt_addEntry (m : ByteMemory) {base i j f : ℕ} (h : base + j / 8 < 0x100000)
    (hi : 256 + i < 255 * 1024) : bitAt (addEntry m i f) base j = bitAt m base j := by
  have h_table : tableAddr (256 + i) = 0x101000 + 4 * (256 + i) := rfl
  unfold addEntry
  split
  · rfl
  · exact bitAt_congr (m.byte_store32 _ (by omega) (by omega) (by omega))

/-- The other entries stay. -/
theorem word_addEntry (m : ByteMemory) {i j : ℕ} (hi : 256 + i < 255 * 1024)
    (hj : 256 + j < 255 * 1024) (f : ℕ) :
    (addEntry m i f).word (tableAddr (256 + j)) =
      if j = i ∧ ¬ Present (m.word (tableAddr (256 + i))) then entry (0x200 + f)
      else m.word (tableAddr (256 + j)) := by
  unfold addEntry
  by_cases h_present : Present (m.word (tableAddr (256 + i)))
  · rw [if_pos h_present, if_neg fun h => h.2 h_present]
  · rw [if_neg h_present, Mapped.word_store32 _ (by omega) (by omega)]
    by_cases h_j : j = i <;> simp [h_j, h_present]

end AddEntry

/-- An entry that was zero. -/
theorem PoolMap.entry_eq {nb ub : ℕ} {m : ByteMemory} {e : ℕ ≃. ℕ} {lo hi i : ℕ}
    (h : KernelMap nb ub m e lo hi) (h_i : i < 8 * nb) :
    m.word (tableAddr (256 + i)) = ((e i).map fun f => entry (0x200 + f)).getD 0#32 := by
  rw [h.table i h_i]
  cases e i with
  | none => rfl
  | some f =>
    change (if Present 0#32 then 0#32 else entry (0x200 + f)) = entry (0x200 + f)
    rw [if_neg not_present_zero]

namespace PoolMap

variable {old : ℕ → BitVec 32} {pools : MemPools} {nb ub : ℕ} {m : ByteMemory} {e : ℕ ≃. ℕ}
  {lo hi : ℕ}

/-- Between two calls it does not matter where the empty interval is. -/
theorem of_empty (h : PoolMap old nb ub m e lo lo) (i : ℕ) : PoolMap old nb ub m e i i where
  mapped := h.mapped
  page_lt := h.page_lt
  frame_lt := h.frame_lt
  page_bit j hj := by
    rw [h.page_bit j hj, decide_eq_false (by omega), decide_eq_false (by omega)]
  frame_bit := h.frame_bit
  table := h.table
  reserved _ _ _ := by omega

/-- **A frame is left.** As long as a page is reserved and not mapped, the bitmap of the
frames has a clear bit. -/
theorem exists_clear (h : PoolMap old nb ub m e lo hi) (h_lt : lo < hi) :
    ∃ f < 8 * nb, bitAt m frameBits f = false := by
  obtain ⟨h_lo, h_none⟩ := h.reserved lo le_rfl h_lt
  have h_card := e.card_domain h.page_lt h.frame_lt
  by_contra h_all
  push Not at h_all
  -- all frames are taken, but `lo` has none
  have h_frames : (Finset.range (8 * nb)).filter (fun f => (e.symm f).isSome) =
      Finset.range (8 * nb) := by
    apply Finset.filter_true_of_mem
    intro f hf
    rw [← h.frame_bit f (Finset.mem_range.mp hf)]
    simpa using h_all f (Finset.mem_range.mp hf)
  have h_pages : (Finset.range (8 * nb)).filter (fun i => (e i).isSome) ⊂
      Finset.range (8 * nb) := by
    refine Finset.filter_ssubset.mpr ⟨lo, Finset.mem_range.mpr h_lo, ?_⟩
    simp [h_none]
  have h_fewer := Finset.card_lt_card h_pages
  rw [h_card, h_frames] at h_fewer
  exact absurd h_fewer (Nat.lt_irrefl _)

/-- The two bitmaps have the same number of set bits. -/
theorem card_bits (h : PoolMap old nb ub m e lo lo) :
    ((Finset.range (8 * nb)).filter fun i => bitAt m (pageBits nb ub) i = true).card
      = ((Finset.range (8 * nb)).filter fun f => bitAt m frameBits f = true).card := by
  have h_pages : ∀ i ∈ Finset.range (8 * nb),
      (bitAt m (pageBits nb ub) i = true ↔ (e i).isSome = true) := by
    intro i hi
    rw [h.page_bit i (Finset.mem_range.mp hi), decide_eq_false (by omega), Bool.or_false]
  have h_frames : ∀ f ∈ Finset.range (8 * nb),
      (bitAt m frameBits f = true ↔ (e.symm f).isSome = true) := by
    intro f hf
    rw [h.frame_bit f (Finset.mem_range.mp hf)]
  rw [Finset.filter_congr h_pages, Finset.filter_congr h_frames]
  exact e.card_domain h.page_lt h.frame_lt

/-- Reserving the next page. -/
theorem reserve (h : PoolMap old nb ub m e lo hi) (hL : pools.Layout nb ub) (h_le : lo ≤ hi)
    (h_hi : hi < 8 * nb) (h_none : e hi = none) :
    PoolMap old nb ub (setBitAt m (pageBits nb ub) hi) e lo (hi + 1) := by
  obtain ⟨h_nb, h_ub, h_frames, h_pages⟩ := hL.bounds
  refine ⟨h.mapped.store8 (by omega) _, h.page_lt, h.frame_lt, fun i hi' => ?_, fun f hf => ?_,
    fun i hi' => ?_, fun i h_lo h_lt => ?_⟩
  · rw [bitAt_setBitAt m (by omega) (by omega), h.page_bit i hi']
    -- the bit of the page that is reserved now
    by_cases h_i : i = hi
    · subst h_i
      simp [h_le]
    · have h_same : decide (lo ≤ i ∧ i < hi + 1) = decide (lo ≤ i ∧ i < hi) :=
        decide_eq_decide.mpr (by omega)
      rw [h_same]
      simp [h_i]
  · rw [bitAt_setBitAt_of_ne m (by omega) (by omega) (by omega), h.frame_bit f hf]
  · rw [← h.table i hi']
    exact Mapped.word_store8 m (by omega) (by omega) _
  · rcases Nat.lt_succ_iff_lt_or_eq.mp h_lt with h_lt | rfl
    · exact h.reserved i h_lo h_lt
    · exact ⟨h_hi, h_none⟩

/-- Mapping the first reserved page to a frame that was free. -/
theorem map (h : PoolMap old nb ub m e lo hi) (hL : pools.Layout nb ub) (h_lt : lo < hi) {f : ℕ}
    (hf : f < 8 * nb) (h_none : e lo = none) (h_free : e.symm f = none) :
    PoolMap old nb ub (addEntry (setBitAt m frameBits f) lo f) (e.extend lo f h_none h_free)
      (lo + 1) hi := by
  obtain ⟨h_nb, h_ub, h_frames, h_pages⟩ := hL.bounds
  obtain ⟨h_lo, -⟩ := h.reserved lo le_rfl h_lt
  have h_mapped : Mapped (setBitAt m frameBits f) := h.mapped.store8 (by omega) _
  -- the bitmap is in the first MiB, and the tables lie behind it
  have h_word {i : ℕ} (hi' : i < 8 * nb) : (setBitAt m frameBits f).word (tableAddr (256 + i))
      = (e i).elim (old i) fun f => if Present (old i) then old i else entry (0x200 + f) :=
    (Mapped.word_store8 m (by omega) (by omega) _).trans (h.table i hi')
  refine ⟨h_mapped.addEntry (by omega) f, fun i g hg => ?_,
    fun i g hg => ?_, fun i hi' => ?_, fun g hg => ?_, fun i hi' => ?_, fun i h_ge h_lt' => ?_⟩
  · rw [PEquiv.extend_apply] at hg
    split at hg
    · next h_i => exact h_i ▸ h_lo
    · exact h.page_lt i g hg
  · rw [PEquiv.extend_apply] at hg
    split at hg
    · exact Option.some.inj hg ▸ hf
    · exact h.frame_lt i g hg
  · -- page_bit: the page was reserved, and has its frame now
    rw [bitAt_addEntry _ (by omega) (by omega),
      bitAt_setBitAt_of_ne m (by omega) (by omega) (by omega), h.page_bit i hi',
      PEquiv.extend_apply]
    by_cases h_i : i = lo
    · subst h_i
      simp [h_lt]
    · have h_same : decide (lo + 1 ≤ i ∧ i < hi) = decide (lo ≤ i ∧ i < hi) :=
        decide_eq_decide.mpr (by omega)
      rw [h_same]
      simp [h_i]
  · rw [bitAt_addEntry _ (by omega) (by omega), bitAt_setBitAt m (by omega) (by omega),
      h.frame_bit g hg, PEquiv.extend_symm_apply]
    by_cases h_g : g = f <;> simp [h_g]
  · rw [word_addEntry _ (by omega) (by omega), h_word h_lo, h_word hi', PEquiv.extend_apply, h_none]
    by_cases h_i : i = lo
    · -- the entry of this page, which is kept if it is present
      subst h_i
      by_cases h_present : Present (old i) <;> simp [h_present, h_none]
    · rw [if_neg fun h_and => h_i h_and.1, if_neg h_i]
  · obtain ⟨h_i, h_none'⟩ := h.reserved i (by omega) h_lt'
    rw [PEquiv.extend_apply, if_neg (by omega)]
    exact ⟨h_i, h_none'⟩

end PoolMap

/-! ### The functions, running alone -/

section Functions

variable {old : ℕ → BitVec 32} {pools : MemPools} {nb ub : ℕ} {m : ByteMemory} {e : ℕ ≃. ℕ}
  {lo hi : ℕ}

theorem phys_ne {n k : ℕ} (hn : n < 2 ^ 32) (hk : k < 2 ^ 32) (h : n ≠ k) : phys n ≠ phys k :=
  fun h_eq => h (by rw [← toNat_phys hn, h_eq, toNat_phys hk])

/-- The address that `palloc` returns. -/
theorem MemPools.Layout.frameAddr_eq (hL : pools.Layout nb ub) (f : ℕ) :
    phys f * pageSize + pools.kernelPool.phyAddrStart = frameAddr f := by
  rw [hL.frame_start, show phys f * pageSize = phys (f * 4096) from (BitVec.ofNat_mul ..).symm,
    phys_add, frameAddr, Nat.add_mul, Nat.add_comm]

/-- The address that `vaddr_get` returns. -/
theorem MemPools.Layout.pageAddr_eq (hL : pools.Layout nb ub) (i : ℕ) :
    pools.kernelAddr.vaddrStart + phys i * pageSize = pageAddr i := by
  rw [hL.page_start, pageAddr, ← phys_add,
    show phys (i * 4096) = phys i * pageSize from BitVec.ofNat_mul ..]

/-- `palloc` takes a frame that was free, if there is one. -/
theorem palloc_run (hL : pools.Layout nb ub) (hm : Mapped m)
    (h_clear : ∃ f < 8 * nb, bitAt m frameBits f = false) :
    ∃ f < 8 * nb, bitAt m frameBits f = false ∧
      (palloc pools.kernelPool).run kernelSem m = .ok (frameAddr f, setBitAt m frameBits f) := by
  obtain ⟨h_nb, -, -, -⟩ := hL.bounds
  obtain ⟨f, hf, h_bit, h_run⟩ := bitmapScan_one_run hL.frames hm h_clear
  refine ⟨f, hf, h_bit, ?_⟩
  have h_some : phys f ≠ -1#32 := phys_ne (k := 2 ^ 32 - 1) (by omega) (by omega) (by omega)
  rw [palloc, Prog.run_bind_of_ok kernelSem h_run, if_neg h_some,
    Prog.run_bind_of_ok kernelSem (bitmapSet_run hL.frames hm hf), hL.frameAddr_eq]
  rfl

/-- The two slots that `page_table_add` works on, and the entry it writes. -/
theorem Mapped.page_slots (hm : Mapped m) {i f : ℕ} (hi : 256 + i < 255 * 1024) (hf : f < 2 ^ 16) :
    (∃ p, translate m (pdePtr (pageAddr i)) = some p ∧ Present (m.load32 p)) ∧
      translate m (ptePtr (pageAddr i)) = some (phys (tableAddr (256 + i))) ∧
      frameAddr f ||| pgUsU ||| pgRwW ||| pgP = entry (0x200 + f) := by
  have h_nat : (pageAddr i).toNat = 0xc0100000 + i * 4096 := toNat_phys (by omega)
  have h_page : kernelPage (pageAddr i) = 256 + i := by
    rw [kernelPage, h_nat]
    omega
  refine ⟨⟨_, hm.translate_pdePtr (pageAddr i), ?_⟩, ?_, or_flags (by omega)⟩
  · -- the page is in one of the 255 tables of the kernel
    obtain ⟨d, h_d⟩ := Nat.exists_eq_add_of_le (show 768 ≤ (pageAddr i).toNat / 2 ^ 22 by omega)
    have h_pde : m.load32 (phys (dirAddr (768 + d))) = entry (0x101 + d) :=
      hm.directory d (by omega)
    rw [h_d, h_pde]
    exact present_entry
  · rw [← h_page]
    exact hm.translate_ptePtr (by omega) (by omega)

/-- `page_table_add` on a page that has a table. -/
theorem pageTableAdd_run (hm : Mapped m) {i f : ℕ} (hi : 256 + i < 255 * 1024) (hf : f < 2 ^ 16) :
    (pageTableAdd pools (pageAddr i) (frameAddr f)).run kernelSem m
      = .ok ((), addEntry m i f) := by
  obtain ⟨⟨p, h_p, h_pde⟩, h_pte, h_entry⟩ := hm.page_slots hi hf
  have h_word : m.load32 (phys (tableAddr (256 + i))) = m.word (tableAddr (256 + i)) := rfl
  unfold pageTableAdd
  dsimp only
  rw [run_load32 h_p, if_pos h_pde, run_load32 h_pte, addEntry, h_word]
  by_cases h_present : Present (m.word (tableAddr (256 + i)))
  · rw [if_pos h_present, if_neg (not_not.mpr h_present)]
    rfl
  · rw [if_neg h_present, if_pos h_present, run_store32 h_pte, h_entry]

/-- One round of the loop of `malloc_page`. -/
theorem PoolMap.map_next (h : PoolMap old nb ub m e lo hi) (hL : pools.Layout nb ub)
    (h_lt : lo < hi) :
    ∃ f m₁ m₂ e', (palloc pools.kernelPool).run kernelSem m = .ok (frameAddr f, m₁) ∧
      frameAddr f ≠ null ∧ Mapped m₁ ∧
      (pageTableAdd pools (pageAddr lo) (frameAddr f)).run kernelSem m₁ = .ok ((), m₂) ∧
      PoolMap old nb ub m₂ e' (lo + 1) hi ∧ e' lo = some f ∧ ∀ i, i ≠ lo → e' i = e i := by
  obtain ⟨h_nb, -, h_frames, -⟩ := hL.bounds
  obtain ⟨h_lo, h_none⟩ := h.reserved lo le_rfl h_lt
  obtain ⟨f, hf, h_bit, h_run⟩ := palloc_run hL h.mapped (h.exists_clear h_lt)
  -- a clear bit means that no page has the frame
  have h_free : e.symm f = none := by
    rw [h.frame_bit f hf] at h_bit
    simpa using h_bit
  have h_mapped : Mapped (setBitAt m frameBits f) := h.mapped.store8 (by omega) _
  refine ⟨f, _, _, e.extend lo f h_none h_free, h_run,
    phys_ne (k := 0) (by omega) (by omega) (by omega), h_mapped,
    pageTableAdd_run h_mapped (by omega) (by omega),
    h.map hL h_lt hf h_none h_free, ?_, fun i hi => ?_⟩
  · rw [PEquiv.extend_apply, if_pos rfl]
  · rw [PEquiv.extend_apply, if_neg hi]

theorem pageAddr_succ (i : ℕ) : pageAddr i + pageSize = pageAddr (i + 1) := by
  rw [pageAddr, pageAddr, show pageSize = phys 4096 from rfl, phys_add,
    show 0xc0100000 + (i + 1) * 4096 = 0xc0100000 + i * 4096 + 4096 by ring]

/-- The loop of `malloc_page` maps the reserved pages. -/
theorem mallocLoop_run (hL : pools.Layout nb ub) (count : ℕ)
    (h : PoolMap old nb ub m e lo hi) (h_count : lo + count ≤ hi) :
    ∃ m' e', (mallocLoop pools pools.kernelPool count (pageAddr lo)).run kernelSem m
        = .ok (true, m') ∧
      PoolMap old nb ub m' e' (lo + count) hi ∧
      (∀ i, lo ≤ i → i < lo + count → (e' i).isSome) ∧
      ∀ i, i < lo ∨ lo + count ≤ i → e' i = e i := by
  induction count generalizing m e lo with
  | zero => exact ⟨m, e, rfl, h, fun i _ _ => by omega, fun _ _ => rfl⟩
  | succ count ih =>
    obtain ⟨f, m₁, m₂, e₂, h_palloc, h_ne, -, h_add, h₂, h_lo, h_other⟩ :=
      h.map_next hL (by omega)
    obtain ⟨m', e', h_run, h', h_some, h_same⟩ := ih h₂ (by omega)
    refine ⟨m', e', ?_, ?_, fun i h_ge h_lt => ?_, fun i h_out => ?_⟩
    · rw [mallocLoop, Prog.run_bind_of_ok kernelSem h_palloc, if_neg h_ne,
        Prog.run_bind_of_ok kernelSem h_add, pageAddr_succ]
      exact h_run
    · rw [show lo + (count + 1) = lo + 1 + count by omega]
      exact h'
    · -- the page of this round, and those of the rounds after it
      by_cases h_i : i = lo
      · rw [h_i, h_same lo (by omega), h_lo]
        rfl
      · exact h_some i (by omega) (by omega)
    · rw [h_same i (by omega), h_other i (by omega)]

/-- The loop of `vaddr_get` reserves the run that was found. -/
theorem vaddrSet_run (hL : pools.Layout nb ub) {left : ℕ} (lo count : ℕ)
    (h : PoolMap old nb ub m e lo (lo + count)) (h_fits : lo + count + left ≤ 8 * nb)
    (h_none : ∀ i, lo + count ≤ i → i < lo + count + left → e i = none) :
    ∃ m', (vaddrSet pools.kernelAddr.vaddrBitmap (phys lo) left (phys count)).run kernelSem m
        = .ok ((), m') ∧ PoolMap old nb ub m' e lo (lo + count + left) := by
  induction left generalizing m count with
  | zero => exact ⟨m, rfl, h⟩
  | succ left ih =>
    have h_set : (bitmapSet pools.kernelAddr.vaddrBitmap (phys lo + phys count) 1#8).run kernelSem m
        = .ok ((), setBitAt m (pageBits nb ub) (lo + count)) := by
      rw [phys_add]
      exact bitmapSet_run hL.pages h.mapped (by omega)
    -- one more page is reserved
    have h_next := h.reserve hL (by omega) (by omega) (h_none _ le_rfl (by omega))
    obtain ⟨m', h_run, h'⟩ := ih (count + 1) h_next (by omega)
      fun i h_ge h_lt => h_none i (by omega) (by omega)
    refine ⟨m', ?_, ?_⟩
    · rw [vaddrSet, Prog.run_bind_of_ok kernelSem h_set,
        show phys count + 1#32 = phys (count + 1) from phys_add count 1]
      exact h_run
    · rw [show lo + count + (left + 1) = lo + (count + 1) + left by omega]
      exact h'

/-- The run that `vaddr_get` chooses, if it chooses one, lies inside the bitmap of the
kernel's pages. -/
def RunInside (pools : MemPools) (m : ByteMemory) (pgCount : BitVec 32) : Prop :=
  match (bitmapScan pools.kernelAddr.vaddrBitmap pgCount).run kernelSem m with
  | .ok (r, _) => r ≠ -1#32 →
      r.toNat + pgCount.toNat ≤ 8 * pools.kernelAddr.vaddrBitmap.btmpBytesLen.toNat
  | .error _ => True

instance (pools : MemPools) (m : ByteMemory) (pgCount : BitVec 32) :
    Decidable (RunInside pools m pgCount) := by
  unfold RunInside
  split <;> infer_instance

/-- `vaddr_get` stops or fails, or reserves pages that were free. -/
theorem vaddrGet_run (hL : pools.Layout nb ub) (h : PoolMap old nb ub m e 0 0) {n : BitVec 32}
    (h_inside : RunInside pools m n) :
    (∃ err, (vaddrGet pools .pfKernel n).run kernelSem m = .error err) ∨
    (vaddrGet pools .pfKernel n).run kernelSem m = .ok (null, m) ∨
    ∃ r m', (vaddrGet pools .pfKernel n).run kernelSem m = .ok (pageAddr r, m') ∧
      PoolMap old nb ub m' e r (r + n.toNat) ∧ r + n.toNat ≤ 8 * nb := by
  obtain ⟨h_nb, -, -, h_pages⟩ := hL.bounds
  simp only [vaddrGet]
  rcases bitmapScan_run hL.pages h.mapped n with ⟨err, h_run⟩ | ⟨r, h_run, h_clear⟩
  · left
    refine ⟨err, ?_⟩
    rw [Prog.run_bind, h_run]
    rfl
  right
  rw [Prog.run_bind_of_ok kernelSem h_run]
  by_cases h_fail : r = -1#32
  · left
    rw [if_pos h_fail]
    rfl
  right
  have h_fits : r.toNat + n.toNat ≤ 8 * nb := by
    simp only [RunInside, h_run, hL.pages.toNat_length] at h_inside
    exact h_inside h_fail
  -- the run is clear, so its pages have no frames
  have h_none (i : ℕ) (h_ge : r.toNat ≤ i) (h_lt : i < r.toNat + n.toNat) : e i = none := by
    have h_bit := h_clear h_fail (i - r.toNat) (by omega)
    have h_nat : (r + phys (i - r.toNat)).toNat = i := by
      rw [BitVec.toNat_add, toNat_phys (by omega)]
      omega
    rw [ClearWithin, h_nat] at h_bit
    have h_page := h.page_bit i (by omega)
    rw [pageBits, h_bit (by omega)] at h_page
    simpa using h_page.symm
  -- the loop of `vaddr_get` reserves them
  obtain ⟨m', h_set, h'⟩ := vaddrSet_run hL r.toNat 0
    (h.of_empty r.toNat) h_fits h_none
  rw [phys_toNat, show phys 0 = 0#32 from rfl] at h_set
  refine ⟨r.toNat, m', ?_, h', h_fits⟩
  have h_addr : pools.kernelAddr.vaddrStart + r * pageSize = pageAddr r.toNat := by
    rw [← hL.pageAddr_eq, phys_toNat]
  rw [if_neg h_fail, Prog.run_bind_of_ok kernelSem h_set, h_addr]
  rfl

/-- **`malloc_page`.** A call stops or fails, or all its pages are mapped to frames
that were free. -/
theorem mallocPage_run (hL : pools.Layout nb ub) (h : PoolMap old nb ub m e 0 0) {n : BitVec 32}
    (h_pos : 0#32 < n) (h_max : n < 3840#32) (h_inside : RunInside pools m n) :
    (∃ err, (mallocPage pools .pfKernel n).run kernelSem m = .error err) ∨
    (mallocPage pools .pfKernel n).run kernelSem m = .ok (null, m) ∨
    ∃ r m' e', (mallocPage pools .pfKernel n).run kernelSem m = .ok (pageAddr r, m') ∧
      r + n.toNat ≤ 8 * nb ∧ PoolMap old nb ub m' e' 0 0 ∧
      (∀ i, r ≤ i → i < r + n.toNat → e i = none ∧ (e' i).isSome) ∧
      ∀ i, i < r ∨ r + n.toNat ≤ i → e' i = e i := by
  obtain ⟨h_nb, -, -, -⟩ := hL.bounds
  unfold mallocPage
  rw [run_assert ⟨h_pos, h_max⟩]
  rcases vaddrGet_run hL h h_inside with ⟨err, h_run⟩ | h_run | ⟨r, m₁, h_run, h₁, h_fits⟩
  · left
    refine ⟨err, ?_⟩
    rw [Prog.run_bind, h_run]
    rfl
  · right; left
    rw [Prog.run_bind_of_ok kernelSem h_run, if_pos rfl]
    rfl
  · right; right
    -- every page of the run gets a frame, and none is left reserved
    obtain ⟨m', e', h_loop, h', h_some, h_same⟩ := mallocLoop_run hL n.toNat h₁ le_rfl
    refine ⟨r, m', e', ?_, h_fits, h'.of_empty 0, fun i h_ge h_lt => ?_, h_same⟩
    · have h_ne : pageAddr r ≠ null := phys_ne (k := 0) (by omega) (by omega) (by omega)
      rw [Prog.run_bind_of_ok kernelSem h_run, if_neg h_ne, MemPools.poolOf,
        Prog.run_bind_of_ok kernelSem h_loop, if_pos rfl]
      rfl
    · exact ⟨(h₁.reserved i h_ge h_lt).2, h_some i h_ge h_lt⟩

end Functions
end ToiletOS
