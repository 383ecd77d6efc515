import ToiletOS.Mem.NoAliasing

/-!
# Allocations that fail, without assertions

With `NDEBUG` defined, `ASSERT` is nothing (`debug.h`), and the functions of the allocator are
those of the namespace `NDebug`. They differ from the others in the full bitmap, at which
`bitmap_scan` now returns -1 and does not stop.

`malloc_page` reserves its pages first, and takes the frames one by one. When the frames run out it
returns `NULL` with the pages reserved and some of them mapped. So a call that fails leaves
no trace only if it fails before that (`failed_alloc_traceless_iff`). Nothing is assumed of the
bitmaps and of the tables behind the first 256 entries.
-/

namespace ToiletOS

/-! ### The functions without assertions -/

namespace NDebug

/-- `memset`. -/
def memset (dest : BitVec 32) (val : BitVec 8) (len : BitVec 32) : Kern Unit :=
  Kern.memsetLoop val len.toNat dest

/-- `bitmap_scan`, from the end of the first loop. -/
def scanRest (btmp : Bitmap) (cnt idxByte : BitVec 32) : Kern (BitVec 32) :=
  if idxByte = btmp.btmpBytesLen then return -1#32
  else do
    Kern.record (.found btmp)
    let idxBit ← scanBits btmp idxByte 8 0#32
    let bitIdxStart := idxByte * 8#32 + idxBit
    if cnt = 1#32 then return bitIdxStart
    else
      let bitLeft := (btmp.btmpBytesLen - bitIdxStart) * 8#32 - idxBit
      scanRun btmp cnt bitLeft.toNat (bitIdxStart + 1#32) 1#32

/-- `bitmap_scan`. -/
def bitmapScan (btmp : Bitmap) (cnt : BitVec 32) : Kern (BitVec 32) := do
  let idxByte ← scanBytes btmp btmp.btmpBytesLen.toNat 0#32
  scanRest btmp cnt idxByte

/-- `bitmap_set`. -/
def bitmapSet (btmp : Bitmap) (bitIdx : BitVec 32) (value : BitVec 8) : Kern Unit := do
  let byteIdx := bitIdx / 8#32
  let bitOdd := bitIdx % 8#32
  let byte ← Kern.load8 (btmp.bits + byteIdx)
  if value ≠ 0#8 then Kern.store8 (btmp.bits + byteIdx) (byte ||| bitmapMask bitOdd)
  else Kern.store8 (btmp.bits + byteIdx) (byte &&& ~~~bitmapMask bitOdd)

/-- The loop of `vaddr_get`. -/
def vaddrSet (btmp : Bitmap) (bitIdxStart : BitVec 32) : ℕ → BitVec 32 → Kern Unit
  | 0, _ => return ()
  | left + 1, count => do
    bitmapSet btmp (bitIdxStart + count) 1#8
    vaddrSet btmp bitIdxStart left (count + 1#32)

/-- `vaddr_get`. -/
def vaddrGet (pools : MemPools) (pf : PoolFlags) (pgCount : BitVec 32) : Kern (BitVec 32) :=
  match pf with
  | .pfKernel => do
    let bitIdxStart ← bitmapScan pools.kernelAddr.vaddrBitmap pgCount
    if bitIdxStart = -1#32 then return null
    else
      vaddrSet pools.kernelAddr.vaddrBitmap bitIdxStart pgCount.toNat 0#32
      return pools.kernelAddr.vaddrStart + bitIdxStart * pageSize
  | .pfUser => return null

/-- `palloc`. -/
def palloc (mPool : Pool) : Kern (BitVec 32) := do
  let bitIndex ← bitmapScan mPool.poolBitmap 1#32
  if bitIndex = -1#32 then return null
  else
    bitmapSet mPool.poolBitmap bitIndex 1#8
    return bitIndex * pageSize + mPool.phyAddrStart

/-- `page_table_add`. -/
def pageTableAdd (pools : MemPools) (vaddr pagePhyaddr : BitVec 32) : Kern Unit := do
  let pde := pdePtr vaddr
  let pte := ptePtr vaddr
  let pdeEntry ← Kern.load32 pde
  if Present pdeEntry then
    let pteEntry ← Kern.load32 pte
    if ¬ Present pteEntry then Kern.store32 pte (pagePhyaddr ||| pgUsU ||| pgRwW ||| pgP)
    else return ()
  else
    let pdePhyaddr ← palloc pools.kernelPool
    Kern.store32 pde (pdePhyaddr ||| pgUsU ||| pgRwW ||| pgP)
    memset (pte &&& 0xfffff000#32) 0#8 pageSize
    Kern.store32 pte (pagePhyaddr ||| pgUsU ||| pgRwW ||| pgP)

/-- The loop of `malloc_page`. -/
def mallocLoop (pools : MemPools) (memPool : Pool) : ℕ → BitVec 32 → Kern Bool
  | 0, _ => return true
  | count + 1, vaddr => do
    let pagePhyaddr ← palloc memPool
    if pagePhyaddr = null then return false
    else
      pageTableAdd pools vaddr pagePhyaddr
      mallocLoop pools memPool count (vaddr + pageSize)

/-- `malloc_page`. -/
def mallocPage (pools : MemPools) (pf : PoolFlags) (pageCount : BitVec 32) :
    Kern (BitVec 32) := do
  let vaddrStart ← vaddrGet pools pf pageCount
  if vaddrStart = null then return null
  else
    let completed ← mallocLoop pools (pools.poolOf pf) pageCount.toNat vaddrStart
    if completed then return vaddrStart else return null

end NDebug

/-! ### What is to stay -/

/-- The number of clear bits. -/
def Bitmap.countClear (btmp : Bitmap) (m : ByteMemory) : ℕ :=
  ((Finset.range (8 * btmp.btmpBytesLen.toNat)).filter fun i => btmp.bitSet m i = false).card

/-- The bitmaps and the page tables are as they were. -/
structure Traceless (pools : MemPools) (m m' : ByteMemory) : Prop where
  pages : ∀ i < 8 * pools.kernelAddr.vaddrBitmap.btmpBytesLen.toNat,
    pools.kernelAddr.vaddrBitmap.bitSet m' i = pools.kernelAddr.vaddrBitmap.bitSet m i
  frames : ∀ f < 8 * pools.kernelPool.poolBitmap.btmpBytesLen.toNat,
    pools.kernelPool.poolBitmap.bitSet m' f = pools.kernelPool.poolBitmap.bitSet m f
  directory : ∀ i < 1024, m'.word (dirAddr i) = m.word (dirAddr i)
  tables : ∀ p < 255 * 1024, m'.word (tableAddr p) = m.word (tableAddr p)

/-- `vaddr_get` finds the run that starts at bit `r`. -/
def FindsRun (pools : MemPools) (m : ByteMemory) (pgCount r : BitVec 32) : Prop :=
  (NDebug.bitmapScan pools.kernelAddr.vaddrBitmap pgCount).run kernelSem m = .ok (r, m) ∧ r ≠ -1#32

/-- The pages of the run that it finds lie below `0xffc00000`, behind which the page tables are
seen. -/
def RunBelow (pools : MemPools) (m : ByteMemory) (pgCount : BitVec 32) : Prop :=
  ∀ r, FindsRun pools m pgCount r → 256 + r.toNat + pgCount.toNat ≤ 255 * 1024

/-- The run that it finds starts behind the bitmap of the kernel's pages. -/
def RunBehind (pools : MemPools) (m : ByteMemory) (pgCount : BitVec 32) : Prop :=
  ∀ r, FindsRun pools m pgCount r → 8 * pools.kernelAddr.vaddrBitmap.btmpBytesLen.toNat ≤ r.toNat

/-- A call that returns `NULL` has left no trace. -/
def FailsTraceless (pools : MemPools) (m : ByteMemory) (pageCount : BitVec 32) : Prop :=
  ∀ m', (NDebug.mallocPage pools .pfKernel pageCount).run kernelSem m = .ok (null, m') →
    Traceless pools m m'

/-- No run is found, or there is a frame for each page of it. A run behind the bitmap may also
find no frame at all. -/
def EnoughFrames (pools : MemPools) (m : ByteMemory) (pageCount : BitVec 32) : Prop :=
  (∀ r, ¬ FindsRun pools m pageCount r) ∨
    RunBelow pools m pageCount ∧
      (pageCount.toNat ≤ pools.kernelPool.poolBitmap.countClear m ∨
        RunBehind pools m pageCount ∧ pools.kernelPool.poolBitmap.countClear m = 0)

/-! ### The functions, running alone -/

section Functions

variable {pools : MemPools} {nb ub base len : ℕ} {btmp : Bitmap} {m : ByteMemory}

/-- The first loop ends at a byte that is not full, or behind the bitmap. -/
theorem scanBytes_run (h : btmp.LiesAt base len) (hm : Mapped m) :
    ((∀ x < len, m (phys (base + x)) = 0xff#8) ∧
      (scanBytes btmp len 0#32).run kernelSem m = .ok (phys len, m)) ∨
    ∃ k < len, m (phys (base + k)) ≠ 0xff#8 ∧
      (scanBytes btmp len 0#32).run kernelSem m = .ok (phys k, m) := by
  -- the rule for the loop, with nobody else there
  have h_wp : (Env.ofAlone kernelSem fun _ _ => False).wp
      (fun r _ m' => m' = m ∧ (((∀ x < len, m (phys (base + x)) = 0xff#8) ∧ r = phys len) ∨
        ∃ k < len, m (phys (base + k)) ≠ 0xff#8 ∧ r = phys k))
      (scanBytes btmp len 0#32) m m := by
    apply (scanEnv_ofAlone h hm _).wp_scanBytes (k := 0) (Nat.zero_add len) trivial rfl
      fun x hx => absurd hx (Nat.not_lt_zero x)
    · rintro _ rfl h_full
      exact ⟨rfl, .inl ⟨h_full, rfl⟩⟩
    · rintro k hk _ rfl h_byte
      exact ⟨rfl, .inr ⟨k, hk, h_byte, rfl⟩⟩
  rcases Env.run_of_wp h_wp with ⟨_, _, h_run, rfl, ⟨h_full, rfl⟩ | ⟨k, hk, h_byte, rfl⟩⟩ |
    ⟨_, _, _, h_false⟩
  · exact .inl ⟨h_full, h_run⟩
  · exact .inr ⟨k, hk, h_byte, h_run⟩
  · exact h_false.elim

/-- **The assertion matters for a full bitmap only.** There the scan returns -1. -/
theorem NDebug.bitmapScan_run (h : btmp.LiesAt base len) (hm : Mapped m) (cnt : BitVec 32) :
    ((∀ i < 8 * len, bitAt m base i = true) ∧
      (NDebug.bitmapScan btmp cnt).run kernelSem m = .ok (-1#32, m)) ∨
    ((∃ i < 8 * len, bitAt m base i = false) ∧
      (NDebug.bitmapScan btmp cnt).run kernelSem m
        = (ToiletOS.bitmapScan btmp cnt).run kernelSem m) := by
  have h_fits := h.fits
  rcases scanBytes_run h hm with ⟨h_full, h_run⟩ | ⟨k, hk, h_byte, h_run⟩
  · left
    -- no byte is left: without the assertion the scan returns `-1`
    refine ⟨fun i hi => bitAt_of_full (h_full (i / 8) (by omega)), ?_⟩
    rw [NDebug.bitmapScan, h.toNat_length, Prog.run_bind_of_ok kernelSem h_run, NDebug.scanRest,
      if_pos h.length.symm]
    rfl
  · right
    -- the assertion would have passed, so both scans go on alike
    obtain ⟨j, hj, h_bit⟩ := exists_clear h_byte
    refine ⟨⟨k * 8 + j, by omega, ?_⟩, ?_⟩
    · rw [bitAt, show (k * 8 + j) / 8 = k by omega, show (k * 8 + j) % 8 = j by omega]
      exact h_bit
    · have h_lt : phys k < btmp.btmpBytesLen := by
        rw [BitVec.lt_def, h.toNat_length, toNat_phys (by omega)]
        exact hk
      rw [NDebug.bitmapScan, ToiletOS.bitmapScan, h.toNat_length,
        Prog.run_bind_of_ok kernelSem h_run, Prog.run_bind_of_ok kernelSem h_run, run_assert h_lt]
      rfl

theorem NDebug.bitmapSet_run (h : btmp.LiesAt base len) (hm : Mapped m) {i : ℕ} (hi : i < 8 * len) :
    (NDebug.bitmapSet btmp (phys i) 1#8).run kernelSem m = .ok ((), setBitAt m base i) := by
  have h_run := ToiletOS.bitmapSet_run h hm hi
  unfold ToiletOS.bitmapSet at h_run
  rw [run_assert (by decide)] at h_run
  exact h_run

/-- Nothing keeps `bitmap_set` from the bytes behind the bitmap. -/
theorem NDebug.vaddrSetBit_run (hL : pools.Layout nb ub) (hm : Mapped m) {i : ℕ}
    (hi : 256 + i < 255 * 1024) :
    (NDebug.bitmapSet pools.kernelAddr.vaddrBitmap (phys i) 1#8).run kernelSem m =
      .ok ((), setBitAt m (pageBits nb ub) i) := by
  obtain ⟨h_nb, h_ub, h_frames, h_pages⟩ := hL.bounds
  have h_at :
      Bitmap.LiesAt ⟨phys 32640, pools.kernelAddr.vaddrBitmap.bits⟩ (pageBits nb ub) 32640 :=
    ⟨hL.pages.bits, rfl, by omega⟩
  exact NDebug.bitmapSet_run h_at hm (by omega)

/-- The loop of `vaddr_get` sets the bits of the run. -/
theorem NDebug.vaddrSet_run (hL : pools.Layout nb ub) (hm : Mapped m) (r : BitVec 32)
    (count left : ℕ) (h_fits : 256 + r.toNat + count + left ≤ 255 * 1024) :
    ∃ m', (NDebug.vaddrSet pools.kernelAddr.vaddrBitmap r left (phys count)).run kernelSem m
        = .ok ((), m') ∧ Mapped m' ∧
      (∀ i < 8 * nb, bitAt m' (pageBits nb ub) i = (bitAt m (pageBits nb ub) i ||
        decide (r.toNat + count ≤ i ∧ i < r.toNat + count + left))) ∧
      (∀ f < 8 * nb, bitAt m' frameBits f = bitAt m frameBits f) ∧
      ∀ x, 0x100000 ≤ x → x < 2 ^ 32 → m' (phys x) = m (phys x) := by
  obtain ⟨h_nb, h_ub, h_frames, h_pages⟩ := hL.bounds
  induction left generalizing m count with
  | zero =>
    refine ⟨m, rfl, hm, fun i _ => ?_, fun _ _ => rfl, fun _ _ _ => rfl⟩
    rw [decide_eq_false (by omega), Bool.or_false]
  | succ left ih =>
    have h_set :
        (NDebug.bitmapSet pools.kernelAddr.vaddrBitmap (r + phys count) 1#8).run kernelSem m
          = .ok ((), setBitAt m (pageBits nb ub) (r.toNat + count)) := by
      rw [← phys_toNat r, phys_add, toNat_phys (by omega)]
      exact NDebug.vaddrSetBit_run hL hm (by omega)
    have h_mapped : Mapped (setBitAt m (pageBits nb ub) (r.toNat + count)) :=
      hm.store8 (by omega) _
    obtain ⟨m', h_run, hm', h_bits, h_same, h_high⟩ := ih h_mapped (count + 1) (by omega)
    refine ⟨m', ?_, hm', fun i hi => ?_, fun f hf => ?_, fun x h_ge h_lt => ?_⟩
    · rw [NDebug.vaddrSet, Prog.run_bind_of_ok kernelSem h_set,
        show phys count + 1#32 = phys (count + 1) from phys_add count 1]
      exact h_run
    · -- the bit of this round, and those of the rounds after it
      rw [h_bits i hi, bitAt_setBitAt m (by omega) (by omega), Bool.or_assoc, Bool.or_left_comm,
        ← Bool.decide_or]
      congr 2
      exact propext ⟨fun h => by omega, fun h => by omega⟩
    · rw [h_same f hf, bitAt_setBitAt_of_ne m (by omega) (by omega) (by omega)]
    · rw [h_high x h_ge h_lt, setBitAt, m.byte_store8 _ h_lt (by omega) (by omega)]

/-- The number of frames that are left. -/
def framesLeft (nb : ℕ) (m : ByteMemory) : ℕ :=
  ((Finset.range (8 * nb)).filter fun f => bitAt m frameBits f = false).card

/-- Taking a frame leaves one less. -/
theorem framesLeft_setBitAt (hL : pools.Layout nb ub) {f : ℕ} (hf : f < 8 * nb)
    (h_clear : bitAt m frameBits f = false) :
    framesLeft nb (setBitAt m frameBits f) + 1 = framesLeft nb m := by
  obtain ⟨h_nb, h_ub, h_frames, h_pages⟩ := hL.bounds
  have h_mem : f ∈ (Finset.range (8 * nb)).filter fun f => bitAt m frameBits f = false :=
    Finset.mem_filter.mpr ⟨Finset.mem_range.mpr hf, h_clear⟩
  -- the clear bits are those of before, without this one
  have h_erase : (Finset.range (8 * nb)).filter
      (fun g => bitAt (setBitAt m frameBits f) frameBits g = false) =
      ((Finset.range (8 * nb)).filter fun f => bitAt m frameBits f = false).erase f := by
    ext g
    simp only [Finset.mem_filter, Finset.mem_erase, Finset.mem_range]
    constructor
    · rintro ⟨hg, h_bit⟩
      rw [bitAt_setBitAt m (by omega) (by omega), Bool.or_eq_false_iff,
        decide_eq_false_iff_not] at h_bit
      exact ⟨h_bit.1, hg, h_bit.2⟩
    · rintro ⟨h_ne, hg, h_bit⟩
      refine ⟨hg, ?_⟩
      rw [bitAt_setBitAt m (by omega) (by omega), h_bit, decide_eq_false h_ne]
      rfl
  rw [framesLeft, h_erase, Finset.card_erase_add_one h_mem, framesLeft]

theorem framesLeft_congr {m' : ByteMemory}
    (h : ∀ f < 8 * nb, bitAt m' frameBits f = bitAt m frameBits f) :
    framesLeft nb m' = framesLeft nb m := by
  unfold framesLeft
  congr 1
  exact Finset.filter_congr fun f hf => by rw [h f (Finset.mem_range.mp hf)]

/-- `palloc` takes a frame, or returns `NULL` if none is left. -/
theorem NDebug.palloc_run (hL : pools.Layout nb ub) (hm : Mapped m) :
    (framesLeft nb m = 0 ∧ (NDebug.palloc pools.kernelPool).run kernelSem m = .ok (null, m)) ∨
    ∃ f < 8 * nb, framesLeft nb (setBitAt m frameBits f) + 1 = framesLeft nb m ∧
      (NDebug.palloc pools.kernelPool).run kernelSem m =
        .ok (frameAddr f, setBitAt m frameBits f) := by
  obtain ⟨h_nb, -, -, -⟩ := hL.bounds
  rcases NDebug.bitmapScan_run hL.frames hm 1#32 with ⟨h_full, h_run⟩ | ⟨h_clear, h_run⟩
  · left
    refine ⟨?_, ?_⟩
    · rw [framesLeft, Finset.card_eq_zero, Finset.filter_eq_empty_iff]
      intro f hf h_bit
      cases ((h_full f (Finset.mem_range.mp hf)).symm.trans h_bit)
    · rw [NDebug.palloc, Prog.run_bind_of_ok kernelSem h_run, if_pos rfl]
      rfl
  · right
    -- the scan for one bit finds a clear one
    obtain ⟨f, hf, h_bit, h_scan⟩ := bitmapScan_one_run hL.frames hm h_clear
    have h_some : phys f ≠ -1#32 := phys_ne (k := 2 ^ 32 - 1) (by omega) (by omega) (by omega)
    refine ⟨f, hf, framesLeft_setBitAt hL hf h_bit, ?_⟩
    rw [NDebug.palloc, Prog.run_bind_of_ok kernelSem (h_run.trans h_scan), if_neg h_some,
      Prog.run_bind_of_ok kernelSem (NDebug.bitmapSet_run hL.frames hm hf), hL.frameAddr_eq]
    rfl

theorem NDebug.pageTableAdd_run (hm : Mapped m) {i f : ℕ} (hi : 256 + i < 255 * 1024)
    (hf : f < 2 ^ 16) :
    (NDebug.pageTableAdd pools (pageAddr i) (frameAddr f)).run kernelSem m =
      .ok ((), addEntry m i f) := by
  obtain ⟨⟨p, h_p, h_pde⟩, h_pte, h_entry⟩ := hm.page_slots hi hf
  have h_word : m.load32 (phys (tableAddr (256 + i))) = m.word (tableAddr (256 + i)) := rfl
  unfold NDebug.pageTableAdd
  dsimp only
  rw [run_load32 h_p, if_pos h_pde, run_load32 h_pte, addEntry, h_word]
  by_cases h_present : Present (m.word (tableAddr (256 + i)))
  · rw [if_pos h_present, if_neg (not_not.mpr h_present)]
    rfl
  · rw [if_neg h_present, if_pos h_present, run_store32 h_pte, h_entry]

/-- **The loop of `malloc_page`** comes to its end exactly if there are frames enough, and takes all
of them if not. It does not touch the bitmap of the pages. -/
theorem NDebug.mallocLoop_run (hL : pools.Layout nb ub) (hm : Mapped m) (count i : ℕ)
    (hi : 256 + i + count ≤ 255 * 1024) :
    ∃ m', (NDebug.mallocLoop pools pools.kernelPool count (pageAddr i)).run kernelSem m =
        .ok (decide (count ≤ framesLeft nb m), m') ∧ Mapped m' ∧
      (∀ j < 8 * nb, bitAt m' (pageBits nb ub) j = bitAt m (pageBits nb ub) j) ∧
      framesLeft nb m' + min count (framesLeft nb m) = framesLeft nb m ∧
      (framesLeft nb m = 0 → m' = m) := by
  obtain ⟨h_nb, h_ub, h_frames, h_pages⟩ := hL.bounds
  induction count generalizing m i with
  | zero =>
    refine ⟨m, ?_, hm, fun _ _ => rfl, by rw [Nat.zero_min, Nat.add_zero], fun _ => rfl⟩
    rw [decide_eq_true (Nat.zero_le _)]
    rfl
  | succ count ih =>
    rcases NDebug.palloc_run hL hm with ⟨h_none, h_run⟩ | ⟨f, hf, h_left, h_run⟩
    · -- no frame is left: the loop gives up and keeps what it has taken
      refine ⟨m, ?_, hm, fun _ _ => rfl, by omega, fun _ => rfl⟩
      rw [NDebug.mallocLoop, Prog.run_bind_of_ok kernelSem h_run, if_pos rfl,
        decide_eq_false (by omega)]
      rfl
    · have h_mapped : Mapped (setBitAt m frameBits f) := hm.store8 (by omega) _
      have h_add : (NDebug.pageTableAdd pools (pageAddr i) (frameAddr f)).run kernelSem
          (setBitAt m frameBits f) = .ok ((), addEntry (setBitAt m frameBits f) i f) :=
        NDebug.pageTableAdd_run h_mapped (by omega) (by omega)
      have h_frame : frameAddr f ≠ null := phys_ne (k := 0) (by omega) (by omega) (by omega)
      -- the entry is not in the bitmap, so it costs no frame
      have h_same : framesLeft nb (addEntry (setBitAt m frameBits f) i f) =
          framesLeft nb (setBitAt m frameBits f) :=
        framesLeft_congr fun g hg => bitAt_addEntry _ (by omega) (by omega)
      obtain ⟨m', h_rest, hm', h_bits, h_taken, -⟩ :=
        ih (h_mapped.addEntry (i := i) (by omega) f) (i + 1) (by omega)
      rw [h_same] at h_taken
      refine ⟨m', ?_, hm', fun j hj => ?_, by omega, fun h_zero => by omega⟩
      · rw [NDebug.mallocLoop, Prog.run_bind_of_ok kernelSem h_run, if_neg h_frame,
          Prog.run_bind_of_ok kernelSem h_add, pageAddr_succ, h_rest, h_same, ← h_left]
        simp only [Nat.add_le_add_iff_right]
      · rw [h_bits j hj, bitAt_addEntry _ (by omega) (by omega),
          bitAt_setBitAt_of_ne m (by omega) (by omega) (by omega)]

theorem FindsRun.unique {n r r' : BitVec 32} (h : FindsRun pools m n r)
    (h' : FindsRun pools m n r') : r = r' :=
  congrArg Prod.fst (Except.ok.inj (h.1.symm.trans h'.1))

/-- A run that is found starts at a bit that is clear. -/
theorem FindsRun.first_clear (hL : pools.Layout nb ub) (hm : Mapped m) {n r : BitVec 32}
    (h : FindsRun pools m n r) (h_pos : 0 < n.toNat) :
    ClearWithin m (pageBits nb ub) nb r := by
  obtain ⟨h_run, h_ne⟩ := h
  rcases NDebug.bitmapScan_run hL.pages hm n with ⟨-, h_none⟩ | ⟨-, h_same⟩
  · rw [h_none] at h_run
    exact absurd (congrArg Prod.fst (Except.ok.inj h_run)).symm h_ne
  · rw [h_same] at h_run
    rcases ToiletOS.bitmapScan_run hL.pages hm n with ⟨e, h_err⟩ | ⟨r', h_ok, h_clear⟩
    · rw [h_err] at h_run
      cases h_run
    · rw [h_ok] at h_run
      obtain rfl : r' = r := congrArg Prod.fst (Except.ok.inj h_run)
      have h_first := h_clear h_ne 0 h_pos
      rwa [show phys 0 = 0#32 from rfl, BitVec.add_zero] at h_first

/-- The scan for a run fails, or leaves memory alone. -/
theorem NDebug.bitmapScan_cases (h : btmp.LiesAt base len) (hm : Mapped m) (cnt : BitVec 32) :
    (∃ e, (NDebug.bitmapScan btmp cnt).run kernelSem m = .error e) ∨
      ∃ r, (NDebug.bitmapScan btmp cnt).run kernelSem m = .ok (r, m) := by
  rcases NDebug.bitmapScan_run h hm cnt with ⟨-, h_none⟩ | ⟨-, h_same⟩
  · exact .inr ⟨_, h_none⟩
  · rcases ToiletOS.bitmapScan_run h hm cnt with ⟨e, h_err⟩ | ⟨r, h_ok, -⟩
    · exact .inl ⟨e, h_same.trans h_err⟩
    · exact .inr ⟨r, h_same.trans h_ok⟩

/-- A call that finds no run does nothing, if it returns. -/
theorem NDebug.mallocPage_of_not_found (hL : pools.Layout nb ub) (hm : Mapped m) {n : BitVec 32}
    (h_none : ∀ r, ¬ FindsRun pools m n r) {v : BitVec 32} {m' : ByteMemory}
    (h_run : (NDebug.mallocPage pools .pfKernel n).run kernelSem m = .ok (v, m')) : m' = m := by
  rcases NDebug.bitmapScan_cases hL.pages hm n with ⟨e, h_err⟩ | ⟨r, h_scan⟩
  · rw [NDebug.mallocPage, NDebug.vaddrGet, Prog.run_bind, Prog.run_bind, h_err] at h_run
    cases h_run
  · have h_fail : r = -1#32 := not_not.mp fun h_ne => h_none r ⟨h_scan, h_ne⟩
    have h_get : (NDebug.vaddrGet pools .pfKernel n).run kernelSem m = .ok (null, m) := by
      rw [NDebug.vaddrGet, Prog.run_bind_of_ok kernelSem h_scan, if_pos h_fail]
      rfl
    rw [NDebug.mallocPage, Prog.run_bind_of_ok kernelSem h_get, if_pos rfl] at h_run
    exact (congrArg Prod.snd (Except.ok.inj h_run)).symm

/-- **A call that finds a run** whose pages lie below the page tables. It sets the bits of the run,
and fails if there are not frames enough, with all of them taken. -/
theorem NDebug.mallocPage_of_found (hL : pools.Layout nb ub) (hm : Mapped m) {n r : BitVec 32}
    (h_found : FindsRun pools m n r) (h_below : 256 + r.toNat + n.toNat ≤ 255 * 1024) :
    ∃ m', (NDebug.mallocPage pools .pfKernel n).run kernelSem m =
        .ok (if n.toNat ≤ framesLeft nb m then pageAddr r.toNat else null, m') ∧ Mapped m' ∧
      (∀ i < 8 * nb, bitAt m' (pageBits nb ub) i = (bitAt m (pageBits nb ub) i ||
        decide (r.toNat ≤ i ∧ i < r.toNat + n.toNat))) ∧
      framesLeft nb m' + min n.toNat (framesLeft nb m) = framesLeft nb m ∧
      (framesLeft nb m = 0 → (∀ f < 8 * nb, bitAt m' frameBits f = bitAt m frameBits f) ∧
        ∀ x, 0x100000 ≤ x → x < 2 ^ 32 → m' (phys x) = m (phys x)) := by
  obtain ⟨h_nb, h_ub, h_frames, h_pages⟩ := hL.bounds
  obtain ⟨h_scan, h_ne⟩ := h_found
  obtain ⟨m₁, h_set, hm₁, h_bits₁, h_same₁, h_high₁⟩ :=
    NDebug.vaddrSet_run hL hm r 0 n.toNat (by omega)
  have h_set' : (NDebug.vaddrSet pools.kernelAddr.vaddrBitmap r n.toNat 0#32).run kernelSem m =
      .ok ((), m₁) := h_set
  -- the pages are reserved first, whether or not there are frames for them
  have h_get :
      (NDebug.vaddrGet pools .pfKernel n).run kernelSem m = .ok (pageAddr r.toNat, m₁) := by
    rw [NDebug.vaddrGet, Prog.run_bind_of_ok kernelSem h_scan, if_neg h_ne,
      Prog.run_bind_of_ok kernelSem h_set', ← hL.pageAddr_eq, phys_toNat]
    rfl
  obtain ⟨m', h_loop, hm', h_bits, h_taken, h_none⟩ :=
    NDebug.mallocLoop_run hL hm₁ n.toNat r.toNat (by omega)
  rw [framesLeft_congr h_same₁] at h_loop h_taken h_none
  have h_page : pageAddr r.toNat ≠ null := phys_ne (k := 0) (by omega) (by omega) (by omega)
  refine ⟨m', ?_, hm', fun i hi => ?_, h_taken, fun h_zero => h_none h_zero ▸ ⟨h_same₁, h_high₁⟩⟩
  · rw [NDebug.mallocPage, Prog.run_bind_of_ok kernelSem h_get, if_neg h_page, MemPools.poolOf,
      Prog.run_bind_of_ok kernelSem h_loop]
    by_cases h_enough : n.toNat ≤ framesLeft nb m
    · rw [decide_eq_true h_enough, if_pos rfl, if_pos h_enough]
      rfl
    · rw [decide_eq_false h_enough, if_neg Bool.false_ne_true, if_neg h_enough]
      rfl
  · rw [h_bits i hi, h_bits₁ i hi, Nat.add_zero]

theorem countClear_eq (hL : pools.Layout nb ub) (hm : Mapped m) :
    pools.kernelPool.poolBitmap.countClear m = framesLeft nb m := by
  rw [Bitmap.countClear, framesLeft, hL.frames.toNat_length]
  apply congrArg
  apply Finset.filter_congr
  intro f hf
  rw [hL.frames.bitSet_eq hm (Finset.mem_range.mp hf)]
  rfl

/-- With frames enough, the call does not fail. -/
theorem NDebug.traceless_of_enough (hL : pools.Layout nb ub) (hm : Mapped m) {n r : BitVec 32}
    (h_found : FindsRun pools m n r) (h_below : 256 + r.toNat + n.toNat ≤ 255 * 1024)
    (h_enough : n.toNat ≤ framesLeft nb m) : FailsTraceless pools m n := by
  obtain ⟨m', h_run, -⟩ := NDebug.mallocPage_of_found hL hm h_found h_below
  rw [if_pos h_enough] at h_run
  intro m'' h_null
  have h_page : pageAddr r.toNat ≠ null := phys_ne (k := 0) (by omega) (by omega) (by omega)
  exact absurd (congrArg Prod.fst (Except.ok.inj (h_run.symm.trans h_null))) h_page

/-- Without frames, a run behind the bitmap is set in vain, and nothing else happens. -/
theorem NDebug.traceless_of_behind (hL : pools.Layout nb ub) (hm : Mapped m) {n r : BitVec 32}
    (h_found : FindsRun pools m n r) (h_below : 256 + r.toNat + n.toNat ≤ 255 * 1024)
    (h_behind : 8 * nb ≤ r.toNat) (h_zero : framesLeft nb m = 0) : FailsTraceless pools m n := by
  obtain ⟨h_nb, h_ub, h_frames, h_pages⟩ := hL.bounds
  obtain ⟨m', h_run, hm', h_bits, -, h_same⟩ := NDebug.mallocPage_of_found hL hm h_found h_below
  obtain ⟨h_same, h_high⟩ := h_same h_zero
  intro m'' h_null
  obtain rfl : m' = m'' := congrArg Prod.snd (Except.ok.inj (h_run.symm.trans h_null))
  -- nothing is written from the first MiB on
  have h_word {x : ℕ} (h_ge : 0x100000 ≤ x) (h_lt : x + 4 ≤ 2 ^ 32) : m'.word x = m.word x :=
    ByteMemory.word_congr _ fun k hk => h_high (x + k) (by omega) (by omega)
  refine ⟨fun i hi => ?_, fun f hf => ?_, fun i hi => ?_, fun p hp => ?_⟩
  · -- the bits of the run are behind the bitmap, so none of its own is set
    rw [hL.pages.toNat_length] at hi
    rw [hL.pages.bitSet_eq hm' hi, hL.pages.bitSet_eq hm hi, ← pageBits, h_bits i hi,
      decide_eq_false (by omega), Bool.or_false]
  · rw [hL.frames.toNat_length] at hf
    rw [hL.frames.bitSet_eq hm' hf, hL.frames.bitSet_eq hm hf]
    exact h_same f hf
  · have h_dir : dirAddr i = 0x100000 + 4 * i := rfl
    exact h_word (by omega) (by omega)
  · have h_table : tableAddr p = 0x101000 + 4 * p := rfl
    exact h_word (by omega) (by omega)

/-- A call that fails in its loop has set the first bit of its run, or taken a frame. -/
theorem NDebug.enough_of_traceless (hL : pools.Layout nb ub) (hm : Mapped m) {n r : BitVec 32}
    (h_found : FindsRun pools m n r) (h_below : 256 + r.toNat + n.toNat ≤ 255 * 1024)
    (h_pos : 0 < n.toNat) (h_traceless : FailsTraceless pools m n) :
    n.toNat ≤ framesLeft nb m ∨ 8 * nb ≤ r.toNat ∧ framesLeft nb m = 0 := by
  obtain ⟨m', h_run, hm', h_bits, h_taken, -⟩ := NDebug.mallocPage_of_found hL hm h_found h_below
  by_contra h_not
  obtain ⟨h_few, h_not⟩ := not_or.mp h_not
  rw [if_neg h_few] at h_run
  have h_same := h_traceless m' h_run
  by_cases h_inside : r.toNat < 8 * nb
  · -- the first bit was clear, and is set
    have h_clear := h_found.first_clear hL hm h_pos h_inside
    have h_bit := h_same.pages r.toNat (by rw [hL.pages.toNat_length]; exact h_inside)
    rw [hL.pages.bitSet_eq hm' h_inside, hL.pages.bitSet_eq hm h_inside, ← pageBits,
      h_bits _ h_inside, h_clear, decide_eq_true (by omega)] at h_bit
    cases h_bit
  · -- the frames are all taken, and there were some
    have h_frames : framesLeft nb m' = framesLeft nb m := by
      apply framesLeft_congr
      intro f hf
      have h_bit := h_same.frames f (by rw [hL.frames.toNat_length]; exact hf)
      rwa [hL.frames.bitSet_eq hm' hf, hL.frames.bitSet_eq hm hf] at h_bit
    omega

end Functions

/-- **When a failed allocation leaves no trace.** It does so if no run is found, or if there is a
frame for each page of the run, so that the call does not fail. The converse holds as far as the
pages of the run lie below the page tables. -/
theorem failed_alloc_traceless_iff (allMemory : BitVec 32) {m : ByteMemory} (hm : Mapped m)
    {n : BitVec 32} (h_pos : 0#32 < n) :
    (EnoughFrames (memPools allMemory) m n → FailsTraceless (memPools allMemory) m n) ∧
      (RunBelow (memPools allMemory) m n → FailsTraceless (memPools allMemory) m n →
        EnoughFrames (memPools allMemory) m n) := by
  obtain ⟨nb, ub, hL⟩ := memPools_layout allMemory
  unfold EnoughFrames
  rw [countClear_eq hL hm]
  by_cases h_none : ∀ r, ¬ FindsRun (memPools allMemory) m n r
  · refine ⟨fun _ m' h_null => ?_, fun _ _ => .inl h_none⟩
    -- without a run nothing has been touched when the call fails
    rw [NDebug.mallocPage_of_not_found hL hm h_none h_null]
    exact ⟨fun _ _ => rfl, fun _ _ => rfl, fun _ _ => rfl, fun _ _ => rfl⟩
  obtain ⟨r, h_found⟩ := not_forall_not.mp h_none
  have h_nb := hL.pages.toNat_length
  constructor
  · rintro (h_none' | ⟨h_below, h_enough | ⟨h_behind, h_zero⟩⟩)
    · exact absurd h_none' h_none
    · exact NDebug.traceless_of_enough hL hm h_found (h_below r h_found) h_enough
    · exact NDebug.traceless_of_behind hL hm h_found (h_below r h_found)
        (h_nb ▸ h_behind r h_found) h_zero
  · intro h_below h_traceless
    refine .inr ⟨h_below, ?_⟩
    apply (NDebug.enough_of_traceless hL hm h_found (h_below r h_found) h_pos h_traceless).imp_right
    rintro ⟨h_behind, h_zero⟩
    refine ⟨fun r' h_found' => ?_, h_zero⟩
    rw [h_nb, ← FindsRun.unique h_found h_found']
    exact h_behind

/-- With 2 MiB and 64 KiB of memory there are eight pages. Here all of them are reserved. -/
def withoutPages : ByteMemory := bootImage.store8 (phys (pageBits 1 1)) 0xff#8

/-- All the eight frames are taken, and no page is reserved. -/
def withoutFrames : ByteMemory := bootImage.store8 (phys frameBits) 0xff#8

theorem mapped_withoutFrames : Mapped withoutFrames := mapped_bootImage.store8 (by decide) _

/-- The first page is found. -/
theorem withoutFrames_finds : FindsRun (memPools 0x210000#32) withoutFrames 1#32 0#32 := by
  have h_scan : ((NDebug.bitmapScan (memPools 0x210000#32).kernelAddr.vaddrBitmap 1#32).run
      kernelSem withoutFrames).toOption.map Prod.fst = some 0#32 := by
    decide +kernel
  obtain ⟨nb, ub, hL⟩ := memPools_layout 0x210000#32
  rcases NDebug.bitmapScan_cases hL.pages mapped_withoutFrames 1#32 with ⟨e, h_err⟩ | ⟨r, h_run⟩
  · rw [h_err] at h_scan
    cases h_scan
  · rw [h_run] at h_scan
    obtain rfl : r = 0#32 := Option.some.inj h_scan
    exact ⟨h_run, by decide⟩

/-- A call that finds no page leaves no trace. One that finds a page, but no frame for it, does not
fail without one. -/
theorem failed_alloc_traceless_iff_one : (∃ m',
    (NDebug.mallocPage (memPools 0x210000#32) .pfKernel 1#32).run kernelSem withoutPages =
      .ok (null, m') ∧ Traceless (memPools 0x210000#32) withoutPages m') ∧
    FindsRun (memPools 0x210000#32) withoutFrames 1#32 0#32 ∧
      ¬ FailsTraceless (memPools 0x210000#32) withoutFrames 1#32 := by
  refine ⟨?_, withoutFrames_finds, fun h_traceless => ?_⟩
  · have h_scan : (((NDebug.bitmapScan (memPools 0x210000#32).kernelAddr.vaddrBitmap 1#32).run
        kernelSem withoutPages).toOption.map Prod.fst = some (-1#32)) ∧
        (((NDebug.mallocPage (memPools 0x210000#32) .pfKernel 1#32).run
          kernelSem withoutPages).toOption.map Prod.fst = some null) := by
      decide +kernel
    obtain ⟨h_scan, h_null⟩ := h_scan
    have h_none (r : BitVec 32) : ¬ FindsRun (memPools 0x210000#32) withoutPages 1#32 r := by
      rintro ⟨h_run, h_ne⟩
      rw [h_run] at h_scan
      exact h_ne (Option.some.inj h_scan)
    cases h_run : (NDebug.mallocPage (memPools 0x210000#32) .pfKernel 1#32).run kernelSem
        withoutPages with
    | error e => rw [h_run] at h_null; cases h_null
    | ok x =>
      rw [h_run] at h_null
      obtain h_fst : x.1 = null := Option.some.inj h_null
      have h_call : (NDebug.mallocPage (memPools 0x210000#32) .pfKernel 1#32).run kernelSem
          withoutPages = .ok (null, x.2) := by
        rw [h_run, ← h_fst]
      exact ⟨x.2, congrArg (fun v => Except.ok (v, x.2)) h_fst,
        (failed_alloc_traceless_iff 0x210000#32 (mapped_bootImage.store8 (by decide) _)
          (by decide)).1 (.inl h_none) x.2 h_call⟩
  · -- the run is that of the first page
    have h_below : RunBelow (memPools 0x210000#32) withoutFrames 1#32 := by
      intro r h_found
      rw [← withoutFrames_finds.unique h_found]
      decide
    have h_frames : (memPools 0x210000#32).kernelPool.poolBitmap.countClear withoutFrames = 0 := by
      decide +kernel
    rcases (failed_alloc_traceless_iff 0x210000#32 mapped_withoutFrames (by decide)).2 h_below
      h_traceless with h_none | ⟨-, h_enough | ⟨h_behind, -⟩⟩
    · exact h_none _ withoutFrames_finds
    · rw [h_frames] at h_enough
      exact absurd h_enough (by decide)
    · exact absurd (h_behind _ withoutFrames_finds) (by decide +kernel)

/-- **A failed allocation that leaves a trace.** No frame is left. The call returns `NULL`, and the
page that it has reserved stays reserved. -/
theorem failed_alloc_trace : Mapped withoutFrames ∧ ∃ m',
    (NDebug.mallocPage (memPools 0x210000#32) .pfKernel 1#32).run kernelSem withoutFrames =
      .ok (null, m') ∧ ¬ Traceless (memPools 0x210000#32) withoutFrames m' := by
  refine ⟨mapped_withoutFrames, ?_⟩
  have h_eval : (((NDebug.mallocPage (memPools 0x210000#32) .pfKernel 1#32).run kernelSem
      withoutFrames).toOption.any fun x => decide (x.1 = null ∧
        (memPools 0x210000#32).kernelAddr.vaddrBitmap.bitSet withoutFrames 0 = false ∧
        (memPools 0x210000#32).kernelAddr.vaddrBitmap.bitSet x.2 0 = true)) = true := by
    decide +kernel
  cases h_run : (NDebug.mallocPage (memPools 0x210000#32) .pfKernel 1#32).run kernelSem
      withoutFrames with
  | error e => rw [h_run] at h_eval; cases h_eval
  | ok x =>
    rw [h_run] at h_eval
    obtain ⟨h_null, h_before, h_after⟩ := of_decide_eq_true h_eval
    refine ⟨x.2, congrArg (fun v => Except.ok (v, x.2)) h_null, fun h_same => ?_⟩
    -- the call has failed, and the bit of the page is set
    have h_bit := h_same.pages 0 (by decide +kernel)
    rw [h_after, h_before] at h_bit
    cases h_bit

end ToiletOS
