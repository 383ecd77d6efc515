import ToiletOS.Mem.Boot

/-!
# Fresh pages and what memory held before

`setup_page` writes the directory and the first 256 entries of the table behind it. The entries of
the pages that `malloc_page` hands out come right after these, and nothing clears them:
`page_table_add` finds there what was in memory before, and keeps it if its lowest bit is set.

`recordSem` runs kernel code and notes the frames that `palloc` takes. Both bitmaps are filled from
their lowest bit up, so that the `k`-th call of `malloc_page(PF_KERNEL, 1)` gets page `k` and
frame `k` (`Fresh`). `fresh_pages_mapped_iff` says for which contents of memory they are mapped to
each other.
-/

namespace ToiletOS

/-! ### Recording the frames -/

/-- Memory, and the frames that have been taken. -/
structure RecordState where
  mem : ByteMemory
  frames : List (BitVec 32)

/-- Kernel code that runs alone, with a record of the frames. -/
def recordSem : Semantics kernelSig RecordState where
  exec o s := match o.exec s.mem with
    | .ok (r, m) => .ok (r, { s with mem := m })
    | .error e => .error e
  note k s := match k with
    | .frame a => { s with frames := s.frames ++ [a] }
    | _ => s

section Record

variable {s : RecordState} {a p : BitVec 32} {β : Type}

theorem record_load8 (h : translate s.mem a = some p) (f : BitVec 8 → Kern β) :
    (Kern.load8 a >>= f).run recordSem s = (f (s.mem p)).run recordSem s := by
  have h_exec : recordSem.exec (.load8 a) s = .ok (s.mem p, s) := by
    simp only [recordSem, Access.exec, h]
  exact Prog.run_op h_exec

theorem record_load32 (h : translate s.mem a = some p) (f : BitVec 32 → Kern β) :
    (Kern.load32 a >>= f).run recordSem s = (f (s.mem.load32 p)).run recordSem s := by
  have h_exec : recordSem.exec (.load32 a) s = .ok (s.mem.load32 p, s) := by
    simp only [recordSem, Access.exec, h]
  exact Prog.run_op h_exec

theorem record_store8 (h : translate s.mem a = some p) (v : BitVec 8) :
    (Kern.store8 a v).run recordSem s = .ok ((), { s with mem := s.mem.store8 p v }) := by
  have h_exec : recordSem.exec (.store8 a v) s = .ok ((), { s with mem := s.mem.store8 p v }) := by
    simp only [recordSem, Access.exec, h]
  exact Prog.run_op h_exec

theorem record_store32 (h : translate s.mem a = some p) (v : BitVec 32) :
    (Kern.store32 a v).run recordSem s = .ok ((), { s with mem := s.mem.store32 p v }) := by
  have h_exec :
      recordSem.exec (.store32 a v) s = .ok ((), { s with mem := s.mem.store32 p v }) := by
    simp only [recordSem, Access.exec, h]
  exact Prog.run_op h_exec

theorem record_assert {c : Prop} [Decidable c] (h : c) (f : Unit → Kern β) :
    (Kern.assert c >>= f).run recordSem s = (f ()).run recordSem s := by
  rw [Kern.assert, if_pos h]
  rfl

end Record

/-! ### The first clear bit -/

section Scan

variable {btmp : Bitmap} {base len : ℕ} {s : RecordState}

/-- The first loop passes the bytes that are full. -/
theorem scanBytes_first (h : btmp.LiesAt base len) (hm : Mapped s.mem) {q : ℕ} (hq : q < len)
    (h_full : ∀ x < q, s.mem (phys (base + x)) = 0xff#8) (h_byte : s.mem (phys (base + q)) ≠ 0xff#8)
    {k left : ℕ} (hk : k ≤ q) (h_left : k + left = len) :
    (scanBytes btmp left (phys k)).run recordSem s = .ok (phys q, s) := by
  have h_fits := h.fits
  induction left generalizing k with
  | zero => omega
  | succ left ih =>
    have h_map : translate s.mem (btmp.bits + phys k) = some (phys (base + k)) := by
      rw [h.address]
      exact hm.translate_low (by omega)
    rw [scanBytes, record_load8 h_map]
    rcases Nat.lt_or_eq_of_le hk with h_lt | rfl
    · -- the bytes before `q` are full, and `q` is not
      rw [if_pos (h_full k h_lt).symm, show phys k + 1#32 = phys (k + 1) from phys_add k 1]
      exact ih h_lt (by omega)
    · rw [if_neg fun h_eq => h_byte h_eq.symm]
      rfl

/-- The second loop passes the bits that are set. -/
theorem scanBits_first (h : btmp.LiesAt base len) (hm : Mapped s.mem) {q j : ℕ} (hq : q < len)
    (h_set : ∀ i < j, (s.mem (phys (base + q))).getLsbD i = true)
    (h_clear : (s.mem (phys (base + q))).getLsbD j = false) {i left : ℕ} (hi : i ≤ j)
    (hj : j < 8) (h_left : i + left = 8) :
    (scanBits btmp (phys q) left (phys i)).run recordSem s = .ok (phys j, s) := by
  have h_fits := h.fits
  induction left generalizing i with
  | zero => omega
  | succ left ih =>
    have h_map : translate s.mem (btmp.bits + phys q) = some (phys (base + q)) := by
      rw [h.address]
      exact hm.translate_low (by omega)
    have h_i : (phys i).toNat = i := toNat_phys (by omega)
    rw [scanBits, record_load8 h_map]
    rcases Nat.lt_or_eq_of_le hi with h_lt | rfl
    · have h_bit : bitmapMask (phys i) &&& s.mem (phys (base + q)) ≠ 0#8 := by
        rw [Ne, bitmapMask_and, h_i, h_set i h_lt]
        decide
      rw [if_pos h_bit, show phys i + 1#32 = phys (i + 1) from phys_add i 1]
      exact ih h_lt (by omega)
    · have h_bit : bitmapMask (phys i) &&& s.mem (phys (base + q)) = 0#8 := by
        rw [bitmapMask_and, h_i]
        exact h_clear
      rw [if_neg fun h_ne => h_ne h_bit]
      rfl

/-- **A scan for one bit returns the first that is clear.** -/
theorem bitmapScan_first (h : btmp.LiesAt base len) (hm : Mapped s.mem) {k : ℕ} (hk : k < 8 * len)
    (h_set : ∀ i < k, bitAt s.mem base i = true) (h_clear : bitAt s.mem base k = false) :
    (bitmapScan btmp 1#32).run recordSem s = .ok (phys k, s) := by
  have h_fits := h.fits
  -- the bytes before it are full, and its own is not
  have h_full (x : ℕ) (hx : x < k / 8) : s.mem (phys (base + x)) = 0xff#8 := by
    by_contra h_byte
    obtain ⟨j, hj, h_bit⟩ := exists_clear h_byte
    have h_set' := h_set (x * 8 + j) (by omega)
    rw [bitAt, show (x * 8 + j) / 8 = x by omega, show (x * 8 + j) % 8 = j by omega, h_bit]
      at h_set'
    cases h_set'
  have h_byte : s.mem (phys (base + k / 8)) ≠ 0xff#8 := by
    intro h_eq
    rw [bitAt_of_full h_eq] at h_clear
    cases h_clear
  have h_bits (i : ℕ) (hi : i < k % 8) : (s.mem (phys (base + k / 8))).getLsbD i = true := by
    have h_set' := h_set (k / 8 * 8 + i) (by omega)
    rw [bitAt, show (k / 8 * 8 + i) / 8 = k / 8 by omega,
      show (k / 8 * 8 + i) % 8 = i by omega] at h_set'
    exact h_set'
  have h_bytes : (scanBytes btmp len 0#32).run recordSem s = .ok (phys (k / 8), s) :=
    scanBytes_first h hm (by omega) h_full h_byte (Nat.zero_le _) (Nat.zero_add len)
  have h_odd : (scanBits btmp (phys (k / 8)) 8 0#32).run recordSem s = .ok (phys (k % 8), s) :=
    scanBits_first h hm (by omega) h_bits h_clear (Nat.zero_le _) (Nat.mod_lt k (by decide)) rfl
  have h_q : (phys (k / 8)).toNat = k / 8 := toNat_phys (by omega)
  have h_lt : phys (k / 8) < btmp.btmpBytesLen := by
    rw [BitVec.lt_def, h.toNat_length, h_q]
    omega
  -- the two loops together give the index of the bit
  have h_index : phys (k / 8) * 8#32 + phys (k % 8) = phys k := by
    rw [show phys (k / 8) * 8#32 = phys (k / 8 * 8) from (BitVec.ofNat_mul ..).symm, phys_add,
      Nat.div_add_mod']
  rw [bitmapScan, h.toNat_length, Prog.run_bind_of_ok recordSem h_bytes, record_assert h_lt,
    if_neg (BitVec.ne_of_lt h_lt)]
  change ((scanBits btmp (phys (k / 8)) 8 0#32) >>= _).run recordSem s = _
  rw [Prog.run_bind_of_ok recordSem h_odd, if_pos rfl, h_index]
  rfl

theorem record_bitmapSet (h : btmp.LiesAt base len) (hm : Mapped s.mem) {i : ℕ} (hi : i < 8 * len) :
    (bitmapSet btmp (phys i) 1#8).run recordSem s =
      .ok ((), { s with mem := setBitAt s.mem base i }) := by
  obtain ⟨h_byte, h_bit, h_map⟩ := h.byte_of_bit hm hi
  unfold bitmapSet
  rw [record_assert (by decide)]
  dsimp only
  rw [h_byte, h_bit, record_load8 h_map, if_pos (by decide), record_store8 h_map]
  rfl

end Scan

/-! ### One page after the other -/

/-- So many calls of `malloc_page(PF_KERNEL, 1)`, with the pages they return. -/
def mallocOnes (pools : MemPools) : ℕ → Kern (List (BitVec 32))
  | 0 => return []
  | n + 1 => do
    let pages ← mallocOnes pools n
    let page ← mallocPage pools .pfKernel 1#32
    return pages ++ [page]

/-- What memory held where the entry of page `i` is going to be. -/
def oldEntry (m₀ : ByteMemory) (i : ℕ) : BitVec 32 := m₀.word (tableAddr (256 + i))

/-- The memory after `k` calls. -/
structure Fresh (m₀ : ByteMemory) (nb ub k : ℕ) (m : ByteMemory) : Prop where
  mapped : Mapped m
  page_bit : ∀ i < 8 * nb, bitAt m (pageBits nb ub) i = decide (i < k)
  frame_bit : ∀ i < 8 * nb, bitAt m frameBits i = decide (i < k)
  table : ∀ i < 8 * nb, m.word (tableAddr (256 + i)) =
    if i < k ∧ ¬ Present (oldEntry m₀ i) then entry (0x200 + i) else oldEntry m₀ i

section Calls

variable {pools : MemPools} {nb ub k : ℕ} {m₀ m : ByteMemory} {s : RecordState}

/-- `mem_pool_init` clears the bitmaps and leaves the tables alone. -/
theorem fresh_boot {allMemory : BitVec 32} (hL : (memPools allMemory).Layout nb ub)
    (m₀ : ByteMemory) :
    ∃ m, (memPoolInit allMemory).run kernelSem (setupPage m₀) = .ok (memPools allMemory, m) ∧
      Fresh m₀ nb ub 0 m := by
  obtain ⟨h_nb, h_ub, h_frames, h_pages⟩ := hL.bounds
  obtain ⟨m, h_run, hm, h_bytes⟩ := memPoolInit_run hL (mapped_setupPage m₀)
  -- the bitmaps are cleared, and the entries are what was in memory before
  have h_clear {base i : ℕ} (h_ge : frameBits ≤ base) (h_lt : base + i / 8 < pageBits nb ub + nb) :
      bitAt m base i = decide (i < 0) := by
    rw [bitAt, h_bytes _ (by omega), if_pos (by omega)]
    exact BitVec.getLsbD_zero
  refine ⟨m, h_run, hm, fun i hi => h_clear (by omega) (by omega), fun i hi =>
    h_clear le_rfl (by omega), fun i hi => ?_⟩
  have h_table : tableAddr (256 + i) = 0x101000 + 4 * (256 + i) := rfl
  have h_word : m.word (tableAddr (256 + i)) = (setupPage m₀).word (tableAddr (256 + i)) := by
    apply ByteMemory.word_congr
    intro x hx
    rw [h_bytes _ (by omega), if_neg (by omega)]
  rw [h_word, setupPage_word m₀ (by omega) (by omega), if_neg fun h => Nat.not_lt_zero i h.1]
  rfl

theorem record_pageTableAdd (hm : Mapped s.mem) {i f : ℕ} (hi : 256 + i < 255 * 1024)
    (hf : f < 2 ^ 16) :
    (pageTableAdd pools (pageAddr i) (frameAddr f)).run recordSem s
      = .ok ((), { s with mem := addEntry s.mem i f }) := by
  obtain ⟨⟨p, h_p, h_pde⟩, h_pte, h_entry⟩ := hm.page_slots hi hf
  have h_word : s.mem.load32 (phys (tableAddr (256 + i))) = s.mem.word (tableAddr (256 + i)) := rfl
  unfold pageTableAdd
  dsimp only
  rw [record_load32 h_p, if_pos h_pde, record_load32 h_pte, addEntry, h_word]
  by_cases h_present : Present (s.mem.word (tableAddr (256 + i)))
  · rw [if_pos h_present, if_neg (not_not.mpr h_present)]
    rfl
  · rw [if_neg h_present, if_pos h_present, record_store32 h_pte, h_entry]

/-- A bitmap of which the first `k` bits are set, and the same with one bit more. -/
theorem bits_succ {base : ℕ} (h_fits : base + nb < 2 ^ 32) (hk : k < 8 * nb)
    (h : ∀ i < 8 * nb, bitAt m base i = decide (i < k)) (i : ℕ) (hi : i < 8 * nb) :
    bitAt (setBitAt m base k) base i = decide (i < k + 1) := by
  rw [bitAt_setBitAt m (by omega) (by omega), h i hi, ← Bool.decide_or]
  congr 1
  exact propext ⟨fun h => by omega, fun h => by omega⟩

/-- The memory after a call. -/
def nextMem (nb ub k : ℕ) (m : ByteMemory) : ByteMemory :=
  addEntry (setBitAt (setBitAt m (pageBits nb ub) k) frameBits k) k k

theorem Fresh.next (hL : pools.Layout nb ub) (h : Fresh m₀ nb ub k m) (hk : k < 8 * nb) :
    Fresh m₀ nb ub (k + 1) (nextMem nb ub k m) := by
  obtain ⟨h_nb, h_ub, h_frames, h_pages⟩ := hL.bounds
  have h_mapped₁ : Mapped (setBitAt m (pageBits nb ub) k) := h.mapped.store8 (by omega) _
  have h_mapped₂ : Mapped (setBitAt (setBitAt m (pageBits nb ub) k) frameBits k) :=
    h_mapped₁.store8 (by omega) _
  -- the bitmaps are in the first MiB, and the tables behind it
  have h_word {j : ℕ} (hj : j < 8 * nb) :
      (setBitAt (setBitAt m (pageBits nb ub) k) frameBits k).word (tableAddr (256 + j)) =
        m.word (tableAddr (256 + j)) :=
    (Mapped.word_store8 _ (by omega) (by omega) _).trans
      (Mapped.word_store8 _ (by omega) (by omega) _)
  refine ⟨?_, fun i hi => ?_, fun i hi => ?_, fun i hi => ?_⟩
  · exact h_mapped₂.addEntry (by omega) k
  · rw [nextMem, bitAt_addEntry _ (by omega) (by omega),
      bitAt_setBitAt_of_ne _ (by omega) (by omega) (by omega)]
    exact bits_succ (by omega) hk h.page_bit i hi
  · rw [nextMem, bitAt_addEntry _ (by omega) (by omega)]
    refine bits_succ (by omega) hk (fun j hj => ?_) i hi
    rw [bitAt_setBitAt_of_ne _ (by omega) (by omega) (by omega)]
    exact h.frame_bit j hj
  · have h_old : m.word (tableAddr (256 + k)) = oldEntry m₀ k := by
      rw [h.table k hk, if_neg fun h => Nat.lt_irrefl k h.1]
    rw [nextMem, addEntry, h_word hk, h_old]
    by_cases h_present : Present (oldEntry m₀ k)
    · -- an entry that is present is left as it was
      rw [if_pos h_present, h_word hi, h.table i hi]
      congr 1
      refine propext ⟨fun h => ⟨by omega, h.2⟩, fun h => ⟨?_, h.2⟩⟩
      have h_ne : i ≠ k := fun h_eq => h.2 (h_eq ▸ h_present)
      omega
    · rw [if_neg h_present, Mapped.word_store32 _ (by omega) (by omega), h_word hi, h.table i hi]
      by_cases h_i : i = k
      · subst h_i
        rw [if_pos rfl, if_pos ⟨Nat.lt_succ_self _, h_present⟩]
      · rw [if_neg (by omega)]
        congr 1
        exact propext ⟨fun h => ⟨by omega, h.2⟩, fun h => ⟨by omega, h.2⟩⟩

/-- `vaddr_get` reserves the next page. -/
theorem record_vaddrGet (hL : pools.Layout nb ub) (h : Fresh m₀ nb ub k s.mem) (hk : k < 8 * nb) :
    (vaddrGet pools .pfKernel 1#32).run recordSem s =
      .ok (pageAddr k, { s with mem := setBitAt s.mem (pageBits nb ub) k }) := by
  obtain ⟨h_nb, -, -, -⟩ := hL.bounds
  -- the pages before `k` are taken, so the scan comes to `k`
  have h_scan := bitmapScan_first hL.pages h.mapped hk
    (fun i hi => (h.page_bit i (by omega)).trans (decide_eq_true hi))
    ((h.page_bit k hk).trans (decide_eq_false (Nat.lt_irrefl k)))
  have h_set : (bitmapSet pools.kernelAddr.vaddrBitmap (phys k + 0#32) 1#8).run recordSem s =
      .ok ((), { s with mem := setBitAt s.mem (pageBits nb ub) k }) := by
    rw [BitVec.add_zero]
    exact record_bitmapSet hL.pages h.mapped hk
  have h_some : phys k ≠ -1#32 := phys_ne (k := 2 ^ 32 - 1) (by omega) (by omega) (by omega)
  have h_loop : (vaddrSet pools.kernelAddr.vaddrBitmap (phys k) 1 0#32).run recordSem s =
      .ok ((), { s with mem := setBitAt s.mem (pageBits nb ub) k }) := by
    rw [vaddrSet, Prog.run_bind_of_ok recordSem h_set]
    rfl
  simp only [vaddrGet]
  rw [Prog.run_bind_of_ok recordSem h_scan, if_neg h_some,
    show (1#32).toNat = 1 from rfl, Prog.run_bind_of_ok recordSem h_loop,
    hL.pageAddr_eq]
  rfl

/-- `palloc` takes the next frame. -/
theorem record_palloc (hL : pools.Layout nb ub) (hm : Mapped s.mem) (hk : k < 8 * nb)
    (h_bits : ∀ i < 8 * nb, bitAt s.mem frameBits i = decide (i < k)) :
    (palloc pools.kernelPool).run recordSem s = .ok (frameAddr k,
      { mem := setBitAt s.mem frameBits k, frames := s.frames ++ [frameAddr k] }) := by
  obtain ⟨h_nb, -, -, -⟩ := hL.bounds
  have h_scan := bitmapScan_first hL.frames hm hk
    (fun i hi => (h_bits i (by omega)).trans (decide_eq_true hi))
    ((h_bits k hk).trans (decide_eq_false (Nat.lt_irrefl k)))
  have h_some : phys k ≠ -1#32 := phys_ne (k := 2 ^ 32 - 1) (by omega) (by omega) (by omega)
  rw [palloc, Prog.run_bind_of_ok recordSem h_scan, if_neg h_some,
    Prog.run_bind_of_ok recordSem (record_bitmapSet hL.frames hm hk), hL.frameAddr_eq]
  rfl

/-- **One call.** It takes the next page and the next frame. -/
theorem mallocOne_run (hL : pools.Layout nb ub) (h : Fresh m₀ nb ub k s.mem) (hk : k < 8 * nb) :
    (mallocPage pools .pfKernel 1#32).run recordSem s = .ok (pageAddr k,
      { mem := nextMem nb ub k s.mem, frames := s.frames ++ [frameAddr k] }) := by
  obtain ⟨h_nb, h_ub, h_frames, h_pages⟩ := hL.bounds
  have h_mapped₁ : Mapped (setBitAt s.mem (pageBits nb ub) k) := h.mapped.store8 (by omega) _
  have h_mapped₂ : Mapped (setBitAt (setBitAt s.mem (pageBits nb ub) k) frameBits k) :=
    h_mapped₁.store8 (by omega) _
  -- the page is reserved, the frame taken, and the entry written, in this order
  have h_palloc := record_palloc (s := { s with mem := setBitAt s.mem (pageBits nb ub) k }) hL
    h_mapped₁ hk fun i hi => by
      rw [bitAt_setBitAt_of_ne _ (by omega) (by omega) (by omega)]
      exact h.frame_bit i hi
  have h_add : (pageTableAdd pools (pageAddr k) (frameAddr k)).run recordSem
      ⟨setBitAt (setBitAt s.mem (pageBits nb ub) k) frameBits k, s.frames ++ [frameAddr k]⟩ =
      .ok ((), ⟨nextMem nb ub k s.mem, s.frames ++ [frameAddr k]⟩) :=
    record_pageTableAdd h_mapped₂ (by omega) (by omega)
  have h_frame : frameAddr k ≠ null := phys_ne (k := 0) (by omega) (by omega) (by omega)
  have h_page : pageAddr k ≠ null := phys_ne (k := 0) (by omega) (by omega) (by omega)
  have h_loop : (mallocLoop pools (pools.poolOf .pfKernel) 1 (pageAddr k)).run recordSem
      { s with mem := setBitAt s.mem (pageBits nb ub) k } =
      .ok (true, ⟨nextMem nb ub k s.mem, s.frames ++ [frameAddr k]⟩) := by
    rw [mallocLoop, MemPools.poolOf, Prog.run_bind_of_ok recordSem h_palloc, if_neg h_frame,
      Prog.run_bind_of_ok recordSem h_add]
    rfl
  unfold mallocPage
  rw [record_assert (by decide), Prog.run_bind_of_ok recordSem (record_vaddrGet hL h hk),
    if_neg h_page, show (1#32).toNat = 1 from rfl, Prog.run_bind_of_ok recordSem h_loop, if_pos rfl]
  rfl

/-- **A row of calls.** -/
theorem mallocOnes_run (hL : pools.Layout nb ub) (h : Fresh m₀ nb ub 0 m) {n : ℕ}
    (hn : n ≤ 8 * nb) : ∃ m', Fresh m₀ nb ub n m' ∧
      (mallocOnes pools n).run recordSem ⟨m, []⟩ =
        .ok ((List.range n).map pageAddr, ⟨m', (List.range n).map frameAddr⟩) := by
  induction n with
  | zero => exact ⟨m, h, rfl⟩
  | succ n ih =>
    obtain ⟨m', h', h_run⟩ := ih (Nat.le_of_succ_le hn)
    refine ⟨_, h'.next hL hn, ?_⟩
    have h_one := mallocOne_run (s := ⟨m', (List.range n).map frameAddr⟩) hL h' hn
    rw [mallocOnes, Prog.run_bind_of_ok recordSem h_run, Prog.run_bind_of_ok recordSem h_one,
      List.range_succ, List.map_append, List.map_append]
    rfl

end Calls

/-! ### What the walk finds -/

/-- The flags "present", "writable" and "user". -/
def pageFlags : BitVec 32 := pgUsU ||| pgRwW ||| pgP

/-- The directory slot that the walk of an address reads. -/
def pdeWord (m : ByteMemory) (v : BitVec 32) : BitVec 32 :=
  m.load32 (pageDirTablePos + (v >>> 22) <<< 2)

/-- The table slot that it reads. -/
def pteWord (m : ByteMemory) (v : BitVec 32) : BitVec 32 :=
  m.load32 ((pdeWord m v &&& 0xfffff000#32) + ((v >>> 12) &&& 0x3ff#32) <<< 2)

/-- The walk of a page gives the frame, with all flags. -/
structure ReallyMapped (m : ByteMemory) (page frame : BitVec 32) : Prop where
  walk : translate m page = some frame
  pde : pdeWord m page &&& pageFlags = pageFlags
  pte : pteWord m page &&& pageFlags = pageFlags

/-- The entry is one for the frame `i`. -/
def IsEntryOf (w : BitVec 32) (i : ℕ) : Prop := frameOf w = 0x200 + i ∧ w &&& pageFlags = pageFlags

/-- What was in memory is taken for a missing entry, or is the right one. -/
def SlotHarmless (m₀ : ByteMemory) (i : ℕ) : Prop :=
  ¬ Present (oldEntry m₀ i) ∨ IsEntryOf (oldEntry m₀ i) i

theorem entry_flags (n : ℕ) : entry n &&& pageFlags = pageFlags := by
  have h_flags : pageFlags.toNat = 2 ^ 3 - 1 := rfl
  apply BitVec.eq_of_toNat_eq
  rw [BitVec.toNat_and, h_flags, Nat.and_two_pow_sub_one_eq_mod, entry, phys, BitVec.toNat_ofNat]
  omega

/-- The flags include "present". -/
theorem present_of_flags {w : BitVec 32} (h : w &&& pageFlags = pageFlags) : Present w := by
  have h_one : pageFlags &&& 1#32 = 1#32 := by decide
  intro h_zero
  have h_and : w &&& pageFlags &&& 1#32 = 0#32 := by
    rw [BitVec.and_assoc, h_one]
    exact h_zero
  rw [h, h_one] at h_and
  exact absurd h_and (by decide)

section Walk

variable {m₀ m : ByteMemory} {nb ub n i : ℕ}

/-- The slots on the way to page `i`. -/
theorem Mapped.walk_words (h : Mapped m) (hi : i < 2 ^ 15) :
    pdeWord m (pageAddr i) &&& pageFlags = pageFlags ∧
      pteWord m (pageAddr i) = m.word (tableAddr (256 + i)) := by
  have h_nat : (pageAddr i).toNat = 0xc0100000 + i * 4096 := toNat_phys (by omega)
  obtain ⟨d, h_d⟩ := Nat.exists_eq_add_of_le (show 768 ≤ (pageAddr i).toNat / 2 ^ 22 by omega)
  -- the page is in one of the 255 tables of the kernel, whose slot is filled
  have h_pde : pdeWord m (pageAddr i) = entry (0x101 + d) := by
    have h_slot := directory_slot (v := pageAddr i) (D := 0x100) (by decide)
    rw [h_d] at h_slot
    have h_word : m.word (dirAddr (768 + d)) = entry (0x101 + d) := h.directory d (by omega)
    rw [← h_word, pdeWord]
    exact congrArg m.load32 h_slot
  refine ⟨h_pde ▸ entry_flags _, ?_⟩
  have h_table : tableAddr (256 + i) = 0x101000 + 4 * (256 + i) := rfl
  rw [pteWord, h_pde, table_slot, frameOf_entry (by omega), h_nat, h_table]
  refine congrArg (fun x => m.load32 (phys x)) ?_
  omega

/-- Page `i` is mapped to frame `i` exactly if its entry says so. -/
theorem Mapped.reallyMapped_iff (h : Mapped m) (hi : i < 2 ^ 15) :
    ReallyMapped m (pageAddr i) (frameAddr i) ↔ IsEntryOf (m.word (tableAddr (256 + i))) i := by
  obtain ⟨h_pde, h_pte⟩ := h.walk_words hi
  have h_nat : (pageAddr i).toNat = 0xc0100000 + i * 4096 := toNat_phys (by omega)
  have h_page : kernelPage (pageAddr i) = 256 + i := by
    rw [kernelPage, h_nat]
    omega
  have h_offset : (0xc0100000 + i * 4096) % 4096 = 0 := by omega
  have h_walk := h.translate_eq (v := pageAddr i) (by omega) (by omega)
  rw [h_page, h_nat, h_offset, Nat.add_zero] at h_walk
  constructor
  · rintro ⟨h_frame, -, h_flags⟩
    rw [h_pte] at h_flags
    rw [h_walk, if_pos (present_of_flags h_flags), Option.some.injEq] at h_frame
    refine ⟨?_, h_flags⟩
    -- a frame number has 20 bits, so the address determines it
    have h_lt : frameOf (m.word (tableAddr (256 + i))) < 2 ^ 20 := by
      have h_word := (m.word (tableAddr (256 + i))).isLt
      rw [frameOf]
      omega
    have h_eq := congrArg BitVec.toNat h_frame
    rw [frameAddr, toNat_phys (by omega), toNat_phys (by omega)] at h_eq
    omega
  · rintro ⟨h_frame, h_flags⟩
    refine ⟨?_, h_pde, h_pte ▸ h_flags⟩
    rw [h_walk, if_pos (present_of_flags h_flags), h_frame]
    rfl

theorem Fresh.reallyMapped_iff (h : Fresh m₀ nb ub n m) (h_nb : nb ≤ 4095) (hn : n ≤ 8 * nb)
    (hi : i < n) : ReallyMapped m (pageAddr i) (frameAddr i) ↔ SlotHarmless m₀ i := by
  rw [h.mapped.reallyMapped_iff (by omega), h.table i (by omega), SlotHarmless]
  by_cases h_present : Present (oldEntry m₀ i)
  · rw [if_neg fun h => h.2 h_present]
    exact ⟨.inr, fun h => h.resolve_left (not_not.mpr h_present)⟩
  · rw [if_pos ⟨hi, h_present⟩]
    exact ⟨fun _ => .inl h_present, fun _ => ⟨frameOf_entry (by omega), entry_flags _⟩⟩

end Walk

/-- **When fresh pages are really mapped.** After `setup_page`, `mem_pool_init` and `n` calls, all
pages that were returned lead to the frames that were taken for them if and only if memory held
nothing, where their entries are, that looks like an entry for something else. -/
theorem fresh_pages_mapped_iff (allMemory : BitVec 32) (m₀ : ByteMemory) (n : ℕ)
    (hn : n ≤ 8 * (memPools allMemory).kernelPool.poolBitmap.btmpBytesLen.toNat) :
    ∃ m s pages, (memPoolInit allMemory).run kernelSem (setupPage m₀)
      = .ok (memPools allMemory, m) ∧
      (mallocOnes (memPools allMemory) n).run recordSem ⟨m, []⟩ = .ok (pages, s) ∧
      pages.length = n ∧ s.frames.length = n ∧
      ((∀ x ∈ pages.zip s.frames, ReallyMapped s.mem x.1 x.2) ↔ ∀ i < n, SlotHarmless m₀ i) := by
  obtain ⟨nb, ub, hL⟩ := memPools_layout allMemory
  obtain ⟨m, h_boot, h_fresh⟩ := fresh_boot hL m₀
  rw [hL.frames.toNat_length] at hn
  obtain ⟨m', h_fresh', h_run⟩ := mallocOnes_run hL h_fresh hn
  refine ⟨m, _, _, h_boot, h_run, by simp, by simp, ?_⟩
  -- the `i`-th page goes with the `i`-th frame
  have h_zip : ((List.range n).map pageAddr).zip ((List.range n).map frameAddr) =
      (List.range n).map fun i => (pageAddr i, frameAddr i) := List.zip_map' ..
  rw [h_zip, List.forall_mem_map]
  simp only [List.mem_range]
  exact forall₂_congr fun i hi => h_fresh'.reallyMapped_iff hL.nb_le hn hi

/-- Two pages, after a start from zeros. -/
theorem fresh_pages_mapped_two : ∃ m s pages,
    (memPoolInit 0x2000000#32).run kernelSem (setupPage fun _ => 0#8)
      = .ok (memPools 0x2000000#32, m) ∧
    (mallocOnes (memPools 0x2000000#32) 2).run recordSem ⟨m, []⟩ = .ok (pages, s) ∧
    pages.length = 2 ∧ ∀ x ∈ pages.zip s.frames, ReallyMapped s.mem x.1 x.2 := by
  obtain ⟨m, s, pages, h_boot, h_run, h_pages, -, h_iff⟩ :=
    fresh_pages_mapped_iff 0x2000000#32 (fun _ => 0#8) 2 (by decide +kernel)
  refine ⟨m, s, pages, h_boot, h_run, h_pages, h_iff.mpr fun i _ => .inl ?_⟩
  have h_zero : oldEntry (fun _ => 0#8) i = 0#32 := ByteMemory.word_eq_zero _ fun _ _ => rfl
  rw [h_zero]
  exact not_present_zero

/-- Memory that holds something like an entry for another frame where that of the first page is
going to be. -/
def dirtyMemory : ByteMemory := ByteMemory.store32 (fun _ => 0#8) (phys 0x101400) 0x00300007#32

/-- **A fresh page that is not mapped to its frame.** -/
theorem fresh_page_not_mapped : ∃ m s pages,
    (memPoolInit 0x2000000#32).run kernelSem (setupPage dirtyMemory)
      = .ok (memPools 0x2000000#32, m) ∧
    (mallocOnes (memPools 0x2000000#32) 1).run recordSem ⟨m, []⟩ = .ok (pages, s) ∧
    pages = [0xc0100000#32] ∧ s.frames = [0x00200000#32] ∧
    ¬ ReallyMapped s.mem 0xc0100000#32 0x00200000#32 := by
  obtain ⟨nb, ub, hL⟩ := memPools_layout 0x2000000#32
  obtain ⟨m, h_boot, h_fresh⟩ := fresh_boot hL dirtyMemory
  have h_nb : 1 ≤ 8 * nb := by
    rw [← hL.frames.toNat_length]
    decide +kernel
  obtain ⟨m', h_fresh', h_run⟩ := mallocOnes_run hL h_fresh h_nb
  refine ⟨m, _, _, h_boot, h_run, rfl, rfl, fun h_mapped => ?_⟩
  -- the entry was present before, so it has kept the old frame
  have h_old : oldEntry dirtyMemory 0 = 0x00300007#32 := ByteMemory.word_store32_self ..
  have h_slot := (h_fresh'.reallyMapped_iff hL.nb_le h_nb Nat.one_pos).mp h_mapped
  unfold SlotHarmless IsEntryOf at h_slot
  rw [h_old] at h_slot
  exact absurd h_slot (by decide)

end ToiletOS
