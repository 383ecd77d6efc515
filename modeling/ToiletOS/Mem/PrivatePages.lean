import ToiletOS.Framework.PrivateHeap
import ToiletOS.Mem.NoAliasing

/-!
# The pages of the kernel as a heap

`get_kernel_pages` is `malloc_page` and a `memset`. `pageSys` calls it in any order with accesses to
the pages that it has returned, all of them through the page tables, and logs what it returns, what
is stored and what loads see.

The log is the history of a heap in the sense of `Framework/PrivateHeap.lean`
(`kernel_pages_private`): a page that is handed out is nobody else's, it holds zeros, and what its
owner stores there stays, whatever is allocated later. The allocator works on the bitmaps and the
page tables, and on nothing else (`SameElsewhere`), and the pages with their frames are a partial
bijection, so that a store to one page is none to another.
-/

namespace ToiletOS

/-- `get_kernel_pages`. -/
def getKernelPages (pools : MemPools) (pageCount : BitVec 32) : Kern (BitVec 32) := do
  let vaddr ← mallocPage pools .pfKernel pageCount
  if vaddr ≠ null then
    Kern.memset vaddr 0#8 (pageCount * pageSize)
    return vaddr
  else
    return vaddr

/-! ### What the allocator works on -/

/-- The allocator works on the bitmaps and on the entries of the pages that it hands out. -/
def AllocByte (n : ℕ) : Prop := 0x9a000 ≤ n ∧ n < 0x9d000 ∨ 0x101400 ≤ n ∧ n < 0x200000

/-- The memory that the allocator does not work on has not changed. -/
def SameElsewhere (m m' : ByteMemory) : Prop :=
  ∀ n < 2 ^ 32, ¬ AllocByte n → m' (phys n) = m (phys n)

/-- The bitmaps and the page tables have not changed. -/
def SameTables (m m' : ByteMemory) : Prop :=
  ∀ n, 0x9a000 ≤ n ∧ n < 0x9d000 ∨ 0x100000 ≤ n ∧ n < 0x200000 → m' (phys n) = m (phys n)

/-- The memory below the frames that the allocator does not work on has not changed. -/
def SameKernel (m m' : ByteMemory) : Prop :=
  ∀ n < 0x200000, ¬ AllocByte n → m' (phys n) = m (phys n)

section Frame

variable {pools : MemPools} {nb ub : ℕ} {m m' m'' : ByteMemory} {e : ℕ ≃. ℕ} {lo hi : ℕ}

theorem SameElsewhere.refl (m : ByteMemory) : SameElsewhere m m := fun _ _ _ => rfl

theorem SameElsewhere.trans (h : SameElsewhere m m') (h' : SameElsewhere m' m'') :
    SameElsewhere m m'' :=
  fun n h_lt h_not => (h' n h_lt h_not).trans (h n h_lt h_not)

theorem sameElsewhere_setBitAt (m : ByteMemory) {base i : ℕ} (h_ge : 0x9a000 ≤ base + i / 8)
    (h_lt : base + i / 8 < 0x9d000) : SameElsewhere m (setBitAt m base i) := by
  intro n hn h_not
  unfold AllocByte at h_not
  exact m.byte_store8 _ hn (by omega) (by omega)

theorem sameElsewhere_addEntry (m : ByteMemory) {i : ℕ} (h : 256 + i < 255 * 1024) (f : ℕ) :
    SameElsewhere m (addEntry m i f) := by
  have h_table : tableAddr (256 + i) = 0x101000 + 4 * (256 + i) := rfl
  intro n hn h_not
  unfold AllocByte at h_not
  unfold addEntry
  split
  · rfl
  · exact m.byte_store32 _ hn (by omega) (by omega)

/-- The loop of `vaddr_get` sets bits of a bitmap. -/
theorem vaddrSet_elsewhere (hL : pools.Layout nb ub) (hm : Mapped m) {left : ℕ} (lo count : ℕ)
    (h_fits : lo + count + left ≤ 8 * nb)
    (h_run : (vaddrSet pools.kernelAddr.vaddrBitmap (phys lo) left (phys count)).run kernelSem m
      = .ok ((), m')) : SameElsewhere m m' := by
  obtain ⟨h_nb, h_ub, h_frames, h_pages⟩ := hL.bounds
  induction left generalizing m count with
  | zero =>
    obtain rfl : m = m' := congrArg Prod.snd (Except.ok.inj h_run)
    exact .refl m
  | succ left ih =>
    have h_set : (bitmapSet pools.kernelAddr.vaddrBitmap (phys lo + phys count) 1#8).run kernelSem m
        = .ok ((), setBitAt m (pageBits nb ub) (lo + count)) := by
      rw [phys_add]
      exact bitmapSet_run hL.pages hm (by omega)
    rw [vaddrSet, Prog.run_bind_of_ok kernelSem h_set,
      show phys count + 1#32 = phys (count + 1) from phys_add count 1] at h_run
    have h_mapped : Mapped (setBitAt m (pageBits nb ub) (lo + count)) := hm.store8 (by omega) _
    exact (sameElsewhere_setBitAt m (by omega) (by omega)).trans
      (ih h_mapped (count + 1) (by omega) h_run)

/-- The loop of `malloc_page` sets bits of a bitmap, and writes entries. -/
theorem mallocLoop_elsewhere (hL : pools.Layout nb ub) (count : ℕ) (h : KernelMap nb ub m e lo hi)
    (h_count : lo + count ≤ hi) {completed : Bool}
    (h_run : (mallocLoop pools pools.kernelPool count (pageAddr lo)).run kernelSem m
      = .ok (completed, m')) : SameElsewhere m m' := by
  obtain ⟨h_nb, h_ub, h_frames, h_pages⟩ := hL.bounds
  induction count generalizing m e lo with
  | zero =>
    obtain rfl : m = m' := congrArg Prod.snd (Except.ok.inj h_run)
    exact .refl m
  | succ count ih =>
    obtain ⟨h_lo, h_none⟩ := h.reserved lo le_rfl (by omega)
    obtain ⟨f, hf, h_bit, h_palloc⟩ := palloc_run hL h.mapped (h.exists_clear (by omega))
    have h_free : e.symm f = none := by
      rw [h.frame_bit f hf] at h_bit
      simpa using h_bit
    have h_mapped : Mapped (setBitAt m frameBits f) := h.mapped.store8 (by omega) _
    have h_ne : frameAddr f ≠ null := phys_ne (k := 0) (by omega) (by omega) (by omega)
    have h_add : (pageTableAdd pools (pageAddr lo) (frameAddr f)).run kernelSem _ = .ok ((), _) :=
      pageTableAdd_run h_mapped (by omega) (by omega)
    rw [mallocLoop, Prog.run_bind_of_ok kernelSem h_palloc, if_neg h_ne,
      Prog.run_bind_of_ok kernelSem h_add, pageAddr_succ] at h_run
    have h_next := h.map hL (by omega) hf h_none h_free
    exact ((sameElsewhere_setBitAt m (by omega) (by omega)).trans
      (sameElsewhere_addEntry _ (by omega) f)).trans (ih h_next (by omega) h_run)

/-- `vaddr_get` sets bits of a bitmap. -/
theorem vaddrGet_elsewhere (hL : pools.Layout nb ub) (hm : Mapped m) {n : BitVec 32}
    (h_inside : RunInside pools m n) {v : BitVec 32}
    (h_run : (vaddrGet pools .pfKernel n).run kernelSem m = .ok (v, m')) : SameElsewhere m m' := by
  simp only [vaddrGet] at h_run
  rcases bitmapScan_run hL.pages hm n with ⟨err, h_scan⟩ | ⟨r, h_scan, -⟩
  · rw [Prog.run_bind, h_scan] at h_run
    cases h_run
  rw [Prog.run_bind_of_ok kernelSem h_scan] at h_run
  by_cases h_fail : r = -1#32
  · rw [if_pos h_fail] at h_run
    obtain rfl : m = m' := congrArg Prod.snd (Except.ok.inj h_run)
    exact .refl m
  rw [if_neg h_fail] at h_run
  have h_fits : r.toNat + n.toNat ≤ 8 * nb := by
    simp only [RunInside, h_scan, hL.pages.toNat_length] at h_inside
    exact h_inside h_fail
  rw [Prog.run_bind] at h_run
  cases h_set : (vaddrSet pools.kernelAddr.vaddrBitmap r n.toNat 0#32).run kernelSem m with
  | error err =>
    rw [h_set] at h_run
    cases h_run
  | ok x =>
    obtain ⟨u, m₁⟩ := x
    rw [h_set] at h_run
    obtain rfl : m₁ = m' := congrArg Prod.snd (Except.ok.inj h_run)
    rw [← phys_toNat r] at h_set
    exact vaddrSet_elsewhere hL hm r.toNat 0 (by omega) h_set

/-- `malloc_page` changes nothing else. -/
theorem mallocPage_elsewhere (hL : pools.Layout nb ub) (h : KernelMap nb ub m e 0 0)
    {n : BitVec 32} (h_pos : 0#32 < n) (h_max : n < 3840#32) (h_inside : RunInside pools m n)
    {v : BitVec 32} (h_run : (mallocPage pools .pfKernel n).run kernelSem m = .ok (v, m')) :
    SameElsewhere m m' := by
  obtain ⟨h_nb, -, -, -⟩ := hL.bounds
  unfold mallocPage at h_run
  rw [run_assert ⟨h_pos, h_max⟩] at h_run
  rcases vaddrGet_run hL h h_inside with ⟨err, h_get⟩ | h_get | ⟨r, m₁, h_get, h₁, h_fits⟩
  · rw [Prog.run_bind, h_get] at h_run
    cases h_run
  · rw [Prog.run_bind_of_ok kernelSem h_get, if_pos rfl] at h_run
    obtain rfl : m = m' := congrArg Prod.snd (Except.ok.inj h_run)
    exact .refl m
  · have h_ne : pageAddr r ≠ null := phys_ne (k := 0) (by omega) (by omega) (by omega)
    obtain ⟨m₂, e', h_loop, -⟩ := mallocLoop_run hL n.toNat h₁ le_rfl
    rw [Prog.run_bind_of_ok kernelSem h_get, if_neg h_ne, MemPools.poolOf,
      Prog.run_bind_of_ok kernelSem h_loop, if_pos rfl] at h_run
    obtain rfl : m₂ = m' := congrArg Prod.snd (Except.ok.inj h_run)
    exact (vaddrGet_elsewhere hL h.mapped h_inside h_get).trans
      (mallocLoop_elsewhere hL n.toNat h₁ le_rfl h_loop)

/-- The map is what the bitmaps and the page tables are. -/
theorem PoolMap.congr (h : KernelMap nb ub m e 0 0) (hL : pools.Layout nb ub)
    (h_same : SameTables m m') : KernelMap nb ub m' e 0 0 := by
  obtain ⟨h_nb, h_ub, h_frames, h_pages⟩ := hL.bounds
  have h_word {n : ℕ} (h_ge : 0x100000 ≤ n) (h_le : n + 4 ≤ 0x200000) : m'.word n = m.word n :=
    m.word_congr fun k hk => h_same _ (by omega)
  have h_table (p : ℕ) : tableAddr p = 0x101000 + 4 * p := rfl
  have h_dir (i : ℕ) : dirAddr i = 0x100000 + 4 * i := rfl
  refine ⟨h.mapped.congr (fun i hi => h_word ?_ ?_) (fun j hj => h_word ?_ ?_), h.page_lt,
    h.frame_lt, fun i hi => ?_, fun f hf => ?_, fun i hi => ?_, h.reserved⟩
  · rw [h_dir]
    omega
  · rw [h_dir]
    omega
  · rw [h_table]
    omega
  · rw [h_table]
    omega
  · rw [bitAt_congr (h_same _ (by omega)), h.page_bit i hi]
  · rw [bitAt_congr (h_same _ (by omega)), h.frame_bit f hf]
  · rw [h_word (by rw [h_table]; omega) (by rw [h_table]; omega), h.table i hi]

end Frame

/-! ### The bytes of the pages -/

/-- The physical address of byte `x` of the kernel's virtual pool. -/
def place (e : ℕ ≃. ℕ) (x : ℕ) : Option ℕ :=
  (e (x / 4096)).map fun f => 0x200000 + f * 4096 + x % 4096

/-- The bytes of the pages that have frames, under their addresses. -/
def pageBytes (m : ByteMemory) (e : ℕ ≃. ℕ) (a : BitVec 32) : Option (BitVec 8) :=
  if kHeadStart.toNat ≤ a.toNat then
    (place e (a.toNat - kHeadStart.toNat)).map fun p => m (phys p)
  else none

section Bytes

variable {nb ub : ℕ} {m m' : ByteMemory} {e e' : ℕ ≃. ℕ} {x y p : ℕ} {a : BitVec 32}

/-- The address of byte `x`. -/
def byteAddr (x : ℕ) : BitVec 32 := phys (0xc0100000 + x)

theorem PoolMap.place_bounds (h : KernelMap nb ub m e 0 0) (h_nb : nb ≤ 4095)
    (h_place : place e x = some p) : x < 8 * nb * 4096 ∧ 0x200000 ≤ p ∧ p < 2 ^ 32 := by
  obtain ⟨f, h_f, rfl⟩ := Option.map_eq_some_iff.mp h_place
  have h_page := h.page_lt _ _ h_f
  have h_frame := h.frame_lt _ _ h_f
  omega

theorem place_inj (h : place e x = some p) (h' : place e y = some p) : x = y := by
  obtain ⟨f, h_f, h_p⟩ := Option.map_eq_some_iff.mp h
  obtain ⟨g, h_g, h_q⟩ := Option.map_eq_some_iff.mp h'
  obtain rfl : f = g := by omega
  have h_page : x / 4096 = y / 4096 := e.inj h_f h_g
  omega

/-- An access to a byte of a page goes to its place. -/
theorem PoolMap.translate_byte (h : KernelMap nb ub m e 0 0) (h_nb : nb ≤ 4095)
    (h_place : place e x = some p) : translate m (byteAddr x) = some (phys p) := by
  obtain ⟨f, h_f, rfl⟩ := Option.map_eq_some_iff.mp h_place
  have h_page := h.page_lt _ _ h_f
  have h_frame := h.frame_lt _ _ h_f
  have h_nat : (byteAddr x).toNat = 0xc0100000 + x := toNat_phys (by omega)
  have h_entry : m.word (tableAddr (kernelPage (byteAddr x))) = entry (0x200 + f) := by
    rw [kernelPage, h_nat, show (0xc0100000 + x - 0xc0000000) / 4096 = 256 + x / 4096 by omega,
      h.entry_eq h_page, h_f]
    rfl
  rw [h.mapped.translate_eq (by omega) (by omega), h_entry, if_pos present_entry,
    frameOf_entry (by omega), h_nat]
  congr 2
  omega

theorem pageBytes_byteAddr (hx : 0xc0100000 + x < 2 ^ 32) :
    pageBytes m e (byteAddr x) = (place e x).map fun p => m (phys p) := by
  have h_nat : (byteAddr x).toNat = 0xc0100000 + x := toNat_phys hx
  have h_head : kHeadStart.toNat = 0xc0100000 := rfl
  rw [pageBytes, h_nat, h_head, if_pos (by omega), Nat.add_sub_cancel_left]

/-- An address of a page is that of one of the bytes. -/
theorem exists_byteAddr {v : BitVec 8} (h : pageBytes m e a = some v) :
    ∃ x p, a = byteAddr x ∧ 0xc0100000 + x < 2 ^ 32 ∧ place e x = some p ∧ m (phys p) = v := by
  have h_head : kHeadStart.toNat = 0xc0100000 := rfl
  rw [pageBytes, h_head] at h
  split at h
  · next h_ge =>
    obtain ⟨p, h_p, h_v⟩ := Option.map_eq_some_iff.mp h
    have h_lt := a.isLt
    exact ⟨a.toNat - 0xc0100000, p, eq_phys (by omega), by omega, h_p, h_v⟩
  · cases h

/-- **A store to a page** is one to its heap, and to nothing else. -/
theorem PoolMap.store8 {pools : MemPools} (h : KernelMap nb ub m e 0 0) (hL : pools.Layout nb ub)
    (h_place : place e x = some p) (v : BitVec 8) :
    KernelMap nb ub (m.store8 (phys p) v) e 0 0 ∧
      pageBytes (m.store8 (phys p) v) e =
        Function.update (pageBytes m e) (byteAddr x) (some v) := by
  obtain ⟨h_nb, -, -, -⟩ := hL.bounds
  obtain ⟨h_x, h_ge, h_lt⟩ := h.place_bounds h_nb h_place
  refine ⟨h.congr hL fun n hn => m.byte_store8 v (by omega) h_lt (by omega), ?_⟩
  funext a
  by_cases h_a : a = byteAddr x
  · subst h_a
    rw [Function.update_self, pageBytes_byteAddr (by omega), h_place]
    simp
  · rw [Function.update_of_ne h_a, pageBytes, pageBytes]
    split
    · next h_head =>
      refine Option.map_congr fun q hq => ?_
      -- another byte has another place
      have h_ne : q ≠ p := by
        rintro rfl
        have h_byte := place_inj hq h_place
        refine h_a (eq_phys ?_)
        have h_start : kHeadStart.toNat = 0xc0100000 := rfl
        omega
      exact m.byte_store8 v (h.place_bounds h_nb hq).2.2 h_lt h_ne
    · rfl

theorem byteAddr_succ (x : ℕ) : byteAddr x + 1#32 = byteAddr (x + 1) := by
  rw [byteAddr, show (1#32 : BitVec 32) = phys 1 from rfl, phys_add, byteAddr, Nat.add_assoc]

/-- The loop of `memset` over bytes of pages. -/
theorem memsetLoop_pages {pools : MemPools} (hL : pools.Layout nb ub) (len : ℕ)
    (h : KernelMap nb ub m e 0 0) (h_own : ∀ y, x ≤ y → y < x + len → (place e y).isSome)
    (val : BitVec 8) :
    ∃ m', (Kern.memsetLoop val len (byteAddr x)).run kernelSem m = .ok ((), m') ∧
      KernelMap nb ub m' e 0 0 ∧ (∀ n < 0x200000, m' (phys n) = m (phys n)) ∧
      (∀ y, x ≤ y → y < x + len → pageBytes m' e (byteAddr y) = some val) ∧
      ∀ a, (∀ y, x ≤ y → y < x + len → a ≠ byteAddr y) → pageBytes m' e a = pageBytes m e a := by
  obtain ⟨h_nb, -, -, -⟩ := hL.bounds
  induction len generalizing m x with
  | zero => exact ⟨m, rfl, h, fun _ _ => rfl, fun y h_ge h_lt => by omega, fun a _ => rfl⟩
  | succ len ih =>
    obtain ⟨p, h_p⟩ := Option.isSome_iff_exists.mp (h_own x le_rfl (by omega))
    obtain ⟨h_map, h_bytes⟩ := h.store8 hL h_p val
    obtain ⟨m', h_run, h_map', h_below, h_in, h_out⟩ := ih h_map (x := x + 1)
      fun y h_ge h_lt => h_own y (by omega) (by omega)
    have h_frame := (h.place_bounds h_nb h_p).2
    refine ⟨m', ?_, h_map', fun n hn => ?_, fun y h_ge h_lt => ?_, fun a h_a => ?_⟩
    · rw [Kern.memsetLoop,
        Prog.run_bind_of_ok kernelSem (run_store8 (h.translate_byte h_nb h_p) val), byteAddr_succ]
      exact h_run
    · exact (h_below n hn).trans (m.byte_store8 val (by omega) h_frame.2 (by omega))
    · rcases Nat.eq_or_lt_of_le h_ge with rfl | h_gt
      · -- the byte of this round is none of those that follow
        have h_x := (h.place_bounds h_nb h_p).1
        rw [h_out (byteAddr x) fun y h_ge' h_lt' => ?_, h_bytes, Function.update_self]
        obtain ⟨q, h_q⟩ := Option.isSome_iff_exists.mp (h_own y (by omega) (by omega))
        have h_y := (h.place_bounds h_nb h_q).1
        exact phys_ne (by omega) (by omega) (by omega)
      · exact h_in y h_gt (by omega)
    · rw [h_out a fun y h_ge h_lt => h_a y (by omega) (by omega), h_bytes,
        Function.update_of_ne (h_a x le_rfl (by omega))]

end Bytes

/-! ### `get_kernel_pages` -/

section Pages

variable {pools : MemPools} {nb ub : ℕ} {m : ByteMemory} {e : ℕ ≃. ℕ}

theorem place_isSome {x : ℕ} : (place e x).isSome ↔ (e (x / 4096)).isSome := by
  rw [place, Option.isSome_map]

/-- **`get_kernel_pages`.** A call stops or fails, or it returns pages that nobody had. They hold
zeros, and the other pages hold what they held before. -/
theorem getKernelPages_run (hL : pools.Layout nb ub) (h : KernelMap nb ub m e 0 0) {n : BitVec 32}
    (h_pos : 0#32 < n) (h_max : n < 3840#32) (h_inside : RunInside pools m n) :
    (∃ err, (mallocPage pools .pfKernel n).run kernelSem m = .error err ∧
      (getKernelPages pools n).run kernelSem m = .error err) ∨
    ((mallocPage pools .pfKernel n).run kernelSem m = .ok (null, m) ∧
      (getKernelPages pools n).run kernelSem m = .ok (null, m)) ∨
    ∃ r m' e', (∃ m₁, (mallocPage pools .pfKernel n).run kernelSem m = .ok (pageAddr r, m₁)) ∧
      (getKernelPages pools n).run kernelSem m = .ok (pageAddr r, m') ∧
      r + n.toNat ≤ 8 * nb ∧ KernelMap nb ub m' e' 0 0 ∧ SameKernel m m' ∧
      (∀ i, (e' i).isSome ↔ (e i).isSome ∨ r ≤ i ∧ i < r + n.toNat) ∧
      (∀ x, r * 4096 ≤ x → x < (r + n.toNat) * 4096 →
        pageBytes m e (byteAddr x) = none ∧ pageBytes m' e' (byteAddr x) = some 0#8) ∧
      ∀ a, (∀ x, r * 4096 ≤ x → x < (r + n.toNat) * 4096 → a ≠ byteAddr x) →
        pageBytes m' e' a = pageBytes m e a := by
  obtain ⟨h_nb, -, -, -⟩ := hL.bounds
  rcases mallocPage_run hL h h_pos h_max h_inside with
    ⟨err, h_run⟩ | h_run | ⟨r, m₁, e', h_run, h_fits, h_map, h_new, h_old⟩
  · left
    refine ⟨err, h_run, ?_⟩
    rw [getKernelPages, Prog.run_bind, h_run]
    rfl
  · right; left
    refine ⟨h_run, ?_⟩
    rw [getKernelPages, Prog.run_bind_of_ok kernelSem h_run, if_neg (not_not_intro rfl)]
    rfl
  right; right
  have h_ne : pageAddr r ≠ null := phys_ne (k := 0) (by omega) (by omega) (by omega)
  have h_n : n.toNat < 3840 := h_max
  have h_own (y : ℕ) (h_ge : r * 4096 ≤ y) (h_lt : y < r * 4096 + n.toNat * 4096) :
      (place e' y).isSome :=
    place_isSome.mpr (h_new (y / 4096) (by omega) (by omega)).2
  obtain ⟨m', h_set, h_map', h_below, h_in, h_out⟩ :=
    memsetLoop_pages hL (n.toNat * 4096) h_map h_own 0#8
  have h_else := mallocPage_elsewhere hL h h_pos h_max h_inside h_run
  have h_end : (r + n.toNat) * 4096 = r * 4096 + n.toNat * 4096 := Nat.add_mul ..
  refine ⟨r, m', e', ⟨m₁, h_run⟩, ?_, h_fits, h_map', fun i hi h_not => ?_, fun i => ?_,
    fun x h_ge h_lt => ⟨?_, ?_⟩, fun a h_a => ?_⟩
  · have h_memset :
        (Kern.memset (pageAddr r) 0#8 (n * pageSize)).run kernelSem m₁ = .ok ((), m') := by
      have h_len : (n * pageSize).toNat = n.toNat * 4096 := by
        rw [BitVec.toNat_mul, pageSize, BitVec.toNat_ofNat]
        omega
      have h_dest : pageAddr r ≠ 0#32 := h_ne
      have h_addr : pageAddr r = byteAddr (r * 4096) := rfl
      rw [Kern.memset, run_assert h_dest, h_len, h_addr]
      exact h_set
    rw [getKernelPages, Prog.run_bind_of_ok kernelSem h_run, if_pos h_ne,
      Prog.run_bind_of_ok kernelSem h_memset]
    rfl
  · exact (h_below i hi).trans (h_else i (by omega) h_not)
  · by_cases h_i : r ≤ i ∧ i < r + n.toNat
    · simp [h_i, (h_new i h_i.1 h_i.2).2]
    · rw [h_old i (by omega)]
      simp [h_i]
  · rw [pageBytes_byteAddr (by omega), place, (h_new (x / 4096) (by omega) (by omega)).1]
    rfl
  · exact h_in x h_ge (h_lt.trans_eq h_end)
  · rw [h_out a fun y h_ge h_lt => h_a y h_ge (h_lt.trans_eq h_end.symm), pageBytes, pageBytes]
    split
    · next h_head =>
      have h_start : kHeadStart.toNat = 0xc0100000 := rfl
      have h_byte : a = byteAddr (a.toNat - kHeadStart.toNat) := eq_phys (by omega)
      have h_page : e' ((a.toNat - kHeadStart.toNat) / 4096) =
          e ((a.toNat - kHeadStart.toNat) / 4096) := by
        refine h_old _ ?_
        by_contra h_in
        exact h_a _ (by omega) (by omega) h_byte
      rw [place, place, h_page]
      refine Option.map_congr fun p hp => ?_
      obtain ⟨-, h_ge, h_lt⟩ := h.place_bounds h_nb hp
      refine h_else p h_lt ?_
      unfold AllocByte
      omega
    · rfl

end Pages

/-! ### The machine -/

/-- The memory, the results of the calls that succeeded, and the history. -/
structure PageState where
  mem : ByteMemory
  returned : List (BitVec 32 × BitVec 32)
  log : List (HeapEvent (BitVec 32) (BitVec 8))

/-- A call of `get_kernel_pages`, or an access to a page. -/
inductive PageAct
  | pages (pageCount : BitVec 32)
  | access (o : Access)
  deriving DecidableEq

/-- The addresses of the pages that a call has returned. -/
def addresses (x : BitVec 32 × BitVec 32) : Set (BitVec 32) :=
  {a | x.1.toNat ≤ a.toNat ∧ a.toNat < x.1.toNat + x.2.toNat * 4096}

/-- A call has returned the page that `a` is in. -/
def PageState.Owned (st : PageState) (a : BitVec 32) : Prop :=
  ∃ x ∈ st.returned, x.1.toNat ≤ a.toNat ∧ a.toNat < x.1.toNat + x.2.toNat * 4096

instance (st : PageState) (a : BitVec 32) : Decidable (st.Owned a) := by
  unfold PageState.Owned
  infer_instance

/-- What the owners of the pages can see. -/
def PageState.heap (st : PageState) (a : BitVec 32) : Option (BitVec 8) :=
  if st.Owned a then (translate st.mem a).map st.mem else none

/-- The access is one to pages that have been returned. -/
def PageState.Permits (st : PageState) : Access → Prop
  | .load8 a | .store8 a _ => st.Owned a
  | .load32 a | .store32 a _ => a.toNat % 4 = 0 ∧ st.Owned a

instance (st : PageState) : ∀ o, Decidable (st.Permits o)
  | .load8 a | .store8 a _ => inferInstanceAs (Decidable (st.Owned a))
  | .load32 a | .store32 a _ => inferInstanceAs (Decidable (a.toNat % 4 = 0 ∧ st.Owned a))

/-- An access in the history, byte by byte. -/
def Access.events : (o : Access) → o.Res → List (HeapEvent (BitVec 32) (BitVec 8))
  | load8 a, (v : BitVec 8) => [.load a v]
  | store8 a v, _ => [.store a v]
  | load32 a, (v : BitVec 32) => [.load a (v.extractLsb' 0 8), .load (addr a 1) (v.extractLsb' 8 8),
      .load (addr a 2) (v.extractLsb' 16 8), .load (addr a 3) (v.extractLsb' 24 8)]
  | store32 a v, _ => [.store a (v.extractLsb' 0 8), .store (addr a 1) (v.extractLsb' 8 8),
      .store (addr a 2) (v.extractLsb' 16 8), .store (addr a 3) (v.extractLsb' 24 8)]

/-- Calls of `get_kernel_pages`, and accesses between them. -/
def pageSys (allMemory : BitVec 32) : Machine PageState PageAct Halt where
  init st := Booted allMemory st.mem ∧ st.returned = [] ∧ st.log = []
  enabled st
    | .pages n => (0#32 < n ∧ n < 3840#32) ∧ RunInside (memPools allMemory) st.mem n
    | .access o => st.Permits o
  exec st
    | .pages n =>
      match (getKernelPages (memPools allMemory) n).run kernelSem st.mem with
      | .ok (vaddr, m) =>
        if vaddr = null then .ok { st with mem := m }
        else .ok ⟨m, st.returned ++ [(vaddr, n)], st.log ++ [.alloc (addresses (vaddr, n))]⟩
      | .error e => .error e
    | .access o =>
      match o.exec st.mem with
      | .ok (r, m) => .ok { st with mem := m, log := st.log ++ o.events r }
      | .error e => .error e

instance (allMemory : BitVec 32) (st : PageState) :
    ∀ a, Decidable ((pageSys allMemory).enabled st a)
  | .pages n =>
    inferInstanceAs (Decidable ((0#32 < n ∧ n < 3840#32) ∧ RunInside _ st.mem n))
  | .access o => inferInstanceAs (Decidable (st.Permits o))

section Exec

variable {allMemory n v : BitVec 32} {st : PageState} {m : ByteMemory} {o : Access} {r : o.Res}

theorem exec_pages
    (h_run : (getKernelPages (memPools allMemory) n).run kernelSem st.mem = .ok (v, m))
    (h_ne : v ≠ null) : (pageSys allMemory).exec st (.pages n) =
      .ok ⟨m, st.returned ++ [(v, n)], st.log ++ [.alloc (addresses (v, n))]⟩ := by
  simp only [pageSys, h_run, if_neg h_ne]

theorem exec_access (h_ok : o.exec st.mem = .ok (r, m)) : (pageSys allMemory).exec st (.access o) =
    .ok { st with mem := m, log := st.log ++ o.events r } := by
  simp only [pageSys, h_ok]

end Exec

/-! ### The history is that of a heap -/

/-- The memory holds a map, and the bytes of its pages are what the history says. -/
structure HoldsHeap (nb ub : ℕ) (e : ℕ ≃. ℕ) (m : ByteMemory)
    (log : List (HeapEvent (BitVec 32) (BitVec 8))) : Prop where
  map : KernelMap nb ub m e 0 0
  heap : HeapRun 0#8 log (pageBytes m e)

/-- The invariant of the machine: the pages of the map are those that have been returned. -/
structure PageInv (nb ub : ℕ) (e : ℕ ≃. ℕ) (st : PageState) : Prop extends
    HoldsHeap nb ub e st.mem st.log where
  owned : ∀ a, st.Owned a ↔ (pageBytes st.mem e a).isSome

section Inv

variable {allMemory : BitVec 32} {nb ub : ℕ} {e : ℕ ≃. ℕ} {st st' : PageState} {m : ByteMemory}
  {log : List (HeapEvent (BitVec 32) (BitVec 8))} {x p : ℕ} {o : Access}

theorem HoldsHeap.store8 {pools : MemPools} (h : HoldsHeap nb ub e m log) (hL : pools.Layout nb ub)
    (h_place : place e x = some p) (v : BitVec 8) :
    HoldsHeap nb ub e (m.store8 (phys p) v) (log ++ [.store (byteAddr x) v]) := by
  obtain ⟨h_nb, -, -, -⟩ := hL.bounds
  have h_x := (h.map.place_bounds h_nb h_place).1
  obtain ⟨h_map, h_bytes⟩ := h.map.store8 hL h_place v
  refine ⟨h_map, ?_⟩
  rw [h_bytes]
  refine h.heap.store v ?_
  rw [pageBytes_byteAddr (by omega), h_place]
  rfl

theorem HoldsHeap.load8 (h : HoldsHeap nb ub e m log) (h_nb : nb ≤ 4095)
    (h_place : place e x = some p) :
    HoldsHeap nb ub e m (log ++ [.load (byteAddr x) (m (phys p))]) := by
  have h_x := (h.map.place_bounds h_nb h_place).1
  refine ⟨h.map, h.heap.load ?_⟩
  rw [pageBytes_byteAddr (by omega), h_place]
  rfl

/-- The bytes of a word lie behind each other. -/
theorem place_add (h_place : place e x = some p) (h_align : x % 4 = 0) {i : ℕ} (hi : i < 4) :
    place e (x + i) = some (p + i) := by
  obtain ⟨f, h_f, rfl⟩ := Option.map_eq_some_iff.mp h_place
  have h_page : (x + i) / 4096 = x / 4096 := by omega
  rw [place, h_page, h_f, Option.map_some]
  congr 1
  omega

/-- The bytes of a word. -/
theorem byte_of_place (m : ByteMemory) (h_place : place e x = some p) (h_align : x % 4 = 0) {i : ℕ}
    (hi : i < 4) : m (phys (p + i)) = (m.load32 (phys p)).extractLsb' (8 * i) 8 := by
  obtain ⟨f, h_f, rfl⟩ := Option.map_eq_some_iff.mp h_place
  rw [m.byte_eq_word, ByteMemory.word]
  congr 3 <;> omega

/-- The pages that are seen are those of the map. -/
theorem PageInv.heap_eq (h : PageInv nb ub e st) (h_nb : nb ≤ 4095) :
    st.heap = pageBytes st.mem e := by
  funext a
  rw [PageState.heap]
  split
  · next h_own =>
    obtain ⟨v, h_v⟩ := Option.isSome_iff_exists.mp ((h.owned a).mp h_own)
    obtain ⟨x, p, rfl, -, h_place, h_byte⟩ := exists_byteAddr h_v
    rw [h.map.translate_byte h_nb h_place, h_v, Option.map_some, h_byte]
  · next h_not =>
    rw [h.owned a, Option.not_isSome_iff_eq_none] at h_not
    exact h_not.symm

/-- Which addresses are those of pages does not depend on what they hold. -/
theorem isSome_pageBytes (m m' : ByteMemory) (e : ℕ ≃. ℕ) (a : BitVec 32) :
    (pageBytes m' e a).isSome = (pageBytes m e a).isSome := by
  unfold pageBytes
  split
  · rw [Option.isSome_map, Option.isSome_map]
  · rfl

/-- An access that is permitted goes through, and the history goes on. -/
theorem PageInv.access (hL : (memPools allMemory).Layout nb ub) (h : PageInv nb ub e st)
    (h_permits : st.Permits o) :
    ∃ r m', o.exec st.mem = .ok (r, m') ∧ HoldsHeap nb ub e m' (st.log ++ o.events r) ∧
      ∀ n < 0x200000, m' (phys n) = st.mem (phys n) := by
  obtain ⟨h_nb, -, -, -⟩ := hL.bounds
  have h_place {a : BitVec 32} (h_own : st.Owned a) : ∃ x p, a = byteAddr x ∧
      place e x = some p ∧ translate st.mem a = some (phys p) := by
    obtain ⟨v, h_v⟩ := Option.isSome_iff_exists.mp ((h.owned a).mp h_own)
    obtain ⟨x, p, rfl, -, h_p, -⟩ := exists_byteAddr h_v
    exact ⟨x, p, rfl, h_p, h.map.translate_byte h_nb h_p⟩
  -- the four bytes of a word, at their addresses and in their places
  have h_word {a : BitVec 32} (h_align : a.toNat % 4 = 0) (h_own : st.Owned a) :
      ∃ x p, a = byteAddr x ∧ translate st.mem a = some (phys p) ∧ place e x = some p ∧
        x % 4 = 0 ∧ ∀ i < 4, addr a i = byteAddr (x + i) ∧ addr (phys p) i = phys (p + i) ∧
          place e (x + i) = some (p + i) := by
    obtain ⟨x, p, rfl, h_p, h_map⟩ := h_place h_own
    have h_x := (h.map.place_bounds h_nb h_p).1
    have h_nat : (byteAddr x).toNat = 0xc0100000 + x := toNat_phys (by omega)
    have h_x4 : x % 4 = 0 := by omega
    refine ⟨x, p, rfl, h_map, h_p, h_x4, fun i hi => ⟨?_, phys_add p i, place_add h_p h_x4 hi⟩⟩
    rw [byteAddr, byteAddr, ← Nat.add_assoc]
    exact phys_add _ i
  cases o with
  | load8 a =>
    obtain ⟨x, p, rfl, h_p, h_map⟩ := h_place h_permits
    exact ⟨_, st.mem, by simp only [Access.exec, h_map], h.toHoldsHeap.load8 h_nb h_p,
      fun _ _ => rfl⟩
  | store8 a v =>
    obtain ⟨x, p, rfl, h_p, h_map⟩ := h_place h_permits
    have h_frame := (h.map.place_bounds h_nb h_p).2
    exact ⟨(), _, by simp only [Access.exec, h_map], h.toHoldsHeap.store8 hL h_p v,
      fun n hn => st.mem.byte_store8 v (by omega) h_frame.2 (by omega)⟩
  | load32 a =>
    obtain ⟨x, p, h_a, h_map, h_p, h_x, h_bytes⟩ := h_word h_permits.1 h_permits.2
    refine ⟨st.mem.load32 (phys p), st.mem, by simp only [Access.exec, h_map], ?_, fun _ _ => rfl⟩
    obtain ⟨h_1, h_1', h_p1⟩ := h_bytes 1 (by omega)
    obtain ⟨h_2, h_2', h_p2⟩ := h_bytes 2 (by omega)
    obtain ⟨h_3, h_3', h_p3⟩ := h_bytes 3 (by omega)
    have h_holds :=
      (((h.toHoldsHeap.load8 h_nb h_p).load8 h_nb h_p1).load8 h_nb h_p2).load8 h_nb h_p3
    have h_byte {i : ℕ} (hi : i < 4) := byte_of_place st.mem h_p h_x hi
    have h_byte₀ : st.mem (phys p) = (st.mem.load32 (phys p)).extractLsb' 0 8 :=
      h_byte (by omega : 0 < 4)
    rw [h_byte (by omega : 1 < 4), h_byte (by omega : 2 < 4), h_byte (by omega : 3 < 4), h_byte₀,
      ← h_1, ← h_2, ← h_3, ← h_a] at h_holds
    simpa [Access.events] using h_holds
  | store32 a v =>
    obtain ⟨x, p, h_a, h_map, h_p, h_x, h_bytes⟩ := h_word h_permits.1 h_permits.2
    have h_last := (h.map.place_bounds h_nb (h_bytes 3 (by omega)).2.2).2
    have h_frame := (h.map.place_bounds h_nb h_p).2
    refine ⟨(), st.mem.store32 (phys p) v, by simp only [Access.exec, h_map], ?_,
      fun n hn => st.mem.byte_store32 v (by omega) (by omega) (by omega)⟩
    obtain ⟨h_1, h_1', h_p1⟩ := h_bytes 1 (by omega)
    obtain ⟨h_2, h_2', h_p2⟩ := h_bytes 2 (by omega)
    obtain ⟨h_3, h_3', h_p3⟩ := h_bytes 3 (by omega)
    have h_holds := (((h.toHoldsHeap.store8 hL h_p (v.extractLsb' 0 8)).store8 hL h_p1
      (v.extractLsb' 8 8)).store8 hL h_p2 (v.extractLsb' 16 8)).store8 hL h_p3 (v.extractLsb' 24 8)
    rw [← h_1', ← h_2', ← h_3', ← h_1, ← h_2, ← h_3, ← h_a] at h_holds
    simpa [Access.events, ByteMemory.store32] using h_holds

/-- The addresses of pages of the pool. -/
theorem mem_addresses {r : ℕ} {n a : BitVec 32} (h_fits : r + n.toNat ≤ 32760) :
    a ∈ addresses (pageAddr r, n) ↔
      ∃ x, r * 4096 ≤ x ∧ x < (r + n.toNat) * 4096 ∧ a = byteAddr x := by
  have h_nat : (pageAddr r).toNat = 0xc0100000 + r * 4096 := toNat_pageAddr (by omega)
  simp only [addresses, Set.mem_ofPred_eq, h_nat]
  constructor
  · rintro ⟨h_ge, h_lt⟩
    exact ⟨a.toNat - 0xc0100000, by omega, by omega, eq_phys (by omega)⟩
  · rintro ⟨x, h_ge, h_lt, rfl⟩
    have h_x : (byteAddr x).toNat = 0xc0100000 + x := toNat_phys (by omega)
    omega

/-- A call changes nothing that anyone sees, or it returns pages of the pool that nobody had. -/
theorem pages_step (hL : (memPools allMemory).Layout nb ub) (h : KernelMap nb ub st.mem e 0 0)
    {n : BitVec 32} (h_step : (pageSys allMemory).Step st (.pages n) st') :
    st' = st ∨ ∃ r m' e', r + n.toNat ≤ 8 * nb ∧ 0 < n.toNat ∧
      st' = ⟨m', st.returned ++ [(pageAddr r, n)], st.log ++ [.alloc (addresses (pageAddr r, n))]⟩ ∧
      KernelMap nb ub m' e' 0 0 ∧ SameKernel st.mem m' ∧
      (∀ a ∈ addresses (pageAddr r, n),
        pageBytes st.mem e a = none ∧ pageBytes m' e' a = some 0#8) ∧
      ∀ a ∉ addresses (pageAddr r, n), pageBytes m' e' a = pageBytes st.mem e a := by
  obtain ⟨h_nb, -, -, -⟩ := hL.bounds
  obtain ⟨⟨⟨h_pos, h_max⟩, h_inside⟩, h_exec⟩ := h_step
  rcases getKernelPages_run hL h h_pos h_max h_inside with
    ⟨err, -, h_run⟩ | ⟨-, h_run⟩ |
    ⟨r, m', e', -, h_run, h_fits, h_map, h_kernel, -, h_new, h_old⟩
  · simp only [pageSys, h_run] at h_exec
    cases h_exec
  · simp only [pageSys, h_run] at h_exec
    cases h_exec
    exact Or.inl rfl
  · have h_ne : pageAddr r ≠ null := phys_ne (k := 0) (by omega) (by omega) (by omega)
    have h_mem (a : BitVec 32) := mem_addresses (a := a) (show r + n.toNat ≤ 32760 by omega)
    rw [exec_pages h_run h_ne] at h_exec
    cases h_exec
    refine Or.inr ⟨r, m', e', h_fits, h_pos, rfl, h_map, h_kernel, fun a h_a => ?_, fun a h_a => ?_⟩
    · obtain ⟨x, h_ge, h_lt, rfl⟩ := (h_mem a).mp h_a
      exact h_new x h_ge h_lt
    · exact h_old a fun x h_ge h_lt h_eq => h_a ((h_mem a).mpr ⟨x, h_ge, h_lt, h_eq⟩)

/-- What a step does to the invariant. -/
theorem pageInv_step (hL : (memPools allMemory).Layout nb ub) (h : PageInv nb ub e st) {a : PageAct}
    (h_step : (pageSys allMemory).Step st a st') :
    (∃ e', PageInv nb ub e' st') ∧ SameKernel st.mem st'.mem := by
  cases a with
  | access o =>
    obtain ⟨h_enabled, h_exec⟩ := h_step
    obtain ⟨r, m', h_ok, h_holds, h_below⟩ := h.access hL h_enabled
    rw [exec_access h_ok] at h_exec
    cases h_exec
    refine ⟨⟨e, h_holds, fun a => ?_⟩, fun n hn _ => h_below n hn⟩
    rw [isSome_pageBytes st.mem m']
    exact h.owned a
  | pages n =>
    rcases pages_step hL h.map h_step with
      rfl | ⟨r, m', e', -, -, rfl, h_map, h_kernel, h_new, h_old⟩
    · exact ⟨⟨e, h⟩, fun _ _ _ => rfl⟩
    · refine ⟨⟨e', ⟨h_map, h.heap.alloc h_new h_old⟩, fun a => ?_⟩, h_kernel⟩
      simp only [PageState.Owned, List.mem_append, List.mem_singleton, or_and_right, exists_or,
        exists_eq_left]
      by_cases h_a : a ∈ addresses (pageAddr r, n)
      · rw [(h_new a h_a).2]
        exact iff_of_true (Or.inr h_a) rfl
      · rw [h_old a h_a, ← h.owned a]
        exact or_iff_left h_a

/-- At the start no page has been returned. -/
theorem pageInv_of_init (hL : (memPools allMemory).Layout nb ub) (h : (pageSys allMemory).init st) :
    PageInv nb ub ⊥ st := by
  obtain ⟨h_boot, h_nil, h_log⟩ := h
  have h_none : pageBytes st.mem ⊥ = fun _ => none := by
    funext a
    simp [pageBytes, place]
  refine ⟨⟨h_boot.kernelMap hL, ?_⟩, fun a => ?_⟩
  · rw [h_log, h_none]
    exact .nil
  · rw [h_none]
    simp [PageState.Owned, h_nil]

theorem pageInv_of_reachable (hL : (memPools allMemory).Layout nb ub)
    (h : (pageSys allMemory).Reachable st) : ∃ e, PageInv nb ub e st :=
  h.invariant (P := fun st => ∃ e, PageInv nb ub e st)
    (fun _ h_init => ⟨⊥, pageInv_of_init hL h_init⟩)
    fun _ _ _ ⟨_, h_e⟩ h_step => (pageInv_step hL h_e h_step).1

/-- The history is that of a heap, and loads see what was stored last. -/
theorem PageInv.isHeap (h : PageInv nb ub e st) (h_nb : nb ≤ 4095) :
    HeapRun 0#8 st.log st.heap ∧ (∀ a, (st.heap a).isSome ↔ st.Owned a) ∧
      ∀ pre a v post, st.log = pre ++ .load a v :: post → v = lastStored 0#8 a pre := by
  rw [h.heap_eq h_nb]
  refine ⟨h.heap, fun a => (h.owned a).symm, fun pre a v post h_log => ?_⟩
  have h_run := h.heap
  rw [h_log] at h_run
  exact h_run.load_eq

/-- The owners' accesses go through. -/
theorem PageInv.not_faults (hL : (memPools allMemory).Layout nb ub) (h : PageInv nb ub e st)
    (o : Access) (err : Halt) : ¬ (pageSys allMemory).Faults st (.access o) err := by
  rintro ⟨h_permits, h_exec⟩
  obtain ⟨r, m', h_ok, -, -⟩ := h.access hL h_permits
  rw [exec_access h_ok] at h_exec
  cases h_exec

end Inv

/-- **The pages of the kernel are a heap**: the history of every run is that of one, its owners see
what it says, and no access to a page that has been returned is a page fault. -/
theorem kernel_pages_private (allMemory : BitVec 32) {st : PageState}
    (h : (pageSys allMemory).Reachable st) :
    HeapRun 0#8 st.log st.heap ∧ (∀ a, (st.heap a).isSome ↔ st.Owned a) ∧
    (∀ pre a v post, st.log = pre ++ .load a v :: post → v = lastStored 0#8 a pre) ∧
    ∀ o e, ¬ (pageSys allMemory).Faults st (.access o) e := by
  obtain ⟨nb, ub, hL⟩ := memPools_layout allMemory
  obtain ⟨e, h_inv⟩ := pageInv_of_reachable hL h
  obtain ⟨h_heap, h_owned, h_load⟩ := h_inv.isHeap hL.nb_le
  exact ⟨h_heap, h_owned, h_load, h_inv.not_faults hL⟩

/-- The first page of 32 MiB of memory. -/
theorem getKernelPages_bootImage : ∃ m' : ByteMemory,
    (getKernelPages (memPools 0x2000000#32) 1#32).run kernelSem bootImage
      = .ok (0xc0100000#32, m') := by
  obtain ⟨nb, ub, hL⟩ := memPools_layout 0x2000000#32
  have h_boot := booted_bootImage 0x2000000#32
  have h_inside : RunInside (memPools 0x2000000#32) bootImage 1#32 := by decide +kernel
  have h_malloc : ((mallocPage (memPools 0x2000000#32) .pfKernel 1#32).run kernelSem
      bootImage).toOption.map Prod.fst = some 0xc0100000#32 := by
    decide +kernel
  rcases getKernelPages_run hL (h_boot.kernelMap hL) (n := 1#32) (by decide) (by decide)
    h_inside with ⟨err, h_run, -⟩ | ⟨h_run, -⟩ | ⟨r, m', e', ⟨m₁, h_run⟩, h_pages, -⟩
  · rw [h_run] at h_malloc
    simp [Except.toOption] at h_malloc
  · rw [h_run] at h_malloc
    simp [Except.toOption, null] at h_malloc
  · rw [h_run] at h_malloc
    have h_addr : pageAddr r = 0xc0100000#32 := Option.some.inj h_malloc
    rw [h_addr] at h_pages
    exact ⟨m', h_pages⟩

/-- A byte is stored in that page and loaded again. -/
theorem kernel_pages_private_byte : ∃ st, (pageSys 0x2000000#32).Reachable st ∧
    st.log = [.alloc (addresses (0xc0100000#32, 1#32)), .store 0xc0100005#32 7#8,
      .load 0xc0100005#32 7#8] ∧
    HeapRun 0#8 st.log st.heap := by
  have h_init : (pageSys 0x2000000#32).Reachable ⟨bootImage, [], []⟩ :=
    .init ⟨booted_bootImage _, rfl, rfl⟩
  have h_inside : RunInside (memPools 0x2000000#32) bootImage 1#32 := by decide +kernel
  obtain ⟨m₁, h_pages⟩ := getKernelPages_bootImage
  set st₁ : PageState := ⟨m₁, [(0xc0100000#32, 1#32)],
    [.alloc (addresses (0xc0100000#32, 1#32))]⟩ with hst₁
  have h₁ : (pageSys 0x2000000#32).Reachable st₁ :=
    h_init.step (a := .pages 1#32) ⟨⟨by decide, h_inside⟩, exec_pages h_pages (by decide)⟩
  have h_own (st : PageState) (h_returned : st.returned = [(0xc0100000#32, 1#32)]) :
      st.Owned 0xc0100005#32 :=
    ⟨(0xc0100000#32, 1#32), by simp [h_returned], by decide, by decide⟩
  -- an access goes through, because the page has been returned
  have h_access {st : PageState} (h : (pageSys 0x2000000#32).Reachable st) {o : Access}
      (h_permits : st.Permits o) : ∃ r m', o.exec st.mem = .ok (r, m') := by
    cases h_o : o.exec st.mem with
    | ok x => exact ⟨x.1, x.2, rfl⟩
    | error err =>
      refine absurd ⟨h_permits, ?_⟩ ((kernel_pages_private _ h).2.2.2 o err)
      simp only [pageSys, h_o]
  obtain ⟨⟨⟩, m₂, h_store⟩ := h_access h₁ (o := .store8 0xc0100005#32 7#8) (h_own st₁ rfl)
  have h₂ : (pageSys 0x2000000#32).Reachable { st₁ with
      mem := m₂, log := st₁.log ++ [.store 0xc0100005#32 7#8] } :=
    h₁.step (a := .access (.store8 0xc0100005#32 7#8)) ⟨h_own st₁ rfl, exec_access h_store⟩
  obtain ⟨v, m₃, h_load⟩ := h_access h₂ (o := .load8 0xc0100005#32) (h_own _ rfl)
  have h₃ : (pageSys 0x2000000#32).Reachable { st₁ with
      mem := m₃, log := st₁.log ++ [.store 0xc0100005#32 7#8] ++ [.load 0xc0100005#32 v] } :=
    h₂.step (a := .access (.load8 0xc0100005#32)) ⟨h_own _ rfl, exec_access h_load⟩
  obtain ⟨h_run, -, h_last, -⟩ := kernel_pages_private _ h₃
  obtain rfl : v = 7#8 := h_last _ _ _ [] rfl
  exact ⟨_, h₃, rfl, h_run⟩

end ToiletOS
