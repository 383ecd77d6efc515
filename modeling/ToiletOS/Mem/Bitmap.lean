import ToiletOS.Mem.Kern

/-!
# The bitmaps of `kernel/bitmap.c`

The functions are translated with their loops: each becomes a recursion on the number
of rounds it has left, which the source keeps in a variable or which follows
from one. `int` and `uint32_t` are both `BitVec 32`, and `-1` is the largest of these.

`bitmap_scan` counts the bits that are left from the wrong start (`bit_left` subtracts
a number of bits from a number of bytes), so a run may be found that does not end within
the bitmap, and addresses behind it may be read. What can be said of the result
(`wp_bitmapScan`) is therefore about the bits within: those of the run that lie in
the bitmap are clear. Of a single bit, all is as it should be (`wp_bitmapScan_one`).

Both rules are about any environment in which others leave the bitmap alone once the
scan has found a byte that is not full (`ScanEnv`).
-/

namespace ToiletOS

/-! ### The functions -/

/-- `(uint8_t) (BITMAP_MASK << k)`. -/
def bitmapMask (k : BitVec 32) : BitVec 8 := (1#32 <<< k).setWidth 8

/-- `bitmap_init`. -/
def bitmapInit (btmp : Bitmap) : Kern Unit := Kern.memset btmp.bits 0#8 btmp.btmpBytesLen

/-- `bitmap_scan_test`. -/
def bitmapScanTest (btmp : Bitmap) (bitIdx : BitVec 32) : Kern Bool := do
  let byteIdx := bitIdx / 8#32
  let bitOdd := bitIdx % 8#32
  let byte ← Kern.load8 (btmp.bits + byteIdx)
  return decide (bitmapMask bitOdd &&& byte ≠ 0#8)

/-- The first loop of `bitmap_scan`, with `left` bytes between `idx_byte` and the end.
The byte is read before its index is compared with the length. -/
def scanBytes (btmp : Bitmap) : ℕ → BitVec 32 → Kern (BitVec 32)
  | 0, idxByte => do
    let _ ← Kern.load8 (btmp.bits + idxByte)
    return idxByte
  | left + 1, idxByte => do
    let byte ← Kern.load8 (btmp.bits + idxByte)
    if 0xff#8 = byte then scanBytes btmp left (idxByte + 1#32) else return idxByte

/-- The second loop, with `left` bits between `idx_bit` and the end of the byte, where
the mask is zero. -/
def scanBits (btmp : Bitmap) (idxByte : BitVec 32) : ℕ → BitVec 32 → Kern (BitVec 32)
  | 0, idxBit => do
    let _ ← Kern.load8 (btmp.bits + idxByte)
    return idxBit
  | left + 1, idxBit => do
    let byte ← Kern.load8 (btmp.bits + idxByte)
    if bitmapMask idxBit &&& byte ≠ 0#8 then scanBits btmp idxByte left (idxBit + 1#32)
    else return idxBit

/-- The third loop, by `bit_left`. -/
def scanRun (btmp : Bitmap) (cnt : BitVec 32) : ℕ → BitVec 32 → BitVec 32 → Kern (BitVec 32)
  | 0, _, _ => return -1#32
  | bitLeft + 1, nextBit, count => do
    let isSet ← bitmapScanTest btmp nextBit
    let count := if isSet then 0#32 else count + 1#32
    if count = cnt then return nextBit - cnt + 1#32
    else scanRun btmp cnt bitLeft (nextBit + 1#32) count

/-- `bitmap_scan`. -/
def bitmapScan (btmp : Bitmap) (cnt : BitVec 32) : Kern (BitVec 32) := do
  let idxByte ← scanBytes btmp btmp.btmpBytesLen.toNat 0#32
  Kern.assert (idxByte < btmp.btmpBytesLen)
  if idxByte = btmp.btmpBytesLen then return -1#32
  else
    Kern.record (.found btmp)
    let idxBit ← scanBits btmp idxByte 8 0#32
    let bitIdxStart := idxByte * 8#32 + idxBit
    if cnt = 1#32 then return bitIdxStart
    else
      let bitLeft := (btmp.btmpBytesLen - bitIdxStart) * 8#32 - idxBit
      scanRun btmp cnt bitLeft.toNat (bitIdxStart + 1#32) 1#32

/-- `bitmap_set`. -/
def bitmapSet (btmp : Bitmap) (bitIdx : BitVec 32) (value : BitVec 8) : Kern Unit := do
  Kern.assert (value = 0#8 ∨ value = 1#8)
  let byteIdx := bitIdx / 8#32
  let bitOdd := bitIdx % 8#32
  let byte ← Kern.load8 (btmp.bits + byteIdx)
  if value ≠ 0#8 then Kern.store8 (btmp.bits + byteIdx) (byte ||| bitmapMask bitOdd)
  else Kern.store8 (btmp.bits + byteIdx) (byte &&& ~~~bitmapMask bitOdd)

/-! ### Bits of memory -/

theorem getLsbD_bitmapMask (k : BitVec 32) (j : ℕ) :
    (bitmapMask k).getLsbD j = decide (j < 8 ∧ j = k.toNat) := by
  simp only [bitmapMask, BitVec.getLsbD_setWidth, BitVec.shiftLeft_eq', BitVec.getLsbD_shiftLeft,
    BitVec.getLsbD_one]
  by_cases h : j < 8
  · simp [h]
    grind
  · simp [h]

/-- A mask tests one bit. -/
theorem bitmapMask_and (byte : BitVec 8) (k : BitVec 32) :
    bitmapMask k &&& byte = 0#8 ↔ byte.getLsbD k.toNat = false := by
  constructor
  · intro h
    by_contra h_bit
    have h_and := congrArg (BitVec.getLsbD · k.toNat) h
    simp only [BitVec.getLsbD_and, getLsbD_bitmapMask] at h_and
    have h_lt : k.toNat < 8 := BitVec.lt_of_getLsbD (by simpa using h_bit)
    simp_all
  · intro h
    apply BitVec.eq_of_getLsbD_eq
    intro i hi
    rw [BitVec.getLsbD_and, getLsbD_bitmapMask]
    by_cases h_i : i = k.toNat
    · -- the mask has one bit
      subst h_i; simp [h]
    · simp [h_i]

/-- Bit `i` of the bitmap that starts at the physical address `base`. -/
def bitAt (m : ByteMemory) (base i : ℕ) : Bool := (m (phys (base + i / 8))).getLsbD (i % 8)

/-- The memory with bit `i` of this bitmap set. -/
def setBitAt (m : ByteMemory) (base i : ℕ) : ByteMemory :=
  m.store8 (phys (base + i / 8)) (m (phys (base + i / 8)) ||| bitmapMask (phys (i % 8)))

theorem bitAt_setBitAt (m : ByteMemory) {base i j : ℕ} (hi : base + i / 8 < 2 ^ 32)
    (hj : base + j / 8 < 2 ^ 32) :
    bitAt (setBitAt m base i) base j = (decide (j = i) || bitAt m base j) := by
  by_cases h : j / 8 = i / 8
  · have h_eq : j = i ↔ j % 8 = i % 8 := by omega
    have h_bit : (phys (i % 8)).toNat = i % 8 := toNat_phys (by omega)
    have h_lt : j % 8 < 8 := Nat.mod_lt _ (by decide)
    rw [bitAt, setBitAt, bitAt, h, ByteMemory.store8_self, BitVec.getLsbD_or, getLsbD_bitmapMask,
      h_bit, Bool.or_comm]
    simp [h_eq, h_lt]
  · have h_ne : j ≠ i := fun h_eq => h (by rw [h_eq])
    rw [bitAt, setBitAt, bitAt, m.byte_store8 _ hj hi (by omega)]
    simp [h_ne]

/-- A bit elsewhere stays as it is. -/
theorem bitAt_setBitAt_of_ne (m : ByteMemory) {base base' i j : ℕ} (hi : base + i / 8 < 2 ^ 32)
    (hj : base' + j / 8 < 2 ^ 32) (h : base' + j / 8 ≠ base + i / 8) :
    bitAt (setBitAt m base i) base' j = bitAt m base' j := by
  rw [bitAt, setBitAt, bitAt, m.byte_store8 _ hj hi h]

theorem bitAt_congr {m m' : ByteMemory} {base i : ℕ}
    (h : m' (phys (base + i / 8)) = m (phys (base + i / 8))) :
    bitAt m' base i = bitAt m base i := by
  rw [bitAt, bitAt, h]

/-- The bits of a full byte are set. -/
theorem bitAt_of_full {m : ByteMemory} {base i : ℕ} (h : m (phys (base + i / 8)) = 0xff#8) :
    bitAt m base i = true := by
  have h_lt : i % 8 < 8 := Nat.mod_lt _ (by decide)
  rw [bitAt, h, show (0xff#8) = BitVec.allOnes 8 from rfl, BitVec.getLsbD_allOnes]
  exact decide_eq_true h_lt

/-- A byte that is not full has a clear bit. -/
theorem exists_clear {byte : BitVec 8} (h : byte ≠ 0xff#8) : ∃ j < 8, byte.getLsbD j = false := by
  by_contra h_all
  push Not at h_all
  apply h
  apply BitVec.eq_of_getLsbD_eq
  intro i hi
  rw [show (0xff#8) = BitVec.allOnes 8 from rfl, BitVec.getLsbD_allOnes, decide_eq_true hi]
  simpa using h_all i hi

/-! ### What a scan finds -/

/-- A bitmap of `len` bytes that lies in low memory, at the physical address `base`. -/
structure Bitmap.LiesAt (btmp : Bitmap) (base len : ℕ) : Prop where
  bits : btmp.bits = phys (0xc0000000 + base)
  length : btmp.btmpBytesLen = phys len
  fits : base + len < 0x100000

/-- The environment of a scan. `Keeps` holds while the code runs, and `Holds` from the
moment on at which the scan has found a byte that is not full. -/
structure ScanEnv {σ : Type} (E : Env kernelSig σ) (mem : σ → ByteMemory) (btmp : Bitmap)
    (base len : ℕ) (Keeps Holds : σ → Prop) : Prop extends
    Accesses E mem, btmp.LiesAt base len where
  mapped : ∀ s, Keeps s → Mapped (mem s)
  keeps : ∀ s s', Keeps s → E.rely s s' → Keeps s'
  -- a byte that is full stays full
  full : ∀ s s', Keeps s → E.rely s s' → ∀ k < len,
    mem s (phys (base + k)) = 0xff#8 → mem s' (phys (base + k)) = 0xff#8
  -- a load changes nothing
  loads : ∀ s, Keeps s → E.guar s s
  found : ∀ s, Keeps s → Keeps (E.note (.found btmp) s) ∧ Holds (E.note (.found btmp) s) ∧
    mem (E.note (.found btmp) s) = mem s ∧ E.guar s (E.note (.found btmp) s)
  holds : ∀ s s', Keeps s → Holds s → E.rely s s' →
    Holds s' ∧ ∀ k < len, mem s' (phys (base + k)) = mem s (phys (base + k))

section Scan

variable {σ : Type} {E : Env kernelSig σ} {mem : σ → ByteMemory} {btmp : Bitmap} {base len : ℕ}
  {Keeps Holds : σ → Prop} {Q : BitVec 32 → σ → σ → Prop} {s₀ s : σ}

open Env

theorem Bitmap.LiesAt.address (h : btmp.LiesAt base len) (k : ℕ) :
    btmp.bits + phys k = phys (0xc0000000 + (base + k)) := by
  rw [h.bits, phys_add, Nat.add_assoc]

theorem Bitmap.LiesAt.toNat_length (h : btmp.LiesAt base len) : btmp.btmpBytesLen.toNat = len := by
  rw [h.length, toNat_phys (by have := h.fits; omega)]

/-- A load of a byte of the bitmap, or of the byte behind it. -/
theorem ScanEnv.wp_load8 (h : ScanEnv E mem btmp base len Keeps Holds) {k : ℕ} (hk : k ≤ len)
    {β : Type} {R : β → σ → σ → Prop} {f : BitVec 8 → Kern β} (h_guar : E.guar s₀ s)
    (h_keeps : Keeps s)
    (h_next : ∀ s₁, E.rely s s₁ → Keeps s₁ → E.wp R (f (mem s₁ (phys (base + k)))) s₁ s₁) :
    E.wp R (Kern.load8 (btmp.bits + phys k) >>= f) s₀ s := by
  have h_fits := h.fits
  rw [h.address]
  refine h.toAccesses.wp_load8 (p := phys (base + k)) h_guar (fun s₁ h_rely => ?_)
    fun s₁ h_rely => ?_
  · exact (h.mapped s₁ (h.keeps s s₁ h_keeps h_rely)).translate_low (by omega)
  · exact h_next s₁ h_rely (h.keeps s s₁ h_keeps h_rely)

/-- The first loop ends behind the bitmap, if all bytes are full, or at a byte that is
not. -/
theorem ScanEnv.wp_scanBytes (h : ScanEnv E mem btmp base len Keeps Holds) {k left : ℕ}
    (h_left : k + left = len) (h_guar : E.guar s₀ s) (h_keeps : Keeps s)
    (h_full : ∀ x < k, mem s (phys (base + x)) = 0xff#8)
    (h_none : ∀ s', Keeps s' → (∀ x < len, mem s' (phys (base + x)) = 0xff#8) →
      Q (phys len) s' s')
    (h_some : ∀ k' < len, ∀ s', Keeps s' → mem s' (phys (base + k')) ≠ 0xff#8 →
      Q (phys k') s' s') :
    E.wp Q (scanBytes btmp left (phys k)) s₀ s := by
  induction left generalizing k s₀ s with
  | zero =>
    obtain rfl : k = len := h_left
    refine h.wp_load8 le_rfl h_guar h_keeps fun s₁ h_rely h_keeps₁ => ?_
    exact h_none s₁ h_keeps₁ fun x hx => h.full s s₁ h_keeps h_rely x hx (h_full x hx)
  | succ left ih =>
    refine h.wp_load8 (by omega) h_guar h_keeps fun s₁ h_rely h_keeps₁ => ?_
    -- a byte that is full stays so, because nobody clears a bit
    by_cases h_byte : 0xff#8 = mem s₁ (phys (base + k))
    · rw [if_pos h_byte, show phys k + 1#32 = phys (k + 1) from phys_add k 1]
      refine ih (by omega) (h.loads s₁ h_keeps₁) h_keeps₁ fun x hx => ?_
      rcases Nat.lt_succ_iff_lt_or_eq.mp hx with hx | rfl
      · exact h.full s s₁ h_keeps h_rely x (by omega) (h_full x hx)
      · exact h_byte.symm
    · rw [if_neg h_byte]
      exact h_some k (by omega) s₁ h_keeps₁ fun h_eq => h_byte h_eq.symm

/-- The second loop finds a clear bit in a byte that is not full. -/
theorem ScanEnv.wp_scanBits (h : ScanEnv E mem btmp base len Keeps Holds) {k j left : ℕ}
    (hk : k < len) (h_left : j + left = 8) (h_guar : E.guar s₀ s) (h_keeps : Keeps s)
    (h_holds : Holds s) (h_byte : mem s (phys (base + k)) ≠ 0xff#8)
    (h_set : ∀ i < j, (mem s (phys (base + k))).getLsbD i = true)
    (h_post : ∀ j' < 8, ∀ s', Keeps s' → Holds s' →
      (mem s' (phys (base + k))).getLsbD j' = false → Q (phys j') s' s') :
    E.wp Q (scanBits btmp (phys k) left (phys j)) s₀ s := by
  induction left generalizing j s₀ s with
  | zero =>
    -- eight set bits would be a full byte
    obtain ⟨i, hi, h_clear⟩ := exists_clear h_byte
    exact absurd (h_set i (by omega)) (by simp [h_clear])
  | succ left ih =>
    -- each bit is tested on a byte that is read again
    refine h.wp_load8 hk.le h_guar h_keeps fun s₁ h_rely h_keeps₁ => ?_
    obtain ⟨h_holds₁, h_same⟩ := h.holds s s₁ h_keeps h_holds h_rely
    have h_j : (phys j).toNat = j := toNat_phys (by omega)
    rw [← h_same k hk] at h_byte h_set
    by_cases h_bit : bitmapMask (phys j) &&& mem s₁ (phys (base + k)) ≠ 0#8
    · rw [if_pos h_bit, show phys j + 1#32 = phys (j + 1) from phys_add j 1]
      refine ih (by omega) (h.loads s₁ h_keeps₁) h_keeps₁ h_holds₁ h_byte fun i hi => ?_
      rcases Nat.lt_succ_iff_lt_or_eq.mp hi with hi | rfl
      · exact h_set i hi
      · rw [Ne, bitmapMask_and, h_j] at h_bit
        simpa using h_bit
    · rw [if_neg h_bit]
      rw [not_not, bitmapMask_and, h_j] at h_bit
      exact h_post j (by omega) s₁ h_keeps₁ h_holds₁ h_bit

/-- The bit is clear, if it lies within the bitmap. -/
def ClearWithin (m : ByteMemory) (base len : ℕ) (b : BitVec 32) : Prop :=
  b.toNat < 8 * len → bitAt m base b.toNat = false

theorem ClearWithin.congr {m m' : ByteMemory} {b : BitVec 32} (h : ClearWithin m base len b)
    (h_same : ∀ k < len, m' (phys (base + k)) = m (phys (base + k))) :
    ClearWithin m' base len b := by
  intro h_lt
  rw [bitAt_congr (h_same _ (by omega))]
  exact h h_lt

/-- Testing a bit. -/
theorem ScanEnv.wp_bitmapScanTest (h : ScanEnv E mem btmp base len Keeps Holds) {b : BitVec 32}
    {β : Type} {R : β → σ → σ → Prop} {f : Bool → Kern β} (h_guar : E.guar s₀ s)
    (h_keeps : Keeps s) (h_fault : ∀ s', Keeps s' → E.fails .pageFault s')
    (h_next : ∀ s₁ isSet, E.rely s s₁ → Keeps s₁ →
      (isSet = false → ClearWithin (mem s₁) base len b) → E.wp R (f isSet) s₁ s₁) :
    E.wp R (bitmapScanTest btmp b >>= f) s₀ s := by
  have h_fits := h.fits
  unfold bitmapScanTest
  rw [Prog.bind_assoc]
  refine h.toAccesses.wp_load8' h_guar
    (fun s₁ h_rely => h_fault s₁ (h.keeps s s₁ h_keeps h_rely)) fun s₁ byte h_rely h_byte => ?_
  have h_keeps₁ := h.keeps s s₁ h_keeps h_rely
  refine h_next s₁ _ h_rely h_keeps₁ fun h_test h_lt => ?_
  -- within the bitmap, the byte that was read is the one the bit lies in
  have h_addr : btmp.bits + b / 8#32 = phys (0xc0000000 + (base + b.toNat / 8)) := by
    rw [← h.address, ← phys_toNat (b / 8#32), BitVec.toNat_udiv]
    rfl
  have h_map := (h.mapped s₁ h_keeps₁).translate_low (n := base + b.toNat / 8) (by omega)
  rw [bitAt, ← h_byte _ (h_addr ▸ h_map)]
  rw [decide_eq_false_iff_not, not_not, bitmapMask_and, BitVec.toNat_umod] at h_test
  exact h_test

/-- The third loop fails or finds a run. -/
theorem ScanEnv.wp_scanRun (h : ScanEnv E mem btmp base len Keeps Holds) {cnt : BitVec 32}
    {left : ℕ} {nextBit count : BitVec 32} (h_guar : E.guar s₀ s) (h_keeps : Keeps s)
    (h_holds : Holds s) (h_fault : ∀ s', Keeps s' → E.fails .pageFault s')
    (h_clear : ∀ j < count.toNat, ClearWithin (mem s) base len (nextBit - 1#32 - phys j))
    (h_none : ∀ s₀' s', E.guar s₀' s' → Keeps s' → Holds s' → Q (-1#32) s₀' s')
    (h_some : ∀ r s', Keeps s' → Holds s' →
      (∀ j < cnt.toNat, ClearWithin (mem s') base len (r + phys j)) → Q r s' s') :
    E.wp Q (scanRun btmp cnt left nextBit count) s₀ s := by
  induction left generalizing nextBit count s₀ s with
  | zero => exact h_none s₀ s h_guar h_keeps h_holds
  | succ left ih =>
    refine h.wp_bitmapScanTest h_guar h_keeps h_fault fun s₁ isSet h_rely h_keeps₁ h_test => ?_
    obtain ⟨h_holds₁, h_same⟩ := h.holds s s₁ h_keeps h_holds h_rely
    set count' := if isSet then 0#32 else count + 1#32 with h_count'
    -- the bits up to `nextBit` that are now known to be clear
    have h_clear' : ∀ j < count'.toNat, ClearWithin (mem s₁) base len (nextBit - phys j) := by
      intro j hj
      cases isSet with
      | true => exact absurd hj (by simp [h_count'])
      | false =>
        cases j with
        | zero => simpa [phys] using h_test rfl
        | succ j =>
          have h_lt : j < count.toNat := by
            have h_le : (count + 1#32).toNat ≤ count.toNat + 1 := by
              rw [BitVec.toNat_add]
              exact Nat.mod_le _ _
            simp only [h_count', Bool.false_eq_true, if_false] at hj
            omega
          rw [show nextBit - phys (j + 1) = nextBit - 1#32 - phys j by
            rw [Nat.add_comm, ← phys_add, ← sub_sub]; rfl]
          exact (h_clear j h_lt).congr h_same
    change E.wp Q (if count' = cnt then _ else _) s₁ s₁
    by_cases h_cnt : count' = cnt
    · rw [if_pos h_cnt]
      refine h_some _ s₁ h_keeps₁ h_holds₁ fun j hj => ?_
      -- the run of `cnt` bits ends at `nextBit`: its `j`-th bit, counted from the end
      have h_sum : cnt = 1#32 + phys j + phys (cnt.toNat - 1 - j) := by
        rw [show (1#32 : BitVec 32) = phys 1 from rfl, phys_add, phys_add,
          show 1 + j + (cnt.toNat - 1 - j) = cnt.toNat by omega, phys_toNat]
      have h_bit : nextBit - cnt + 1#32 + phys j = nextBit - phys (cnt.toNat - 1 - j) := by
        nth_rewrite 1 [h_sum]
        ring
      rw [h_bit]
      exact h_clear' _ (by rw [h_cnt]; omega)
    · rw [if_neg h_cnt]
      refine ih (h.loads s₁ h_keeps₁) h_keeps₁ h_holds₁ fun j hj => ?_
      rw [show nextBit + 1#32 - 1#32 = nextBit by simp]
      exact h_clear' j hj

/-- The first two loops: either all bytes are full and the assertion fails, or they
lead to a clear bit. -/
theorem ScanEnv.wp_bitmapScan_start (h : ScanEnv E mem btmp base len Keeps Holds) {cnt : BitVec 32}
    (h_guar : E.guar s₀ s) (h_keeps : Keeps s)
    (h_assert : ∀ s', Keeps s' → (∀ x < len, mem s' (phys (base + x)) = 0xff#8) →
      E.fails .assertion s')
    (h_rest : ∀ k < len, ∀ j < 8, ∀ s', Keeps s' → Holds s' →
      bitAt (mem s') base (k * 8 + j) = false →
      E.wp Q (if cnt = 1#32 then return phys (k * 8 + j)
        else scanRun btmp cnt ((btmp.btmpBytesLen - phys (k * 8 + j)) * 8#32 - phys j).toNat
          (phys (k * 8 + j) + 1#32) 1#32) s' s') :
    E.wp Q (bitmapScan btmp cnt) s₀ s := by
  have h_fits := h.fits
  have h_len := h.toNat_length
  unfold bitmapScan
  rw [h_len, wp_bind]
  refine h.wp_scanBytes (k := 0) (Nat.zero_add len) h_guar h_keeps
    (fun x hx => absurd hx (Nat.not_lt_zero x)) (fun s₁ h_keeps₁ h_full => ?_)
    fun k hk s₁ h_keeps₁ h_byte => ?_
  · -- all bytes are full
    refine wp_assert (fun _ => h_assert s₁ h_keeps₁ h_full) fun h_lt => ?_
    rw [h.length] at h_lt
    exact absurd h_lt (BitVec.lt_irrefl _)
  · have h_k : (phys k).toNat = k := toNat_phys (by omega)
    have h_lt : phys k < btmp.btmpBytesLen := by
      rw [BitVec.lt_def, h_len, h_k]
      exact hk
    refine wp_assert (fun h_ge => absurd h_lt h_ge) fun _ => ?_
    rw [if_neg (BitVec.ne_of_lt h_lt)]
    -- from here on the bitmap is held
    obtain ⟨h_keeps₂, h_holds₂, h_mem, h_guar₂⟩ := h.found s₁ h_keeps₁
    refine wp_record (wp_bind.mpr ?_)
    refine h.wp_scanBits (j := 0) hk rfl h_guar₂ h_keeps₂ h_holds₂ (h_mem ▸ h_byte)
      (fun x hx => absurd hx (Nat.not_lt_zero x)) fun j hj s₃ h_keeps₃ h_holds₃ h_clear => ?_
    have h_bit : bitAt (mem s₃) base (k * 8 + j) = false := by
      rw [bitAt, show (k * 8 + j) / 8 = k by omega, show (k * 8 + j) % 8 = j by omega]
      exact h_clear
    have h_index : phys k * 8#32 + phys j = phys (k * 8 + j) := by
      rw [show phys k * 8#32 = phys (k * 8) from (BitVec.ofNat_mul ..).symm, phys_add]
    have h_next := h_rest k hk j hj s₃ h_keeps₃ h_holds₃ h_bit
    rw [← h_index] at h_next
    exact h_next

/-- **A single bit.** The scan returns a bit of the bitmap that is clear. -/
theorem ScanEnv.wp_bitmapScan_one (h : ScanEnv E mem btmp base len Keeps Holds)
    (h_guar : E.guar s₀ s) (h_keeps : Keeps s)
    (h_assert : ∀ s', Keeps s' → (∀ x < len, mem s' (phys (base + x)) = 0xff#8) →
      E.fails .assertion s')
    (h_some : ∀ i < 8 * len, ∀ s', Keeps s' → Holds s' → bitAt (mem s') base i = false →
      Q (phys i) s' s') :
    E.wp Q (bitmapScan btmp 1#32) s₀ s := by
  refine h.wp_bitmapScan_start h_guar h_keeps h_assert fun k hk j hj s' h_k h_h h_bit => ?_
  rw [if_pos rfl]
  exact h_some (k * 8 + j) (by omega) s' h_k h_h h_bit

/-- **A run.** The bits of the run that lie within the bitmap are clear. -/
theorem ScanEnv.wp_bitmapScan (h : ScanEnv E mem btmp base len Keeps Holds) {cnt : BitVec 32}
    (h_guar : E.guar s₀ s) (h_keeps : Keeps s)
    (h_assert : ∀ s', Keeps s' → (∀ x < len, mem s' (phys (base + x)) = 0xff#8) →
      E.fails .assertion s')
    (h_fault : ∀ s', Keeps s' → E.fails .pageFault s')
    (h_none : ∀ s₀' s', E.guar s₀' s' → Keeps s' → Holds s' → Q (-1#32) s₀' s')
    (h_some : ∀ r s', Keeps s' → Holds s' →
      (∀ j < cnt.toNat, ClearWithin (mem s') base len (r + phys j)) → Q r s' s') :
    E.wp Q (bitmapScan btmp cnt) s₀ s := by
  refine h.wp_bitmapScan_start h_guar h_keeps h_assert fun k hk j hj s' h_k h_h h_bit => ?_
  have h_fits := h.fits
  have h_nat : (phys (k * 8 + j)).toNat = k * 8 + j := toNat_phys (by omega)
  have h_first : ClearWithin (mem s') base len (phys (k * 8 + j)) := by
    intro _
    rw [h_nat]
    exact h_bit
  split
  · next h_cnt =>
    -- one bit is enough, and it has been found
    refine h_some _ s' h_k h_h fun i hi => ?_
    obtain rfl : i = 0 := by rw [h_cnt] at hi; simpa using hi
    rw [phys_add, Nat.add_zero]
    exact h_first
  · refine h.wp_scanRun (h.loads s' h_k) h_k h_h h_fault (fun i hi => ?_) h_none h_some
    obtain rfl : i = 0 := by simpa using hi
    rw [show phys (k * 8 + j) + 1#32 - 1#32 - phys 0 = phys (k * 8 + j) by simp [phys]]
    exact h_first

end Scan

/-! ### Running alone -/

section Alone

variable {m : ByteMemory} {btmp : Bitmap} {base len : ℕ}

/-- Nobody else changes memory, and a scan does not either. -/
theorem scanEnv_ofAlone (h : btmp.LiesAt base len) (hm : Mapped m)
    (fails : Halt → ByteMemory → Prop) :
    ScanEnv (Env.ofAlone kernelSem fails) id btmp base len (· = m) fun _ => True where
  toAccesses := accesses_ofAlone fails
  toLiesAt := h
  mapped := by rintro _ rfl; exact hm
  keeps := by rintro _ _ rfl rfl; rfl
  full := by rintro _ _ rfl rfl k _ h_full; exact h_full
  loads _ _ := trivial
  found := by rintro _ rfl; exact ⟨rfl, trivial, rfl, trivial⟩
  holds := by rintro _ _ rfl _ rfl; exact ⟨trivial, fun _ _ => rfl⟩

/-- A scan for one bit finds one, if there is one. -/
theorem bitmapScan_one_run (h : btmp.LiesAt base len) (hm : Mapped m)
    (h_clear : ∃ i < 8 * len, bitAt m base i = false) :
    ∃ i < 8 * len, bitAt m base i = false ∧
      (bitmapScan btmp 1#32).run kernelSem m = .ok (phys i, m) := by
  have h_wp : (Env.ofAlone kernelSem fun _ _ => False).wp
      (fun r _ m' => m' = m ∧ ∃ i < 8 * len, bitAt m base i = false ∧ r = phys i)
      (bitmapScan btmp 1#32) m m := by
    apply (scanEnv_ofAlone h hm _).wp_bitmapScan_one trivial rfl
    · -- the assertion cannot fail, because there is a clear bit
      rintro _ rfl h_full
      obtain ⟨i, hi, h_bit⟩ := h_clear
      have h_set := bitAt_of_full (h_full (i / 8) (by omega))
      cases (h_set.symm.trans h_bit)
    · rintro i hi _ rfl - h_bit
      exact ⟨rfl, i, hi, h_bit, rfl⟩
  rcases Env.run_of_wp h_wp with ⟨_, _, h_run, rfl, i, hi, h_bit, rfl⟩ | ⟨_, _, _, h_false⟩
  · exact ⟨i, hi, h_bit, h_run⟩
  · exact h_false.elim

/-- A scan for a run stops, fails, or finds a run that is clear as far as it lies within the
bitmap. -/
theorem bitmapScan_run (h : btmp.LiesAt base len) (hm : Mapped m) (cnt : BitVec 32) :
    (∃ e, (bitmapScan btmp cnt).run kernelSem m = .error e) ∨
      ∃ r, (bitmapScan btmp cnt).run kernelSem m = .ok (r, m) ∧
        (r ≠ -1#32 → ∀ j < cnt.toNat, ClearWithin m base len (r + phys j)) := by
  -- alone, a scan may stop, but it changes nothing
  have h_wp : (Env.ofAlone kernelSem fun _ _ => True).wp
      (fun r _ m' => m' = m ∧
        (r ≠ -1#32 → ∀ j < cnt.toNat, ClearWithin m base len (r + phys j)))
      (bitmapScan btmp cnt) m m := by
    apply (scanEnv_ofAlone h hm _).wp_bitmapScan trivial rfl
    · exact fun _ _ _ => trivial
    · exact fun _ _ => trivial
    · rintro _ _ - rfl -
      exact ⟨rfl, fun h_ne => absurd rfl h_ne⟩
    · rintro r _ rfl - h_clear
      exact ⟨rfl, fun _ => h_clear⟩
  rcases Env.run_of_wp h_wp with ⟨r, _, h_run, rfl, h_clear⟩ | ⟨e, _, h_run, -⟩
  · exact .inr ⟨r, h_run, h_clear⟩
  · exact .inl ⟨e, h_run⟩

/-- The byte and the position of a bit of the bitmap, and where the byte is. -/
theorem Bitmap.LiesAt.byte_of_bit (h : btmp.LiesAt base len) (hm : Mapped m) {i : ℕ}
    (hi : i < 8 * len) :
    btmp.bits + phys i / 8#32 = phys (0xc0000000 + (base + i / 8)) ∧
      phys i % 8#32 = phys (i % 8) ∧
      translate m (phys (0xc0000000 + (base + i / 8))) = some (phys (base + i / 8)) := by
  have h_fits := h.fits
  have h_i : (phys i).toNat = i := toNat_phys (by omega)
  refine ⟨?_, ?_, hm.translate_low (by omega)⟩
  · rw [← h.address, ← phys_toNat (phys i / 8#32), BitVec.toNat_udiv, h_i]
    rfl
  · rw [← phys_toNat (phys i % 8#32), BitVec.toNat_umod, h_i]
    rfl

/-- Setting a bit of the bitmap. -/
theorem bitmapSet_run (h : btmp.LiesAt base len) (hm : Mapped m) {i : ℕ} (hi : i < 8 * len) :
    (bitmapSet btmp (phys i) 1#8).run kernelSem m = .ok ((), setBitAt m base i) := by
  obtain ⟨h_byte, h_bit, h_map⟩ := h.byte_of_bit hm hi
  unfold bitmapSet
  rw [run_assert (by decide)]
  dsimp only
  rw [h_byte, h_bit, run_load8 h_map, if_pos (by decide), run_store8 h_map]
  rfl

/-- A bit as `bitmap_scan_test` sees it. -/
def Bitmap.bitSet (btmp : Bitmap) (m : ByteMemory) (i : ℕ) : Bool :=
  match (bitmapScanTest btmp (BitVec.ofNat 32 i)).run kernelSem m with
  | .ok (isSet, _) => isSet
  | .error _ => false

theorem Bitmap.LiesAt.bitSet_eq (h : btmp.LiesAt base len) (hm : Mapped m) {i : ℕ}
    (hi : i < 8 * len) : btmp.bitSet m i = bitAt m base i := by
  have h_fits := h.fits
  obtain ⟨h_byte, h_bit, h_map⟩ := h.byte_of_bit hm hi
  have h_run : (bitmapScanTest btmp (phys i)).run kernelSem m = .ok (bitAt m base i, m) := by
    have h_test : decide (bitmapMask (phys (i % 8)) &&& m (phys (base + i / 8)) ≠ 0#8)
        = bitAt m base i := by
      simp [bitmapMask_and, toNat_phys (show i % 8 < 2 ^ 32 by omega), bitAt]
    unfold bitmapScanTest
    dsimp only
    rw [h_byte, h_bit, run_load8 h_map, h_test]
    rfl
  rw [bitSet, show BitVec.ofNat 32 i = phys i from rfl, h_run]

end Alone
end ToiletOS
