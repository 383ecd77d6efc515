import ToiletOS.Mem.Bitmap

/-!
# The page allocator of `kernel/memory.c`

`mem_pool_init` divides the memory behind the page tables into a pool of frames for the
kernel and one for users, and puts their bitmaps and that of the kernel's virtual
pages one after another into low memory. The three pools are globals of the source
that nothing changes afterwards; here they are `memPools`, and the other functions have
them as an argument.

`malloc_page` reserves virtual pages and then maps them one by one, each to a frame that
`palloc` takes. A page whose entry is present already keeps it (`page_table_add`), and a table
that is missing is made from a frame of the kernel's pool.
-/

namespace ToiletOS

/-- `PAGE_SIZE`. -/
def pageSize : BitVec 32 := 4096#32

/-- `MEM_BITMAP_BASE`. -/
def memBitmapBase : BitVec 32 := 0xc009a000#32

/-- `K_HEAD_START`. -/
def kHeadStart : BitVec 32 := 0xc0100000#32

/-- `NULL`. -/
def null : BitVec 32 := 0#32

/-- `struct pool`. -/
structure Pool where
  poolBitmap : Bitmap
  phyAddrStart : BitVec 32
  poolSize : BitVec 32
  deriving DecidableEq, Repr

/-- `struct virtual_addr`. -/
structure VirtualAddr where
  vaddrBitmap : Bitmap
  vaddrStart : BitVec 32
  deriving DecidableEq, Repr

/-- The globals `kernel_pool`, `user_pool` and `kernel_addr`. -/
structure MemPools where
  kernelPool : Pool
  userPool : Pool
  kernelAddr : VirtualAddr
  deriving DecidableEq, Repr

/-- `enum pool_flags`. -/
inductive PoolFlags
  | pfKernel | pfUser
  deriving DecidableEq, Repr

/-! ### Initialisation -/

/-- The assignments of `mem_pool_init`. -/
def memPools (allMemory : BitVec 32) : MemPools :=
  let pageTableSize := pageSize * 256#32
  let usedMem := pageTableSize + 0x100000#32
  let freeMem := allMemory - usedMem
  let freePages : BitVec 16 := (freeMem / pageSize).setWidth 16
  let kernelFreePages : BitVec 16 := freePages >>> 1
  let userFreePages : BitVec 16 := freePages - kernelFreePages
  let kernelBitmapLength : BitVec 32 := kernelFreePages.setWidth 32 / 8#32
  let userBitmapLength : BitVec 32 := userFreePages.setWidth 32 / 8#32
  let kernelPoolStart := usedMem
  let userPoolStart := kernelPoolStart + kernelFreePages.setWidth 32 * pageSize
  { kernelPool :=
      { poolBitmap := ⟨kernelBitmapLength, memBitmapBase⟩
        phyAddrStart := kernelPoolStart
        poolSize := kernelFreePages.setWidth 32 * pageSize }
    userPool :=
      { poolBitmap := ⟨userBitmapLength, memBitmapBase + kernelBitmapLength⟩
        phyAddrStart := userPoolStart
        poolSize := userFreePages.setWidth 32 * pageSize }
    kernelAddr :=
      { vaddrBitmap :=
          ⟨kernelBitmapLength, memBitmapBase + kernelBitmapLength + userBitmapLength⟩
        vaddrStart := kHeadStart } }

/-- `mem_pool_init`. -/
def memPoolInit (allMemory : BitVec 32) : Kern MemPools := do
  let pools := memPools allMemory
  bitmapInit pools.kernelPool.poolBitmap
  bitmapInit pools.userPool.poolBitmap
  bitmapInit pools.kernelAddr.vaddrBitmap
  return pools

/-! ### Allocation -/

/-- The loop of `vaddr_get`, with `left` pages between `count` and `pg_count`. -/
def vaddrSet (btmp : Bitmap) (bitIdxStart : BitVec 32) : ℕ → BitVec 32 → Kern Unit
  | 0, _ => return ()
  | left + 1, count => do
    bitmapSet btmp (bitIdxStart + count) 1#8
    vaddrSet btmp bitIdxStart left (count + 1#32)

/-- `vaddr_get`. -/
def vaddrGet (pools : MemPools) (pf : PoolFlags) (pgCount : BitVec 32) : Kern (BitVec 32) :=
  match pf with
  | .pfKernel => do
    let bitIdxStart ← bitmapScan pools.kernelAddr.vaddrBitmap pgCount
    if bitIdxStart = -1#32 then
      Kern.record .lost
      return null
    else
      vaddrSet pools.kernelAddr.vaddrBitmap bitIdxStart pgCount.toNat 0#32
      let vaddrStart := pools.kernelAddr.vaddrStart + bitIdxStart * pageSize
      Kern.record (.range vaddrStart pgCount)
      return vaddrStart
  -- memory for users is not supported yet
  | .pfUser => return null

/-- `palloc`. -/
def palloc (mPool : Pool) : Kern (BitVec 32) := do
  let bitIndex ← bitmapScan mPool.poolBitmap 1#32
  if bitIndex = -1#32 then
    Kern.record .lost
    return null
  else
    bitmapSet mPool.poolBitmap bitIndex 1#8
    let pagePhyaddr := bitIndex * pageSize + mPool.phyAddrStart
    Kern.record (.frame pagePhyaddr)
    return pagePhyaddr

/-- `page_table_add`. -/
def pageTableAdd (pools : MemPools) (vaddr pagePhyaddr : BitVec 32) : Kern Unit := do
  let pde := pdePtr vaddr
  let pte := ptePtr vaddr
  let pdeEntry ← Kern.load32 pde
  if Present pdeEntry then
    let pteEntry ← Kern.load32 pte
    if ¬ Present pteEntry then Kern.store32 pte (pagePhyaddr ||| pgUsU ||| pgRwW ||| pgP)
    else return ()
  else
    let pdePhyaddr ← palloc pools.kernelPool
    Kern.store32 pde (pdePhyaddr ||| pgUsU ||| pgRwW ||| pgP)
    Kern.memset (pte &&& 0xfffff000#32) 0#8 pageSize
    Kern.store32 pte (pagePhyaddr ||| pgUsU ||| pgRwW ||| pgP)

/-- The loop of `malloc_page`, with `count` pages to go. It returns whether it has
come to its end. -/
def mallocLoop (pools : MemPools) (memPool : Pool) : ℕ → BitVec 32 → Kern Bool
  | 0, _ => return true
  | count + 1, vaddr => do
    let pagePhyaddr ← palloc memPool
    if pagePhyaddr = null then return false
    else
      pageTableAdd pools vaddr pagePhyaddr
      mallocLoop pools memPool count (vaddr + pageSize)

/-- `(pf & PF_KERNEL) ? &kernel_pool : &user_pool`. -/
def MemPools.poolOf (pools : MemPools) : PoolFlags → Pool
  | .pfKernel => pools.kernelPool
  | .pfUser => pools.userPool

/-- `malloc_page`. -/
def mallocPage (pools : MemPools) (pf : PoolFlags) (pageCount : BitVec 32) :
    Kern (BitVec 32) := do
  Kern.assert (0#32 < pageCount ∧ pageCount < 3840#32)
  let vaddrStart ← vaddrGet pools pf pageCount
  if vaddrStart = null then return null
  else
    let completed ← mallocLoop pools (pools.poolOf pf) pageCount.toNat vaddrStart
    if completed then return vaddrStart else return null

/-! ### The values of the pools -/

/-- The local `free_pages`, as a number. -/
def freePages (allMemory : BitVec 32) : ℕ :=
  (2 ^ 32 + allMemory.toNat - 0x200000) % 2 ^ 32 / 4096 % 2 ^ 16

/-- The fields of the pools, as numbers, given the number of free pages. -/
structure PoolValues (free : ℕ) (pools : MemPools) : Prop where
  free_lt : free < 2 ^ 16
  kernel_start : pools.kernelPool.phyAddrStart.toNat = 0x200000
  kernel_size : pools.kernelPool.poolSize.toNat = free / 2 * 4096
  kernel_bits : pools.kernelPool.poolBitmap.bits.toNat = 0xc009a000
  kernel_length : pools.kernelPool.poolBitmap.btmpBytesLen.toNat = free / 2 / 8
  user_start : pools.userPool.phyAddrStart.toNat = 0x200000 + free / 2 * 4096
  user_size : pools.userPool.poolSize.toNat = (free - free / 2) * 4096
  user_bits : pools.userPool.poolBitmap.bits.toNat = 0xc009a000 + free / 2 / 8
  user_length : pools.userPool.poolBitmap.btmpBytesLen.toNat = (free - free / 2) / 8
  page_start : pools.kernelAddr.vaddrStart.toNat = 0xc0100000
  page_bits : pools.kernelAddr.vaddrBitmap.bits.toNat =
    0xc009a000 + free / 2 / 8 + (free - free / 2) / 8
  page_length : pools.kernelAddr.vaddrBitmap.btmpBytesLen.toNat = free / 2 / 8

theorem toNat_pageBytes (pages : BitVec 16) :
    (pages.setWidth 32 * pageSize).toNat = pages.toNat * 4096 := by
  have h_pages := pages.isLt
  rw [BitVec.toNat_mul, BitVec.toNat_setWidth, pageSize, BitVec.toNat_ofNat]
  omega

theorem toNat_bitmapLength (pages : BitVec 16) :
    (pages.setWidth 32 / 8#32).toNat = pages.toNat / 8 := by
  have h_pages := pages.isLt
  rw [BitVec.toNat_udiv, BitVec.toNat_setWidth, Nat.mod_eq_of_lt (by omega)]
  rfl

/-- **The values of the pools**, for every size of memory. -/
theorem memPools_values (allMemory : BitVec 32) :
    PoolValues (freePages allMemory) (memPools allMemory) := by
  -- the number of pages is cut to 16 bits
  have h_free : (((allMemory - (pageSize * 256#32 + 0x100000#32)) / pageSize).setWidth 16 :
      BitVec 16).toNat = freePages allMemory := by
    rw [BitVec.toNat_setWidth, BitVec.toNat_udiv, BitVec.toNat_sub, freePages,
      show (pageSize * 256#32 + 0x100000#32).toNat = 0x200000 from rfl,
      show pageSize.toNat = 4096 from rfl]
    omega
  dsimp only [memPools]
  generalize ((allMemory - (pageSize * 256#32 + 0x100000#32)) / pageSize).setWidth 16 = free at *
  rw [← h_free]
  have h_lt : free.toNat < 2 ^ 16 := free.isLt
  -- the kernel gets half of them, and the user the rest
  have h_kernel : (free >>> 1).toNat = free.toNat / 2 := by
    rw [BitVec.toNat_ushiftRight, Nat.shiftRight_eq_div_pow, pow_one]
  have h_user : (free - free >>> 1).toNat = free.toNat - free.toNat / 2 := by
    rw [BitVec.toNat_sub, h_kernel]
    omega
  have h_base : memBitmapBase.toNat = 0xc009a000 := rfl
  have h_used : (pageSize * 256#32 + 0x100000#32).toNat = 0x200000 := rfl
  have h_kernel_size := toNat_pageBytes (free >>> 1)
  have h_user_size := toNat_pageBytes (free - free >>> 1)
  have h_kernel_length := toNat_bitmapLength (free >>> 1)
  have h_user_length := toNat_bitmapLength (free - free >>> 1)
  rw [h_kernel] at h_kernel_size h_kernel_length
  rw [h_user] at h_user_size h_user_length
  refine ⟨h_lt, h_used, h_kernel_size, h_base, h_kernel_length, ?_, h_user_size, ?_, h_user_length,
    rfl, ?_, h_kernel_length⟩
  · rw [BitVec.toNat_add, h_used, h_kernel_size]
    omega
  · rw [BitVec.toNat_add, h_base, h_kernel_length]
    omega
  · rw [BitVec.toNat_add, BitVec.toNat_add, h_base, h_kernel_length, h_user_length]
    omega

/-! ### The pools -/

/-- Where the pools are: the bitmap of the kernel's frames has `nb` bytes, and so has that
of its pages, which comes behind the `ub` bytes for the users' frames. -/
structure MemPools.Layout (pools : MemPools) (nb ub : ℕ) : Prop where
  nb_le : nb ≤ 4095
  ub_le : ub ≤ 4096
  frames : pools.kernelPool.poolBitmap.LiesAt 0x9a000 nb
  users : pools.userPool.poolBitmap.LiesAt (0x9a000 + nb) ub
  pages : pools.kernelAddr.vaddrBitmap.LiesAt (0x9a000 + nb + ub) nb
  frame_start : pools.kernelPool.phyAddrStart = phys 0x200000
  frame_size : 8 * nb * 4096 ≤ pools.kernelPool.poolSize.toNat
  page_start : pools.kernelAddr.vaddrStart = phys 0xc0100000

/-- **The pools fit**, whatever the size of memory. -/
theorem memPools_layout (allMemory : BitVec 32) :
    ∃ nb ub, (memPools allMemory).Layout nb ub := by
  have h := memPools_values allMemory
  have h_free := h.free_lt
  -- a bitmap has one byte for eight pages, and what is left over is not managed
  refine ⟨freePages allMemory / 2 / 8, (freePages allMemory - freePages allMemory / 2) / 8,
    by omega, by omega, ⟨?_, ?_, by omega⟩, ⟨?_, ?_, by omega⟩, ⟨?_, ?_, by omega⟩, ?_, ?_, ?_⟩
  · exact eq_phys h.kernel_bits
  · exact eq_phys h.kernel_length
  · exact eq_phys (by rw [h.user_bits]; omega)
  · exact eq_phys h.user_length
  · exact eq_phys (by rw [h.page_bits]; omega)
  · exact eq_phys h.page_length
  · exact eq_phys h.kernel_start
  · rw [h.kernel_size]
    omega
  · exact eq_phys h.page_start

end ToiletOS
