import Mathlib.Data.List.Pairwise
import ToiletOS.Mem.AllocSys

/-!
# When concurrent allocation is safe

If no thread stores into a bitmap while another one has found a byte there, then no page is
handed out twice.

The argument is one of rely and guarantee. A thread relies on the others to set bits and
never to clear them, and to leave the bitmap alone that it has its window on (`Kept`). Its
own guarantee is the same for all others, and holds for a store because it is only done where
no other thread has its window. So a bit that a scan has found clear is clear until
the thread sets it, and since the bits of what is recorded are all set (`SharedInv`), what
the thread records is new. `wp_mallocPage` is the specification of a call in this
environment, and `allocInv_step` puts the threads together.
-/

namespace ToiletOS

variable {T : Type} [DecidableEq T]

/-- The record agrees with the bitmaps: what it lists has its bits set, and is listed once. -/
structure SharedInv (nb ub : ℕ) (s : AllocState T) : Prop where
  mapped : Mapped s.mem
  ranges : ∀ x ∈ s.ranges, 0 < x.2.2.toNat ∧ ∃ r, x.2.1 = pageAddr r ∧ r + x.2.2.toNat ≤ 8 * nb ∧
    ∀ i, r ≤ i → i < r + x.2.2.toNat → bitAt s.mem (pageBits nb ub) i = true
  ranges_once : s.ranges.Pairwise fun x y => RangesDisjoint x.2 y.2
  frames : ∀ x ∈ s.frames, ∃ f < 8 * nb, x.2 = frameAddr f ∧ bitAt s.mem frameBits f = true
  frames_once : s.frames.Pairwise fun x y => x.2 ≠ y.2

/-- What a thread may rely on. -/
structure Kept (pools : MemPools) (nb ub : ℕ) (t : T) (s s' : AllocState T) : Prop where
  calls : s'.calls t = s.calls t
  window : s'.window t = s.window t
  ranges : ∀ x ∈ s.ranges, x ∈ s'.ranges
  /-- Bits are set, and never cleared. -/
  mono : ∀ x, frameBits ≤ x → x < pageBits nb ub + nb → ∀ j,
    (s.mem (phys x)).getLsbD j = true → (s'.mem (phys x)).getLsbD j = true
  heldFrames : s.window t = some pools.kernelPool.poolBitmap →
    s'.frames = s.frames ∧ ∀ k < nb, s'.mem (phys (frameBits + k)) = s.mem (phys (frameBits + k))
  heldPages : s.window t = some pools.kernelAddr.vaddrBitmap →
    s'.ranges = s.ranges ∧
      ∀ k < nb, s'.mem (phys (pageBits nb ub + k)) = s.mem (phys (pageBits nb ub + k))

section

variable {pools : MemPools} {nb ub : ℕ} {t : T} {s s' s'' : AllocState T}

omit [DecidableEq T] in
theorem Kept.refl (pools : MemPools) (nb ub : ℕ) (t : T) (s : AllocState T) :
    Kept pools nb ub t s s where
  calls := rfl
  window := rfl
  ranges _ hx := hx
  mono _ _ _ _ h := h
  heldFrames _ := ⟨rfl, fun _ _ => rfl⟩
  heldPages _ := ⟨rfl, fun _ _ => rfl⟩

omit [DecidableEq T] in
theorem Kept.trans (h : Kept pools nb ub t s s') (h' : Kept pools nb ub t s' s'') :
    Kept pools nb ub t s s'' where
  calls := h'.calls.trans h.calls
  window := h'.window.trans h.window
  ranges x hx := h'.ranges x (h.ranges x hx)
  mono x h_ge h_lt j h_bit := h'.mono x h_ge h_lt j (h.mono x h_ge h_lt j h_bit)
  heldFrames h_w := by
    obtain ⟨h₁, h₂⟩ := h.heldFrames h_w
    obtain ⟨h₁', h₂'⟩ := h'.heldFrames (h.window.trans h_w)
    exact ⟨h₁'.trans h₁, fun k hk => (h₂' k hk).trans (h₂ k hk)⟩
  heldPages h_w := by
    obtain ⟨h₁, h₂⟩ := h.heldPages h_w
    obtain ⟨h₁', h₂'⟩ := h'.heldPages (h.window.trans h_w)
    exact ⟨h₁'.trans h₁, fun k hk => (h₂' k hk).trans (h₂ k hk)⟩

/-- The environment of thread `t`. -/
def allocEnv (pools : MemPools) (nb ub : ℕ) (t : T) : Env kernelSig (AllocState T) where
  toSemantics := allocSem t
  rely s s' := SharedInv nb ub s' ∧ Kept pools nb ub t s s'
  guar s s' := SharedInv nb ub s' ∧ ∀ u, u ≠ t → Kept pools nb ub u s s'
  allowed o s := MayAccess pools t s o
  fails _ _ := True

theorem accesses_allocEnv (pools : MemPools) (nb ub : ℕ) (t : T) :
    Accesses (allocEnv pools nb ub t) AllocState.mem where
  load8 s a := by
    change (Access.exec (.load8 a) s.mem).map _ = _
    simp only [Access.exec]
    cases translate s.mem a <;> rfl
  load32 s a := by
    change (Access.exec (.load32 a) s.mem).map _ = _
    simp only [Access.exec]
    cases translate s.mem a <;> rfl

/-- What a thread knows about the bits of the page bitmap also holds later. -/
theorem bitAt_mono {m m' : ByteMemory} {base i lo hi : ℕ} (h_lo : lo ≤ base)
    (h_hi : base + i / 8 < hi)
    (h : ∀ x, lo ≤ x → x < hi → ∀ j,
      (m (phys x)).getLsbD j = true → (m' (phys x)).getLsbD j = true)
    (h_bit : bitAt m base i = true) : bitAt m' base i = true :=
  h _ (by omega) h_hi _ h_bit

omit [DecidableEq T] in
/-- The record still agrees when bits were set. -/
theorem SharedInv.of_mono (h : SharedInv nb ub s) (hL : pools.Layout nb ub) {m : ByteMemory}
    (hm : Mapped m)
    (h_mono : ∀ x, frameBits ≤ x → x < pageBits nb ub + nb → ∀ j,
      (s.mem (phys x)).getLsbD j = true → (m (phys x)).getLsbD j = true) :
    SharedInv nb ub (s.setMem m) := by
  obtain ⟨h_nb, h_ub, h_frames, h_pages⟩ := hL.bounds
  refine ⟨hm, fun x hx => ?_, h.ranges_once, fun x hx => ?_, h.frames_once⟩
  · obtain ⟨h_pos, r, h_r, h_fits, h_bits⟩ := h.ranges x hx
    refine ⟨h_pos, r, h_r, h_fits, fun i h_ge h_lt => ?_⟩
    exact bitAt_mono (by omega) (by omega) h_mono (h_bits i h_ge h_lt)
  · obtain ⟨f, hf, h_f, h_bit⟩ := h.frames x hx
    exact ⟨f, hf, h_f, bitAt_mono le_rfl (by omega) h_mono h_bit⟩

theorem guar_refl (h : SharedInv nb ub s) : (allocEnv pools nb ub t).guar s s :=
  ⟨h, fun u _ => .refl pools nb ub u s⟩

theorem SharedInv.note_found (h : SharedInv nb ub s) (t : T) (btmp : Bitmap) :
    SharedInv nb ub (s.note t (.found btmp)) :=
  ⟨h.mapped, h.ranges, h.ranges_once, h.frames, h.frames_once⟩

theorem SharedInv.note_lost (h : SharedInv nb ub s) (t : T) : SharedInv nb ub (s.note t .lost) :=
  ⟨h.mapped, h.ranges, h.ranges_once, h.frames, h.frames_once⟩

/-- A change of its own window is no concern of the others. -/
theorem Kept.setWindow {u : T} (h : Kept pools nb ub u s s') (h_u : u ≠ t) (w : Option Bitmap) :
    Kept pools nb ub u s { s' with window := Function.update s'.window t w } :=
  ⟨h.calls, (Function.update_of_ne h_u ..).trans h.window, h.ranges, h.mono, h.heldFrames,
    h.heldPages⟩

/-! ### Scanning -/

/-- A fact about the calls of a thread that later records keep. -/
def Lasting (t : T) (A : AllocState T → Prop) : Prop :=
  ∀ s s', s'.calls t = s.calls t → (∀ x ∈ s.ranges, x ∈ s'.ranges) → A s → A s'

/-- The environment of a scan, of either bitmap. -/
theorem scanEnv_allocEnv {btmp : Bitmap} {base : ℕ} {A : AllocState T → Prop} (t : T)
    (hA : Lasting t A) (h_at : btmp.LiesAt base nb) (h_ge : frameBits ≤ base)
    (h_le : base ≤ pageBits nb ub)
    (h_held : ∀ s s', Kept pools nb ub t s s' → s.window t = some btmp →
      ∀ k < nb, s'.mem (phys (base + k)) = s.mem (phys (base + k))) :
    ScanEnv (allocEnv pools nb ub t) AllocState.mem btmp base nb
      (fun s => SharedInv nb ub s ∧ A s) (fun s => s.window t = some btmp) where
  toAccesses := accesses_allocEnv pools nb ub t
  toLiesAt := h_at
  mapped _ h := h.1.mapped
  keeps _ _ h h_rely := ⟨h_rely.1, hA _ _ h_rely.2.calls h_rely.2.ranges h.2⟩
  full s s' _ h_rely k hk h_full := by
    -- a full byte has all its bits set, and nobody clears one
    have h_mono := h_rely.2.mono (base + k) (by omega) (by omega)
    apply BitVec.eq_of_getLsbD_eq
    intro j hj
    rw [h_full] at h_mono
    have h_bit : (0xff#8).getLsbD j = true := by
      rw [show (0xff#8) = BitVec.allOnes 8 from rfl, BitVec.getLsbD_allOnes]
      exact decide_eq_true hj
    rw [h_bit]
    exact h_mono j h_bit
  loads _ h := guar_refl h.1
  found s h :=
    ⟨⟨h.1.note_found t btmp, hA s _ rfl (fun _ hx => hx) h.2⟩, Function.update_self ..,
      rfl, h.1.note_found t btmp, fun u h_u => (Kept.refl pools nb ub u s).setWindow h_u _⟩
  holds s s' _ h_window h_rely :=
    ⟨h_rely.2.window.trans h_window, h_held s s' h_rely.2 h_window⟩

theorem scanEnv_frames {A : AllocState T → Prop} (hL : pools.Layout nb ub) (t : T)
    (hA : Lasting t A) :
    ScanEnv (allocEnv pools nb ub t) AllocState.mem pools.kernelPool.poolBitmap frameBits nb
      (fun s => SharedInv nb ub s ∧ A s)
      (fun s => s.window t = some pools.kernelPool.poolBitmap) := by
  obtain ⟨-, -, h_frames, h_pages⟩ := hL.bounds
  exact scanEnv_allocEnv t hA hL.frames le_rfl (by omega) fun s s' h h_w => (h.heldFrames h_w).2

theorem scanEnv_pages {A : AllocState T → Prop} (hL : pools.Layout nb ub) (t : T)
    (hA : Lasting t A) :
    ScanEnv (allocEnv pools nb ub t) AllocState.mem pools.kernelAddr.vaddrBitmap (pageBits nb ub) nb
      (fun s => SharedInv nb ub s ∧ A s)
      (fun s => s.window t = some pools.kernelAddr.vaddrBitmap) := by
  obtain ⟨-, -, h_frames, h_pages⟩ := hL.bounds
  exact scanEnv_allocEnv t hA hL.pages (by omega) le_rfl fun s s' h h_w => (h.heldPages h_w).2

/-! ### Storing a bit -/

/-- What covers an address of low memory. -/
theorem Bitmap.LiesAt.covers {btmp : Bitmap} {base len x : ℕ} (h : btmp.LiesAt base len)
    (hx : x < 2 ^ 30) (h_covers : btmp.Covers (phys (0xc0000000 + x))) :
    base ≤ x ∧ x < base + len := by
  have h_fits := h.fits
  have h_lt : (phys (0xc0000000 + x) - btmp.bits).toNat < btmp.btmpBytesLen.toNat := h_covers
  rw [h.toNat_length, h.bits, BitVec.toNat_sub, toNat_phys (by omega),
    toNat_phys (by omega)] at h_lt
  omega

omit [DecidableEq T] in
/-- A store that is allowed hits one of the two bitmaps, and none of the others has its
window there. -/
theorem mayStore_cases (hL : pools.Layout nb ub) {x : ℕ} (hx : x < 2 ^ 30)
    (h : MayStore pools t s (phys (0xc0000000 + x))) :
    (x < frameBits + nb ∧ ∀ u, u ≠ t → s.window u ≠ some pools.kernelPool.poolBitmap) ∨
      (pageBits nb ub ≤ x ∧ x < pageBits nb ub + nb ∧
        ∀ u, u ≠ t → s.window u ≠ some pools.kernelAddr.vaddrBitmap) := by
  obtain ⟨btmp, h_mem, h_covers, h_windows⟩ := h
  rw [List.mem_pair] at h_mem
  rcases h_mem with rfl | rfl
  · exact .inl ⟨(hL.frames.covers hx h_covers).2, h_windows⟩
  · exact .inr ⟨(hL.pages.covers hx h_covers).1, (hL.pages.covers hx h_covers).2, h_windows⟩

/-- Setting a bit clears none. -/
theorem setBitAt_mono (m : ByteMemory) {base i x j : ℕ} (hi : base + i / 8 < 2 ^ 32)
    (hx : x < 2 ^ 32) (h : (m (phys x)).getLsbD j = true) :
    (setBitAt m base i (phys x)).getLsbD j = true := by
  unfold setBitAt
  by_cases h_x : x = base + i / 8
  · subst h_x
    rw [ByteMemory.store8_self, BitVec.getLsbD_or, h, Bool.true_or]
  · rw [m.byte_store8 _ hx hi h_x]
    exact h

omit [DecidableEq T] in
/-- The others keep what they rely on when a frame is taken. -/
theorem Kept.setFrameBit (hL : pools.Layout nb ub) {u : T} {f : ℕ} (hf : f < 8 * nb)
    (h_w : s.window u ≠ some pools.kernelPool.poolBitmap) :
    Kept pools nb ub u s (s.setMem (setBitAt s.mem frameBits f)) := by
  obtain ⟨h_nb, h_ub, h_frames, h_pages⟩ := hL.bounds
  refine ⟨rfl, rfl, fun _ hx => hx, fun x _ h_lt j => ?_, fun h => absurd h h_w,
    fun _ => ⟨rfl, fun k hk => ?_⟩⟩
  · exact setBitAt_mono s.mem (by omega) (by omega)
  · exact s.mem.byte_store8 _ (by omega) (by omega) (by omega)

omit [DecidableEq T] in
/-- And when a page is reserved. -/
theorem Kept.setPageBit (hL : pools.Layout nb ub) {u : T} {i : ℕ} (hi : i < 8 * nb)
    (h_w : s.window u ≠ some pools.kernelAddr.vaddrBitmap) :
    Kept pools nb ub u s (s.setMem (setBitAt s.mem (pageBits nb ub) i)) := by
  obtain ⟨h_nb, h_ub, h_frames, h_pages⟩ := hL.bounds
  refine ⟨rfl, rfl, fun _ hx => hx, fun x _ h_lt j => ?_, fun _ => ⟨rfl, fun k hk => ?_⟩,
    fun h => absurd h h_w⟩
  · exact setBitAt_mono s.mem (by omega) (by omega)
  · exact s.mem.byte_store8 _ (by omega) (by omega) (by omega)

omit [DecidableEq T] in
theorem SharedInv.setBit (h : SharedInv nb ub s) (hL : pools.Layout nb ub) (base i : ℕ)
    (h_lt : base + i / 8 < 0x100000) : SharedInv nb ub (s.setMem (setBitAt s.mem base i)) := by
  obtain ⟨h_nb, h_ub, h_frames, h_pages⟩ := hL.bounds
  exact h.of_mono hL (h.mapped.store8 h_lt _) fun x _ _ j =>
    setBitAt_mono s.mem (by omega) (by omega)

theorem wp_store8 {s₀ : AllocState T} {a p : BitVec 32} {v : BitVec 8}
    {Q : Unit → AllocState T → AllocState T → Prop} (h_guar : (allocEnv pools nb ub t).guar s₀ s)
    (h_next : ∀ s₁, (allocEnv pools nb ub t).rely s s₁ → MayStore pools t s₁ a →
      translate s₁.mem a = some p ∧ Q () s₁ (s₁.setMem (s₁.mem.store8 p v))) :
    (allocEnv pools nb ub t).wp Q (Kern.store8 a v) s₀ s := by
  refine ⟨h_guar, fun s₁ h_rely h_allowed => ?_⟩
  obtain ⟨h_map, h_post⟩ := h_next s₁ h_rely h_allowed
  have h_exec : (allocEnv pools nb ub t).exec (.store8 a v) s₁
      = .ok ((), s₁.setMem (s₁.mem.store8 p v)) := by
    change (Access.exec (.store8 a v) s₁.mem).map _ = _
    simp only [Access.exec, h_map]
    rfl
  rw [h_exec]
  exact h_post

theorem wp_store32 {s₀ : AllocState T} {a p : BitVec 32} {v : BitVec 32}
    {Q : Unit → AllocState T → AllocState T → Prop} (h_guar : (allocEnv pools nb ub t).guar s₀ s)
    (h_next : ∀ s₁, (allocEnv pools nb ub t).rely s s₁ →
      translate s₁.mem a = some p ∧ Q () s₁ (s₁.setMem (s₁.mem.store32 p v))) :
    (allocEnv pools nb ub t).wp Q (Kern.store32 a v) s₀ s := by
  refine ⟨h_guar, fun s₁ h_rely _ => ?_⟩
  obtain ⟨h_map, h_post⟩ := h_next s₁ h_rely
  have h_exec : (allocEnv pools nb ub t).exec (.store32 a v) s₁
      = .ok ((), s₁.setMem (s₁.mem.store32 p v)) := by
    change (Access.exec (.store32 a v) s₁.mem).map _ = _
    simp only [Access.exec, h_map]
    rfl
  rw [h_exec]
  exact h_post

/-- `bitmap_set` on the bitmap that the thread has its window on. The byte is still what
it was when it is stored. -/
theorem wp_bitmapSet {btmp : Bitmap} {base : ℕ} {A : AllocState T → Prop} {s₀ : AllocState T}
    {Q : Unit → AllocState T → AllocState T → Prop} (t : T)
    (hS : ScanEnv (allocEnv pools nb ub t) AllocState.mem btmp base nb
      (fun s => SharedInv nb ub s ∧ A s) (fun s => s.window t = some btmp)) {b : BitVec 32}
    (h_guar : (allocEnv pools nb ub t).guar s₀ s) (h_keeps : SharedInv nb ub s ∧ A s)
    (h_window : s.window t = some btmp)
    (h_inside : ∀ s₁, MayStore pools t s₁ (phys (0xc0000000 + (base + b.toNat / 8))) →
      b.toNat < 8 * nb)
    (h_post : ∀ s₁, SharedInv nb ub s₁ ∧ A s₁ → Kept pools nb ub t s s₁ → b.toNat < 8 * nb →
      MayStore pools t s₁ (phys (0xc0000000 + (base + b.toNat / 8))) →
      Q () s₁ (s₁.setMem (setBitAt s₁.mem base b.toNat))) :
    (allocEnv pools nb ub t).wp Q (bitmapSet btmp b 1#8) s₀ s := by
  have h_fits := hS.fits
  have h_addr : btmp.bits + b / 8#32 = phys (0xc0000000 + (base + b.toNat / 8)) := by
    rw [← hS.address, ← phys_toNat (b / 8#32), BitVec.toNat_udiv]
    rfl
  have h_bit : b % 8#32 = phys (b.toNat % 8) := by
    rw [← phys_toNat (b % 8#32), BitVec.toNat_umod]
    rfl
  unfold bitmapSet
  refine wp_assert (fun _ => trivial) fun _ => ?_
  dsimp only
  rw [h_addr, h_bit]
  -- the read and the write of the byte are two steps, and others may run in between
  refine hS.toAccesses.wp_load8' h_guar (fun _ _ => trivial) fun s₁ byte h_rely h_byte => ?_
  have h_keeps₁ := hS.keeps s s₁ h_keeps h_rely
  rw [if_pos (by decide)]
  refine wp_store8 (p := phys (base + b.toNat / 8)) (guar_refl h_keeps₁.1)
    fun s₂ h_rely₂ h_may => ?_
  have h_lt := h_inside s₂ h_may
  have h_keeps₂ := hS.keeps s₁ s₂ h_keeps₁ h_rely₂
  obtain ⟨h_window₁, -⟩ := hS.holds s s₁ h_keeps h_window h_rely
  obtain ⟨-, h_same⟩ := hS.holds s₁ s₂ h_keeps₁ h_window₁ h_rely₂
  have h_map {s : AllocState T} (h : Mapped s.mem) :
      translate s.mem (phys (0xc0000000 + (base + b.toNat / 8)))
        = some (phys (base + b.toNat / 8)) :=
    h.translate_low (by omega)
  refine ⟨h_map h_keeps₂.1.mapped, ?_⟩
  -- they leave this byte alone while the window is on the bitmap
  rw [h_byte _ (h_map h_keeps₁.1.mapped), ← h_same _ (by omega)]
  exact h_post s₂ h_keeps₂ (h_rely.2.trans h_rely₂.2) h_lt h_may

/-! ### The functions -/

/-- `palloc` takes a frame that no call has taken. -/
theorem wp_palloc {A : AllocState T → Prop} {s₀ : AllocState T}
    {Q : BitVec 32 → AllocState T → AllocState T → Prop} (hL : pools.Layout nb ub)
    (hA : Lasting t A) (h_guar : (allocEnv pools nb ub t).guar s₀ s)
    (h_keeps : SharedInv nb ub s ∧ A s)
    (h_post : ∀ f < 8 * nb, ∀ s₁ s₂, (allocEnv pools nb ub t).guar s₁ s₂ →
      SharedInv nb ub s₂ ∧ A s₂ → Q (frameAddr f) s₁ s₂) :
    (allocEnv pools nb ub t).wp Q (palloc pools.kernelPool) s₀ s := by
  obtain ⟨h_nb, h_ub, h_frames, h_pages⟩ := hL.bounds
  have hS := scanEnv_frames hL t hA
  unfold palloc
  rw [Env.wp_bind]
  refine hS.wp_bitmapScan_one h_guar h_keeps (fun _ _ _ => trivial)
    fun f hf s₁ h_keeps₁ h_window h_clear => ?_
  have h_some : phys f ≠ -1#32 := phys_ne (k := 2 ^ 32 - 1) (by omega) (by omega) (by omega)
  have h_nat : (phys f).toNat = f := toNat_phys (by omega)
  have h_addr : phys f * pageSize + pools.kernelPool.phyAddrStart = frameAddr f := by
    rw [hL.frame_start, show phys f * pageSize = phys (f * 4096) from (BitVec.ofNat_mul ..).symm,
      phys_add, frameAddr, Nat.add_mul, Nat.add_comm]
  rw [if_neg h_some, Env.wp_bind]
  refine wp_bitmapSet t hS (guar_refl h_keeps₁.1) h_keeps₁ h_window
    (fun _ _ => by rw [h_nat]; exact hf)
    fun s₂ h_keeps₂ h_kept _ h_may => wp_record ?_
  rw [h_nat] at h_may ⊢
  rw [h_addr]
  -- the store was allowed, so nobody else has the window on this bitmap
  have h_windows : ∀ u, u ≠ t → s₂.window u ≠ some pools.kernelPool.poolBitmap := by
    rcases mayStore_cases hL (by omega) h_may with ⟨-, h_windows⟩ | ⟨h_ge, -, -⟩
    · exact h_windows
    · omega
  have h_set := h_keeps₂.1.setBit hL frameBits f (by omega)
  -- the frame is in no record, because its bit was clear up to now
  have h_new (x : CallId T × BitVec 32) (hx : x ∈ s₂.frames) : x.2 ≠ frameAddr f := by
    rw [(h_kept.heldFrames h_window).1] at hx
    obtain ⟨g, hg, h_g, h_bit⟩ := h_keeps₁.1.frames x hx
    rw [h_g]
    refine phys_ne (by omega) (by omega) fun h_eq => ?_
    obtain rfl : g = f := by omega
    cases (h_bit.symm.trans h_clear)
  have h_inv : SharedInv nb ub
      ((s₂.setMem (setBitAt s₂.mem frameBits f)).note t (.frame (frameAddr f))) := by
    refine ⟨h_set.mapped, h_set.ranges, h_set.ranges_once, fun x hx => ?_,
      List.pairwise_append.mpr ⟨h_set.frames_once, List.pairwise_singleton _ _, ?_⟩⟩
    · rcases List.mem_append.mp hx with hx | hx
      · exact h_set.frames x hx
      · obtain rfl := List.mem_singleton.mp hx
        refine ⟨f, hf, rfl, ?_⟩
        change bitAt (setBitAt s₂.mem frameBits f) frameBits f = true
        rw [bitAt_setBitAt s₂.mem (by omega) (by omega)]
        simp
    · intro x hx y hy
      obtain rfl := List.mem_singleton.mp hy
      exact h_new x hx
  -- what the others see: one more bit, and the window given up
  refine h_post f hf s₂ _ ⟨h_inv, fun u h_u => ?_⟩ ⟨h_inv, hA s₂ _ rfl (fun _ hx => hx) h_keeps₂.2⟩
  have h_others := (Kept.setFrameBit hL hf (h_windows u h_u)).setWindow h_u none
  exact ⟨h_others.calls, h_others.window, h_others.ranges, h_others.mono,
    fun h => absurd h (h_windows u h_u), h_others.heldPages⟩

/-- `page_table_add` on a page of the kernel's virtual pool, whose directory slot is present. -/
theorem wp_pageTableAdd {A : AllocState T → Prop} {s₀ : AllocState T}
    {Q : Unit → AllocState T → AllocState T → Prop} (hL : pools.Layout nb ub)
    (hA : Lasting t A) {i : ℕ} (hi : i < 8 * nb) (a : BitVec 32)
    (h_guar : (allocEnv pools nb ub t).guar s₀ s) (h_keeps : SharedInv nb ub s ∧ A s)
    (h_post : ∀ s₁ s₂, (allocEnv pools nb ub t).guar s₁ s₂ → SharedInv nb ub s₂ ∧ A s₂ →
      Q () s₁ s₂) :
    (allocEnv pools nb ub t).wp Q (pageTableAdd pools (pageAddr i) a) s₀ s := by
  obtain ⟨h_nb, h_ub, h_frames, h_pages⟩ := hL.bounds
  have h_acc := accesses_allocEnv pools nb ub t
  have h_table : tableAddr (256 + i) = 0x101000 + 4 * (256 + i) := rfl
  have h_nat := toNat_pageAddr (i := i) (by omega)
  have h_page : kernelPage (pageAddr i) = 256 + i := by
    rw [kernelPage, h_nat]
    omega
  have h_rely {s s' : AllocState T} (h : SharedInv nb ub s ∧ A s)
      (h_rely : (allocEnv pools nb ub t).rely s s') : SharedInv nb ub s' ∧ A s' :=
    ⟨h_rely.1, hA _ _ h_rely.2.calls h_rely.2.ranges h.2⟩
  have h_pte {s : AllocState T} (h : SharedInv nb ub s) :
      translate s.mem (ptePtr (pageAddr i)) = some (phys (tableAddr (256 + i))) :=
    h_page ▸ h.mapped.translate_ptePtr (by omega) (by omega)
  unfold pageTableAdd
  dsimp only
  refine h_acc.wp_load32 h_guar (fun s₁ h₁ => h₁.1.mapped.translate_pdePtr _) fun s₁ h₁ => ?_
  -- the slots from 768 on are present
  have h_present : Present (s₁.mem.load32 (phys (dirAddr ((pageAddr i).toNat / 2 ^ 22)))) := by
    obtain ⟨d, h_d⟩ := Nat.exists_eq_add_of_le (show 768 ≤ (pageAddr i).toNat / 2 ^ 22 by omega)
    have h_dir := h₁.1.mapped.directory d (by omega)
    rw [← h_d] at h_dir
    change Present (s₁.mem.word _)
    rw [h_dir]
    exact present_entry
  have h_keeps₁ := h_rely h_keeps h₁
  rw [if_pos h_present]
  refine h_acc.wp_load32 (guar_refl h_keeps₁.1) (fun s₂ h₂ => h_pte h₂.1) fun s₂ h₂ => ?_
  have h_keeps₂ := h_rely h_keeps₁ h₂
  split
  · -- the entry is written; the bitmaps are not touched
    refine wp_store32 (p := phys (tableAddr (256 + i))) (guar_refl h_keeps₂.1)
      fun s₃ h₃ => ⟨h_pte h₃.1, ?_⟩
    have h_keeps₃ := h_rely h_keeps₂ h₃
    -- the entry is not in the first MiB, where the bitmaps are
    have h_byte (w : BitVec 32) {x : ℕ} (hx : x < 0x100000) :
        s₃.mem.store32 (phys (tableAddr (256 + i))) w (phys x) = s₃.mem (phys x) :=
      s₃.mem.byte_store32 w (by omega) (by omega) (by omega)
    have h_inv : SharedInv nb ub (s₃.setMem (s₃.mem.store32 (phys (tableAddr (256 + i)))
        (a ||| pgUsU ||| pgRwW ||| pgP))) := by
      refine h_keeps₃.1.of_mono hL (h_keeps₃.1.mapped.store32 (by omega) (by omega) _) ?_
      intro x _ hx j h_bit
      rw [h_byte _ (by omega)]
      exact h_bit
    refine h_post s₃ _ ⟨h_inv, fun u _ => ⟨rfl, rfl, fun _ hx => hx, fun x _ hx j h_bit => ?_,
      fun _ => ⟨rfl, fun k hk => h_byte _ (by omega)⟩,
      fun _ => ⟨rfl, fun k hk => h_byte _ (by omega)⟩⟩⟩
      ⟨h_inv, hA s₃ _ rfl (fun _ hx => hx) h_keeps₃.2⟩
    change (s₃.mem.store32 _ _ (phys x)).getLsbD j = true
    rw [h_byte _ (by omega)]
    exact h_bit
  · exact h_post s₂ s₂ (guar_refl h_keeps₂.1) h_keeps₂

/-- The loop of `malloc_page`. -/
theorem wp_mallocLoop {A : AllocState T → Prop} {s₀ : AllocState T}
    {Q : Bool → AllocState T → AllocState T → Prop} (hL : pools.Layout nb ub)
    (hA : Lasting t A) {count i : ℕ} (hi : i + count ≤ 8 * nb)
    (h_guar : (allocEnv pools nb ub t).guar s₀ s) (h_keeps : SharedInv nb ub s ∧ A s)
    (h_post : ∀ r s₁ s₂, (allocEnv pools nb ub t).guar s₁ s₂ → SharedInv nb ub s₂ ∧ A s₂ →
      Q r s₁ s₂) :
    (allocEnv pools nb ub t).wp Q (mallocLoop pools pools.kernelPool count (pageAddr i)) s₀ s := by
  obtain ⟨h_nb, -, -, -⟩ := hL.bounds
  induction count generalizing i s₀ s with
  | zero => exact h_post true s₀ s h_guar h_keeps
  | succ count ih =>
    unfold mallocLoop
    rw [Env.wp_bind]
    -- each round takes a frame and maps the page to it
    refine wp_palloc hL hA h_guar h_keeps fun f hf s₁ s₂ h_guar₂ h_keeps₂ => ?_
    have h_ne : frameAddr f ≠ null := phys_ne (k := 0) (by omega) (by omega) (by omega)
    rw [if_neg h_ne, Env.wp_bind]
    refine wp_pageTableAdd hL hA (by omega) _ h_guar₂ h_keeps₂ fun s₃ s₄ h_guar₄ h_keeps₄ => ?_
    rw [pageAddr_succ]
    exact ih (by omega) h_guar₄ h_keeps₄

/-- What a thread knows in the loop of `vaddr_get`, of a run of `n` pages from `r` of which it has
reserved `count`: those lie in the bitmap and are set, and no page of the run is in a
range that is recorded. -/
structure Reserving (nb ub : ℕ) (r n count : ℕ) (s : AllocState T) : Prop where
  inside : ∀ j < count, r + j < 8 * nb
  set : ∀ j < count, bitAt s.mem (pageBits nb ub) (r + j) = true
  fresh : ∀ x ∈ s.ranges, ∀ q, x.2.1 = pageAddr q → q + x.2.2.toNat ≤ 8 * nb →
    q + x.2.2.toNat ≤ r ∨ r + n ≤ q

omit [DecidableEq T] in
/-- Others do not touch the run while the thread has its window on the pages. -/
theorem Reserving.of_kept {r n count : ℕ} (h : Reserving nb ub r n count s)
    (h_kept : Kept pools nb ub t s s')
    (h_window : s.window t = some pools.kernelAddr.vaddrBitmap) :
    Reserving nb ub r n count s' := by
  obtain ⟨h_ranges, h_same⟩ := h_kept.heldPages h_window
  refine ⟨h.inside, fun j hj => ?_, fun x hx => h.fresh x (h_ranges ▸ hx)⟩
  have h_inside := h.inside j hj
  rw [bitAt_congr (h_same _ (by omega))]
  exact h.set j hj

omit [DecidableEq T] in
/-- One more page of the run is set. -/
theorem Reserving.next {r n count : ℕ} (h : Reserving nb ub r n count s)
    (hL : pools.Layout nb ub) (h_lt : r + count < 8 * nb) :
    Reserving nb ub r n (count + 1) (s.setMem (setBitAt s.mem (pageBits nb ub) (r + count))) := by
  obtain ⟨h_nb, h_ub, h_frames, h_pages⟩ := hL.bounds
  refine ⟨fun j hj => by omega, fun j hj => ?_, h.fresh⟩
  change bitAt (setBitAt s.mem _ _) _ _ = true
  rw [bitAt_setBitAt s.mem (by omega) (by omega)]
  rcases Nat.lt_succ_iff_lt_or_eq.mp hj with hj | rfl
  · rw [h.set j hj, Bool.or_true]
  · rw [decide_eq_true rfl, Bool.true_or]

/-- The loop of `vaddr_get`. The last store and what follows it happen in one step, so it
matters that nobody else had the window in the state before. -/
theorem wp_vaddrSet {s₀ : AllocState T} {Q : Unit → AllocState T → AllocState T → Prop}
    (hL : pools.Layout nb ub) {r : BitVec 32} {n left : ℕ} (count : ℕ) (h_left : count + left = n)
    (h_n : n < 3840) (h_guar : (allocEnv pools nb ub t).guar s₀ s) (h_inv : SharedInv nb ub s)
    (h_window : s.window t = some pools.kernelAddr.vaddrBitmap)
    (h_others : 0 < count → ∀ u, u ≠ t → s₀.window u ≠ some pools.kernelAddr.vaddrBitmap)
    (h_run : Reserving nb ub r.toNat n count s)
    (h_post : ∀ s₁ s₂, (allocEnv pools nb ub t).guar s₁ s₂ → SharedInv nb ub s₂ →
      (0 < n → ∀ u, u ≠ t → s₁.window u ≠ some pools.kernelAddr.vaddrBitmap) →
      Reserving nb ub r.toNat n n s₂ → Q () s₁ s₂) :
    (allocEnv pools nb ub t).wp Q
      (vaddrSet pools.kernelAddr.vaddrBitmap r left (phys count)) s₀ s := by
  obtain ⟨h_nb, h_ub, h_frames, h_pages⟩ := hL.bounds
  induction left generalizing count s₀ s with
  | zero =>
    obtain rfl : count = n := h_left
    exact h_post s₀ s h_guar h_inv h_others h_run
  | succ left ih =>
    have h_count : (phys count).toNat = count := toNat_phys (by omega)
    have h_sum : (r + phys count).toNat = (r.toNat + count) % 2 ^ 32 := by
      rw [BitVec.toNat_add, h_count]
    -- a store that is allowed is one within the bitmap of the pages
    have h_inside (s₁ : AllocState T)
        (h_may : MayStore pools t s₁
          (phys (0xc0000000 + (pageBits nb ub + (r + phys count).toNat / 8)))) :
        (r + phys count).toNat < 8 * nb ∧
          ∀ u, u ≠ t → s₁.window u ≠ some pools.kernelAddr.vaddrBitmap := by
      have h_lt := (r + phys count).isLt
      rcases mayStore_cases hL (by omega) h_may with ⟨h_x, -⟩ | ⟨-, h_x, h_windows⟩
      · omega
      · exact ⟨by omega, h_windows⟩
    have hS := scanEnv_pages hL t (A := fun _ => True) fun _ _ _ _ _ => trivial
    unfold vaddrSet
    rw [Env.wp_bind]
    refine wp_bitmapSet t hS h_guar ⟨h_inv, trivial⟩ h_window (fun s₁ h => (h_inside s₁ h).1)
      fun s₁ h_keeps₁ h_kept h_bit h_may => ?_
    obtain ⟨-, h_windows⟩ := h_inside s₁ h_may
    -- the start is inside, because a bit has been set or this store is the first
    have h_first : r.toNat < 8 * nb := by
      rcases Nat.eq_zero_or_pos count with rfl | h_pos
      · rw [h_sum] at h_bit
        have h_r := r.isLt
        omega
      · have h_start := h_run.inside 0 h_pos
        omega
    have h_nat : (r + phys count).toNat = r.toNat + count := by omega
    rw [h_nat] at h_bit ⊢
    rw [show phys count + 1#32 = phys (count + 1) from phys_add count 1]
    have h_inv₁ := h_keeps₁.1.setBit hL (pageBits nb ub) (r.toNat + count) (by omega)
    -- the rest of the range, with one more bit set
    refine ih (count + 1) (by omega) ⟨h_inv₁, fun u h_u => ?_⟩ h_inv₁ (h_kept.window.trans h_window)
      (fun _ => h_windows) ((h_run.of_kept h_kept h_window).next hL h_bit)
    exact Kept.setPageBit hL h_bit (h_windows u h_u)

omit [DecidableEq T] in
/-- A run that a scan has found clear meets no range that is recorded. -/
theorem SharedInv.fresh (h : SharedInv nb ub s) (hL : pools.Layout nb ub) {r : BitVec 32} {n : ℕ}
    (h_pos : 0 < n) (h_n : n < 3840)
    (h_clear : ∀ j < n, ClearWithin s.mem (pageBits nb ub) nb (r + phys j)) :
    Reserving nb ub r.toNat n 0 s := by
  obtain ⟨h_nb, h_ub, h_frames, h_pages⟩ := hL.bounds
  refine ⟨fun j hj => by omega, fun j hj => by omega, fun x hx q h_q h_fits => ?_⟩
  obtain ⟨h_x, q', h_q', h_fits', h_bits⟩ := h.ranges x hx
  obtain rfl : q = q' := by
    have h_nat := congrArg BitVec.toNat (h_q.symm.trans h_q')
    rw [toNat_pageAddr (by omega), toNat_pageAddr (by omega)] at h_nat
    omega
  by_contra h_meet
  -- the larger of the two starts is a page of both
  have h_set := h_bits (max r.toNat q) (by omega) (by omega)
  have h_bit := h_clear (max r.toNat q - r.toNat) (by omega)
  have h_nat : (r + phys (max r.toNat q - r.toNat)).toNat = max r.toNat q := by
    rw [BitVec.toNat_add, toNat_phys (by omega)]
    omega
  rw [ClearWithin, h_nat] at h_bit
  cases (h_set.symm.trans (h_bit (by omega)))

/-- A range whose bits the thread has set enters the record. -/
theorem SharedInv.note_range (h : SharedInv nb ub s) (hL : pools.Layout nb ub) (t : T) {r : ℕ}
    {n : BitVec 32} (h_pos : 0 < n.toNat) (h_run : Reserving nb ub r n.toNat n.toNat s) :
    SharedInv nb ub (s.note t (.range (pageAddr r) n)) := by
  obtain ⟨h_nb, -, -, -⟩ := hL.bounds
  have h_fits : r + n.toNat ≤ 8 * nb := by
    have h_last := h_run.inside (n.toNat - 1) (by omega)
    omega
  refine ⟨h.mapped, fun x hx => ?_,
    List.pairwise_append.mpr ⟨h.ranges_once, List.pairwise_singleton _ _, ?_⟩,
    h.frames, h.frames_once⟩
  · rcases List.mem_append.mp hx with hx | hx
    · exact h.ranges x hx
    · obtain rfl := List.mem_singleton.mp hx
      refine ⟨h_pos, r, rfl, h_fits, fun i h_ge h_lt => ?_⟩
      obtain ⟨j, rfl⟩ := Nat.exists_eq_add_of_le h_ge
      exact h_run.set j (Nat.lt_of_add_lt_add_left h_lt)
  · intro x hx y hy
    obtain rfl := List.mem_singleton.mp hy
    -- the run is apart from every range that was recorded
    obtain ⟨-, q, h_q, h_q_fits, -⟩ := h.ranges x hx
    have h_apart := h_run.fresh x hx q h_q h_q_fits
    rw [RangesDisjoint, h_q, toNat_pageAddr (by omega), toNat_pageAddr (by omega)]
    dsimp only
    omega

/-- `vaddr_get` fails, or returns a range that it has recorded. -/
theorem wp_vaddrGet {s₀ : AllocState T} {Q : BitVec 32 → AllocState T → AllocState T → Prop}
    (hL : pools.Layout nb ub) {n : BitVec 32} (h_pos : 0 < n.toNat) (h_n : n.toNat < 3840)
    (h_guar : (allocEnv pools nb ub t).guar s₀ s) (h_inv : SharedInv nb ub s)
    (h_null : ∀ s₁ s₂, (allocEnv pools nb ub t).guar s₁ s₂ → SharedInv nb ub s₂ → Q null s₁ s₂)
    (h_post : ∀ r s₁ s₂, (allocEnv pools nb ub t).guar s₁ s₂ → SharedInv nb ub s₂ →
      r + n.toNat ≤ 8 * nb → ((t, s₂.calls t), pageAddr r, n) ∈ s₂.ranges →
      Q (pageAddr r) s₁ s₂) :
    (allocEnv pools nb ub t).wp Q (vaddrGet pools .pfKernel n) s₀ s := by
  have hS := scanEnv_pages hL t (A := fun _ => True) fun _ _ _ _ _ => trivial
  -- giving up is no concern of the others
  have h_lost {s₁ s₂ : AllocState T} (h : (allocEnv pools nb ub t).guar s₁ s₂) :
      (allocEnv pools nb ub t).guar s₁ (s₂.note t .lost) :=
    ⟨h.1.note_lost t, fun u h_u => (h.2 u h_u).setWindow h_u none⟩
  simp only [vaddrGet]
  rw [Env.wp_bind]
  refine hS.wp_bitmapScan h_guar ⟨h_inv, trivial⟩ (fun _ _ _ => trivial) (fun _ _ => trivial)
    (fun s₁ s₂ h_guar₂ h_keeps₂ _ => ?_) fun r s₁ h_keeps₁ h_window h_clear => ?_
  · rw [if_pos rfl]
    exact wp_record (h_null s₁ _ (h_lost h_guar₂) (h_keeps₂.1.note_lost t))
  · split
    · exact wp_record (h_null s₁ _ (h_lost (guar_refl h_keeps₁.1)) (h_keeps₁.1.note_lost t))
    · rw [Env.wp_bind]
      refine wp_vaddrSet hL 0 (Nat.zero_add _) h_n (guar_refl h_keeps₁.1) h_keeps₁.1
        h_window (fun h => absurd h (by decide)) (h_keeps₁.1.fresh hL h_pos h_n h_clear)
        fun s₂ s₃ h_guar₃ h_inv₃ h_others h_run => wp_record ?_
      -- the result is the address of the first page of the run
      have h_addr : pools.kernelAddr.vaddrStart + r * pageSize = pageAddr r.toNat := by
        rw [hL.page_start, pageAddr, ← phys_add,
          show phys (r.toNat * 4096) = phys r.toNat * pageSize from BitVec.ofNat_mul .., phys_toNat]
      have h_last := h_run.inside (n.toNat - 1) (by omega)
      rw [h_addr]
      have h_inv' := h_inv₃.note_range hL t h_pos h_run
      refine h_post r.toNat s₂ _ ⟨h_inv', fun u h_u => ?_⟩ h_inv' (by omega)
        (List.mem_append_right _ (List.mem_singleton_self _))
      -- nobody else had the window, so the new range is no concern of theirs
      have h_kept := (h_guar₃.2 u h_u).setWindow h_u none
      exact ⟨h_kept.calls, h_kept.window, fun x hx => List.mem_append_left _ (h_kept.ranges x hx),
        h_kept.mono, h_kept.heldFrames, fun h => absurd h (h_others h_pos u h_u)⟩

/-- What a call of thread `t` has returned. -/
def Returned (t : T) (n : BitVec 32) (vaddr : BitVec 32) (s : AllocState T) : Prop :=
  vaddr = null ∨ ((t, s.calls t), vaddr, n) ∈ s.ranges

omit [DecidableEq T] in
theorem lasting_returned (t : T) (n vaddr : BitVec 32) : Lasting t (Returned t n vaddr) := by
  intro s s' h_calls h_ranges h
  rcases h with h | h
  · exact .inl h
  · exact .inr (h_ranges _ (h_calls ▸ h))

/-- **`malloc_page` among other threads.** A call that succeeds returns the range that it
has recorded. -/
theorem wp_mallocPage {s₀ : AllocState T} (hL : pools.Layout nb ub) (n : BitVec 32)
    (h_guar : (allocEnv pools nb ub t).guar s₀ s) (h_inv : SharedInv nb ub s) :
    (allocEnv pools nb ub t).wp
      (fun v s₁ s₂ => (allocEnv pools nb ub t).guar s₁ s₂ ∧ Returned t n v s₂)
      (mallocPage pools .pfKernel n) s₀ s := by
  obtain ⟨h_nb, -, -, -⟩ := hL.bounds
  unfold mallocPage
  refine wp_assert (fun _ => trivial) fun ⟨h_pos, h_max⟩ => ?_
  rw [Env.wp_bind]
  refine wp_vaddrGet hL h_pos h_max h_guar h_inv (fun s₁ s₂ h_guar₂ _ => ?_)
    fun r s₁ s₂ h_guar₂ h_inv₂ h_fits h_range => ?_
  · rw [if_pos rfl]
    exact ⟨h_guar₂, .inl rfl⟩
  · have h_ne : pageAddr r ≠ null := phys_ne (k := 0) (by omega) (by omega) (by omega)
    rw [if_neg h_ne, MemPools.poolOf, Env.wp_bind]
    -- the range is recorded, and stays so whatever the loop does
    refine wp_mallocLoop hL (lasting_returned t n (pageAddr r)) h_fits h_guar₂
      ⟨h_inv₂, .inr h_range⟩ fun completed s₃ s₄ h_guar₄ h_keeps₄ => ?_
    split
    · exact ⟨h_guar₄, h_keeps₄.2⟩
    · exact ⟨h_guar₄, .inl rfl⟩

end

/-! ### All threads together -/

variable {allMemory : BitVec 32} {nb ub : ℕ} {st st' : AllocRun T}

/-- The record agrees with the bitmaps, each thread is at rest in its environment, and
what was returned is in the record. -/
structure AllocInv (pools : MemPools) (nb ub : ℕ) (st : AllocRun T) : Prop where
  shared : SharedInv nb ub st.shared
  rest : ∀ u, (allocEnv pools nb ub u).AtRest (Returned u (st.pages u)) (st.prog u) st.shared
  returned : ∀ x ∈ st.returned, x ∈ st.shared.ranges

/-- What one thread guarantees, the others may rely on. -/
theorem rely_of_guar {pools : MemPools} {t u : T} {s s' : AllocState T} (h_u : u ≠ t)
    (h : (allocEnv pools nb ub t).guar s s') : (allocEnv pools nb ub u).rely s s' :=
  ⟨h.1, h.2 u h_u⟩

theorem rely_trans (pools : MemPools) (nb ub : ℕ) (u : T) (s₁ s₂ s₃ : AllocState T)
    (h : (allocEnv pools nb ub u).rely s₁ s₂) (h' : (allocEnv pools nb ub u).rely s₂ s₃) :
    (allocEnv pools nb ub u).rely s₁ s₃ :=
  ⟨h'.1, h.2.trans h'.2⟩

theorem returned_of_rely (pools : MemPools) (nb ub : ℕ) (u : T) (n v : BitVec 32)
    (s₁ s₂ : AllocState T) (h : (allocEnv pools nb ub u).rely s₁ s₂) (h_v : Returned u n v s₁) :
    Returned u n v s₂ :=
  lasting_returned u n v s₁ s₂ h.2.calls h.2.ranges h_v

/-! A range that is recorded stays so. -/

theorem ranges_note (t : T) (k : AllocMark) (s : AllocState T) :
    ∀ x ∈ s.ranges, x ∈ (s.note t k).ranges := by
  intro x hx
  cases k with
  | found btmp => exact hx
  | lost => exact hx
  | range vaddr n => exact List.mem_append_left _ hx
  | frame a => exact hx

theorem ranges_settle {t : T} {p p' : Kern (BitVec 32)} {s s' : AllocState T}
    (h : p.settle (allocSem t) s = .ok (p', s')) : ∀ x ∈ s.ranges, x ∈ s'.ranges :=
  Prog.settle_rel (R := fun s s' => ∀ x ∈ s.ranges, x ∈ s'.ranges) (fun _ _ hx => hx)
    (fun _ _ _ h h' x hx => h' x (h x hx)) (ranges_note t) h

theorem ranges_step {t : T} {p p' : Kern (BitVec 32)} {s s' : AllocState T}
    (h : p.step (allocSem t) s = .ok (p', s')) : ∀ x ∈ s.ranges, x ∈ s'.ranges := by
  refine Prog.step_rel (R := fun s s' => ∀ x ∈ s.ranges, x ∈ s'.ranges) (fun _ _ hx => hx)
    (fun _ _ _ h h' x hx => h' x (h x hx)) (ranges_note t) (fun o s r s' h_exec => ?_) h
  change (o.exec s.mem).map _ = _ at h_exec
  cases h_op : o.exec s.mem with
  | error e => rw [h_op] at h_exec; cases h_exec
  | ok r' =>
    rw [h_op] at h_exec
    obtain ⟨-, rfl⟩ : r'.1 = r ∧ s.setMem r'.2 = s' := by simpa [Except.map] using h_exec
    exact fun _ hx => hx

omit [DecidableEq T] in
/-- What a call that has just come to its end returns is in the record. -/
theorem mem_ranges_of_finished {t : T} {s : AllocState T} {n : BitVec 32} {p : Kern (BitVec 32)}
    {E : Env kernelSig (AllocState T)} (h : E.AtRest (Returned t n) p s) :
    ∀ x ∈ finished t s n p, x ∈ s.ranges := by
  intro x hx
  cases p with
  | ret v =>
    simp only [finished] at hx
    split at hx
    · exact absurd hx List.not_mem_nil
    · next h_ne =>
      obtain rfl := List.mem_singleton.mp hx
      exact Or.resolve_left h h_ne
  | op o k => exact absurd hx List.not_mem_nil
  | mark m p => exact absurd hx List.not_mem_nil
  | stop e => exact absurd hx List.not_mem_nil

/-- A thread that makes a call. -/
theorem allocInv_call (hL : (memPools allMemory).Layout nb ub)
    (h : AllocInv (memPools allMemory) nb ub st) {t : T} {n : BitVec 32}
    (h_exec : (allocSys allMemory).exec st (.call t n) = .ok st') :
    AllocInv (memPools allMemory) nb ub st' := by
  simp only [allocSys] at h_exec
  split at h_exec
  · next p' s' h_settle =>
    obtain rfl := Except.ok.inj h_exec
    -- the call is counted, and nothing else changes before it starts
    have h_guar : (allocEnv (memPools allMemory) nb ub t).guar st.shared
        { st.shared with calls := Function.update st.shared.calls t (st.shared.calls t + 1) } := by
      refine ⟨⟨h.shared.mapped, h.shared.ranges, h.shared.ranges_once, h.shared.frames,
        h.shared.frames_once⟩, fun u h_u => ?_⟩
      have h_refl := Kept.refl (memPools allMemory) nb ub u st.shared
      exact ⟨Function.update_of_ne h_u .., h_refl.window, h_refl.ranges, h_refl.mono,
        h_refl.heldFrames, h_refl.heldPages⟩
    have h_wp := wp_mallocPage hL n h_guar h_guar.1
    have h_pages : Function.update st.pages t n t = n := Function.update_self ..
    have h_others (u : T) (h_u : u ≠ t) : (allocEnv (memPools allMemory) nb ub u).AtRest
        (Returned u (Function.update st.pages t n u)) (st.prog u) st.shared := by
      rw [Function.update_of_ne h_u]
      exact h.rest u
    -- the thread stops in front of its first access, with its own promise to keep
    obtain ⟨h_guar', h_rest⟩ := Env.atRest_start
      (Q := fun u v s => Returned u (Function.update st.pages t n u) v s)
      (rely_trans _ nb ub) (fun u v => returned_of_rely _ nb ub u _ v)
      (fun u h_u => rely_of_guar h_u) h_others (by rw [h_pages]; exact h_wp) h_settle
    exact ⟨h_guar'.1, h_rest, fun x hx => ranges_settle h_settle x (h.returned x hx)⟩
  · cases h_exec

/-- A thread that does its next access, which is a store only where no other thread has
its window. -/
theorem allocInv_access (h : AllocInv (memPools allMemory) nb ub st) {t : T}
    (h_running : (st.prog t).IsRunning) (h_guard : Undisturbed (memPools allMemory) st (.step t))
    (h_exec : (allocSys allMemory).exec st (.step t) = .ok st') :
    AllocInv (memPools allMemory) nb ub st' := by
  simp only [allocSys] at h_exec
  split at h_exec
  · next p' s' h_next =>
    obtain rfl := Except.ok.inj h_exec
    cases h_prog : st.prog t with
    | op o k =>
      simp only [Undisturbed, h_prog] at h_guard
      obtain ⟨h_guar, h_rest⟩ := Env.atRest_step (Q := fun u v s => Returned u (st.pages u) v s)
        (rely_trans _ nb ub) (fun u v => returned_of_rely _ nb ub u _ v)
        (fun u h_u => rely_of_guar h_u) h.rest
        ⟨h.shared, .refl _ nb ub t st.shared⟩ h_prog h_guard h_next
      refine ⟨h_guar.1, h_rest, fun x hx => ?_⟩
      rcases List.mem_append.mp hx with hx | hx
      · exact ranges_step h_next x (h.returned x hx)
      · have h_t := h_rest t
        rw [Function.update_self] at h_t
        exact mem_ranges_of_finished h_t x hx
    | ret v => rw [h_prog] at h_running; exact h_running.elim
    | mark m p => rw [h_prog] at h_running; exact h_running.elim
    | stop e => rw [h_prog] at h_running; exact h_running.elim
  · cases h_exec

/-- The invariant holds in every state of a run without disturbance. -/
theorem allocInv_of_reachable (hL : (memPools allMemory).Layout nb ub)
    (h : ((allocSys allMemory).guard (Undisturbed (memPools allMemory))).Reachable st) :
    AllocInv (memPools allMemory) nb ub st := by
  refine h.invariant (fun st h_init => ?_) fun st a st' h_inv h_step => ?_
  · -- at the start nothing is recorded, and nobody is in a call
    obtain ⟨⟨m₀, h_start⟩, -, h_ranges, h_frames, h_returned, h_prog⟩ := h_init
    refine ⟨⟨(StartedFrom.poolMap hL h_start).mapped, ?_, ?_, ?_, ?_⟩, fun u => ?_, ?_⟩
    · simp [h_ranges]
    · simp [h_ranges]
    · simp [h_frames]
    · simp [h_frames]
    · rw [h_prog]
      exact .inl rfl
    · simp [h_returned]
  · obtain ⟨⟨h_enabled, h_exec⟩, h_guard⟩ := Machine.guard_step_iff.mp h_step
    cases a with
    | call t n => exact allocInv_call hL h_inv h_exec
    | step t => exact allocInv_access h_inv h_enabled h_guard h_exec

/-- **No page is handed out twice** in a run in which no thread stores into a bitmap while
another one has found a byte there. -/
theorem pages_handed_out_once (allMemory : BitVec 32)
    (h : ((allocSys allMemory).guard (Undisturbed (memPools allMemory))).Reachable st) :
    HandsOutOnce st := by
  obtain ⟨nb, ub, hL⟩ := memPools_layout allMemory
  have h_inv := allocInv_of_reachable hL h
  have h_ranges : Std.Symm fun x y : CallId T × BitVec 32 × BitVec 32 => RangesDisjoint x.2 y.2 :=
    ⟨fun _ _ h => h.symm⟩
  have h_frames : Std.Symm fun x y : CallId T × BitVec 32 => x.2 ≠ y.2 := ⟨fun _ _ h => h.symm⟩
  constructor
  · intro c a c' b h_a h_b h_ne
    exact h_inv.shared.ranges_once.forall (h_inv.returned _ h_a) (h_inv.returned _ h_b)
      fun h_eq => h_ne (congrArg Prod.fst h_eq)
  · intro c a c' b h_a h_b h_ne
    exact h_inv.shared.frames_once.forall h_a h_b fun h_eq => h_ne (congrArg Prod.fst h_eq)

/-- The machine with 32 MiB of memory and two threads that are in no call. -/
def twoThreads : AllocRun Bool where
  shared := ⟨bootImage, fun _ => 0, fun _ => none, [], []⟩
  prog _ := .ret null
  pages _ := 0#32
  returned := []

theorem init_twoThreads : (allocSys 0x2000000#32).init twoThreads :=
  ⟨(booted_bootImage _).started, rfl, rfl, rfl, rfl, rfl⟩

/-- `k` accesses of a thread. -/
def AllocAct.steps (t : T) (k : ℕ) : List (AllocAct T) := List.replicate k (.step t)

/-- Two threads that allocate two pages and one, the second while the first one maps its
pages. -/
theorem pages_handed_out_once_two :
    ∃ st, ((allocSys 0x2000000#32).guard (Undisturbed (memPools 0x2000000#32))).Reachable st ∧
      st.returned = [((true, 1), 0xc0102000#32, 1#32), ((false, 1), 0xc0100000#32, 2#32)] ∧
      HandsOutOnce st := by
  have h_play : ((((allocSys 0x2000000#32).guard (Undisturbed (memPools 0x2000000#32))).play
      twoThreads ([.call false 2#32] ++ AllocAct.steps false 7 ++ [.call true 1#32]
        ++ AllocAct.steps true 13 ++ AllocAct.steps false 17)).any fun st =>
      decide (st.returned = [((true, 1), 0xc0102000#32, 1#32),
        ((false, 1), 0xc0100000#32, 2#32)])) = true := by
    decide +kernel
  obtain ⟨st, h_st, h_returned⟩ := (Option.any_eq_true _ _).mp h_play
  have h_init : ((allocSys 0x2000000#32).guard (Undisturbed (memPools 0x2000000#32))).Reachable
      twoThreads := .init init_twoThreads
  have h_reach := h_init.play _ h_st
  exact ⟨st, h_reach, of_decide_eq_true h_returned, pages_handed_out_once 0x2000000#32 h_reach⟩

/-- A thread that is preempted between the scan and the store of its bit gets the page
that another thread has got in between. -/
theorem page_handed_out_twice :
    ∃ st : AllocRun Bool, (allocSys 0x2000000#32).Reachable st ∧
      st.returned = [((true, 1), 0xc0100000#32, 1#32), ((false, 1), 0xc0100000#32, 1#32)] ∧
      ¬ HandsOutOnce st := by
  have h_play : (((allocSys 0x2000000#32).play twoThreads ([.call false 1#32, .call true 1#32]
      ++ AllocAct.steps false 2 ++ AllocAct.steps true 11 ++ AllocAct.steps false 9)).any
        fun st => decide (st.returned
          = [((true, 1), 0xc0100000#32, 1#32), ((false, 1), 0xc0100000#32, 1#32)])) = true := by
    decide +kernel
  obtain ⟨st, h_st, h_decide⟩ := (Option.any_eq_true _ _).mp h_play
  have h_returned := of_decide_eq_true h_decide
  refine ⟨st, (Machine.Reachable.init init_twoThreads).play _ h_st, h_returned, fun h => ?_⟩
  have h_disjoint := h.ranges (true, 1) (0xc0100000#32, 1#32) (false, 1) (0xc0100000#32, 1#32)
    (by simp [h_returned]) (by simp [h_returned]) (by decide)
  -- both calls have returned the same page
  rcases h_disjoint with h_le | h_le
  · exact absurd h_le (by decide)
  · exact absurd h_le (by decide)

end ToiletOS
