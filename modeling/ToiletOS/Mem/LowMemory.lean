import ToiletOS.Mbr.ImageLoading
import ToiletOS.Mem.PrivatePages

/-!
# The kernel's own memory

The image of the kernel, its variables, its stacks and the text memory are in the first MiB, which
is mapped at two addresses. `memorySys` puts the kernel's accesses to it, at either address, between
the calls of `get_kernel_pages` and the accesses to the pages that these return.

The two sides do not disturb each other (`kernel_bytes_kept`). The bitmaps and the page tables are
all that the allocator writes, and a page that is handed out has its frame behind them; so a byte of
the kernel is changed by the kernel's own stores to it and by nothing else, and the pages stay the
heap of their owners whatever the kernel stores.
-/

namespace ToiletOS

/-- A byte of the first MiB, outside the pages that have the bitmaps. -/
def KernelByte (n : ℕ) : Prop := n < 0x9a000 ∨ 0x9d000 ≤ n ∧ n < 0x100000

instance : DecidablePred KernelByte := fun n =>
  inferInstanceAs (Decidable (n < 0x9a000 ∨ 0x9d000 ≤ n ∧ n < 0x100000))

theorem KernelByte.lt {n : ℕ} (h : KernelByte n) : n < 0x100000 := by
  unfold KernelByte at h
  omega

/-- Where an address of the first MiB leads. -/
def lowByte (a : BitVec 32) : ℕ := a.toNat % 0xc0000000

theorem low_lowByte {a : BitVec 32} (h : KernelByte (lowByte a)) : Low a (lowByte a) := ⟨h.lt, rfl⟩

namespace Access

/-- The kernel accesses bytes of its own. -/
def Own : Access → Prop
  | load8 a | store8 a _ => KernelByte (lowByte a)
  | load32 a | store32 a _ => a.toNat % 4 = 0 ∧ KernelByte (lowByte a) ∧ KernelByte (lowByte a + 3)

instance : DecidablePred Own
  | load8 a | store8 a _ => inferInstanceAs (Decidable (KernelByte (lowByte a)))
  | load32 a | store32 a _ => inferInstanceAs
      (Decidable (a.toNat % 4 = 0 ∧ KernelByte (lowByte a) ∧ KernelByte (lowByte a + 3)))

/-- The bytes of the first MiB that an access stores to. -/
def Stores : Access → ℕ → Prop
  | load8 _, _ | load32 _, _ => False
  | store8 a _, n => n = lowByte a
  | store32 a _, n => lowByte a ≤ n ∧ n < lowByte a + 4

variable {o : Access} {m : ByteMemory}

theorem Own.kernelByte (h : o.Own) {n : ℕ} (h_store : o.Stores n) : KernelByte n := by
  cases o with
  | load8 a | load32 a => exact h_store.elim
  | store8 a v =>
    obtain rfl : n = lowByte a := h_store
    exact h
  | store32 a v =>
    obtain ⟨h_align, h_first, h_last⟩ := h
    obtain ⟨h_ge, h_lt⟩ := h_store
    unfold KernelByte lowByte at *
    omega

/-- An access of the kernel to its bytes goes through, and changes those that it stores to. -/
theorem Own.exec_eq (h : o.Own) (hm : BootMapped m) : ∃ r m', o.exec m = .ok (r, m') ∧
    ∀ n < 2 ^ 32, ¬ o.Stores n → m' (phys n) = m (phys n) := by
  cases o with
  | load8 a =>
    refine ⟨m (phys (lowByte a)), m, ?_, fun _ _ _ => rfl⟩
    simp only [exec, hm.translate_low (low_lowByte h)]
  | store8 a v =>
    have h_lt := h.lt
    refine ⟨(), m.store8 (phys (lowByte a)) v, ?_, fun n hn h_not => ?_⟩
    · simp only [exec, hm.translate_low (low_lowByte h)]
    · exact m.byte_store8 v hn (by omega) h_not
  | load32 a =>
    refine ⟨m.load32 (phys (lowByte a)), m, ?_, fun _ _ _ => rfl⟩
    simp only [exec, hm.translate_low (low_lowByte h.2.1)]
  | store32 a v =>
    have h_lt := h.2.2.lt
    refine ⟨(), m.store32 (phys (lowByte a)) v, ?_, fun n hn h_not => ?_⟩
    · simp only [exec, hm.translate_low (low_lowByte h.2.1)]
    · have h_out : ¬ (lowByte a ≤ n ∧ n < lowByte a + 4) := h_not
      exact m.byte_store32 v hn (by omega) (by omega)

end Access

/-! ### The machine -/

/-- A step of the owners of pages or the allocator, or an access of the kernel to its own memory. -/
inductive MemoryAct
  | page (a : PageAct)
  | own (o : Access)
  deriving DecidableEq

/-- The kernel. -/
def memorySys (allMemory : BitVec 32) : Machine PageState MemoryAct Halt where
  init := (pageSys allMemory).init
  enabled st
    | .page a => (pageSys allMemory).enabled st a
    | .own o => o.Own
  exec st
    | .page a => (pageSys allMemory).exec st a
    | .own o =>
      match o.exec st.mem with
      | .ok (_, m) => .ok { st with mem := m }
      | .error e => .error e

instance (allMemory : BitVec 32) (st : PageState) :
    ∀ a, Decidable ((memorySys allMemory).enabled st a)
  | .page a => inferInstanceAs (Decidable ((pageSys allMemory).enabled st a))
  | .own o => inferInstanceAs (Decidable o.Own)

theorem step_page {allMemory : BitVec 32} {st st' : PageState} {a : PageAct}
    (h : (pageSys allMemory).Step st a st') : (memorySys allMemory).Step st (.page a) st' := h

theorem exec_own {allMemory : BitVec 32} {st : PageState} {o : Access} {r : o.Res} {m : ByteMemory}
    (h : o.exec st.mem = .ok (r, m)) :
    (memorySys allMemory).exec st (.own o) = .ok { st with mem := m } := by
  simp only [memorySys, h]

theorem step_own {allMemory : BitVec 32} {st : PageState} {o : Access} {r : o.Res} {m : ByteMemory}
    (h_own : o.Own) (h : o.exec st.mem = .ok (r, m)) :
    (memorySys allMemory).Step st (.own o) { st with mem := m } :=
  ⟨h_own, exec_own h⟩

/-! ### The invariant -/

/-- The kernel's accesses leave the rest of the memory alone. -/
def SameOutside (m m' : ByteMemory) : Prop :=
  ∀ n < 2 ^ 32, ¬ KernelByte n → m' (phys n) = m (phys n)

section Inv

variable {allMemory : BitVec 32} {nb ub : ℕ} {e : ℕ ≃. ℕ} {st st' : PageState} {m m' : ByteMemory}
  {tr : List (MemoryAct × PageState)}

theorem SameOutside.tables (h : SameOutside m m') : SameTables m m' := by
  intro n hn
  refine h n (by omega) ?_
  unfold KernelByte
  omega

theorem SameKernel.bootMapped (h_same : SameKernel m m') (h : BootMapped m) (hm' : Mapped m') :
    BootMapped m' where
  mapped := hm'
  first := by
    have h_dir : dirAddr 0 = 0x100000 := rfl
    rw [← h.first, h_dir]
    refine m.word_congr fun k hk => h_same _ (by omega) ?_
    unfold AllocByte
    omega

theorem SameOutside.bootMapped (h_same : SameOutside m m') (h : BootMapped m) (hm' : Mapped m') :
    BootMapped m' where
  mapped := hm'
  first := by
    have h_dir : dirAddr 0 = 0x100000 := rfl
    rw [← h.first, h_dir]
    refine m.word_congr fun k hk => h_same.tables _ (.inr (by omega))

/-- The bytes of the pages are none of the kernel's. -/
theorem SameOutside.pageBytes (h_same : SameOutside m m') (h : KernelMap nb ub m e 0 0)
    (h_nb : nb ≤ 4095) : pageBytes m' e = pageBytes m e := by
  funext a
  unfold ToiletOS.pageBytes
  split
  · refine Option.map_congr fun p hp => ?_
    obtain ⟨-, h_ge, h_lt⟩ := h.place_bounds h_nb hp
    refine h_same p h_lt ?_
    unfold KernelByte
    omega
  · rfl

/-- The invariant: that of the pages, and both mappings of the first MiB. -/
structure MemoryInv (nb ub : ℕ) (e : ℕ ≃. ℕ) (st : PageState) : Prop extends
    PageInv nb ub e st where
  boot : BootMapped st.mem

/-- The kernel's own accesses keep the invariant. -/
theorem MemoryInv.own (hL : (memPools allMemory).Layout nb ub) (h : MemoryInv nb ub e st)
    (h_same : SameOutside st.mem m') : MemoryInv nb ub e { st with mem := m' } := by
  obtain ⟨h_nb, -, -, -⟩ := hL.bounds
  have h_map := h.map.congr hL h_same.tables
  have h_bytes := h_same.pageBytes h.map h_nb
  refine ⟨⟨⟨h_map, ?_⟩, fun a => ?_⟩, h_same.bootMapped h.boot h_map.mapped⟩
  · change HeapRun 0#8 st.log (pageBytes m' e)
    rw [h_bytes]
    exact h.heap
  · change st.Owned a ↔ (pageBytes m' e a).isSome
    rw [h_bytes]
    exact h.owned a

/-- What a step does to the invariant, and to the bytes of the kernel. -/
theorem memoryInv_step (hL : (memPools allMemory).Layout nb ub) (h : MemoryInv nb ub e st)
    {a : MemoryAct} (h_step : (memorySys allMemory).Step st a st') :
    (∃ e', MemoryInv nb ub e' st') ∧
      ∀ n < 0x200000, ¬ AllocByte n → (∀ o, a = .own o → ¬ o.Stores n) →
        st'.mem (phys n) = st.mem (phys n) := by
  obtain ⟨h_enabled, h_exec⟩ := h_step
  cases a with
  | page a =>
    obtain ⟨⟨e', h_inv⟩, h_same⟩ := pageInv_step hL h.toPageInv ⟨h_enabled, h_exec⟩
    exact ⟨⟨e', h_inv, h_same.bootMapped h.boot h_inv.map.mapped⟩,
      fun n hn h_not _ => h_same n hn h_not⟩
  | own o =>
    have h_own : o.Own := h_enabled
    obtain ⟨r, m', h_ok, h_same⟩ := h_own.exec_eq h.boot
    rw [exec_own h_ok] at h_exec
    cases h_exec
    have h_outside : SameOutside st.mem m' :=
      fun n hn h_not => h_same n hn fun h_store => h_not (h_own.kernelByte h_store)
    exact ⟨⟨e, h.own hL h_outside⟩, fun n hn _ h_not => h_same n (by omega) (h_not o rfl)⟩

theorem memoryInv_of_init (hL : (memPools allMemory).Layout nb ub)
    (h : (memorySys allMemory).init st) : MemoryInv nb ub ⊥ st := by
  have h_page := pageInv_of_init hL h
  obtain ⟨h_nb, h_ub, h_frames, h_pages⟩ := hL.bounds
  obtain ⟨⟨m₀, -, h_run⟩, -, -⟩ := h
  obtain ⟨m, h_run', -, h_bytes⟩ := memPoolInit_run hL (mapped_setupPage m₀)
  obtain rfl : st.mem = m := congrArg Prod.snd (Except.ok.inj (h_run.symm.trans h_run'))
  have h_dir : dirAddr 0 = 0x100000 := rfl
  refine ⟨h_page, h_page.map.mapped, ?_⟩
  rw [← (bootMapped_setupPage m₀).first, h_dir]
  refine ByteMemory.word_congr _ fun k hk => ?_
  rw [h_bytes _ (by omega), if_neg (by omega)]

theorem memoryInv_of_reachable (hL : (memPools allMemory).Layout nb ub)
    (h : (memorySys allMemory).Reachable st) : ∃ e, MemoryInv nb ub e st :=
  h.invariant (P := fun st => ∃ e, MemoryInv nb ub e st)
    (fun _ h_init => ⟨⊥, memoryInv_of_init hL h_init⟩)
    fun _ _ _ ⟨_, h_e⟩ h_step => (memoryInv_step hL h_e h_step).1

/-- What a run does to the bytes of the kernel. -/
theorem memoryInv_run (hL : (memPools allMemory).Layout nb ub) (h : MemoryInv nb ub e st)
    (h_run : (memorySys allMemory).Run st tr st') :
    (∃ e', MemoryInv nb ub e' st') ∧
      ∀ n < 0x200000, ¬ AllocByte n → (∀ x ∈ tr, ∀ o, x.1 = .own o → ¬ o.Stores n) →
        st'.mem (phys n) = st.mem (phys n) := by
  induction h_run generalizing e with
  | nil st => exact ⟨⟨e, h⟩, fun _ _ _ _ => rfl⟩
  | @cons st st₁ st' a tr h_step _ ih =>
    obtain ⟨⟨e₁, h₁⟩, h_same⟩ := memoryInv_step hL h h_step
    obtain ⟨h_inv, h_rest⟩ := ih h₁
    refine ⟨h_inv, fun n hn h_not h_stores => ?_⟩
    rw [h_rest n hn h_not fun x hx => h_stores x (List.mem_cons_of_mem _ hx)]
    exact h_same n hn h_not fun o h_o => h_stores (a, st₁) List.mem_cons_self o h_o

end Inv

/-- What the kernel and the owners of pages can rely on, in a state that a run has led to. -/
structure MemoryKept (allMemory : BitVec 32) (st : PageState) : Prop where
  /-- The first MiB is seen at both addresses. -/
  mapped : ∀ a n, Low a n → translate st.mem a = some (phys n)
  own : ∀ o e, ¬ (memorySys allMemory).Faults st (.own o) e
  access : ∀ o e, ¬ (memorySys allMemory).Faults st (.page (.access o)) e
  /-- The pages are still a heap, with zeros in new pages. -/
  heap : HeapRun 0#8 st.log st.heap
  owned : ∀ a, (st.heap a).isSome ↔ st.Owned a

/-- **The kernel and the pages do not disturb each other.** A byte below the frames that is not
the allocator's is kept by a run in which the kernel does not store to it. -/
theorem kernel_bytes_kept (allMemory : BitVec 32) {st st' : PageState}
    {tr : List (MemoryAct × PageState)} (h : (memorySys allMemory).Reachable st)
    (h_run : (memorySys allMemory).Run st tr st') :
    MemoryKept allMemory st' ∧
      ∀ n < 0x200000, ¬ AllocByte n → (∀ x ∈ tr, ∀ o, x.1 = .own o → ¬ o.Stores n) →
        st'.mem (phys n) = st.mem (phys n) := by
  obtain ⟨nb, ub, hL⟩ := memPools_layout allMemory
  obtain ⟨e, h_inv⟩ := memoryInv_of_reachable hL h
  obtain ⟨⟨e', h_inv'⟩, h_same⟩ := memoryInv_run hL h_inv h_run
  obtain ⟨h_heap, h_owned, -⟩ := h_inv'.isHeap hL.nb_le
  refine ⟨⟨fun a n h_low => h_inv'.boot.translate_low h_low, ?_, h_inv'.not_faults hL, h_heap,
    h_owned⟩, h_same⟩
  rintro o err ⟨h_own, h_exec⟩
  obtain ⟨r, m', h_ok, -⟩ := h_own.exec_eq h_inv'.boot
  rw [exec_own h_ok] at h_exec
  cases h_exec

/-- A page is handed out, and then the kernel stores to one of its bytes at the low address. The
first instruction of `main` is another one. -/
theorem kernel_bytes_kept_page : ∃ st st' tr, (memorySys 0x2000000#32).Run st tr st' ∧
    tr.map Prod.fst = [.page (.pages 1#32), .own (.store8 0x8000#32 7#8)] ∧
    MemoryKept 0x2000000#32 st' ∧ st'.mem (phys 0x1500) = st.mem (phys 0x1500) := by
  have h_init : (memorySys 0x2000000#32).Reachable ⟨bootImage, [], []⟩ :=
    .init ⟨booted_bootImage _, rfl, rfl⟩
  have h_inside : RunInside (memPools 0x2000000#32) bootImage 1#32 := by decide +kernel
  obtain ⟨m₁, h_pages⟩ := getKernelPages_bootImage
  set st₁ : PageState := ⟨m₁, [(0xc0100000#32, 1#32)],
    [.alloc (addresses (0xc0100000#32, 1#32))]⟩ with hst₁
  have h_step₁ : (memorySys 0x2000000#32).Step ⟨bootImage, [], []⟩ (.page (.pages 1#32)) st₁ :=
    step_page ⟨⟨⟨by decide, by decide⟩, h_inside⟩, exec_pages h_pages (by decide)⟩
  have h_own : (Access.store8 0x8000#32 7#8).Own := by decide
  obtain ⟨h_kept, -⟩ := kernel_bytes_kept _ (h_init.step h_step₁) (.nil st₁)
  -- the store goes through, because the first MiB is still mapped
  have h_map : translate m₁ 0x8000#32 = some (phys 0x8000) := h_kept.mapped _ _ (by decide)
  have h_store : (Access.store8 0x8000#32 7#8).exec m₁ = .ok ((), m₁.store8 (phys 0x8000) 7#8) := by
    simp only [Access.exec, h_map]
  have h_step₂ : (memorySys 0x2000000#32).Step st₁ (.own (.store8 0x8000#32 7#8))
      { st₁ with mem := m₁.store8 (phys 0x8000) 7#8 } := step_own h_own h_store
  have h_run := Machine.Run.cons h_step₁ (.cons h_step₂ (.nil _))
  obtain ⟨h_kept', h_same⟩ := kernel_bytes_kept _ h_init h_run
  refine ⟨_, _, _, h_run, rfl, h_kept', h_same 0x1500 (by decide) (by unfold AllocByte; decide) ?_⟩
  intro x hx o h_o
  rcases List.mem_cons.mp hx with rfl | hx
  · cases h_o
  · obtain rfl := List.mem_singleton.mp hx
    obtain rfl := MemoryAct.own.inj h_o
    have h_ne : (0x1500 : ℕ) ≠ lowByte 0x8000#32 := by decide
    exact h_ne

end ToiletOS
