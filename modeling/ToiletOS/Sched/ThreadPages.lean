import ToiletOS.Mem.LowMemory
import ToiletOS.Mem.SeenMemory
import ToiletOS.Sched.SwitchTo

/-!
# The pages of threads

`switchSys` takes two things for granted: the pages of threads are apart, and memory is flat. Here
both are properties of the allocator. `thread_start` has the page of a thread from
`get_kernel_pages`, one page in a call, and `main` has the page of the initial stack, which is in
the first MiB.

In every state of `memorySys` the pages that calls have returned do not overlap (`BlocksApart`), so
the pages of threads are apart. An address of one of them has a byte of the memory to itself
(`StackByte`), and the page tables lead to it before and after each store. What the tables show
(`seen`) is therefore flat memory, as far as threads can tell (`thread_pages_apart`).
-/

namespace ToiletOS

/-- `running_thread`, with the stack pointer as an argument. -/
def Pcb.runningThread (esp : BitVec 32) : BitVec 32 := esp &&& 0xfffff000#32

/-- The page of `main`, whose stack ends at `0xc009f000`. -/
def mainPage : BitVec 32 := 0xc009e000#32

namespace PageState

/-- The pages of threads: that of `main`, and those that calls for one page have returned. -/
def threadPages (st : PageState) : List (BitVec 32) :=
  mainPage :: (st.returned.filter fun x => x.2 = 1#32).map Prod.fst

/-- The page of a thread, in the order of creation. -/
def page (st : PageState) (t : Fin st.threadPages.length) : BitVec 32 := st.threadPages.get t

end PageState

/-! ### Calls do not return a page twice -/

/-- What calls have returned are pages of the pool, and no two calls have returned the same page. -/
structure BlocksApart (returned : List (BitVec 32 × BitVec 32)) : Prop where
  inside : ∀ x ∈ returned, ∃ r, x.1 = pageAddr r ∧ r + x.2.toNat ≤ 32760 ∧ 0 < x.2.toNat
  apart : returned.Pairwise fun x y => ∀ a ∈ addresses x, a ∉ addresses y

section Blocks

variable {allMemory : BitVec 32} {nb ub : ℕ} {e : ℕ ≃. ℕ} {st st' : PageState}
  {returned : List (BitVec 32 × BitVec 32)}

/-- A step returns no page, or pages of the pool that nobody has. -/
theorem returned_step (hL : (memPools allMemory).Layout nb ub) (h : PageInv nb ub e st)
    {a : PageAct} (h_step : (pageSys allMemory).Step st a st') :
    st'.returned = st.returned ∨ ∃ r n, r + n.toNat ≤ 32760 ∧ 0 < n.toNat ∧
      st'.returned = st.returned ++ [(pageAddr r, n)] ∧
      ∀ b ∈ addresses (pageAddr r, n), ¬ st.Owned b := by
  obtain ⟨h_nb, -, -, -⟩ := hL.bounds
  cases a with
  | access o =>
    obtain ⟨h_enabled, h_exec⟩ := h_step
    obtain ⟨r, m', h_ok, -, -⟩ := h.access hL h_enabled
    rw [exec_access h_ok] at h_exec
    cases h_exec
    exact Or.inl rfl
  | pages n =>
    rcases pages_step hL h.map h_step with
      rfl | ⟨r, m', e', h_fits, h_pos, rfl, -, -, h_new, -⟩
    · exact Or.inl rfl
    · refine Or.inr ⟨r, n, by omega, h_pos, rfl, fun b hb h_own => ?_⟩
      -- the map has no frame behind the new pages yet
      rw [h.owned, (h_new b hb).1] at h_own
      cases h_own

theorem BlocksApart.concat (h : BlocksApart st.returned) {r : ℕ} {n : BitVec 32}
    (h_fits : r + n.toNat ≤ 32760) (h_pos : 0 < n.toNat)
    (h_free : ∀ b ∈ addresses (pageAddr r, n), ¬ st.Owned b) :
    BlocksApart (st.returned ++ [(pageAddr r, n)]) where
  inside x hx := by
    rcases List.mem_append.mp hx with hx | hx
    · exact h.inside x hx
    · obtain rfl := List.mem_singleton.mp hx
      exact ⟨r, rfl, h_fits, h_pos⟩
  apart := by
    refine List.pairwise_append.mpr ⟨h.apart, List.pairwise_singleton .., fun x hx y hy => ?_⟩
    obtain rfl := List.mem_singleton.mp hy
    exact fun b hb h_new => h_free b h_new ⟨x, hx, hb⟩

theorem blocksApart_step (hL : (memPools allMemory).Layout nb ub) (h : MemoryInv nb ub e st)
    (h_apart : BlocksApart st.returned) {a : MemoryAct}
    (h_step : (memorySys allMemory).Step st a st') : BlocksApart st'.returned := by
  cases a with
  | page a =>
    rcases returned_step hL h.toPageInv (a := a) h_step with
      h_same | ⟨r, n, h_fits, h_pos, h_returned, h_free⟩
    · rw [h_same]
      exact h_apart
    · rw [h_returned]
      exact h_apart.concat h_fits h_pos h_free
  | own o =>
    obtain ⟨h_own, h_exec⟩ := h_step
    obtain ⟨r, m', h_ok, -⟩ := Access.Own.exec_eq h_own h.boot
    rw [exec_own h_ok] at h_exec
    cases h_exec
    exact h_apart

theorem blocksApart_of_reachable (hL : (memPools allMemory).Layout nb ub)
    (h : (memorySys allMemory).Reachable st) :
    (∃ e, MemoryInv nb ub e st) ∧ BlocksApart st.returned := by
  refine h.invariant (P := fun st => (∃ e, MemoryInv nb ub e st) ∧ BlocksApart st.returned)
    (fun st h_init => ⟨⟨⊥, memoryInv_of_init hL h_init⟩, ?_⟩)
    fun _ _ _ ⟨⟨_, h_e⟩, h_apart⟩ h_step =>
      ⟨(memoryInv_step hL h_e h_step).1, blocksApart_step hL h_e h_apart h_step⟩
  obtain ⟨-, h_nil, -⟩ := h_init
  rw [h_nil]
  exact ⟨fun x hx => absurd hx (List.not_mem_nil), List.Pairwise.nil⟩

/-! ### The pages of threads are apart -/

theorem BlocksApart.fst_ne (h : BlocksApart returned) :
    returned.Pairwise fun x y => x.1 ≠ y.1 := by
  refine h.apart.imp_of_mem fun {x y} hx hy h_none h_eq => ?_
  obtain ⟨-, -, -, h_x⟩ := h.inside x hx
  obtain ⟨-, -, -, h_y⟩ := h.inside y hy
  -- both blocks would have the first byte
  have h_first : x.1 ∈ addresses x := ⟨le_rfl, by omega⟩
  have h_first' : x.1 ∈ addresses y := h_eq ▸ ⟨le_rfl, by omega⟩
  exact h_none _ h_first h_first'

/-- The pages of the pool start above that of `main`. -/
theorem BlocksApart.ge (h : BlocksApart returned) {x : BitVec 32 × BitVec 32}
    (hx : x ∈ returned) : 0xc0100000 ≤ x.1.toNat ∧ x.1.toNat % 4096 = 0 ∧
      x.1.toNat + 4096 ≤ 2 ^ 32 := by
  obtain ⟨r, h_eq, h_fits, h_pos⟩ := h.inside x hx
  have h_nat : (pageAddr r).toNat = 0xc0100000 + r * 4096 := toNat_pageAddr (by omega)
  rw [h_eq, h_nat]
  omega

theorem mem_threadPages {p : BitVec 32} :
    p ∈ st.threadPages ↔ p = mainPage ∨ ∃ x ∈ st.returned, x.2 = 1#32 ∧ x.1 = p := by
  simp [PageState.threadPages]

theorem BlocksApart.pagesApart (h : BlocksApart st.returned) : PagesApart st.page where
  aligned t := by
    rcases mem_threadPages.mp (List.get_mem st.threadPages t) with h_main | ⟨x, hx, -, h_x⟩
    · rw [PageState.page, h_main]
      rfl
    · rw [PageState.page, ← h_x]
      exact (h.ge hx).2.1
  injective := by
    refine List.nodup_iff_injective_get.mp (List.nodup_cons.mpr ⟨fun h_mem => ?_, ?_⟩)
    · obtain ⟨x, hx, h_x⟩ := List.mem_map.mp h_mem
      have h_ge := (h.ge (List.mem_of_mem_filter hx)).1
      have h_main : mainPage.toNat = 0xc009e000 := rfl
      rw [h_x] at h_ge
      omega
    · exact List.pairwise_map.mpr (h.fst_ne.filter _)

/-- The PCB of a thread is found from any address of its stack. -/
theorem PagesApart.runningThread_eq {T : Type} {page : T → BitVec 32} (h : PagesApart page) {t : T}
    {esp : BitVec 32} (h_in : InPage (page t) esp) : Pcb.runningThread esp = page t := by
  have h_t : (page t).toNat % 4096 = 0 := h.aligned t
  have h_in : (esp - page t).toNat < 4096 := h_in
  have h_esp := esp.isLt
  have h_page := (page t).isLt
  rw [BitVec.toNat_sub] at h_in
  apply BitVec.eq_of_toNat_eq
  rw [Pcb.runningThread, toNat_and_frame]
  omega

/-- An address of the page of a thread is in the first MiB, or a call has returned its page. -/
theorem BlocksApart.low_or_owned (h : BlocksApart st.returned) {t : Fin st.threadPages.length}
    {a : BitVec 32} (h_in : InPage (st.page t) a) :
    0xc009e000 ≤ a.toNat ∧ a.toNat < 0xc009f000 ∨ st.Owned a := by
  have h_in : (a - st.page t).toNat < 4096 := h_in
  have h_a := a.isLt
  rw [BitVec.toNat_sub] at h_in
  rcases mem_threadPages.mp (List.get_mem st.threadPages t) with h_main | ⟨x, hx, h_one, h_x⟩
  · have h_nat : (st.page t).toNat = 0xc009e000 := congrArg BitVec.toNat h_main
    omega
  · obtain ⟨h_ge, -, h_end⟩ := h.ge hx
    have h_nat : (st.page t).toNat = x.1.toNat := congrArg BitVec.toNat h_x.symm
    have h_len : x.2.toNat = 1 := congrArg BitVec.toNat h_one
    exact Or.inr ⟨x, hx, by omega, by omega⟩

end Blocks

/-! ### Memory is flat -/

/-- The memory has the byte at `a` at `p`, in the first MiB or where the map of the pages says. -/
def StackByte (e : ℕ ≃. ℕ) (a : BitVec 32) (p : ℕ) : Prop :=
  0x9e000 ≤ p ∧ p < 0x9f000 ∧ a = phys (0xc0000000 + p) ∨
    ∃ x, a = byteAddr x ∧ 0xc0100000 + x < 2 ^ 32 ∧ place e x = some p

section Flat

variable {allMemory : BitVec 32} {pools : MemPools} {nb ub : ℕ} {e : ℕ ≃. ℕ} {st : PageState}
  {m : ByteMemory} {a b : BitVec 32} {p q : ℕ}

theorem exists_stackByte (h : MemoryInv nb ub e st) (h_apart : BlocksApart st.returned)
    {t : Fin st.threadPages.length} (h_in : InPage (st.page t) a) : ∃ p, StackByte e a p := by
  rcases h_apart.low_or_owned h_in with ⟨h_ge, h_lt⟩ | h_own
  · exact ⟨a.toNat - 0xc0000000, Or.inl ⟨by omega, by omega, eq_phys (by omega)⟩⟩
  · obtain ⟨v, h_v⟩ := Option.isSome_iff_exists.mp ((h.owned a).mp h_own)
    obtain ⟨x, p, h_a, h_x, h_p, -⟩ := exists_byteAddr h_v
    exact ⟨p, Or.inr ⟨x, h_a, h_x, h_p⟩⟩

namespace StackByte

theorem lt (ha : StackByte e a p) (h : KernelMap nb ub m e 0 0) (h_nb : nb ≤ 4095) :
    p < 2 ^ 32 := by
  rcases ha with ⟨-, h_lt, -⟩ | ⟨x, -, -, h_p⟩
  · omega
  · exact (h.place_bounds h_nb h_p).2.2

theorem translate_eq (ha : StackByte e a p) (h : KernelMap nb ub m e 0 0) (h_nb : nb ≤ 4095)
    (h_boot : BootMapped m) : translate m a = some (phys p) := by
  rcases ha with ⟨-, h_lt, rfl⟩ | ⟨x, rfl, -, h_p⟩
  · exact h_boot.mapped.translate_low (by omega)
  · exact h.translate_byte h_nb h_p

/-- Two addresses do not share a byte. -/
theorem inj (ha : StackByte e a p) (hb : StackByte e b p) (h : KernelMap nb ub m e 0 0)
    (h_nb : nb ≤ 4095) : a = b := by
  rcases ha with ⟨-, h_lt, rfl⟩ | ⟨x, rfl, -, h_p⟩
  · rcases hb with ⟨-, -, rfl⟩ | ⟨y, -, -, h_q⟩
    · rfl
    · have h_ge := (h.place_bounds h_nb h_q).2.1
      omega
  · rcases hb with ⟨-, h_lt, -⟩ | ⟨y, rfl, -, h_q⟩
    · have h_ge := (h.place_bounds h_nb h_p).2.1
      omega
    · rw [place_inj h_p h_q]

/-- A store to one of the bytes leaves the tables alone. -/
theorem store8 (ha : StackByte e a p) (hL : pools.Layout nb ub) (h : KernelMap nb ub m e 0 0)
    (h_boot : BootMapped m) (v : BitVec 8) : KernelMap nb ub (m.store8 (phys p) v) e 0 0 ∧
      BootMapped (m.store8 (phys p) v) := by
  obtain ⟨h_nb, -, -, -⟩ := hL.bounds
  have h_p := ha.lt h h_nb
  rcases ha with ⟨h_ge, h_lt, -⟩ | ⟨x, -, -, h_place⟩
  · have h_same : SameOutside m (m.store8 (phys p) v) := by
      intro n hn h_not
      refine m.byte_store8 v hn h_p fun h_eq => h_not ?_
      unfold KernelByte
      omega
    exact ⟨h.congr hL h_same.tables, h_boot.store8 (by omega) v⟩
  · have h_ge := (h.place_bounds h_nb h_place).2.1
    have h_map := (h.store8 hL h_place v).1
    have h_same : SameKernel m (m.store8 (phys p) v) :=
      fun n hn _ => m.byte_store8 v (by omega) h_p (by omega)
    exact ⟨h_map, h_same.bootMapped h_boot h_map.mapped⟩

/-- What the tables show after a store. -/
theorem seen_store8 (ha : StackByte e a p) (hb : StackByte e b q) (hL : pools.Layout nb ub)
    (h : KernelMap nb ub m e 0 0) (h_boot : BootMapped m) (v : BitVec 8) :
    seen (m.store8 (phys p) v) b = (seen m).store8 a v b := by
  obtain ⟨h_nb, -, -, -⟩ := hL.bounds
  obtain ⟨h', h_boot'⟩ := ha.store8 hL h h_boot v
  by_cases h_eq : b = a
  · subst h_eq
    rw [seen_of_translate (ha.translate_eq h' h_nb h_boot'), ByteMemory.store8_self,
      ByteMemory.store8_self]
  · -- another address has another byte
    have h_ne : q ≠ p := by
      rintro rfl
      exact h_eq (hb.inj ha h h_nb)
    rw [seen_of_translate (hb.translate_eq h' h_nb h_boot'), ByteMemory.store8_of_ne _ _ h_eq,
      seen_of_translate (hb.translate_eq h h_nb h_boot)]
    exact m.byte_store8 v (hb.lt h h_nb) (ha.lt h h_nb) h_ne

end StackByte
end Flat

/-- A thread finds flat memory in the pages of threads: what the tables show. -/
structure FlatStacks (st : PageState) : Prop where
  load : ∀ t a, InPage (st.page t) a →
    (Access.load8 a).exec st.mem = .ok (seen st.mem a, st.mem)
  store : ∀ t a v, InPage (st.page t) a → ∃ m, (Access.store8 a v).exec st.mem = .ok ((), m) ∧
    ∀ u b, InPage (st.page u) b → seen m b = (seen st.mem).store8 a v b

/-- **The pages of threads are what `switch_to` needs.** In every state they are apart, the stack
pointer of a thread leads `running_thread` to its page, and the page tables do not show. -/
theorem thread_pages_apart (allMemory : BitVec 32) {st : PageState}
    (h : (memorySys allMemory).Reachable st) :
    PagesApart st.page ∧
    (∀ t esp, InPage (st.page t) esp → Pcb.runningThread esp = st.page t) ∧ FlatStacks st := by
  obtain ⟨nb, ub, hL⟩ := memPools_layout allMemory
  obtain ⟨⟨e, h_inv⟩, h_apart⟩ := blocksApart_of_reachable hL h
  have h_pages := h_apart.pagesApart
  refine ⟨h_pages, fun t esp h_in => h_pages.runningThread_eq h_in, fun t a h_in => ?_,
    fun t a v h_in => ?_⟩
  · obtain ⟨p, ha⟩ := exists_stackByte h_inv h_apart h_in
    have h_map := ha.translate_eq h_inv.map hL.nb_le h_inv.boot
    simp only [Access.exec, h_map, seen_of_translate h_map]
  · obtain ⟨p, ha⟩ := exists_stackByte h_inv h_apart h_in
    have h_map := ha.translate_eq h_inv.map hL.nb_le h_inv.boot
    refine ⟨st.mem.store8 (phys p) v, by simp only [Access.exec, h_map], fun u b h_in' => ?_⟩
    obtain ⟨q, hb⟩ := exists_stackByte h_inv h_apart h_in'
    exact ha.seen_store8 hb hL h_inv.map h_inv.boot v

/-- `main` and a thread. -/
theorem thread_pages_apart_two : ∃ st, (memorySys 0x2000000#32).Reachable st ∧
    st.threadPages = [0xc009e000#32, 0xc0100000#32] ∧ PagesApart st.page ∧
    (∀ t esp, InPage (st.page t) esp → Pcb.runningThread esp = st.page t) ∧ FlatStacks st := by
  have h_init : (memorySys 0x2000000#32).Reachable ⟨bootImage, [], []⟩ :=
    .init ⟨booted_bootImage _, rfl, rfl⟩
  have h_inside : RunInside (memPools 0x2000000#32) bootImage 1#32 := by decide +kernel
  obtain ⟨m, h_pages⟩ := getKernelPages_bootImage
  have h_step : (memorySys 0x2000000#32).Step ⟨bootImage, [], []⟩ (.page (.pages 1#32)) _ :=
    step_page ⟨⟨⟨by decide, by decide⟩, h_inside⟩, exec_pages h_pages (by decide)⟩
  have h := h_init.step h_step
  exact ⟨_, h, rfl, thread_pages_apart _ h⟩

end ToiletOS
