import ToiletOS.Sched.Kernel
import Mathlib.Data.List.Perm.Subperm

/-!
# The scheduler invariant

`KernelInv k F` says what is true of the kernel whenever a thread runs: `F` gives
the threads of each list, `rep` that the heap of link cells really holds these
lists, each node in at most one of them, and the other fields tie the lists, the
status fields and the waiter slots together. `KernelCore` is the part of it that
also holds in the middle of a switch, after the running thread has been put to
sleep or back into the ready list and before the next one is picked.

A thread is moved in four ways, and each has its lemma: `KernelInv.sleep` (the
running thread goes to sleep, in a wait list or in a slot), `KernelInv.wake` (a
sleeping thread goes to the head of the ready list), `KernelInv.requeue` (the
running thread goes to its tail) and `KernelCore.dispatch` (its head runs).
-/

namespace ToiletOS

variable {T S W : Type} [DecidableEq T] [DecidableEq S]

/-- The nodes of the lists, given the threads of each list. -/
def tags (F : ListId S → List T) (i : ListId S) : List (Node T S) := (F i).map i.tag

/-- What holds of the kernel also in the middle of a switch. -/
structure KernelCore (k : Kernel T S W) (F : ListId S → List T) : Prop where
  rep : LinkHeap.Rep k.links ListId.head ListId.tail (tags F)
  all_eq : F .all = k.threads
  cur_mem : k.cur ∈ k.threads
  main_mem : ∀ m, k.mainThread = some m → m ∈ k.threads
  status_cases : ∀ t ∈ k.threads, (k.task t).status = .running ∨
    (k.task t).status = .ready ∨ (k.task t).status = .blocked
  running : ∀ t ∈ k.threads, (k.task t).status = .running → t = k.cur
  ready : ∀ t, t ∈ F .ready ↔ t ∈ k.threads ∧ (k.task t).status = .ready
  waiting : ∀ s, ∀ t ∈ F (.wait s), t ∈ k.threads ∧ (k.task t).status = .blocked
  /-- A slot names a sleeping thread, which no wait list and no other slot holds. -/
  slots : ∀ w t, k.slot w = some t →
    t ∈ k.threads ∧ (k.task t).status = .blocked ∧ ∀ s, t ∉ F (.wait s)
  slot_inj : ∀ w w' t, k.slot w = some t → k.slot w' = some t → w = w'
  magic : ∀ t ∈ k.threads, (k.task t).stackMagic = 0x77777777

/-- The scheduler invariant: the current thread is running. -/
structure KernelInv (k : Kernel T S W) (F : ListId S → List T) : Prop extends
    KernelCore k F where
  cur_running : (k.task k.cur).status = .running

/-! ### Threads and nodes -/

section Nodes

variable {k : Kernel T S W} {F : ListId S → List T}

omit [DecidableEq T] [DecidableEq S] in
theorem tag_injective (i : ListId S) : Function.Injective (i.tag : T → Node T S) := by
  cases i <;> intro a b h <;> simpa [ListId.tag] using h

omit [DecidableEq T] in
theorem tags_update (F : ListId S → List T) (i : ListId S) (l : List T) :
    tags (Function.update F i l) = Function.update (tags F) i (l.map i.tag) := by
  funext j
  by_cases h : j = i
  · subst h; simp [tags]
  · simp [tags, Function.update_of_ne h]

omit [DecidableEq T] [DecidableEq S] in
theorem mem_tags {F : ListId S → List T} {i : ListId S} {t : T} :
    i.tag t ∈ tags F i ↔ t ∈ F i :=
  List.mem_map_of_injective (tag_injective i)

omit [DecidableEq T] [DecidableEq S] in
/-- The `general_tag` of a thread that is in no list but `thread_all_list` is
free to be linked. -/
theorem general_notMem {t : T} (h : ∀ i : ListId S, i ≠ .all → t ∉ F i) (j : ListId S) :
    (.general t : Node T S) ∉ LinkHeap.nodes ListId.head ListId.tail (tags F) j := by
  rw [LinkHeap.mem_nodes]
  rintro (h' | h' | h')
  · cases j <;> cases h'
  · cases j with
    | all => simp [tags, ListId.tag] at h'
    | ready | wait s => exact h _ (by simp) (mem_tags.mp h')
  · cases j <;> cases h'

omit [DecidableEq T] [DecidableEq S] in
/-- The `all_list_tag` of a thread that is not in `thread_all_list` is free to
be linked. -/
theorem all_notMem {t : T} (h : t ∉ F .all) (j : ListId S) :
    (.all t : Node T S) ∉ LinkHeap.nodes ListId.head ListId.tail (tags F) j := by
  rw [LinkHeap.mem_nodes]
  rintro (h' | h' | h')
  · cases j <;> cases h'
  · cases j with
    | all => exact h (mem_tags.mp h')
    | ready | wait s => simp [tags, ListId.tag] at h'
  · cases j <;> cases h'

omit [DecidableEq T] [DecidableEq S] in
/-- The threads of a list are distinct. -/
theorem KernelCore.nodup (h : KernelCore k F) (i : ListId S) : (F i).Nodup := by
  have h_nodup := (List.nodup_cons.mp (h.rep.nodup i)).2
  exact (List.nodup_append.mp h_nodup).1.of_map _

omit [DecidableEq T] [DecidableEq S] in
/-- `general_tag` is in one list at most. -/
theorem KernelCore.one_list (h : KernelCore k F) {i j : ListId S} {t : T} (hi : i ≠ .all)
    (hj : j ≠ .all) (hti : t ∈ F i) (htj : t ∈ F j) : i = j := by
  by_contra h_ne
  have h_tag : ∀ l : ListId S, l ≠ .all → l.tag t = (.general t : Node T S) := by
    intro l hl
    cases l <;> first | rfl | exact absurd rfl hl
  have h_mem : ∀ l, l ≠ .all → t ∈ F l → (.general t : Node T S) ∈
      LinkHeap.nodes ListId.head ListId.tail (tags F) l := by
    intro l hl htl
    rw [LinkHeap.mem_nodes, ← h_tag l hl]
    exact Or.inr (Or.inl (mem_tags.mpr htl))
  exact h.rep.disjoint i j h_ne _ (h_mem i hi hti) (h_mem j hj htj)

omit [DecidableEq T] [DecidableEq S] in
/-- Every thread of a list has been created. -/
theorem KernelCore.mem_threads (h : KernelCore k F) {i : ListId S} {t : T} (ht : t ∈ F i) :
    t ∈ k.threads := by
  cases i with
  | all => exact h.all_eq ▸ ht
  | ready => exact ((h.ready t).mp ht).1
  | wait s => exact (h.waiting s t ht).1

omit [DecidableEq T] [DecidableEq S] in
/-- A list has at most as many elements as there are PCBs. -/
theorem KernelCore.length_le (h : KernelCore k F) (i : ListId S) :
    (F i).length ≤ k.threads.length :=
  ((h.nodup i).subperm fun _ => h.mem_threads).length_le

omit [DecidableEq T] [DecidableEq S] in
/-- The running thread is in no list but `thread_all_list`. -/
theorem KernelInv.cur_free (h : KernelInv k F) (i : ListId S) (hi : i ≠ .all) :
    k.cur ∉ F i := by
  intro h_mem
  have h_run := h.cur_running
  cases i with
  | all => exact hi rfl
  | ready => rw [((h.ready _).mp h_mem).2] at h_run; cases h_run
  | wait s => rw [(h.waiting s _ h_mem).2] at h_run; cases h_run

end Nodes

/-! ### The list operations under the invariant -/

namespace Kernel

variable (k : Kernel T S W) {F : ListId S → List T}

/-- `list_insert_before` leaves the interrupt flag as it was. -/
theorem listInsertBefore_eq (before elem : Node T S) :
    k.listInsertBefore before elem = { k with links := k.links.insertBefore before elem } := by
  cases h : k.intr <;> simp [listInsertBefore, intrDisable, intrSetStatus, intrEnable, h]

theorem listAppend_eq (i : ListId S) (elem : Node T S) :
    k.listAppend i elem = { k with links := k.links.insertBefore i.tail elem } :=
  k.listInsertBefore_eq _ _

theorem listPush_eq (i : ListId S) (elem : Node T S) :
    k.listPush i elem
      = { k with links := k.links.insertBefore (k.links i.head).next elem } :=
  k.listInsertBefore_eq _ _

/-- `list_remove` leaves the interrupt flag as it was. -/
theorem listRemove_eq (elem : Node T S) :
    k.listRemove elem = { k with links := k.links.unlink elem } := by
  cases h : k.intr <;> simp [listRemove, intrDisable, intrSetStatus, intrEnable, h]

variable {k}

theorem append_rep (h : LinkHeap.Rep k.links ListId.head ListId.tail (tags F)) (i : ListId S)
    {t : T} (ht : ∀ j, i.tag t ∉ LinkHeap.nodes ListId.head ListId.tail (tags F) j) :
    LinkHeap.Rep (k.links.insertBefore i.tail (i.tag t)) ListId.head ListId.tail
      (tags (Function.update F i (F i ++ [t]))) := by
  rw [tags_update, List.map_append]
  exact h.insertBefore (by simp : tags F i = tags F i ++ []) rfl ht

theorem push_rep (h : LinkHeap.Rep k.links ListId.head ListId.tail (tags F)) (i : ListId S)
    {t : T} (ht : ∀ j, i.tag t ∉ LinkHeap.nodes ListId.head ListId.tail (tags F) j) :
    LinkHeap.Rep (k.links.insertBefore (k.links i.head).next (i.tag t)) ListId.head ListId.tail
      (tags (Function.update F i (t :: F i))) := by
  obtain ⟨y, zs, h_split⟩ : ∃ y zs, tags F i ++ [i.tail] = y :: zs := by
    cases tags F i with
    | nil => exact ⟨i.tail, [], rfl⟩
    | cons y xs => exact ⟨y, xs ++ [i.tail], rfl⟩
  rw [tags_update, h.head_next h_split]
  exact h.insertBefore (List.nil_append (tags F i)).symm h_split ht

theorem listEmpty_eq (h : KernelCore k F) (i : ListId S) :
    k.listEmpty i = decide (F i = []) := by
  simp [listEmpty, h.rep.empty_iff i, tags]

/-- `list_pop` on a list that is not empty. -/
theorem listPop_eq (h : LinkHeap.Rep k.links ListId.head ListId.tail (tags F)) {i : ListId S}
    {t : T} {ts : List T} (hF : F i = t :: ts) :
    k.listPop i = (i.tag t, { k with links := k.links.unlink (i.tag t) }) ∧
    LinkHeap.Rep (k.links.unlink (i.tag t)) ListId.head ListId.tail
      (tags (Function.update F i ts)) := by
  have h_tags : tags F i = i.tag t :: ts.map i.tag := by rw [tags, hF, List.map_cons]
  have h_next : (k.links i.head).next = i.tag t :=
    h.head_next (by rw [h_tags]; rfl : tags F i ++ [i.tail] = i.tag t :: (ts.map i.tag ++ [i.tail]))
  refine ⟨by rw [listPop, h_next, listRemove_eq], ?_⟩
  rw [tags_update]
  have h_split : tags F i = [] ++ i.tag t :: ts.map i.tag := h_tags
  exact h.unlink h_split

/-- The walks of `list_find` end, and find the threads that are in the list. -/
theorem listFind_eq (h : LinkHeap.Rep k.links ListId.head ListId.tail (tags F)) {i : ListId S}
    (h_len : (F i).length ≤ k.threads.length) (t : T) :
    k.listFind i (i.tag t) = .ok (decide (t ∈ F i)) := by
  have h_fuel : (tags F i).length < k.threads.length + 1 := by
    rw [tags, List.length_map]
    exact Nat.lt_succ_of_le h_len
  rw [listFind, h.find i (i.tag t) h_fuel]
  simp [mem_tags]

theorem assertNotIn_of_rep (h : LinkHeap.Rep k.links ListId.head ListId.tail (tags F))
    {i : ListId S} (h_len : (F i).length ≤ k.threads.length) {t : T} (ht : t ∉ F i)
    (a : Assertion) : k.assertNotIn i t a = .ok () := by
  simp [assertNotIn, listFind_eq h h_len, ht]

theorem assertNotIn_ok (h : KernelCore k F) {i : ListId S} {t : T} (ht : t ∉ F i)
    (a : Assertion) : k.assertNotIn i t a = .ok () :=
  assertNotIn_of_rep h.rep (h.length_le i) ht a

end Kernel

/-! ### Moving a thread -/

section Moves

variable {k : Kernel T S W} {F : ListId S → List T}

omit [DecidableEq T] [DecidableEq S] in
/-- The cells of no list, the PCBs of no thread and the part of the kernel that
`KernelCore` does not read may change. -/
theorem KernelCore.of_rep (h : KernelCore k F) {k' : Kernel T S W}
    (h_rep : LinkHeap.Rep k'.links ListId.head ListId.tail (tags F))
    (h_task : ∀ t ∈ k.threads, (k'.task t).status = (k.task t).status ∧
      (k'.task t).stackMagic = (k.task t).stackMagic)
    (h_cur : k'.cur = k.cur) (h_main : k'.mainThread = k.mainThread)
    (h_slot : k'.slot = k.slot) (h_threads : k'.threads = k.threads) : KernelCore k' F where
  rep := h_rep
  all_eq := by rw [h.all_eq, h_threads]
  cur_mem := by rw [h_cur, h_threads]; exact h.cur_mem
  main_mem := by rw [h_main, h_threads]; exact h.main_mem
  status_cases t ht := by
    rw [h_threads] at ht
    -- only the status and the magic number are read of a PCB
    rw [(h_task t ht).1]
    exact h.status_cases t ht
  running t ht := by
    rw [h_threads] at ht
    rw [(h_task t ht).1, h_cur]
    exact h.running t ht
  ready t := by
    rw [h.ready t, h_threads]
    exact and_congr_right fun ht => by rw [(h_task t ht).1]
  waiting s t ht := by
    obtain ⟨h_mem, h_blocked⟩ := h.waiting s t ht
    rw [(h_task t h_mem).1, h_threads]
    exact ⟨h_mem, h_blocked⟩
  slots w t hw := by
    obtain ⟨h_mem, h_blocked, h_free⟩ := h.slots w t (h_slot ▸ hw)
    rw [(h_task t h_mem).1, h_threads]
    exact ⟨h_mem, h_blocked, h_free⟩
  slot_inj w w' t hw hw' := h.slot_inj w w' t (h_slot ▸ hw) (h_slot ▸ hw')
  magic t ht := by
    rw [h_threads] at ht
    rw [(h_task t ht).2]
    exact h.magic t ht

omit [DecidableEq T] [DecidableEq S] in
/-- The part of the kernel that `KernelCore` does not read may change. -/
theorem KernelCore.of_eq (h : KernelCore k F) {k' : Kernel T S W} (h_links : k'.links = k.links)
    (h_task : ∀ t, (k'.task t).status = (k.task t).status ∧
      (k'.task t).stackMagic = (k.task t).stackMagic)
    (h_cur : k'.cur = k.cur) (h_main : k'.mainThread = k.mainThread)
    (h_slot : k'.slot = k.slot) (h_threads : k'.threads = k.threads) : KernelCore k' F :=
  h.of_rep (h_links ▸ h.rep) (fun t _ => h_task t) h_cur h_main h_slot h_threads

omit [DecidableEq T] [DecidableEq S] in
theorem KernelCore.setIntr (h : KernelCore k F) (status : IntrStatus) :
    KernelCore { k with intr := status } F :=
  h.of_eq rfl (fun _ => ⟨rfl, rfl⟩) rfl rfl rfl rfl

omit [DecidableEq T] [DecidableEq S] in
theorem KernelInv.of_eq (h : KernelInv k F) {k' : Kernel T S W} (h_links : k'.links = k.links)
    (h_task : ∀ t, (k'.task t).status = (k.task t).status ∧
      (k'.task t).stackMagic = (k.task t).stackMagic)
    (h_cur : k'.cur = k.cur) (h_main : k'.mainThread = k.mainThread)
    (h_slot : k'.slot = k.slot) (h_threads : k'.threads = k.threads) : KernelInv k' F :=
  ⟨h.toKernelCore.of_eq h_links h_task h_cur h_main h_slot h_threads,
    by rw [h_cur, (h_task _).1]; exact h.cur_running⟩

/-- The tasks after the status of one thread is written. -/
def setStatusOf (task : T → TaskStruct) (t : T) (status : TaskStatus) : T → TaskStruct :=
  Function.update task t { task t with status := status }

@[simp] theorem setStatusOf_self (task : T → TaskStruct) (t : T) (status : TaskStatus) :
    (setStatusOf task t status t).status = status := by simp [setStatusOf]

theorem setStatusOf_of_ne (task : T → TaskStruct) {t u : T} (status : TaskStatus) (h : u ≠ t) :
    setStatusOf task t status u = task u := Function.update_of_ne h ..

@[simp] theorem setStatusOf_magic (task : T → TaskStruct) (t u : T) (status : TaskStatus) :
    (setStatusOf task t status u).stackMagic = (task u).stackMagic := by
  by_cases h : u = t
  · subst h; simp [setStatusOf]
  · rw [setStatusOf_of_ne task status h]

omit [DecidableEq S] in
/-- **The running thread goes to sleep**: into a wait list, or into a slot that
no wait list shares. -/
theorem KernelInv.sleep (h : KernelInv k F) {F' : ListId S → List T}
    {links : LinkHeap (Node T S)} {slot : W → Option T}
    (h_rep : LinkHeap.Rep links ListId.head ListId.tail (tags F'))
    (h_all : F' .all = F .all) (h_ready : F' .ready = F .ready)
    (h_wait : ∀ s, ∀ t ∈ F' (.wait s), t ∈ F (.wait s) ∨ t = k.cur)
    (h_slot : ∀ w t, slot w = some t →
      k.slot w = some t ∨ t = k.cur ∧ ∀ s, k.cur ∉ F' (.wait s))
    (h_inj : ∀ w w', slot w = some k.cur → slot w' = some k.cur → w = w') :
    KernelCore { k with
      links := links, slot := slot, task := setStatusOf k.task k.cur .blocked } F' where
  rep := h_rep
  all_eq := h_all.trans h.all_eq
  cur_mem := h.cur_mem
  main_mem := h.main_mem
  status_cases t ht := by
    by_cases h_eq : t = k.cur
    · subst h_eq; simp
    · simpa [setStatusOf_of_ne _ _ h_eq] using h.status_cases t ht
  running t ht h_run := by
    -- nobody else runs, and the thread that ran does not any more
    by_contra h_ne
    simp only [setStatusOf_of_ne k.task .blocked h_ne] at h_run
    exact h_ne (h.running t ht h_run)
  ready t := by
    rw [h_ready, h.ready t]
    by_cases h_eq : t = k.cur
    · subst h_eq; simp [h.cur_running]
    · simp [setStatusOf_of_ne _ _ h_eq]
  waiting s t ht := by
    by_cases h_eq : t = k.cur
    · subst h_eq; exact ⟨h.cur_mem, by simp⟩
    · dsimp only
      rw [setStatusOf_of_ne _ _ h_eq]
      exact h.waiting s t ((h_wait s t ht).resolve_right h_eq)
  slots w t hw := by
    rcases h_slot w t hw with h_old | ⟨rfl, h_free⟩
    · obtain ⟨h_mem, h_blocked, h_free⟩ := h.slots w t h_old
      -- the running thread was in no slot, because it was not blocked
      have h_ne : t ≠ k.cur := by
        rintro rfl
        rw [h.cur_running] at h_blocked
        cases h_blocked
      dsimp only
      rw [setStatusOf_of_ne _ _ h_ne]
      exact ⟨h_mem, h_blocked, fun s hs => h_free s ((h_wait s t hs).resolve_right h_ne)⟩
    · exact ⟨h.cur_mem, by simp, h_free⟩
  slot_inj w w' t hw hw' := by
    rcases h_slot w t hw with h_old | ⟨rfl, -⟩
    · rcases h_slot w' t hw' with h_old' | ⟨rfl, -⟩
      · exact h.slot_inj w w' t h_old h_old'
      · exact h_inj w w' hw hw'
    · exact h_inj w w' hw hw'
  magic t ht := by simpa using h.magic t ht

omit [DecidableEq S] in
/-- **A sleeping thread is woken**: it leaves its wait list or its slot and goes
to the head of the ready list. -/
theorem KernelInv.wake (h : KernelInv k F) {F' : ListId S → List T}
    {links : LinkHeap (Node T S)} {slot : W → Option T} {t : T} (h_mem : t ∈ k.threads)
    (h_blocked : (k.task t).status = .blocked)
    (h_rep : LinkHeap.Rep links ListId.head ListId.tail (tags F'))
    (h_all : F' .all = F .all) (h_ready : F' .ready = t :: F .ready)
    (h_wait : ∀ s, ∀ u ∈ F' (.wait s), u ∈ F (.wait s) ∧ u ≠ t)
    (h_slot : ∀ w u, slot w = some u → k.slot w = some u ∧ u ≠ t) :
    KernelInv { k with
      links := links, slot := slot, task := setStatusOf k.task t .ready } F' where
  rep := h_rep
  all_eq := h_all.trans h.all_eq
  cur_mem := h.cur_mem
  main_mem := h.main_mem
  status_cases u hu := by
    by_cases h_eq : u = t
    · subst h_eq; simp
    · simpa [setStatusOf_of_ne _ _ h_eq] using h.status_cases u hu
  running u hu h_run := by
    -- running: the woken thread is ready, not running
    by_cases h_eq : u = t
    · subst h_eq; simp at h_run
    · simp only [setStatusOf_of_ne k.task .ready h_eq] at h_run
      exact h.running u hu h_run
  ready u := by
    rw [h_ready, List.mem_cons, h.ready u]
    by_cases h_eq : u = t
    · subst h_eq; simp [h_mem]
    · simp [setStatusOf_of_ne _ _ h_eq, h_eq]
  waiting s u hu := by
    obtain ⟨h_old, h_ne⟩ := h_wait s u hu
    dsimp only
    rw [setStatusOf_of_ne _ _ h_ne]
    exact h.waiting s u h_old
  slots w u hw := by
    obtain ⟨h_old, h_ne⟩ := h_slot w u hw
    obtain ⟨h_u, h_status, h_free⟩ := h.slots w u h_old
    dsimp only
    rw [setStatusOf_of_ne _ _ h_ne]
    exact ⟨h_u, h_status, fun s hs => h_free s (h_wait s u hs).1⟩
  slot_inj w w' u hw hw' := h.slot_inj w w' u (h_slot w u hw).1 (h_slot w' u hw').1
  magic u hu := by simpa using h.magic u hu
  cur_running := by
    -- the running thread is not the one that slept
    have h_ne : k.cur ≠ t := by
      rintro rfl
      rw [h.cur_running] at h_blocked
      cases h_blocked
    simpa [setStatusOf_of_ne _ _ h_ne] using h.cur_running

omit [DecidableEq T] [DecidableEq S] in
/-- A thread may be taken out of its wait list while it still sleeps, and the
order of the ready list does not matter. -/
theorem KernelInv.of_lists (h : KernelInv k F) {F' : ListId S → List T}
    {links : LinkHeap (Node T S)}
    (h_rep : LinkHeap.Rep links ListId.head ListId.tail (tags F'))
    (h_all : F' .all = F .all) (h_ready : ∀ t, t ∈ F' .ready ↔ t ∈ F .ready)
    (h_wait : ∀ s, F' (.wait s) ⊆ F (.wait s)) :
    KernelInv { k with links := links } F' where
  rep := h_rep
  all_eq := h_all.trans h.all_eq
  cur_mem := h.cur_mem
  main_mem := h.main_mem
  status_cases := h.status_cases
  running := h.running
  ready t := (h_ready t).trans (h.ready t)
  waiting s t ht := h.waiting s t (h_wait s ht)
  slots w t hw := by
    -- a wait list only gets shorter, so a thread in a slot is still in none
    obtain ⟨h_mem, h_blocked, h_free⟩ := h.slots w t hw
    exact ⟨h_mem, h_blocked, fun s hs => h_free s (h_wait s hs)⟩
  slot_inj := h.slot_inj
  magic := h.magic
  cur_running := h.cur_running

omit [DecidableEq S] in
/-- **The running thread goes back into the ready list**, at its tail. -/
theorem KernelInv.requeue (h : KernelInv k F) {F' : ListId S → List T}
    {links : LinkHeap (Node T S)} {task : T → TaskStruct}
    (h_rep : LinkHeap.Rep links ListId.head ListId.tail (tags F'))
    (h_all : F' .all = F .all) (h_ready : F' .ready = F .ready ++ [k.cur])
    (h_wait : ∀ s, F' (.wait s) = F (.wait s))
    (h_cur : (task k.cur).status = .ready)
    (h_magic : (task k.cur).stackMagic = (k.task k.cur).stackMagic)
    (h_task : ∀ t, t ≠ k.cur → task t = k.task t) :
    KernelCore { k with links := links, task := task } F' where
  rep := h_rep
  all_eq := h_all.trans h.all_eq
  cur_mem := h.cur_mem
  main_mem := h.main_mem
  status_cases t ht := by
    by_cases h_eq : t = k.cur
    · subst h_eq; exact Or.inr (Or.inl h_cur)
    · simpa [h_task t h_eq] using h.status_cases t ht
  running t ht h_run := by
    by_contra h_ne
    simp only [h_task t h_ne] at h_run
    exact h_ne (h.running t ht h_run)
  ready t := by
    rw [h_ready, List.mem_append, List.mem_singleton, h.ready t]
    by_cases h_eq : t = k.cur
    · subst h_eq; simp [h_cur, h.cur_mem]
    · simp [h_task t h_eq, h_eq]
  waiting s t ht := by
    rw [h_wait] at ht
    -- the running thread is in no wait list
    have h_ne : t ≠ k.cur := fun h_eq => h.cur_free _ (by simp) (h_eq ▸ ht)
    simpa [h_task t h_ne] using h.waiting s t ht
  slots w t hw := by
    obtain ⟨h_mem, h_blocked, h_free⟩ := h.slots w t hw
    have h_ne : t ≠ k.cur := by
      rintro rfl
      rw [h.cur_running] at h_blocked
      cases h_blocked
    exact ⟨h_mem, by simpa [h_task t h_ne] using h_blocked, fun s => by rw [h_wait]; exact h_free s⟩
  slot_inj := h.slot_inj
  magic t ht := by
    by_cases h_eq : t = k.cur
    · subst h_eq; rw [h_magic]; exact h.magic _ ht
    · simpa [h_task t h_eq] using h.magic t ht

omit [DecidableEq S] in
/-- **The head of the ready list runs**, once nobody else does. -/
theorem KernelCore.dispatch (h : KernelCore k F) {F' : ListId S → List T}
    {links : LinkHeap (Node T S)} {t : T} {ts : List T} (h_head : F .ready = t :: ts)
    (h_cur : (k.task k.cur).status ≠ .running)
    (h_rep : LinkHeap.Rep links ListId.head ListId.tail (tags F'))
    (h_all : F' .all = F .all) (h_ready : F' .ready = ts)
    (h_wait : ∀ s, F' (.wait s) = F (.wait s)) :
    KernelInv { k with links := links, task := setStatusOf k.task t .running, cur := t } F' := by
  have h_t : t ∈ k.threads ∧ (k.task t).status = .ready :=
    (h.ready t).mp (h_head ▸ List.mem_cons_self)
  -- a thread is in the ready list once, so it leaves the list altogether
  have h_notMem : t ∉ ts := by
    have h_nodup := h.nodup .ready
    rw [h_head] at h_nodup
    exact (List.nodup_cons.mp h_nodup).1
  have h_ne {u : T} (hu : (k.task u).status = .blocked) : u ≠ t := by
    rintro rfl
    rw [h_t.2] at hu
    cases hu
  exact
    { rep := h_rep
      all_eq := h_all.trans h.all_eq
      cur_mem := h_t.1
      main_mem := h.main_mem
      status_cases := fun u hu => by
        by_cases h_eq : u = t
        · subst h_eq; simp
        · simpa [setStatusOf_of_ne _ _ h_eq] using h.status_cases u hu
      running := fun u hu h_run => by
        by_contra h_ut
        simp only [setStatusOf_of_ne k.task .running h_ut] at h_run
        exact h_cur (h.running u hu h_run ▸ h_run)
      ready := fun u => by
        rw [h_ready]
        by_cases h_eq : u = t
        · subst h_eq; simp [h_notMem]
        · have h_old := h.ready u
          rw [h_head, List.mem_cons] at h_old
          simpa [setStatusOf_of_ne _ _ h_eq, h_eq] using h_old
      waiting := fun s u hu => by
        obtain ⟨h_mem, h_blocked⟩ := h.waiting s u (h_wait s ▸ hu)
        exact ⟨h_mem, by simpa [setStatusOf_of_ne _ _ (h_ne h_blocked)] using h_blocked⟩
      slots := fun w u hw => by
        obtain ⟨h_mem, h_blocked, h_free⟩ := h.slots w u hw
        exact ⟨h_mem, by simpa [setStatusOf_of_ne _ _ (h_ne h_blocked)] using h_blocked,
          fun s => by rw [h_wait]; exact h_free s⟩
      slot_inj := h.slot_inj
      magic := fun u hu => by simpa using h.magic u hu
      cur_running := by simp }

omit [DecidableEq S] in
/-- **A new thread** joins `thread_all_list` and the ready list. -/
theorem KernelInv.start (h : KernelInv k F) {F' : ListId S → List T}
    {links : LinkHeap (Node T S)} {t : T} {p : TaskStruct} (ht : t ∉ k.threads)
    (h_rep : LinkHeap.Rep links ListId.head ListId.tail (tags F'))
    (h_all : F' .all = F .all ++ [t]) (h_ready : F' .ready = F .ready ++ [t])
    (h_wait : ∀ s, F' (.wait s) = F (.wait s))
    (h_status : p.status = .ready) (h_magic : p.stackMagic = 0x77777777) :
    KernelInv { k with
      links := links, threads := k.threads ++ [t], task := Function.update k.task t p } F' := by
  -- the threads created before are not touched
  have h_old {u : T} (hu : u ∈ k.threads) : Function.update k.task t p u = k.task u := by
    rw [Function.update_of_ne]
    rintro rfl
    exact ht hu
  have h_split {u : T} (hu : u ∈ k.threads ++ [t]) : u ∈ k.threads ∨ u = t := by
    simpa using hu
  exact
    { rep := h_rep
      all_eq := by rw [h_all, h.all_eq]
      cur_mem := List.mem_append_left _ h.cur_mem
      main_mem := fun m hm => List.mem_append_left _ (h.main_mem m hm)
      status_cases := fun u hu => by
        rcases h_split hu with hu | rfl
        · simpa [h_old hu] using h.status_cases u hu
        · simp [h_status]
      running := fun u hu h_run => by
        rcases h_split hu with hu | rfl
        · exact h.running u hu (by simpa [h_old hu] using h_run)
        · simp [h_status] at h_run
      ready := fun u => by
        rw [h_ready, List.mem_append, List.mem_append, h.ready u]
        -- the new thread is in the list, and it is ready
        by_cases h_u : u = t
        · subst h_u; simp [h_status]
        · simp [h_u]
      waiting := fun s u hu => by
        obtain ⟨h_mem, h_blocked⟩ := h.waiting s u (h_wait s ▸ hu)
        exact ⟨List.mem_append_left _ h_mem, by simpa [h_old h_mem] using h_blocked⟩
      slots := fun w u hw => by
        obtain ⟨h_mem, h_blocked, h_free⟩ := h.slots w u hw
        exact ⟨List.mem_append_left _ h_mem, by simpa [h_old h_mem] using h_blocked,
          fun s => by rw [h_wait]; exact h_free s⟩
      slot_inj := h.slot_inj
      magic := fun u hu => by
        rcases h_split hu with hu | rfl
        · simpa [h_old hu] using h.magic u hu
        · simp [h_magic]
      cur_running := by simpa [h_old h.cur_mem] using h.cur_running }

end Moves

end ToiletOS
