import ToiletOS.Sched.WalkSys
import ToiletOS.Sched.SchedSafety

/-!
# Where a preempted walk goes

While a thread stands in the walk of `thread_start`, the node it stands on may leave
`thread_ready_list` under it. What its `next` pointer means then depends on what has become of
it, and `Kernel.Walkable` is what survives: the tail of the ready list, or the tag of a thread
that has been linked once.

* A tag in the ready list leads to a walkable node.
* The tag of the running thread is in no list, but `list_remove` does not touch the pointers of
  the node it takes out: the tag still points to what followed it in the ready list
  (`Kernel.LooseTags`), which is walkable whatever happened to it since.
* A tag among the waiters of a semaphore leads to the next waiter, and the last one leads to
  the tail sentinel of `waiters`, where the walk has left its list for good.

So the walk stays where it should exactly as long as it does not step from a last waiter
(`walk_stays_iff`), and nothing in the code keeps it from that (`walk_leaves_list`).
-/

namespace ToiletOS

variable {T S W : Type} [DecidableEq T] [DecidableEq S]

/-! ### Walkable nodes -/

/-- The thread is in no list but `thread_all_list`. -/
def Loose (F : ListId S → List T) (t : T) : Prop := ∀ i, i ≠ .all → t ∉ F i

namespace Kernel

/-- A node that a walk over the ready list may stand on. -/
def Walkable (k : Kernel T S W) (x : Node T S) : Prop :=
  x = .readyTail ∨ ∃ t ∈ k.threads, x = .general t ∧ (k.links x).next ≠ .null

/-- The tag of a thread that is in no list has never been linked, or leads to a walkable node. -/
def LooseTags (k : Kernel T S W) (F : ListId S → List T) : Prop :=
  ∀ t ∈ k.threads, Loose F t →
    (k.links (.general t)).next = .null ∨ k.Walkable (k.links (.general t)).next

end Kernel

section Nodes

variable {k k' : Kernel T S W} {F F' : ListId S → List T}

omit [DecidableEq T] [DecidableEq S] in
theorem KernelCore.next_ne_null (h : KernelCore k F) {i : ListId S} {x : Node T S}
    (hx : x ∈ i.head :: tags F i) : (k.links x).next ≠ .null := by
  intro h_null
  have h_mem := (h.rep.linked_next hx).2
  rw [h_null, List.mem_append, List.mem_singleton] at h_mem
  rcases h_mem with h_mem | h_mem
  · obtain ⟨t, -, h_t⟩ := List.mem_map.mp h_mem
    cases i <;> cases h_t
  · cases i <;> cases h_mem

omit [DecidableEq T] [DecidableEq S] in
/-- A node of a list is followed by a walkable one, or by the tail of the list. -/
theorem KernelCore.next_cases (h : KernelCore k F) {i : ListId S} (hi : i ≠ .all) {x : Node T S}
    (hx : x ∈ i.head :: tags F i) :
    (k.links x).next = i.tail ∨ k.Walkable (k.links x).next := by
  have h_mem := (h.rep.linked_next hx).2
  rw [List.mem_append, List.mem_singleton] at h_mem
  refine h_mem.symm.imp_right fun h_tag => Or.inr ?_
  obtain ⟨t, h_t, h_eq⟩ := List.mem_map.mp h_tag
  refine ⟨t, h.mem_threads h_t, ?_, h.next_ne_null (List.mem_cons_of_mem _ h_tag)⟩
  rw [← h_eq]
  cases i <;> first | rfl | exact absurd rfl hi

omit [DecidableEq T] [DecidableEq S] in
/-- A node of the ready list is followed by a walkable one. -/
theorem KernelCore.ready_next (h : KernelCore k F) {x : Node T S}
    (hx : x ∈ ListId.head .ready :: tags F .ready) : k.Walkable (k.links x).next :=
  (h.next_cases (by simp) hx).elim Or.inl id

omit [DecidableEq T] [DecidableEq S] in
/-- `general_tag` is a node of every list its thread is in. -/
theorem mem_head_tags {i : ListId S} (hi : i ≠ .all) {t : T} (ht : t ∈ F i) :
    (.general t : Node T S) ∈ i.head :: tags F i := by
  refine List.mem_cons_of_mem _ (List.mem_map.mpr ⟨t, ht, ?_⟩)
  cases i <;> first | rfl | exact absurd rfl hi

end Nodes

/-! ### What an operation on the lists does to the tags -/

/-- From the lists `F` to the lists `F'`: a thread that is in no list afterwards was in none, or
was ready, and its own tag has not been written to. -/
structure Relinked (k k' : Kernel T S W) (F F' : ListId S → List T) : Prop where
  threads : k.threads ⊆ k'.threads
  loose : ∀ t ∈ k'.threads, Loose F' t → t ∈ k.threads ∧ (Loose F t ∨ t ∈ F .ready) ∧
    (k'.links (.general t)).next = (k.links (.general t)).next

namespace Relinked

variable {k k' : Kernel T S W} {F F' : ListId S → List T}

omit [DecidableEq T] [DecidableEq S] in
/-- What a walk may stand on it may stand on afterwards. -/
theorem walkable (h : Relinked k k' F F') (h_core : KernelCore k' F') {x : Node T S}
    (hx : k.Walkable x) : k'.Walkable x := by
  rcases hx with rfl | ⟨t, h_t, rfl, h_next⟩
  · exact Or.inl rfl
  refine Or.inr ⟨t, h.threads h_t, rfl, ?_⟩
  by_cases h_loose : Loose F' t
  · rw [(h.loose t (h.threads h_t) h_loose).2.2]
    exact h_next
  · simp only [Loose, not_forall, not_not] at h_loose
    obtain ⟨i, hi, h_mem⟩ := h_loose
    exact h_core.next_ne_null (mem_head_tags hi h_mem)

omit [DecidableEq T] [DecidableEq S] in
theorem looseTags (h : Relinked k k' F F') (h_core : KernelCore k F) (h_core' : KernelCore k' F')
    (h_tags : k.LooseTags F) : k'.LooseTags F' := by
  intro t h_t h_loose
  obtain ⟨h_old, h_was, h_next⟩ := h.loose t h_t h_loose
  rw [h_next]
  rcases h_was with h_was | h_ready
  · exact (h_tags t h_old h_was).imp_right (h.walkable h_core')
  · exact Or.inr (h.walkable h_core' (h_core.ready_next (mem_head_tags (by simp) h_ready)))

omit [DecidableEq T] [DecidableEq S] in
theorem of_eq (h_links : k'.links = k.links) (h_threads : k'.threads = k.threads) :
    Relinked k k' F F where
  threads := h_threads ▸ List.Subset.refl _
  loose t h_t h_loose := ⟨h_threads ▸ h_t, Or.inl h_loose, by rw [h_links]⟩

/-- A loose thread is appended to the ready list or to the waiters of a semaphore. -/
theorem append (h : KernelCore k F) {i : ListId S} (hi : i ≠ .all) {u : T}
    (h_links : k'.links = k.links.insertBefore i.tail (.general u))
    (h_threads : k.threads ⊆ k'.threads)
    (h_new : ∀ t ∈ k'.threads, t ∈ k.threads ∨ t = u) :
    Relinked k k' F (Function.update F i (F i ++ [u])) where
  threads := h_threads
  loose t h_t h_loose := by
    have h_ne : t ≠ u := by
      rintro rfl
      exact h_loose i hi (by simp)
    -- the list only grows, so a tag that is loose now was loose before
    have h_was : Loose F t := by
      intro j hj h_mem
      refine h_loose j hj ?_
      by_cases h_ij : j = i
      · subst h_ij
        rw [Function.update_self]
        exact List.mem_append_left _ h_mem
      · rwa [Function.update_of_ne h_ij]
    refine ⟨(h_new t h_t).resolve_right h_ne, Or.inl h_was, ?_⟩
    rw [h_links]
    exact h.rep.insertBefore_next (i := i) (by simp) (general_notMem h_was i) (by simpa using h_ne)

/-- The head of the ready list is taken out. Its own tag keeps the pointer to its successor. -/
theorem pop (h : KernelCore k F) {u : T} {us : List T} (h_head : F .ready = u :: us)
    (h_links : k'.links = k.links.unlink (.general u)) (h_threads : k'.threads = k.threads) :
    Relinked k k' F (Function.update F .ready us) where
  threads := h_threads ▸ List.Subset.refl _
  loose t h_t h_loose := by
    -- the node that is taken out was behind the head, so no tag loses its `next`
    have h_prev : (k.links (.general u)).prev = .readyHead := by
      have h_nodes : LinkHeap.nodes ListId.head ListId.tail (tags F) .ready =
          [] ++ .readyHead :: .general u :: (us.map .general ++ [.readyTail]) := by
        rw [LinkHeap.nodes, tags, h_head]
        rfl
      exact (h.rep.linked h_nodes).2
    -- a tag that is loose now was so before, or is the one that was taken out
    have h_was : Loose F t ∨ t ∈ F .ready := by
      refine or_iff_not_imp_right.mpr fun h_ready j hj h_mem => ?_
      by_cases h_j : j = .ready
      · exact h_ready (h_j ▸ h_mem)
      · exact h_loose j hj (by rwa [Function.update_of_ne h_j])
    refine ⟨h_threads ▸ h_t, h_was, ?_⟩
    rw [h_links]
    refine LinkHeap.unlink_next_of_ne ?_
    rw [h_prev]
    simp

end Relinked

namespace Kernel

variable {k : Kernel T S W} {F : ListId S → List T}

/-- `init_thread` clears the tags of a page that is no PCB yet. -/
theorem initThread_relinked {u : T} (hu : u ∉ k.threads) (prio : BitVec 32) :
    Relinked k (k.initThread u prio) F F where
  threads := List.Subset.refl _
  loose t h_t h_loose := by
    have h_ne : t ≠ u := by
      rintro rfl
      exact hu h_t
    exact ⟨h_t, Or.inl h_loose, by simp [initThread, setTask, h_ne]⟩

/-- The first waiter is moved to the head of the ready list. -/
theorem awoken_relinked (h : KernelInv k F) {psem : S} {u : T} {us : List T}
    (h_cons : F (.wait psem) = u :: us) :
    Relinked k (k.awoken u) F
      (Function.update (Function.update F (.wait psem) us) .ready (u :: F .ready)) where
  threads := List.Subset.refl _
  loose t h_t h_loose := by
    have h_ne : t ≠ u := by
      rintro rfl
      exact h_loose .ready (by simp) (by simp)
    -- a tag that is in no list now was in none before
    have h_was : Loose F t := by
      intro j hj h_mem
      refine h_loose j hj ?_
      by_cases h_j : j = .ready
      · subst h_j
        rw [Function.update_self]
        exact List.mem_cons_of_mem u h_mem
      rw [Function.update_of_ne h_j]
      by_cases h_s : j = .wait psem
      · subst h_s
        rw [h_cons] at h_mem
        rw [Function.update_self]
        exact (List.mem_cons.mp h_mem).resolve_left h_ne
      · rwa [Function.update_of_ne h_s]
    have h_rep := (listPop_eq h.rep h_cons).2
    have h_mid : Loose (Function.update F (.wait psem) us) t := by
      intro j hj h_mem
      by_cases h_s : j = .wait psem
      · subst h_s
        rw [Function.update_self] at h_mem
        exact h_was _ hj (h_cons ▸ List.mem_cons_of_mem u h_mem)
      · exact h_was j hj (by rwa [Function.update_of_ne h_s] at h_mem)
    -- the first waiter was behind the head of its list, so no tag has lost its `next`
    have h_prev : (k.links (.general u)).prev = .waitHead psem := by
      have h_nodes : LinkHeap.nodes ListId.head ListId.tail (tags F) (.wait psem) =
          [] ++ .waitHead psem :: .general u :: (us.map .general ++ [.waitTail psem]) := by
        rw [LinkHeap.nodes, tags, h_cons]
        rfl
      exact (h.rep.linked h_nodes).2
    refine ⟨h_t, Or.inl h_was, ?_⟩
    calc ((k.awoken u).links (.general t)).next
        = (k.links.unlink (.general u) (.general t)).next :=
          h_rep.insertBefore_next (i := .ready) (h_rep.linked_next List.mem_cons_self).2
            (general_notMem h_mid .ready) (by simpa using h_ne)
      _ = (k.links (.general t)).next := LinkHeap.unlink_next_of_ne (by rw [h_prev]; simp)

/-- A new thread joins the ready list and `thread_all_list`. -/
theorem enlisted_relinked (h : KernelInv k F) {u : T} (hu : u ∉ k.threads) :
    Relinked k (k.enlisted u) F (Function.update (Function.update F .ready (F .ready ++ [u]))
      .all (F .all ++ [u])) where
  threads := List.subset_append_left ..
  loose t h_t h_loose := by
    have h_free (i : ListId S) : u ∉ F i := fun h_mem => hu (h.mem_threads h_mem)
    -- two appends, of which the second one is to `thread_all_list`
    have h_ready : Relinked k
        { k.created u with links := k.links.insertBefore .readyTail (.general u) } F
        (Function.update F .ready (F .ready ++ [u])) :=
      .append h.toKernelCore (by simp) rfl (List.subset_append_left ..) (by simp [created])
    have h_mid : Loose (Function.update F .ready (F .ready ++ [u])) t := by
      intro i hi h_mem
      exact h_loose i hi (by rwa [Function.update_of_ne hi])
    have h_rep := append_rep h.rep .ready (general_notMem fun i _ => h_free i)
    obtain ⟨h_old, h_was, h_next⟩ := h_ready.loose t h_t h_mid
    refine ⟨h_old, h_was, ?_⟩
    rw [← h_next]
    exact h_rep.insertBefore_next (i := .all) (by simp [ListId.tail])
      (general_notMem h_mid .all) (by simp)

/-! ### The functions of the kernel -/

/-- From `k` to `k'`, with the lists `F'`: the tags are in order again, and no walk has lost
its node. -/
structure TagsKept (k k' : Kernel T S W) (F' : ListId S → List T) : Prop where
  inv : KernelInv k' F'
  tags : k'.LooseTags F'
  walkable : ∀ x, k.Walkable x → k'.Walkable x
  threads : k'.threads = k.threads
  fresh : ∀ t ∉ k.threads, k'.task t = k.task t

variable {k' : Kernel T S W}

omit [DecidableEq T] [DecidableEq S] in
/-- Only what the lists do not depend on has changed. -/
theorem TagsKept.of_eq (h_inv : KernelInv k' F) (h_tags : k.LooseTags F)
    (h_links : k'.links = k.links) (h_threads : k'.threads = k.threads)
    (h_fresh : ∀ t ∉ k.threads, k'.task t = k.task t) : TagsKept k k' F where
  inv := h_inv
  tags := by
    intro t h_t h_loose
    rw [h_links]
    refine (h_tags t (h_threads ▸ h_t) h_loose).imp_right fun h_walk => ?_
    exact (Relinked.of_eq (F := F) h_links h_threads).walkable h_inv.toKernelCore h_walk
  walkable _ hx := (Relinked.of_eq (F := F) h_links h_threads).walkable h_inv.toKernelCore hx
  threads := h_threads
  fresh := h_fresh

theorem setStatusOf_fresh {task : T → TaskStruct} {t u : T} {status : TaskStatus}
    {threads : List T} (ht : t ∈ threads) (hu : u ∉ threads) :
    setStatusOf task t status u = task u :=
  setStatusOf_of_ne task status (by rintro rfl; exact hu ht)

/-- The second half of `schedule`. -/
theorem scheduleIn_tags {F₁ : ListId S → List T} {k₁ : Kernel T S W} (h_core : KernelCore k₁ F₁)
    (h_cur : (k₁.task k₁.cur).status ≠ .running) (h : k.LooseTags F) (h_old : KernelCore k F)
    (h_link : Relinked k k₁ F F₁) (h_threads : k₁.threads = k.threads)
    (h_fresh : ∀ t ∉ k.threads, k₁.task t = k.task t) (h_ok : k₁.scheduleIn = .ok k') :
    ∃ F', TagsKept k k' F' := by
  cases h_head : F₁ .ready with
  | nil =>
    -- with nobody ready the assertion of `schedule` fails
    rw [scheduleIn_nil h_core h_head] at h_ok
    cases h_ok
  | cons t ts =>
    obtain ⟨h_in, h_inv⟩ := scheduleIn_cons h_core h_cur h_head
    obtain rfl : k' = k₁.dispatched t := Except.ok.inj (h_ok.symm.trans h_in)
    have h_pop : Relinked k₁ (k₁.dispatched t) F₁ (Function.update F₁ .ready ts) :=
      .pop h_core h_head rfl rfl
    refine ⟨_, h_inv, ?_, fun x hx => ?_, h_threads, fun u hu => ?_⟩
    · exact h_pop.looseTags h_core h_inv.toKernelCore (h_link.looseTags h_old h_core h)
    · exact h_pop.walkable h_inv.toKernelCore (h_link.walkable h_core hx)
    · rw [← h_fresh u hu]
      exact setStatusOf_fresh (h_core.mem_threads (h_head ▸ List.mem_cons_self)) (h_threads ▸ hu)

theorem intrTimerHandler_tags (h : KernelInv k F) (h_tags : k.LooseTags F) {switched : Bool}
    (h_ok : k.intrTimerHandler = .ok (switched, k')) : ∃ F', TagsKept k k' F' := by
  have h_charged {t : T} (ht : t ∉ k.threads) : k.charged.task t = k.task t :=
    Function.update_of_ne (by rintro rfl; exact ht h.cur_mem) ..
  rw [intrTimerHandler_eq h] at h_ok
  split at h_ok
  · -- the time slice is used up
    cases h_sched : k.charged.schedule with
    | error e =>
      rw [h_sched] at h_ok
      cases h_ok
    | ok k₁ =>
      rw [h_sched] at h_ok
      cases h_ok
      have h_inv := charged_inv h
      obtain ⟨h_out, h_core⟩ := scheduleOut_running h_inv
      -- the running thread goes back into the ready list first
      have h_eq : k.charged.schedule = k.charged.requeued.scheduleIn := by
        have h_off : k.charged.intr = .off := rfl
        rw [schedule, assert_pos h_off, h_out]
        rfl
      refine scheduleIn_tags h_core (by simp [requeued]) h_tags h.toKernelCore
        (.append h.toKernelCore (by simp) rfl (List.Subset.refl _) fun _ ht => Or.inl ht) rfl
        (fun t ht => ?_) (h_eq.symm.trans h_sched)
      rw [← h_charged ht]
      exact Function.update_of_ne (by rintro rfl; exact ht h.cur_mem) ..
  · cases h_ok
    -- only `ticks` is counted down
    refine ⟨F, .of_eq (ticked_inv (charged_inv h)) h_tags rfl rfl fun t ht => ?_⟩
    rw [← h_charged ht]
    exact Function.update_of_ne (by rintro rfl; exact ht h.cur_mem) ..

theorem semaphoreDown_tags (h : KernelInv k F) (h_tags : k.LooseTags F) {psem : S}
    {oldStatus : IntrStatus} {taken : Bool}
    (h_ok : k.semaphoreDown psem oldStatus = .ok (taken, k')) : ∃ F', TagsKept k k' F' := by
  by_cases h_value : k.value psem = 0
  · obtain ⟨h_down, h_core, h_cur⟩ := semaphoreDown_eq_taken h h_value oldStatus
    rw [h_down] at h_ok
    cases h_in : (k.asleepOn psem).scheduleIn with
    | error e =>
      rw [h_in] at h_ok
      cases h_ok
    | ok k₁ =>
      rw [h_in] at h_ok
      cases h_ok
      -- the caller has gone to the end of the waiters
      refine scheduleIn_tags h_core h_cur h_tags h.toKernelCore
        (.append h.toKernelCore (by simp) rfl (List.Subset.refl _) fun _ ht => Or.inl ht) rfl
        (fun t ht => ?_) h_in
      exact setStatusOf_fresh h.cur_mem ht
  · by_cases h_one : k.value psem = 1
    · rw [semaphoreDown_eq_free h_one] at h_ok
      cases h_ok
      exact ⟨F, .of_eq (h.of_eq rfl (fun _ => ⟨rfl, rfl⟩) rfl rfl rfl rfl) h_tags rfl rfl
        fun _ _ => rfl⟩
    · rw [semaphoreDown_eq_several h_value h_one] at h_ok
      cases h_ok

theorem semaphoreUp_tags (h : KernelInv k F) (h_tags : k.LooseTags F) {psem : S}
    (h_ok : k.semaphoreUp psem = .ok k') : ∃ F', TagsKept k k' F' := by
  by_cases h_value : k.value psem = 0
  · cases h_wait : F (.wait psem) with
    | nil =>
      rw [semaphoreUp_eq_nil h.toKernelCore h_value h_wait] at h_ok
      cases h_ok
      exact ⟨F, .of_eq (h.of_eq rfl (fun _ => ⟨rfl, rfl⟩) rfl rfl rfl rfl) h_tags rfl rfl
        fun _ _ => rfl⟩
    | cons t ts =>
      obtain ⟨h_up, h_inv⟩ := semaphoreUp_eq_cons h h_value h_wait
      rw [h_up] at h_ok
      cases h_ok
      have h_link := awoken_relinked h h_wait
      have h_t : t ∈ k.threads := (h.waiting psem t (h_wait ▸ List.mem_cons_self)).1
      exact ⟨_, h_inv.of_eq rfl (fun _ => ⟨rfl, rfl⟩) rfl rfl rfl rfl,
        h_link.looseTags h.toKernelCore h_inv.toKernelCore h_tags,
        fun x hx => h_link.walkable h_inv.toKernelCore hx, rfl,
        fun u hu => setStatusOf_fresh h_t hu⟩
  · -- the assertion on the value has failed
    rw [semaphoreUp, intrDisable] at h_ok
    dsimp only at h_ok
    rw [assert_neg h_value] at h_ok
    cases h_ok

end Kernel

/-! ### One step of the walk -/

section

variable {k : Kernel T S W} {F : ListId S → List T}

omit [DecidableEq T] [DecidableEq S] in
/-- From the last waiter a walk goes to the tail of `waiters`. -/
theorem KernelCore.last_waiter_next (h : KernelCore k F) (s : S) :
    (k.links (k.links (.waitTail s)).prev).next = .waitTail s :=
  (h.rep.linked_prev (i := .wait s) (b := .waitTail s) (by simp [ListId.tail])).1.1

omit [DecidableEq T] [DecidableEq S] in
/-- **Where the walk goes.** From a tag it reaches a node that a walk may stand on, unless the tag
is the last in the waiters of a semaphore. -/
theorem KernelCore.walkable_next_iff (h : KernelCore k F) (h_tags : k.LooseTags F) {x : Node T S}
    (hx : k.Walkable x) (h_tail : x ≠ .readyTail) :
    k.Walkable (k.links x).next ↔ ∀ s, (k.links (.waitTail s)).prev ≠ x := by
  constructor
  · rintro h_next s rfl
    rw [h.last_waiter_next s] at h_next
    rcases h_next with h_next | ⟨t, -, h_next, -⟩ <;> cases h_next
  · intro h_last
    obtain ⟨t, h_t, rfl, h_null⟩ := hx.resolve_left h_tail
    -- a tag in no list: its `next` is one to stand on, unless it has never been linked
    by_cases h_loose : Loose F t
    · exact (h_tags t h_t h_loose).resolve_left h_null
    simp only [Loose, not_forall, not_not] at h_loose
    obtain ⟨i, hi, h_mem⟩ := h_loose
    have h_node := mem_head_tags hi h_mem
    cases i with
    | all => exact absurd rfl hi
    | ready => exact h.ready_next h_node
    | wait s =>
      refine (h.next_cases hi h_node).resolve_left fun h_end => ?_
      exact h_last s ((h.rep.next_eq_tail_iff h_node).mp h_end)

end

/-! ### Steps of the scheduler -/

namespace SchedState

variable {st st' : SchedState T S W} {F : ListId S → List T}

theorem timer_kept (h : KernelInv st.kernel F) (h_tags : st.kernel.LooseTags F)
    (h_ok : st.timer = .ok st') : ∃ F', st.kernel.TagsKept st'.kernel F' := by
  rw [timer] at h_ok
  cases h_timer : st.kernel.intrTimerHandler with
  | error e =>
    rw [h_timer] at h_ok
    cases h_ok
  | ok r =>
    rw [h_timer] at h_ok
    cases h_ok
    exact Kernel.intrTimerHandler_tags h h_tags h_timer

theorem downPass_kept (h : KernelInv st.kernel F) (h_tags : st.kernel.LooseTags F) {psem : S}
    {oldStatus : IntrStatus} (status : IntrStatus)
    (h_ok : (st.setKernel { st.kernel with intr := status }).downPass psem oldStatus = .ok st') :
    ∃ F', st.kernel.TagsKept st'.kernel F' := by
  set k : Kernel T S W := { st.kernel with intr := status } with hk
  rw [downPass] at h_ok
  cases h_down : k.semaphoreDown psem oldStatus with
  | error e =>
    rw [show (st.setKernel k).kernel = k from rfl, h_down] at h_ok
    cases h_ok
  | ok r =>
    rw [show (st.setKernel k).kernel = k from rfl, h_down] at h_ok
    cases h_ok
    -- the invariant does not read the flag
    have h_inv : KernelInv k F := h.of_eq rfl (fun _ => ⟨rfl, rfl⟩) rfl rfl rfl rfl
    obtain ⟨F', h_kept⟩ := Kernel.semaphoreDown_tags h_inv h_tags h_down
    exact ⟨F', h_kept.inv, h_kept.tags, h_kept.walkable, h_kept.threads, h_kept.fresh⟩

theorem up_kept (h : KernelInv st.kernel F) (h_tags : st.kernel.LooseTags F) {psem : S}
    (h_ok : st.up psem = .ok st') : ∃ F', st.kernel.TagsKept st'.kernel F' := by
  rw [up] at h_ok
  cases h_up : st.kernel.semaphoreUp psem with
  | error e =>
    rw [h_up] at h_ok
    cases h_ok
  | ok k =>
    rw [h_up] at h_ok
    cases h_ok
    exact Kernel.semaphoreUp_tags h h_tags h_up

omit [DecidableEq T] [DecidableEq S] in
theorem intr_kept (h : KernelInv st.kernel F) (h_tags : st.kernel.LooseTags F)
    (status : IntrStatus) : st.kernel.TagsKept { st.kernel with intr := status } F :=
  .of_eq (h.of_eq rfl (fun _ => ⟨rfl, rfl⟩) rfl rfl rfl rfl) h_tags rfl rfl fun _ _ => rfl

theorem resume_kept (h : KernelInv st.kernel F) (h_tags : st.kernel.LooseTags F)
    (h_ok : st.resume = .ok st') : ∃ F', st.kernel.TagsKept st'.kernel F' := by
  rw [resume] at h_ok
  cases h_ctx : st.ctx st.cur with
  | user =>
    rw [h_ctx] at h_ok
    cases h_ok
    exact ⟨F, intr_kept h h_tags st.kernel.intr⟩
  | entry =>
    rw [h_ctx] at h_ok
    cases h_ok
    exact ⟨F, intr_kept h h_tags .on⟩
  | preempted =>
    rw [h_ctx] at h_ok
    cases h_ok
    exact ⟨F, intr_kept h h_tags .on⟩
  | down psem oldStatus =>
    rw [h_ctx] at h_ok
    exact downPass_kept h h_tags .off h_ok
  | wait oldStatus =>
    rw [h_ctx] at h_ok
    cases h_ok
    -- the flag is set back to what it was before the sleep
    rw [setKernel, Kernel.intrSetStatus_self]
    exact ⟨F, intr_kept h h_tags oldStatus⟩

end SchedState

/-! ### The invariant -/

/-- Every walk stands on a node it may stand on, and the page it is for is no PCB yet. -/
structure WalkInv (st : WalkState T S) (F : ListId S → List T) : Prop where
  kernel : KernelInv st.kernel F
  tags : st.kernel.LooseTags F
  stands : ∀ t w, st.walk t = some w → st.kernel.Walkable w.e
  fresh : ∀ t w, st.walk t = some w → w.thread ∉ st.kernel.threads ∧
    (st.kernel.task w.thread).status = .ready ∧
    (st.kernel.task w.thread).stackMagic = 0x77777777
  /-- Two walks are for two pages. -/
  distinct : ∀ t t' w w', st.walk t = some w → st.walk t' = some w' →
    w.thread = w'.thread → t = t'

/-- The step does not follow the pointer of the last waiter of a semaphore. -/
def NotLastWaiter (st : WalkState T S) : WalkAct T S → Prop
  | .next => ∀ w ∈ st.walk st.cur, ∀ s, (st.kernel.links (.waitTail s)).prev ≠ w.e
  | _ => True

namespace WalkInv

variable {st : WalkState T S} {F : ListId S → List T}

omit [DecidableEq T] [DecidableEq S] in
/-- The scheduler and the semaphores. -/
theorem of_kept (h : WalkInv st F) {sched : SchedState T S Empty} {F' : ListId S → List T}
    (h_kept : st.kernel.TagsKept sched.kernel F') : WalkInv { st with sched := sched } F' where
  kernel := h_kept.inv
  tags := h_kept.tags
  stands t w h_w := h_kept.walkable w.e (h.stands t w h_w)
  fresh t w h_w := by
    obtain ⟨h_fresh, h_task⟩ := h.fresh t w h_w
    have h_same : sched.kernel.task w.thread = st.kernel.task w.thread :=
      h_kept.fresh w.thread h_fresh
    have h_threads : sched.kernel.threads = st.kernel.threads := h_kept.threads
    exact ⟨h_threads ▸ h_fresh, h_same ▸ h_task⟩
  distinct := h.distinct

omit [DecidableEq T] [DecidableEq S] in
theorem setSched (h : WalkInv st F) {r : Except Stop (SchedState T S Empty)}
    {st' : WalkState T S} (h_ok : st.setSched r = .ok st')
    (h_kept : ∀ sched, r = .ok sched → ∃ F', st.kernel.TagsKept sched.kernel F') :
    ∃ F', WalkInv st' F' := by
  cases r with
  | error e => cases h_ok
  | ok sched =>
    cases h_ok
    obtain ⟨F', h_kept⟩ := h_kept sched rfl
    exact ⟨F', h.of_kept h_kept⟩

/-- `thread_start` begins: the PCB is filled in, and the walk stands on the first node. -/
theorem start (h : WalkInv st F) {thread : T} (h_new : thread ∉ st.kernel.threads)
    (h_other : ∀ t, (st.walk t).map Walk.thread ≠ some thread) (prio : BitVec 32) :
    WalkInv (st.start thread prio) F := by
  have h_main : some thread ≠ st.kernel.mainThread :=
    fun h_eq => h_new (h.kernel.main_mem thread h_eq.symm)
  have h_inv := Kernel.initThread_inv h.kernel h_new prio
  have h_link := Kernel.initThread_relinked (F := F) h_new prio
  have h_task (t : T) : (st.kernel.initThread thread prio).task t =
      if t = thread then ⟨.ready, prio.setWidth 8, prio.setWidth 8, 0, 0x77777777⟩
      else st.kernel.task t := by
    simp [Kernel.initThread, Kernel.setTask, h_main, Function.update_apply]
  have h_update : (st.start thread prio).walk = Function.update st.walk st.cur
    (some ⟨thread, ((st.kernel.initThread thread prio).links .readyHead).next⟩) := rfl
  -- a walk of the new state is the one that begins, or one of the old state
  have h_cases {t : T} {w : Walk T S} (h_w : (st.start thread prio).walk t = some w) :
      t = st.cur ∧ w = ⟨thread, ((st.kernel.initThread thread prio).links .readyHead).next⟩ ∨
      t ≠ st.cur ∧ st.walk t = some w ∧ w.thread ≠ thread := by
    by_cases h_t : t = st.cur
    · subst h_t
      rw [h_update, Function.update_self] at h_w
      exact Or.inl ⟨rfl, (Option.some.inj h_w).symm⟩
    · rw [h_update, Function.update_of_ne h_t] at h_w
      refine Or.inr ⟨h_t, h_w, fun h_eq => h_other t ?_⟩
      rw [h_w, ← h_eq]
      rfl
  refine ⟨h_inv, ?_, fun t w h_w => ?_, fun t w h_w => ?_, fun t t' w w' h_w h_w' h_eq => ?_⟩
  · exact h_link.looseTags h.kernel.toKernelCore h_inv.toKernelCore h.tags
  · rcases h_cases h_w with ⟨-, rfl⟩ | ⟨-, h_old, -⟩
    · exact h_inv.ready_next List.mem_cons_self
    · exact h_link.walkable h_inv.toKernelCore (h.stands t w h_old)
  · rcases h_cases h_w with ⟨-, rfl⟩ | ⟨-, h_old, h_ne⟩
    · refine ⟨h_new, ?_⟩
      show ((st.kernel.initThread thread prio).task thread).status = _ ∧
        ((st.kernel.initThread thread prio).task thread).stackMagic = _
      simp [h_task]
    · show w.thread ∉ st.kernel.threads ∧
        ((st.kernel.initThread thread prio).task w.thread).status = _ ∧
        ((st.kernel.initThread thread prio).task w.thread).stackMagic = _
      rw [h_task, if_neg h_ne]
      exact h.fresh t w h_old
  · -- distinct: nobody else is starting this thread
    rcases h_cases h_w with ⟨rfl, rfl⟩ | ⟨-, h_old, h_ne⟩ <;>
      rcases h_cases h_w' with ⟨rfl, rfl⟩ | ⟨-, h_old', h_ne'⟩
    · rfl
    · exact absurd h_eq.symm h_ne'
    · exact absurd h_eq h_ne
    · exact h.distinct t t' w w' h_old h_old' h_eq

/-- The walk goes to a node it may stand on. -/
theorem next (h : WalkInv st F) {w : Walk T S} (h_w : st.walk st.cur = some w)
    {st' : WalkState T S} (h_ok : st.next w = .ok st')
    (h_next : st.kernel.Walkable (st.kernel.links w.e).next) : WalkInv st' F := by
  rw [WalkState.next] at h_ok
  split at h_ok
  · cases h_ok
  cases h_ok
  -- the walks are as before, but for the node of one of them
  have h_cases {t : T} {v : Walk T S} (h_v : Function.update st.walk st.cur
      (some { w with e := (st.kernel.links w.e).next }) t = some v) :
      ∃ u, st.walk t = some u ∧ v.thread = u.thread ∧
        (v.e = u.e ∨ v.e = (st.kernel.links w.e).next) := by
    by_cases h_t : t = st.cur
    · subst h_t
      rw [Function.update_self] at h_v
      cases h_v
      exact ⟨w, h_w, rfl, Or.inr rfl⟩
    · rw [Function.update_of_ne h_t] at h_v
      exact ⟨v, h_v, rfl, Or.inl rfl⟩
  refine ⟨h.kernel, h.tags, fun t v h_v => ?_, fun t v h_v => ?_,
    fun t t' v v' h_v h_v' h_eq => ?_⟩
  · -- stands: on the old node, or on the next one
    obtain ⟨u, h_u, -, h_e | h_e⟩ := h_cases h_v
    · rw [h_e]
      exact h.stands t u h_u
    · rw [h_e]
      exact h_next
  · obtain ⟨u, h_u, h_thread, -⟩ := h_cases h_v
    rw [h_thread]
    exact h.fresh t u h_u
  · obtain ⟨u, h_u, h_thread, -⟩ := h_cases h_v
    obtain ⟨u', h_u', h_thread', -⟩ := h_cases h_v'
    exact h.distinct t t' u u' h_u h_u' (h_thread.symm.trans (h_eq.trans h_thread'))

/-- The end of `thread_start`, if the walk has not found the thread. -/
theorem finish_eq (h : KernelInv st.kernel F) {w : Walk T S}
    (h_new : w.thread ∉ st.kernel.threads) (h_status : (st.kernel.task w.thread).status = .ready)
    (h_magic : (st.kernel.task w.thread).stackMagic = 0x77777777)
    (h_found : w.e ≠ .general w.thread) :
    st.finish w = .ok
      { sched := { st.sched with
          kernel := st.kernel.enlisted w.thread
          ctx := Function.update st.sched.ctx w.thread .entry }
        walk := Function.update st.walk st.cur none } := by
  obtain ⟨-, h_find, h_eq, -⟩ := Kernel.enlist_spec h h_new h_status h_magic
  rw [WalkState.finish, assert_pos h_found]
  dsimp only [ok_bind]
  rw [h_find, h_eq]
  rfl

/-- `thread_start` ends, and the new thread is in its lists. -/
theorem finish (h : WalkInv st F) {w : Walk T S} (h_w : st.walk st.cur = some w)
    {st' : WalkState T S} (h_ok : st.finish w = .ok st') : ∃ F', WalkInv st' F' := by
  obtain ⟨h_new, h_status, h_magic⟩ := h.fresh st.cur w h_w
  obtain ⟨-, -, -, h_inv⟩ := Kernel.enlist_spec h.kernel h_new h_status h_magic
  have h_link := Kernel.enlisted_relinked h.kernel h_new
  have h_found : w.e ≠ .general w.thread := by
    intro h_found
    rw [WalkState.finish, assert_neg (not_not_intro h_found)] at h_ok
    cases h_ok
  rw [finish_eq h.kernel h_new h_status h_magic h_found] at h_ok
  cases h_ok
  -- the walks that are left are those of other threads
  have h_cases {t : T} {v : Walk T S} (h_v : Function.update st.walk st.cur none t = some v) :
      st.walk t = some v ∧ v.thread ≠ w.thread := by
    by_cases h_t : t = st.cur
    · subst h_t
      rw [Function.update_self] at h_v
      cases h_v
    · rw [Function.update_of_ne h_t] at h_v
      exact ⟨h_v, fun h_same => h_t (h.distinct t st.cur v w h_v h_w h_same)⟩
  refine ⟨_, h_inv, ?_, fun t v h_v => ?_, fun t v h_v => ?_,
    fun t t' v v' h_v h_v' h_same => ?_⟩
  · exact h_link.looseTags h.kernel.toKernelCore h_inv.toKernelCore h.tags
  · exact h_link.walkable h_inv.toKernelCore (h.stands t v (h_cases h_v).1)
  · obtain ⟨h_old, h_ne⟩ := h_cases h_v
    obtain ⟨h_fresh, h_task⟩ := h.fresh t v h_old
    refine ⟨fun h_mem => ?_, h_task⟩
    -- the thread that was enlisted is not one that is still being started
    rcases List.mem_append.mp h_mem with h_mem | h_mem
    · exact h_fresh h_mem
    · exact h_ne (List.mem_singleton.mp h_mem)
  · exact h.distinct t t' v v' (h_cases h_v).1 (h_cases h_v').1 h_same

/-- **Every step** that does not leave a list keeps the walks in order. -/
theorem step {value : S → BitVec 8} {a : WalkAct T S} {st' : WalkState T S} (h : WalkInv st F)
    (h_step : (walkSys value).Step st a st') (h_last : NotLastWaiter st a) :
    ∃ F', WalkInv st' F' := by
  obtain ⟨h_enabled, h_exec⟩ := h_step
  cases a with
  | timer => exact h.setSched h_exec fun _ h_ok => SchedState.timer_kept h.kernel h.tags h_ok
  | down psem =>
    exact h.setSched h_exec fun _ h_ok => SchedState.downPass_kept h.kernel h.tags .off h_ok
  | up psem => exact h.setSched h_exec fun _ h_ok => SchedState.up_kept h.kernel h.tags h_ok
  | enable =>
    refine h.setSched h_exec fun sched h_ok => ⟨F, ?_⟩
    cases h_ok
    exact SchedState.intr_kept h.kernel h.tags .on
  | disable =>
    refine h.setSched h_exec fun sched h_ok => ⟨F, ?_⟩
    cases h_ok
    exact SchedState.intr_kept h.kernel h.tags .off
  | resume =>
    exact h.setSched h_exec fun _ h_ok => SchedState.resume_kept h.kernel h.tags h_ok
  | start thread prio =>
    cases h_exec
    exact ⟨F, h.start h_enabled.2.1 h_enabled.2.2 prio⟩
  | next =>
    obtain ⟨-, w, h_w, h_on⟩ := h_enabled
    have h_next : st.next w = .ok st' := by
      rw [← h_exec]
      show _ = (st.walk st.cur).elim _ _
      rw [h_w]
      rfl
    refine ⟨F, h.next h_w h_next ?_⟩
    -- unless it is the pointer of a last waiter, the next node is one to stand on
    exact (h.kernel.walkable_next_iff h.tags (h.stands _ w h_w) fun h_e => h_on (Or.inl h_e)).mpr
      (h_last w h_w)
  | finish =>
    obtain ⟨-, w, h_w, -⟩ := h_enabled
    refine h.finish h_w ?_
    rw [← h_exec]
    show _ = (st.walk st.cur).elim _ _
    rw [h_w]
    rfl

end WalkInv

/-- Before any walk has begun. -/
theorem walkInv_init {value : S → BitVec 8} {st : WalkState T S} (h : (walkSys value).init st) :
    ∃ F, WalkInv st F := by
  obtain ⟨h_sched, h_walk⟩ := h
  obtain ⟨h_inv, h_threads, -⟩ := schedSys_init h_sched
  obtain ⟨-, -, -, k, -, -, -, -, h_ok⟩ := h_sched
  obtain ⟨h_cur, h_null⟩ := Kernel.threadInit_tag h_ok
  refine ⟨_, h_inv, fun t h_t _ => Or.inl ?_, ?_, ?_, ?_⟩
  · have h_main : t = k.cur := by
      rw [WalkState.kernel, h_threads, List.mem_singleton] at h_t
      exact h_t.trans h_cur
    rw [h_main]
    exact h_null
  all_goals
    intro t
    simp [h_walk]

/-! ### The walk -/

section

variable {st : WalkState T S} {F : ListId S → List T}

/-- A walk that is not interrupted goes to the end of the list. -/
theorem walk_run (value : S → BitVec 8) {w : Walk T S} {xs ys : List (Node T S)}
    (h_user : st.sched.ctx st.cur = .user) (h_w : st.walk st.cur = some w)
    (h_split : xs ++ [.readyTail] = w.e :: ys)
    (h_path : (xs ++ [Node.readyTail]).IsChain st.kernel.links.Linked)
    (h_tail : (.readyTail : Node T S) ∉ xs) (h_null : .null ∉ xs)
    (h_free : .general w.thread ∉ xs) :
    ∃ tr, (walkSys value).Run st tr
      { st with walk := Function.update st.walk st.cur (some { w with e := .readyTail }) } := by
  induction xs generalizing st w ys with
  | nil =>
    obtain ⟨h_e, -⟩ := List.cons.inj h_split
    have h_same : Function.update st.walk st.cur (some { w with e := .readyTail }) = st.walk := by
      rw [h_e, ← h_w]
      exact Function.update_eq_self ..
    rw [h_same]
    exact ⟨[], .nil st⟩
  | cons x xs ih =>
    rcases LinkHeap.path_cases h_split h_path h_tail with
      ⟨h_nil, -⟩ | ⟨xs', h_xs, h_ne, h_tail', h_path', ys', h_split'⟩
    · cases h_nil
    obtain ⟨rfl, rfl⟩ := List.cons.inj h_xs
    rw [List.mem_cons, not_or] at h_null h_free
    set st₁ : WalkState T S := { st with
      walk := Function.update st.walk st.cur (some { w with e := (st.kernel.links w.e).next }) }
      with h_st₁
    -- the node is neither the tail nor the new thread, so the walk takes a step
    have h_step : (walkSys value).Step st .next st₁ := by
      refine ⟨⟨h_user, w, h_w, fun h_ended => ?_⟩, ?_⟩
      · exact h_ended.elim h_ne fun h_e => h_free.1 h_e.symm
      · show (st.walk st.cur).elim _ _ = _
        rw [h_w]
        exact if_neg fun h_e => h_null.1 h_e.symm
    have h_user₁ : st₁.sched.ctx st₁.cur = .user := h_user
    have h_w₁ : st₁.walk st₁.cur = some { w with e := (st.kernel.links w.e).next } :=
      Function.update_self ..
    obtain ⟨tr, h_run⟩ := ih h_user₁ h_w₁ h_split' h_path' h_tail' h_null.2 h_free.2
    have h_walk : Function.update st₁.walk st₁.cur (some { w with e := .readyTail }) =
        Function.update st.walk st.cur (some { w with e := .readyTail }) :=
      Function.update_idem ..
    rw [h_walk] at h_run
    exact ⟨_, .cons h_step h_run⟩

/-- **A `thread_start` that is not interrupted** is the one of `schedSys`. -/
theorem start_alone (value : S → BitVec 8) (h : WalkInv st F) {thread : T} {prio : BitVec 32}
    (h_enabled : (walkSys value).enabled st (.start thread prio)) :
    ∃ tr st', (walkSys value).Run st tr st' ∧ st.sched.start thread prio = .ok st'.sched ∧
      st'.walk = st.walk := by
  obtain ⟨⟨h_user, h_none⟩, h_new, h_other⟩ := h_enabled
  set st₁ := st.start thread prio with h_st₁
  set w : Walk T S := ⟨thread, (st₁.kernel.links .readyHead).next⟩ with h_def
  have h_user₁ : st₁.sched.ctx st₁.cur = .user := h_user
  have h_w : st₁.walk st₁.cur = some w := Function.update_self ..
  have h_inv : WalkInv st₁ F := h.start h_new h_other prio
  have h_thread : thread ∉ F .ready := fun h_mem => h_new (h.kernel.mem_threads h_mem)
  -- the walk reaches the tail
  obtain ⟨⟨ys, h_split⟩, h_path, h_tail⟩ := h_inv.kernel.rep.walk .ready
  obtain ⟨tr, h_run⟩ := walk_run value h_user₁ h_w h_split h_path h_tail
    (by simp [tags, ListId.tag]) (fun h_mem => h_thread (mem_tags.mp h_mem))
  set st₂ : WalkState T S := { st₁ with
    walk := Function.update st₁.walk st₁.cur (some { w with e := .readyTail }) } with h_st₂
  -- and the rest of `thread_start` runs as in one step
  obtain ⟨-, h_status, h_magic⟩ := h_inv.fresh _ w h_w
  have h_w₂ : st₂.walk st₂.cur = some { w with e := .readyTail } := Function.update_self ..
  have h_finish : (walkSys value).Step st₂ .finish
      { sched := { st₁.sched with
          kernel := st₁.kernel.enlisted thread
          ctx := Function.update st₁.sched.ctx thread .entry }
        walk := Function.update st₂.walk st₂.cur none } := by
    refine ⟨⟨h_user, _, h_w₂, Or.inl rfl⟩, ?_⟩
    show (st₂.walk st₂.cur).elim _ _ = _
    rw [h_w₂]
    have h_kernel : KernelInv st₂.kernel F := h_inv.kernel
    exact WalkInv.finish_eq (w := { w with e := .readyTail }) h_kernel h_new h_status h_magic
      (by simp)
  have h_start : (walkSys value).Step st (.start thread prio) st₁ :=
    ⟨⟨⟨h_user, h_none⟩, h_new, h_other⟩, rfl⟩
  refine ⟨_, _, .cons h_start (h_run.trans (.cons h_finish (.nil _))), ?_, ?_⟩
  · rw [SchedState.start]
    show (st.kernel.threadStart thread prio >>= _) = _
    rw [(Kernel.threadStart_eq h.kernel h_new prio).1]
    rfl
  · show Function.update (Function.update (Function.update st.walk st.cur _) st.cur _) st.cur
      none = st.walk
    rw [Function.update_idem, Function.update_idem, ← h_none]
    exact Function.update_eq_self ..

end

/-- Every walk stands on the tag of a thread, or at the tail of `thread_ready_list`. -/
def OnReadyList (st : WalkState T S) : Prop :=
  ∀ t w, st.walk t = some w →
    w.e = .readyTail ∨ ∃ u ∈ st.kernel.threads, w.e = .general u

omit [DecidableEq T] [DecidableEq S] in
theorem WalkInv.onReadyList {st : WalkState T S} {F : ListId S → List T} (h : WalkInv st F) :
    OnReadyList st := by
  intro t w h_w
  refine (h.stands t w h_w).imp_right ?_
  rintro ⟨u, h_u, h_e, -⟩
  exact ⟨u, h_u, h_e⟩

/-- **Exactly when preempted walks stay on their list.** A run keeps every walk on
`thread_ready_list` if and only if no step of it follows the pointer of a last waiter. -/
theorem walk_stays_iff (value : S → BitVec 8) {st st' : WalkState T S}
    {tr : List (WalkAct T S × WalkState T S)} (h_init : (walkSys value).init st)
    (h_run : (walkSys value).Run st tr st') :
    (∀ x ∈ tr, OnReadyList x.2) ↔ ((walkSys value).guard NotLastWaiter).Run st tr st' := by
  refine Machine.safe_iff_guarded (I := fun st => ∃ F, WalkInv st F)
    (fun _ h => h.elim fun _ h => h.onReadyList) ?_ ?_ (walkInv_init h_init) h_run
  · rintro st a st' ⟨F, h⟩ h_step h_last
    exact h.step h_step h_last
  · rintro st a st' ⟨F, h⟩ ⟨-, h_exec⟩ h_on
    cases a with
    | next =>
      intro w h_w s h_prev
      have h_next : st.next w = .ok st' := by
        rw [← h_exec]
        show _ = (st.walk st.cur).elim _ _
        rw [h_w]
        rfl
      rw [WalkState.next] at h_next
      split at h_next
      · cases h_next
      cases h_next
      -- the last waiter is followed by the tail of its own list, which is off the ready list
      have h_tail : (st.kernel.links w.e).next = .waitTail s := by
        rw [← h_prev]
        exact h.kernel.last_waiter_next s
      rcases h_on st.cur _ (Function.update_self ..) with h_e | ⟨u, -, h_e⟩ <;>
        exact absurd (h_tail.symm.trans h_e) (by simp)
    | timer | down _ | up _ | enable | disable | resume | start _ _ | finish => trivial

/-- The state that `thread_init` leaves, with no walk begun. -/
def bootWalk (cur : T) (value : S → BitVec 8) : WalkState T S :=
  ⟨bootState cur value, fun _ => none⟩

theorem bootWalk_init (cur : T) (value : S → BitVec 8) :
    (walkSys value).init (bootWalk cur value) :=
  ⟨bootState_init cur value, fun _ => rfl⟩

instance [Fintype S] (st : WalkState T S) : ∀ a, Decidable (NotLastWaiter st a)
  | .next => inferInstanceAs (Decidable
      (∀ w ∈ st.walk st.cur, ∀ s, (st.kernel.links (.waitTail s)).prev ≠ w.e))
  | .timer | .down _ | .up _ | .enable | .disable | .resume | .start _ _ | .finish => isTrue trivial

/-- The main thread walks and stands on the tag of the thread it has started before. The timer takes
the processor away, that thread runs until the timer comes again, and the walk goes on to the tail
of the ready list. -/
theorem walk_stays_iff_preempted : ∃ (st st' : WalkState (Fin 3) Unit)
    (tr : List (WalkAct (Fin 3) Unit × WalkState (Fin 3) Unit)),
    ((walkSys fun _ : Unit => 0).Run st tr st') ∧
      tr.map Prod.fst = [.start 1 0, .finish, .enable, .start 2 31] ++ List.replicate 32 .timer ++
        [.resume, .timer, .resume, .next, .finish] ∧ ∀ x ∈ tr, OnReadyList x.2 := by
  have h_some : (((walkSys fun _ : Unit => 0).guard NotLastWaiter).play
      (bootWalk (0 : Fin 3) fun _ => 0) ([.start 1 0, .finish, .enable, .start 2 31] ++
        List.replicate 32 .timer ++ [.resume, .timer, .resume, .next, .finish])).isSome := by
    decide +kernel
  obtain ⟨st', h_play⟩ := Option.isSome_iff_exists.mp h_some
  obtain ⟨tr, h, h_as⟩ := Machine.Run.of_play _ h_play
  exact ⟨_, st', tr, h.of_guard, h_as, (walk_stays_iff _ (bootWalk_init 0 _) h.of_guard).mpr h⟩

/-- The second thread walks and stands on the tag of the main thread, which is ready. The timer
lets the main thread run, which sleeps in `semaphore_down`, and the walk goes on to the tail of the
waiters. -/
theorem walk_leaves_list : ¬ ∀ st : WalkState (Fin 3) Unit,
    (walkSys fun _ => 0).Reachable st → OnReadyList st := by
  intro h_all
  have h_play : ((walkSys fun _ => 0).play (bootWalk (0 : Fin 3) fun _ : Unit => 0)
      [.start 1 0, .finish, .enable, .down (), .resume, .up (), .start 2 31, .timer, .resume,
        .down (), .resume, .next]).map (fun st => (st.walk 1).map Walk.e) =
      some (some (.waitTail ())) := by decide +kernel
  obtain ⟨st, h_st, h_walk⟩ := Option.map_eq_some_iff.mp h_play
  obtain ⟨w, h_w, h_e⟩ := Option.map_eq_some_iff.mp h_walk
  have h_reach := Machine.Reachable.play (.init (bootWalk_init 0 _)) _ h_st
  rcases h_all st h_reach 1 w h_w with h_tail | ⟨u, -, h_tag⟩
  · rw [h_e] at h_tail
    cases h_tail
  · rw [h_e] at h_tag
    cases h_tag

end ToiletOS
