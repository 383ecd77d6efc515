import ToiletOS.Sched.KernelInv

/-!
# The kernel refines the level of sleeping threads

`Sync/Semaphore.lean` describes `semaphore_down`, `semaphore_up`, `thread_block`
and `thread_unblock` on a status map and on wait lists that are sequences. This
file shows that the kernel, with its pointers, its ready list and its running
thread, does the same: `Kernel.view` reads off what that level sees, and under the
scheduler invariant every operation takes the view to the view the upper
operation computes, keeps the invariant, and fails only where the upper operation
fails or where no thread is left to run (`Ends`).

Every fact about the kernel that the later files need goes through these
theorems. They are the only place where the functions of `Sched/Kernel.lean` are
unfolded.
-/

namespace ToiletOS

variable {T S W : Type} [DecidableEq T] [DecidableEq S] [DecidableEq W]

/-- What the level above sees of the kernel: who is asleep, the semaphores and
the waiter slots. -/
structure View (T S W : Type) where
  status : T → TaskStatus
  sem : S → Semaphore T
  slot : W → Option T

namespace View

/-- One pass of `semaphore_down` by thread `cur`. -/
def semaphoreDown (v : View T S W) (cur : T) (psem : S) : Except Assertion (Bool × View T S W) := do
  let (taken, status, sem) ← ToiletOS.semaphoreDown cur v.status (v.sem psem)
  return (taken, ⟨status, Function.update v.sem psem sem, v.slot⟩)

/-- `semaphore_up`. -/
def semaphoreUp (v : View T S W) (psem : S) : Except Assertion (View T S W) := do
  let (status, sem) ← ToiletOS.semaphoreUp v.status (v.sem psem)
  return ⟨status, Function.update v.sem psem sem, v.slot⟩

/-- `cur` is put to sleep in no wait list. -/
def block (v : View T S W) (cur : T) : View T S W :=
  { v with status := Function.update v.status cur .blocked }

/-- A sleeping thread is made ready. -/
def unblock (v : View T S W) (t : T) : View T S W :=
  { v with status := Function.update v.status t .ready }

/-- A write to a semaphore. -/
def setSem (v : View T S W) (s : S) (sem : Semaphore T) : View T S W :=
  { v with sem := Function.update v.sem s sem }

/-- A write to a waiter slot. -/
def setSlot (v : View T S W) (w : W) (t : Option T) : View T S W :=
  { v with slot := Function.update v.slot w t }

section

omit [DecidableEq W]

variable {v : View T S W} {psem : S}

theorem semaphoreDown_taken {cur : T} (h_value : (v.sem psem).value = 0)
    (h_free : cur ∉ (v.sem psem).waiters) :
    v.semaphoreDown cur psem
      = .ok (false, (v.setSem psem ⟨0, (v.sem psem).waiters ++ [cur]⟩).block cur) := by
  rw [semaphoreDown, ToiletOS.semaphoreDown_taken v.status h_value h_free]
  rfl

theorem semaphoreDown_free (cur : T) (h_value : (v.sem psem).value = 1) :
    v.semaphoreDown cur psem = .ok (true, v.setSem psem ⟨0, (v.sem psem).waiters⟩) := by
  rw [semaphoreDown, ToiletOS.semaphoreDown_free cur v.status h_value]
  rfl

theorem semaphoreDown_several (cur : T) (h_value : (v.sem psem).value ≠ 0)
    (h_one : (v.sem psem).value ≠ 1) : v.semaphoreDown cur psem = .error .downValueZero := by
  rw [semaphoreDown, ToiletOS.semaphoreDown_several cur v.status h_value h_one]
  rfl

theorem semaphoreUp_nil (h_value : (v.sem psem).value = 0) (h_nil : (v.sem psem).waiters = []) :
    v.semaphoreUp psem = .ok (v.setSem psem ⟨1, []⟩) := by
  rw [semaphoreUp, ToiletOS.semaphoreUp_nil v.status h_value h_nil]
  rfl

theorem semaphoreUp_cons {t : T} {ts : List T} (h_value : (v.sem psem).value = 0)
    (h_cons : (v.sem psem).waiters = t :: ts) (h_blocked : v.status t = .blocked) :
    v.semaphoreUp psem = .ok ((v.setSem psem ⟨1, ts⟩).unblock t) := by
  rw [semaphoreUp, ToiletOS.semaphoreUp_cons v.status h_value h_cons h_blocked]
  rfl

theorem semaphoreUp_released (h_value : (v.sem psem).value ≠ 0) :
    v.semaphoreUp psem = .error .upValueZero := by
  rw [semaphoreUp, ToiletOS.semaphoreUp, assert_neg h_value]
  rfl

/-- The only `ASSERT` a thread outside `waiters` can fail in `semaphore_down`. -/
theorem semaphoreDown_error {cur : T} {a : Assertion} (h_free : cur ∉ (v.sem psem).waiters)
    (h : v.semaphoreDown cur psem = .error a) : a = .downValueZero := by
  by_cases h_value : (v.sem psem).value = 0
  · rw [semaphoreDown_taken h_value h_free] at h
    cases h
  · by_cases h_one : (v.sem psem).value = 1
    · rw [semaphoreDown_free cur h_one] at h
      cases h
    · rw [semaphoreDown_several cur h_value h_one] at h
      exact (Except.error.inj h).symm

/-- The only `ASSERT` that can fail in `semaphore_up` when the waiters sleep. -/
theorem semaphoreUp_error {a : Assertion}
    (h_blocked : ∀ t ∈ (v.sem psem).waiters, v.status t = .blocked)
    (h : v.semaphoreUp psem = .error a) : a = .upValueZero := by
  by_cases h_value : (v.sem psem).value = 0
  · cases h_wait : (v.sem psem).waiters with
    | nil =>
      rw [semaphoreUp_nil h_value h_wait] at h
      cases h
    | cons t ts =>
      rw [semaphoreUp_cons h_value h_wait (h_blocked t (h_wait ▸ List.mem_cons_self))] at h
      cases h
  · rw [semaphoreUp_released h_value] at h
    exact (Except.error.inj h).symm

/-- A pass of `semaphore_down` changes one semaphore and one thread. -/
theorem semaphoreDown_frame {cur : T} {taken : Bool} {v' : View T S W}
    (h_free : cur ∉ (v.sem psem).waiters) (h : v.semaphoreDown cur psem = .ok (taken, v')) :
    (∀ s, s ≠ psem → v'.sem s = v.sem s) ∧ ∀ t, t ≠ cur → v'.status t = v.status t := by
  by_cases h_value : (v.sem psem).value = 0
  · rw [semaphoreDown_taken h_value h_free] at h
    cases h
    exact ⟨fun s hs => Function.update_of_ne hs .., fun t ht => Function.update_of_ne ht ..⟩
  · by_cases h_one : (v.sem psem).value = 1
    · rw [semaphoreDown_free cur h_one] at h
      cases h
      exact ⟨fun s hs => Function.update_of_ne hs .., fun t _ => rfl⟩
    · rw [semaphoreDown_several cur h_value h_one] at h
      cases h

/-- `semaphore_up` changes one semaphore and puts nobody to sleep. -/
theorem semaphoreUp_frame {v' : View T S W}
    (h_blocked : ∀ t ∈ (v.sem psem).waiters, v.status t = .blocked)
    (h : v.semaphoreUp psem = .ok v') :
    (∀ s, s ≠ psem → v'.sem s = v.sem s) ∧
      ∀ t, v'.status t = .blocked → v.status t = .blocked := by
  by_cases h_value : (v.sem psem).value = 0
  · cases h_wait : (v.sem psem).waiters with
    | nil =>
      rw [semaphoreUp_nil h_value h_wait] at h
      cases h
      exact ⟨fun s hs => Function.update_of_ne hs .., fun t ht => ht⟩
    | cons t ts =>
      rw [semaphoreUp_cons h_value h_wait (h_blocked t (h_wait ▸ List.mem_cons_self))] at h
      cases h
      refine ⟨fun s hs => Function.update_of_ne hs .., fun u hu => ?_⟩
      by_cases h_u : u = t
      · subst h_u; simp [unblock] at hu
      · simpa [unblock, setSem, h_u] using hu
  · -- with the unit not taken the assertion would have failed
    rw [semaphoreUp_released h_value] at h
    cases h

end

end View

namespace Kernel

/-- A thread as the level above sees it: asleep or not. -/
def asleep (k : Kernel T S W) (t : T) : TaskStatus :=
  if (k.task t).status = .blocked then .blocked else .ready

/-- The view of a kernel whose lists hold `F`. -/
def view (k : Kernel T S W) (F : ListId S → List T) : View T S W :=
  ⟨k.asleep, fun s => ⟨k.value s, F (.wait s)⟩, k.slot⟩

/-- A call that may switch threads ends with the result `b` and the view `v`,
unless there is no thread to switch to. -/
def Ends {β : Type} (k : Kernel T S W) (r : Except Stop (β × Kernel T S W)) (b : β)
    (v : View T S W) : Prop :=
  r = .error (.assertion .scheduleNonEmpty) ∨
    ∃ k' F', r = .ok (b, k') ∧ KernelInv k' F' ∧ k'.view F' = v ∧ k'.threads = k.threads

section

variable {k : Kernel T S W} {F : ListId S → List T}

omit [DecidableEq T] [DecidableEq S] [DecidableEq W] in
theorem asleep_eq_blocked {t : T} : k.asleep t = .blocked ↔ (k.task t).status = .blocked := by
  unfold asleep
  split <;> simp_all

omit [DecidableEq T] [DecidableEq S] [DecidableEq W] in
/-- Views agree when the sleeping threads, the semaphores and the slots do. -/
theorem view_eq {k' : Kernel T S W} {F' : ListId S → List T}
    (h_status : ∀ t, (k'.task t).status = .blocked ↔ (k.task t).status = .blocked)
    (h_value : k'.value = k.value) (h_wait : ∀ s, F' (.wait s) = F (.wait s))
    (h_slot : k'.slot = k.slot) : k'.view F' = k.view F := by
  have h_asleep : k'.asleep = k.asleep := by
    ext t
    simp only [asleep, h_status]
  simp only [view, h_asleep, h_value, h_wait, h_slot]

omit [DecidableEq T] [DecidableEq W] in
/-- The view after an operation on one semaphore. -/
theorem view_sem {k' : Kernel T S W} {F' : ListId S → List T} {psem : S} {v : BitVec 8}
    {ts : List T} (h_asleep : k'.asleep = k.asleep) (h_slot : k'.slot = k.slot)
    (h_value : k'.value = Function.update k.value psem v)
    (h_wait : F' (.wait psem) = ts) (h_other : ∀ s, s ≠ psem → F' (.wait s) = F (.wait s)) :
    k'.view F' = (k.view F).setSem psem ⟨v, ts⟩ := by
  have h_sem : (k'.view F').sem = Function.update (k.view F).sem psem ⟨v, ts⟩ := by
    ext1 s
    by_cases h_s : s = psem
    · subst h_s; simp [view, h_value, h_wait]
    · simp [view, h_value, h_s, h_other s h_s]
  rw [View.setSem, ← h_sem]
  simp only [view, h_asleep, h_slot]

omit [DecidableEq S] [DecidableEq W] in
theorem asleep_setStatusOf (links : LinkHeap (Node T S)) (cur : T) (slot : W → Option T) (t : T)
    {status : TaskStatus} (h : status = .blocked ∨ status = .ready) :
    asleep { k with
      links := links, cur := cur, slot := slot, task := setStatusOf k.task t status }
      = Function.update k.asleep t status := by
  ext u
  by_cases h_eq : u = t
  · subst h_eq
    rcases h with rfl | rfl <;> simp [asleep]
  · rw [Function.update_of_ne h_eq]
    simp only [asleep, setStatusOf_of_ne _ _ h_eq]

/-! ### `schedule` -/

/-- The kernel after `next` has been taken from the head of the ready list. -/
def dispatched (k : Kernel T S W) (next : T) : Kernel T S W :=
  { k with
    links := k.links.unlink (.general next), task := setStatusOf k.task next .running, cur := next }

omit [DecidableEq W] in
/-- The second half of `schedule`, with no thread to run. -/
theorem scheduleIn_nil (h : KernelCore k F) (h_nil : F .ready = []) :
    k.scheduleIn = .error (.assertion .scheduleNonEmpty) := by
  rw [scheduleIn, listEmpty_eq h, h_nil]
  rfl

omit [DecidableEq W] in
/-- The second half of `schedule`, on a ready list that is not empty. -/
theorem scheduleIn_cons (h : KernelCore k F) (h_cur : (k.task k.cur).status ≠ .running) {t : T}
    {ts : List T} (h_head : F .ready = t :: ts) :
    k.scheduleIn = .ok (k.dispatched t) ∧
      KernelInv (k.dispatched t) (Function.update F .ready ts) := by
  obtain ⟨h_pop, h_rep⟩ := listPop_eq h.rep h_head
  refine ⟨?_, h.dispatch h_head h_cur h_rep (by simp) (by simp) (by simp)⟩
  rw [scheduleIn, listEmpty_eq h, h_head, h_pop]
  rfl

omit [DecidableEq W] in
/-- The second half of `schedule`, once nobody runs. -/
theorem scheduleIn_spec (h : KernelCore k F) (h_cur : (k.task k.cur).status ≠ .running) :
    k.scheduleIn = .error (.assertion .scheduleNonEmpty) ∧ F .ready = [] ∨
    ∃ k' F', k.scheduleIn = .ok k' ∧ KernelInv k' F' ∧ k'.view F' = k.view F ∧
      k'.threads = k.threads := by
  cases h_head : F .ready with
  | nil => exact Or.inl ⟨scheduleIn_nil h h_head, rfl⟩
  | cons t ts =>
    have h_t : (k.task t).status = .ready := ((h.ready t).mp (h_head ▸ List.mem_cons_self)).2
    obtain ⟨h_in, h_inv⟩ := scheduleIn_cons h h_cur h_head
    refine Or.inr ⟨_, _, h_in, h_inv, ?_, rfl⟩
    refine view_eq (fun u => ?_) rfl (by simp) rfl
    by_cases h_eq : u = t
    · subst h_eq; simp [dispatched, h_t]
    · simp [dispatched, setStatusOf_of_ne _ _ h_eq]

omit [DecidableEq W] in
/-- `schedule` on behalf of a thread that has just gone to sleep. -/
theorem schedule_asleep (h : KernelCore k F) (h_off : k.intr = .off)
    (h_cur : (k.task k.cur).status ≠ .running) :
    k.schedule = .error (.assertion .scheduleNonEmpty) ∨
    ∃ k' F', k.schedule = .ok k' ∧ KernelInv k' F' ∧ k'.view F' = k.view F ∧
      k'.threads = k.threads := by
  have h_eq : k.schedule = k.scheduleIn := by
    simp [schedule, h_off, scheduleOut, h_cur]
  rw [h_eq]
  exact (scheduleIn_spec h h_cur).imp_left And.left

/-- The kernel after the running thread has been put at the tail of the ready list. -/
def requeued (k : Kernel T S W) : Kernel T S W :=
  { k with
    links := k.links.insertBefore .readyTail (.general k.cur)
    task := Function.update k.task k.cur
      { k.task k.cur with ticks := (k.task k.cur).priority, status := .ready } }

omit [DecidableEq W] in
/-- The first half of `schedule`, at the end of a time slice. -/
theorem scheduleOut_running (h : KernelInv k F) :
    k.scheduleOut = .ok k.requeued ∧
      KernelCore k.requeued (Function.update F .ready (F .ready ++ [k.cur])) := by
  have h_free : ∀ j, ListId.tag .ready k.cur ∉
      LinkHeap.nodes ListId.head ListId.tail (tags F) j := general_notMem h.cur_free
  constructor
  · simp [scheduleOut, h.cur_running, assertNotIn_ok h.toKernelCore (h.cur_free .ready (by simp)),
      listAppend_eq, setTask, ListId.tail, requeued]
  · refine h.requeue (append_rep h.rep .ready h_free) (by simp) (by simp) (by simp)
      (by simp) (by simp) fun t ht => ?_
    exact Function.update_of_ne ht ..

omit [DecidableEq W] in
/-- `schedule` at the end of a time slice: the running thread is ready again, and the head of the
ready list runs, which may be the same thread. -/
theorem schedule_rotates (h : KernelInv k F) (h_off : k.intr = .off) {t : T} {ts : List T}
    (h_head : F .ready ++ [k.cur] = t :: ts) :
    k.schedule = .ok (k.requeued.dispatched t) ∧
      KernelInv (k.requeued.dispatched t) (Function.update F .ready ts) := by
  obtain ⟨h_out, h_core⟩ := scheduleOut_running h
  have h_head' : Function.update F .ready (F .ready ++ [k.cur]) .ready = t :: ts := by
    rw [Function.update_self, h_head]
  obtain ⟨h_in, h_inv⟩ := scheduleIn_cons h_core (by simp [requeued]) h_head'
  rw [Function.update_idem] at h_inv
  refine ⟨?_, h_inv⟩
  rw [← h_in]
  simp [schedule, h_off, h_out]

omit [DecidableEq W] in
/-- `schedule` at the end of a time slice: the running thread is ready again, so
there is a thread to run. -/
theorem schedule_running (h : KernelInv k F) (h_off : k.intr = .off) :
    ∃ k' F', k.schedule = .ok k' ∧ KernelInv k' F' ∧ k'.view F' = k.view F ∧
      k'.threads = k.threads := by
  obtain ⟨h_out, h_core⟩ := scheduleOut_running h
  have h_eq : k.schedule = k.requeued.scheduleIn := by simp [schedule, h_off, h_out]
  have h_view : k.requeued.view (Function.update F .ready (F .ready ++ [k.cur])) = k.view F := by
    refine view_eq (fun u => ?_) rfl (by simp) rfl
    by_cases h_u : u = k.cur
    · subst h_u; simp [requeued, h.cur_running]
    · simp [requeued, Function.update_of_ne h_u]
  rcases scheduleIn_spec h_core (by simp [requeued]) with
    ⟨-, h_nil⟩ | ⟨k', F', h_in, h_inv, h_v, h_thr⟩
  · simp at h_nil
  · exact ⟨k', F', h_eq.trans h_in, h_inv, h_v.trans h_view, h_thr⟩

/-! ### Sleeping -/

omit [DecidableEq T] [DecidableEq S] [DecidableEq W] in
theorem intrSetStatus_self (k : Kernel T S W) (status : IntrStatus) :
    k.intrSetStatus status = { k with intr := status } := by
  cases status <;> rfl

omit [DecidableEq W] in
/-- `thread_block`, with the caller already where it will sleep. -/
theorem threadBlock_spec
    (h : KernelCore { k with task := setStatusOf k.task k.cur .blocked } F) :
    Ends k (k.threadBlock .blocked) k.intr ((k.view F).block k.cur) := by
  set k₁ : Kernel T S W :=
    { k with intr := .off, task := setStatusOf k.task k.cur .blocked } with hk₁
  -- after the status is set, `thread_block` is `schedule` with the flag clear
  have h_eq : k.threadBlock .blocked = k₁.schedule >>= fun k' => .ok (k.intr, k') := by
    rw [threadBlock, assert_pos TaskStatus.asleep_blocked]
    rfl
  have h_view : k₁.view F = (k.view F).block k.cur := by
    have h_asleep : k₁.asleep = Function.update k.asleep k.cur .blocked :=
      asleep_setStatusOf k.links k.cur k.slot k.cur (Or.inl rfl)
    simp only [view, View.block, h_asleep]
    rfl
  have h_core : KernelCore k₁ F := h.of_eq rfl (fun _ => ⟨rfl, rfl⟩) rfl rfl rfl rfl
  rw [Ends, h_eq]
  rcases schedule_asleep h_core rfl (by simp [hk₁]) with h_err | ⟨k', F', h_ok, h_inv, h_v, h_thr⟩
  · exact Or.inl (by rw [h_err]; rfl)
  · exact Or.inr ⟨k', F', by rw [h_ok]; rfl, h_inv, h_v.trans h_view, h_thr⟩

/-- The kernel after the running thread has gone to sleep at the tail of the waiters of `psem`. -/
def asleepOn (k : Kernel T S W) (psem : S) : Kernel T S W :=
  { k with
    links := k.links.insertBefore (.waitTail psem) (.general k.cur), intr := .off
    task := setStatusOf k.task k.cur .blocked }

omit [DecidableEq W] in
/-- A pass of `semaphore_down` that finds the unit taken: the caller goes to the
tail of `waiters` and sleeps, and the second half of `schedule` follows. -/
theorem semaphoreDown_eq_taken (h : KernelInv k F) {psem : S} (h_value : k.value psem = 0)
    (oldStatus : IntrStatus) :
    k.semaphoreDown psem oldStatus = ((k.asleepOn psem).scheduleIn >>= fun k' => .ok (false, k')) ∧
      KernelCore (k.asleepOn psem) (Function.update F (.wait psem) (F (.wait psem) ++ [k.cur])) ∧
      ((k.asleepOn psem).task (k.asleepOn psem).cur).status ≠ .running := by
  have h_free : k.cur ∉ F (.wait psem) := h.cur_free _ (by simp)
  have h_status : ((k.asleepOn psem).task (k.asleepOn psem).cur).status = .blocked := by
    simp [asleepOn]
  refine ⟨?_, ?_, by simp [h_status]⟩
  · -- the thread is blocked, so `schedule` does not put it back into the ready list
    have h_sched : (k.asleepOn psem).schedule = (k.asleepOn psem).scheduleIn := by
      rw [schedule, assert_pos (by rfl), scheduleOut]
      simp [h_status]
    rw [semaphoreDown, if_pos h_value, assertNotIn_ok h.toKernelCore h_free, listAppend_eq,
      ← h_sched]
    show (threadBlock _ .blocked >>= _) = _
    rw [threadBlock, assert_pos TaskStatus.asleep_blocked]
    show ((k.asleepOn psem).schedule >>= _) >>= _ = _
    cases (k.asleepOn psem).schedule <;> rfl
  · -- the invariant does not read the flag
    have h_core : KernelCore { k.asleepOn psem with intr := k.intr }
        (Function.update F (.wait psem) (F (.wait psem) ++ [k.cur])) := by
      refine h.sleep (append_rep h.rep (.wait psem) (general_notMem h.cur_free))
        (by simp) (by simp) (fun s t ht => ?_) (fun w t hw => Or.inl hw)
        fun w w' => h.slot_inj w w' _
      by_cases h_s : s = psem
      · subst h_s; simpa using ht
      · exact Or.inl (by simpa [h_s] using ht)
    exact h_core.setIntr .off

omit [DecidableEq W] in
/-- A pass of `semaphore_down` that finds the unit taken: the caller sleeps. -/
theorem semaphoreDown_sleep (h : KernelInv k F) {psem : S} (h_value : k.value psem = 0)
    (oldStatus : IntrStatus) :
    Ends k (k.semaphoreDown psem oldStatus) false
      (((k.view F).setSem psem ⟨0, F (.wait psem) ++ [k.cur]⟩).block k.cur) := by
  obtain ⟨h_down, h_core, h_cur⟩ := semaphoreDown_eq_taken h h_value oldStatus
  set F₁ := Function.update F (.wait psem) (F (.wait psem) ++ [k.cur]) with hF₁
  set k₁ : Kernel T S W :=
    { k with links := k.links.insertBefore (.waitTail psem) (.general k.cur) } with hk₁
  -- first the caller joins the waiters, and then it is blocked
  have h_view₁ : k₁.view F₁ = (k.view F).setSem psem ⟨0, F (.wait psem) ++ [k.cur]⟩ := by
    refine view_sem rfl rfl ?_ (by simp [hF₁]) fun s h_s => by simp [hF₁, h_s]
    exact (Function.update_eq_self_iff.mpr h_value.symm).symm
  have h_view : (k.asleepOn psem).view F₁ = (k₁.view F₁).block k.cur := by
    have h_asleep : (k.asleepOn psem).asleep = Function.update k.asleep k.cur .blocked :=
      asleep_setStatusOf k.links k.cur k.slot k.cur (Or.inl rfl)
    simp only [view, View.block, h_asleep]
    rfl
  rw [h_down, ← h_view₁, ← h_view]
  rcases scheduleIn_spec h_core h_cur with ⟨h_err, -⟩ | ⟨k', F', h_ok, h_inv, h_v, h_thr⟩
  · exact Or.inl (by rw [h_err]; rfl)
  · exact Or.inr ⟨k', F', by rw [h_ok]; rfl, h_inv, h_v, h_thr⟩

omit [DecidableEq W] in
/-- A pass of `semaphore_down` that finds the unit free takes it. -/
theorem semaphoreDown_eq_free {psem : S} (h_one : k.value psem = 1)
    (oldStatus : IntrStatus) :
    k.semaphoreDown psem oldStatus =
      .ok (true, { k with value := Function.update k.value psem 0, intr := oldStatus }) := by
  have h_value : ¬ k.value psem = 0 := by simp [h_one]
  rw [semaphoreDown, if_neg h_value]
  show assert (Function.update k.value psem (k.value psem - 1) psem = 0) _ >>= _ = _
  rw [assert_pos (by simp [h_one]), intrSetStatus_self, h_one]
  rfl

omit [DecidableEq W] in
/-- A pass of `semaphore_down` that takes one unit of several fails its `ASSERT`. -/
theorem semaphoreDown_eq_several {psem : S} (h_value : k.value psem ≠ 0)
    (h_one : k.value psem ≠ 1) (oldStatus : IntrStatus) :
    k.semaphoreDown psem oldStatus = .error (.assertion .downValueZero) := by
  have h_dec : ¬ Function.update k.value psem (k.value psem - 1) psem = 0 := by
    rw [Function.update_self, sub_eq_zero]
    exact h_one
  rw [semaphoreDown, if_neg h_value]
  show assert (Function.update k.value psem (k.value psem - 1) psem = 0) _ >>= _ = _
  rw [assert_neg h_dec]
  rfl

omit [DecidableEq W] in
/-- What a pass of `semaphore_down` does to the view, it does to the kernel. -/
theorem semaphoreDown_refines (h : KernelInv k F) (psem : S) (oldStatus : IntrStatus) :
    match (k.view F).semaphoreDown k.cur psem with
    | .error a => k.semaphoreDown psem oldStatus = .error (.assertion a)
    | .ok (taken, v) => Ends k (k.semaphoreDown psem oldStatus) taken v := by
  by_cases h_value : k.value psem = 0
  · rw [View.semaphoreDown_taken h_value (h.cur_free _ (by simp))]
    exact semaphoreDown_sleep h h_value oldStatus
  · by_cases h_one : k.value psem = 1
    · rw [View.semaphoreDown_free k.cur h_one, semaphoreDown_eq_free h_one]
      refine Or.inr ⟨_, F, rfl, h.of_eq rfl (fun _ => ⟨rfl, rfl⟩) rfl rfl rfl rfl, ?_, rfl⟩
      exact view_sem rfl rfl rfl rfl fun _ _ => rfl
    · rw [View.semaphoreDown_several k.cur h_value h_one]
      exact semaphoreDown_eq_several h_value h_one oldStatus

/-- `queue_wait`: the caller sleeps in the slot. -/
theorem queueWait_spec (h : KernelInv k F) (waiter : W) :
    Ends k (k.queueWait waiter) k.intr
      (((k.view F).setSlot waiter (some k.cur)).block k.cur) := by
  set k₁ : Kernel T S W :=
    { k with slot := Function.update k.slot waiter (some k.cur) } with hk₁
  -- the caller runs, so no slot can name it yet
  have h_none (w : W) : k.slot w ≠ some k.cur := by
    intro h_w
    have h_blocked := (h.slots w _ h_w).2.1
    rw [h.cur_running] at h_blocked
    cases h_blocked
  have h_core : KernelCore { k₁ with task := setStatusOf k.task k.cur .blocked } F := by
    refine h.sleep h.rep rfl rfl (fun s t ht => Or.inl ht) (fun w t hw => ?_) fun w w' hw hw' => ?_
    · by_cases h_w : w = waiter
      · subst h_w
        have h_t : k.cur = t := by simpa [hk₁] using hw
        exact Or.inr ⟨h_t.symm, fun s => h.cur_free _ (by simp)⟩
      · exact Or.inl (by simpa [hk₁, h_w] using hw)
    · have h_at {w : W} (hw : Function.update k.slot waiter (some k.cur) w = some k.cur) :
          w = waiter := by
        by_contra h_w
        exact h_none w (by simpa [h_w] using hw)
      rw [h_at hw, h_at hw']
  exact threadBlock_spec (k := k₁) h_core

/-! ### Waking -/

omit [DecidableEq W] in
/-- `thread_unblock` on a thread that sleeps: it goes to the head of the ready
list, and the interrupt status is as before. -/
theorem threadUnblock_eq (h : KernelCore k F) {t : T} (h_blocked : (k.task t).status = .blocked) :
    k.threadUnblock t = .ok { k with
      links := k.links.insertBefore (k.links .readyHead).next (.general t)
      task := setStatusOf k.task t .ready } := by
  have h_notMem : t ∉ F .ready := by
    intro h_mem
    rw [((h.ready t).mp h_mem).2] at h_blocked
    cases h_blocked
  rw [threadUnblock]
  dsimp only [intrDisable]
  rw [h_blocked, assert_pos TaskStatus.asleep_blocked, if_pos (by simp),
    assertNotIn_ok (h.setIntr .off) h_notMem, listPush_eq]
  simp only [ok_bind, pure_eq_ok, intrSetStatus_self]
  rfl

omit [DecidableEq T] [DecidableEq S] [DecidableEq W] in
/-- A sleeping thread that is in no wait list has its `general_tag` free. -/
theorem blocked_notMem (h : KernelCore k F) {t : T} (h_blocked : (k.task t).status = .blocked)
    (h_wait : ∀ s, t ∉ F (.wait s)) : ∀ i : ListId S, i ≠ .all → t ∉ F i := by
  intro i hi h_mem
  cases i with
  | all => exact hi rfl
  | ready =>
    rw [((h.ready t).mp h_mem).2] at h_blocked
    cases h_blocked
  | wait s => exact h_wait s h_mem

omit [DecidableEq W] in
/-- The kernel after a sleeping thread `t` that is in no wait list has been made
ready and taken out of its slot. -/
theorem wake_inv (h : KernelInv k F) {t : T} (h_mem : t ∈ k.threads)
    (h_blocked : (k.task t).status = .blocked) (h_wait : ∀ s, t ∉ F (.wait s))
    {slot : W → Option T} (h_slot : ∀ w u, slot w = some u → k.slot w = some u ∧ u ≠ t) :
    KernelInv { k with
      links := k.links.insertBefore (k.links .readyHead).next (.general t)
      slot := slot, task := setStatusOf k.task t .ready }
      (Function.update F .ready (t :: F .ready)) := by
  have h_free := general_notMem (blocked_notMem h.toKernelCore h_blocked h_wait)
  refine h.wake h_mem h_blocked (push_rep h.rep .ready h_free) (by simp) (by simp) ?_ h_slot
  intro s u hu
  refine ⟨by simpa using hu, fun h_eq => ?_⟩
  subst h_eq
  exact h_wait s (by simpa using hu)

/-- `wakeup`: the thread in the slot is ready, and the slot is empty. -/
theorem wakeup_spec (h : KernelInv k F) {waiter : W} {t : T} (h_slot : k.slot waiter = some t) :
    ∃ k' F', k.wakeup waiter = .ok k' ∧ KernelInv k' F' ∧
      k'.view F' = ((k.view F).unblock t).setSlot waiter none ∧ k'.threads = k.threads := by
  obtain ⟨h_mem, h_blocked, h_wait⟩ := h.slots waiter t h_slot
  set slot := Function.update k.slot waiter none with h_def
  have h_slots : ∀ w u, slot w = some u → k.slot w = some u ∧ u ≠ t := by
    intro w u hw
    by_cases h_w : w = waiter
    · subst h_w; simp [h_def] at hw
    · rw [h_def, Function.update_of_ne h_w] at hw
      exact ⟨hw, fun h_eq => h_w (h.slot_inj w waiter t (h_eq ▸ hw) h_slot)⟩
  refine ⟨_, _, ?_, wake_inv h h_mem h_blocked h_wait h_slots, ?_, rfl⟩
  · simp only [wakeup, h_slot, threadUnblock_eq h.toKernelCore h_blocked]
    rfl
  · simp [view, View.unblock, View.setSlot, asleep_setStatusOf, h_def]

omit [DecidableEq W] in
/-- `semaphore_up` with nobody waiting. -/
theorem semaphoreUp_eq_nil (h : KernelCore k F) {psem : S} (h_value : k.value psem = 0)
    (h_nil : F (.wait psem) = []) :
    k.semaphoreUp psem = .ok { k with value := Function.update k.value psem 1 } := by
  rw [semaphoreUp]
  dsimp only [intrDisable]
  rw [assert_pos h_value, listEmpty_eq (h.setIntr .off), h_nil]
  simp [h_value, intrSetStatus_self]

/-- The kernel after `t` has been moved from the wait list it is in to the head of the ready
list. -/
def awoken (k : Kernel T S W) (t : T) : Kernel T S W :=
  { k with
    links := (k.links.unlink (.general t)).insertBefore
      (k.links.unlink (.general t) .readyHead).next (.general t)
    task := setStatusOf k.task t .ready }

omit [DecidableEq W] in
/-- `semaphore_up` with a thread waiting: the first one is moved to the head of
the ready list. -/
theorem semaphoreUp_eq_cons (h : KernelInv k F) {psem : S} {t : T} {ts : List T}
    (h_value : k.value psem = 0) (h_cons : F (.wait psem) = t :: ts) :
    k.semaphoreUp psem = .ok { k.awoken t with value := Function.update k.value psem 1 } ∧
      KernelInv (k.awoken t)
        (Function.update (Function.update F (.wait psem) ts) .ready (t :: F .ready)) := by
  have h_t : t ∈ F (.wait psem) := h_cons ▸ List.mem_cons_self
  obtain ⟨h_mem, h_blocked⟩ := h.waiting psem t h_t
  obtain ⟨h_pop, h_rep⟩ := listPop_eq h.rep h_cons
  set F₁ := Function.update F (.wait psem) ts with hF₁
  set k₁ : Kernel T S W := { k with links := k.links.unlink (.general t) } with hk₁
  have h_inv₁ : KernelInv k₁ F₁ := by
    refine h.of_lists h_rep (by simp [hF₁]) (by simp [hF₁]) fun s => ?_
    by_cases h_s : s = psem
    · subst h_s
      rw [hF₁, Function.update_self, h_cons]
      exact List.subset_cons_self t ts
    · rw [hF₁, Function.update_of_ne (by simpa using h_s)]
      exact List.Subset.refl _
  -- once popped, `t` is in no wait list
  have h_out (s : S) : t ∉ F₁ (.wait s) := by
    by_cases h_s : s = psem
    · subst h_s
      have h_nodup := h.nodup (.wait s)
      rw [h_cons] at h_nodup
      simpa [hF₁] using (List.nodup_cons.mp h_nodup).1
    · rw [hF₁, Function.update_of_ne (by simpa using h_s)]
      intro h_in
      have h_eq := h.one_list (by simp) (by simp) h_in h_t
      exact h_s (by simpa using h_eq)
  -- nor is it in a slot
  have h_slot (w : W) (u : T) (hw : k.slot w = some u) : k₁.slot w = some u ∧ u ≠ t := by
    refine ⟨hw, ?_⟩
    rintro rfl
    exact (h.slots w u hw).2.2 psem h_t
  refine ⟨?_, wake_inv h_inv₁ h_mem h_blocked h_out h_slot⟩
  have h_off := h.toKernelCore.setIntr .off
  have h_unblock := threadUnblock_eq (h_inv₁.toKernelCore.setIntr .off) (t := t) h_blocked
  rw [semaphoreUp]
  dsimp only [intrDisable]
  rw [assert_pos h_value, listEmpty_eq h_off, h_cons, (listPop_eq h_off.rep h_cons).1]
  show (Kernel.threadUnblock { k₁ with intr := .off } t >>= _) = _
  rw [h_unblock]
  simp [h_value, intrSetStatus_self, hk₁, awoken]

omit [DecidableEq W] in
/-- What `semaphore_up` does to the view, it does to the kernel. -/
theorem semaphoreUp_refines (h : KernelInv k F) (psem : S) :
    match (k.view F).semaphoreUp psem with
    | .error a => k.semaphoreUp psem = .error (.assertion a)
    | .ok v => ∃ k' F', k.semaphoreUp psem = .ok k' ∧ KernelInv k' F' ∧ k'.view F' = v ∧
        k'.threads = k.threads := by
  by_cases h_value : k.value psem = 0
  · cases h_wait : F (.wait psem) with
    | nil =>
      rw [View.semaphoreUp_nil h_value h_wait]
      refine ⟨_, F, semaphoreUp_eq_nil h.toKernelCore h_value h_wait, ?_, ?_, rfl⟩
      · exact h.of_eq rfl (fun _ => ⟨rfl, rfl⟩) rfl rfl rfl rfl
      · exact view_sem rfl rfl rfl h_wait fun _ _ => rfl
    | cons t ts =>
      have h_t : t ∈ F (.wait psem) := h_wait ▸ List.mem_cons_self
      have h_asleep : k.asleep t = .blocked := asleep_eq_blocked.mpr (h.waiting psem t h_t).2
      -- the value and the list of the semaphore are what the view shows of the pop
      obtain ⟨h_up, h_inv⟩ := semaphoreUp_eq_cons h h_value h_wait
      rw [View.semaphoreUp_cons h_value h_wait h_asleep]
      refine ⟨_, _, h_up, h_inv.of_eq rfl (fun _ => ⟨rfl, rfl⟩) rfl rfl rfl rfl, ?_, rfl⟩
      set k₁ : Kernel T S W := { k with value := Function.update k.value psem 1 } with hk₁
      have h_sem : k₁.view (Function.update (Function.update F (.wait psem) ts) .ready
          (t :: F .ready)) = (k.view F).setSem psem ⟨1, ts⟩ :=
        view_sem rfl rfl rfl (by simp) fun s h_s => by simp [h_s]
      rw [← h_sem]
      simp [view, View.unblock, ← asleep_setStatusOf (k.awoken t).links k.cur k.slot, hk₁, awoken]
  · rw [View.semaphoreUp_released h_value]
    show (assert (k.value psem = 0) _ >>= _) = _
    rw [assert_neg h_value]
    rfl

/-! ### Creating threads, and the clock -/

omit [DecidableEq W] in
/-- `init_thread` on a fresh page clears two nodes that are in no list. -/
theorem initThread_inv (h : KernelInv k F) {t : T} (ht : t ∉ k.threads) (prio : BitVec 32) :
    KernelInv (k.initThread t prio) F := by
  have h_task {u : T} (hu : u ∈ k.threads) : (k.initThread t prio).task u = k.task u :=
    Function.update_of_ne (by rintro rfl; exact ht hu) ..
  refine ⟨h.of_rep (h.rep.congr fun i x hx => ?_) (fun u hu => by simp [h_task hu])
    rfl rfl rfl rfl, ?_⟩
  · have h_general : x ≠ .general t := by
      rintro rfl
      exact general_notMem (fun i _ h_mem => ht (h.mem_threads h_mem)) i hx
    have h_all : x ≠ .all t := by
      rintro rfl
      exact all_notMem (fun h_mem => ht (h.mem_threads h_mem)) i hx
    simp [initThread, setTask, h_general, h_all]
  · exact (congrArg TaskStruct.status (h_task h.cur_mem)).trans h.cur_running

/-- The kernel with `t` among the PCBs handed out. -/
def created (k : Kernel T S W) (t : T) : Kernel T S W := { k with threads := k.threads ++ [t] }

/-- The kernel after a new thread has been appended to the ready list and to
`thread_all_list`. -/
def enlisted (k : Kernel T S W) (t : T) : Kernel T S W :=
  { k.created t with
    links := (k.links.insertBefore .readyTail (.general t)).insertBefore .allTail (.all t) }

omit [DecidableEq W] in
/-- The second half of `thread_start`, once `init_thread` has filled in the PCB: neither
`ASSERT` fails, and the new thread is last in both lists. -/
theorem enlist_spec (h : KernelInv k F) {t : T} (ht : t ∉ k.threads)
    (h_status : (k.task t).status = .ready) (h_magic : (k.task t).stackMagic = 0x77777777) :
    (k.created t).assertNotIn .ready t .startNotReady = .ok () ∧
      ((k.created t).listAppend .ready (.general t)).assertNotIn .all t .startNotAll = .ok () ∧
      ((k.created t).listAppend .ready (.general t)).listAppend .all (.all t) = k.enlisted t ∧
      KernelInv (k.enlisted t) (Function.update (Function.update F .ready (F .ready ++ [t]))
        .all (F .all ++ [t])) := by
  -- a thread that has not been created is in no list
  have h_fresh (i : ListId S) : t ∉ F i := fun h_mem => ht (h.mem_threads h_mem)
  have h_len (i : ListId S) : (F i).length ≤ (k.created t).threads.length := by
    rw [created, List.length_append]
    exact (h.length_le i).trans (Nat.le_add_right ..)
  set F₂ := Function.update F .ready (F .ready ++ [t]) with hF₂
  have h_all₂ : F₂ .all = F .all := by simp [hF₂]
  have h_rep₂ : LinkHeap.Rep ((k.created t).listAppend .ready (.general t)).links
      ListId.head ListId.tail (tags F₂) := by
    rw [listAppend_eq]
    exact append_rep (k := k.created t) h.rep .ready (general_notMem fun i _ => h_fresh i)
  have h_rep₃ := append_rep h_rep₂ .all (t := t) (all_notMem (h_all₂ ▸ h_fresh _))
  have h_eq : ((k.created t).listAppend .ready (.general t)).listAppend .all (.all t)
      = k.enlisted t := by
    rw [listAppend_eq, listAppend_eq]
    rfl
  refine ⟨assertNotIn_of_rep (k := k.created t) h.rep (h_len _) (h_fresh _) _,
    assertNotIn_of_rep h_rep₂ (i := .all) ?_ (h_all₂ ▸ h_fresh _) _, h_eq, ?_⟩
  · rw [h_all₂, listAppend_eq]
    exact h_len _
  · rw [h_all₂, listAppend_eq] at h_rep₃
    have h_inv := h.start (p := k.task t) ht h_rep₃ (by simp) (by simp [hF₂]) (by simp [hF₂])
      h_status h_magic
    rwa [Function.update_eq_self] at h_inv

omit [DecidableEq W] in
/-- `thread_start` on a fresh page. -/
theorem threadStart_eq (h : KernelInv k F) {t : T} (ht : t ∉ k.threads) (prio : BitVec 32) :
    k.threadStart t prio = .ok ((k.initThread t prio).enlisted t) ∧
      (k.initThread t prio).task = Function.update k.task t
        ⟨.ready, prio.setWidth 8, prio.setWidth 8, 0, 0x77777777⟩ ∧
      KernelInv ((k.initThread t prio).enlisted t)
        (Function.update (Function.update F .ready (F .ready ++ [t])) .all (F .all ++ [t])) := by
  -- the main thread exists already, so the new one is `TASK_READY`
  have h_main : some t ≠ k.mainThread := fun h_eq => ht (h.main_mem t h_eq.symm)
  have h_task : (k.initThread t prio).task = Function.update k.task t
      ⟨.ready, prio.setWidth 8, prio.setWidth 8, 0, 0x77777777⟩ := by
    simp [initThread, setTask, h_main]
  obtain ⟨h_find, h_find', h_eq, h_inv⟩ := enlist_spec (initThread_inv h ht prio) ht
    (by simp [h_task]) (by simp [h_task])
  refine ⟨?_, h_task, h_inv⟩
  rw [← h_eq]
  show (assertNotIn ((k.initThread t prio).created t) .ready t .startNotReady >>= fun _ =>
    assertNotIn (listAppend ((k.initThread t prio).created t) .ready (.general t))
      .all t .startNotAll >>= fun _ => .ok _) = _
  rw [h_find, h_find']
  rfl

omit [DecidableEq W] in
/-- `thread_start` on a fresh page: the new thread is ready, last in both lists. -/
theorem threadStart_spec (h : KernelInv k F) {t : T} (ht : t ∉ k.threads) (prio : BitVec 32) :
    ∃ k' F', k.threadStart t prio = .ok k' ∧ KernelInv k' F' ∧
      k'.view F' = (k.view F).unblock t ∧ k'.threads = k.threads ++ [t] := by
  obtain ⟨h_start, h_task, h_inv⟩ := threadStart_eq h ht prio
  refine ⟨_, _, h_start, h_inv, ?_, rfl⟩
  simp only [view, View.unblock]
  congr 1
  · ext u
    by_cases h_u : u = t
    · subst h_u; simp [asleep, enlisted, created, h_task]
    · simp [asleep, enlisted, created, h_task, h_u]

/-- The kernel after the accounting of a timer interrupt, before the test of the time slice. -/
def charged (k : Kernel T S W) : Kernel T S W :=
  { k with
    intr := .off, ticks := k.ticks + 1
    task := Function.update k.task k.cur
      { k.task k.cur with elaspsedTicks := (k.task k.cur).elaspsedTicks + 1 } }

/-- The kernel after one tick of the time slice has been used. -/
def ticked (k : Kernel T S W) : Kernel T S W :=
  { k with
    intr := .on
    task := Function.update k.task k.cur
      { k.task k.cur with ticks := (k.task k.cur).ticks - 1 } }

omit [DecidableEq W] in
theorem intrTimerHandler_eq (h : KernelInv k F) :
    k.intrTimerHandler =
      if (k.task k.cur).ticks = 0 then k.charged.schedule >>= fun k' => .ok (true, k')
      else .ok (false, k.charged.ticked) := by
  have h_magic : (k.task k.cur).stackMagic = 0x77777777 := h.magic _ h.cur_mem
  have h_ticks : (k.charged.task k.cur).ticks = (k.task k.cur).ticks := by simp [charged]
  rw [intrTimerHandler, assert_pos h_magic, ← h_ticks]
  rfl

omit [DecidableEq S] [DecidableEq W] in
theorem charged_status (k : Kernel T S W) (t : T) :
    (k.charged.task t).status = (k.task t).status ∧
      (k.charged.task t).stackMagic = (k.task t).stackMagic := by
  by_cases h_t : t = k.cur
  · subst h_t; simp [charged]
  · simp [charged, h_t]

omit [DecidableEq S] [DecidableEq W] in
theorem ticked_status (k : Kernel T S W) (t : T) :
    (k.ticked.task t).status = (k.task t).status ∧
      (k.ticked.task t).stackMagic = (k.task t).stackMagic := by
  by_cases h_t : t = k.cur
  · subst h_t; simp [ticked]
  · simp [ticked, h_t]

omit [DecidableEq S] [DecidableEq W] in
theorem charged_inv (h : KernelInv k F) : KernelInv k.charged F :=
  h.of_eq rfl (charged_status k) rfl rfl rfl rfl

omit [DecidableEq S] [DecidableEq W] in
theorem ticked_inv (h : KernelInv k F) : KernelInv k.ticked F :=
  h.of_eq rfl (ticked_status k) rfl rfl rfl rfl

omit [DecidableEq W] in
/-- `intr_timer_handler`: the ticks are counted, and at the end of a time slice
another thread runs. Who sleeps where is not touched. -/
theorem intrTimerHandler_spec (h : KernelInv k F) :
    ∃ switched k' F', k.intrTimerHandler = .ok (switched, k') ∧ KernelInv k' F' ∧
      k'.view F' = k.view F ∧ k'.threads = k.threads := by
  have h_view₁ : k.charged.view F = k.view F :=
    view_eq (fun t => by rw [(charged_status k t).1]) rfl (fun _ => rfl) rfl
  rw [intrTimerHandler_eq h]
  split
  · obtain ⟨k', F', h_ok, h_inv, h_view, h_thr⟩ := schedule_running (charged_inv h) rfl
    exact ⟨true, k', F', by rw [h_ok]; rfl, h_inv, h_view.trans h_view₁, h_thr⟩
  · have h_view₂ : k.charged.ticked.view F = k.charged.view F :=
      view_eq (fun t => by rw [(ticked_status _ t).1]) rfl (fun _ => rfl) rfl
    exact ⟨false, _, F, rfl, ticked_inv (charged_inv h), h_view₂.trans h_view₁, rfl⟩

omit [DecidableEq W] in
/-- `thread_init`, on a kernel whose semaphores are initialised and whose slots
are empty, establishes the invariant: the main thread runs, alone. -/
theorem threadInit_spec (h_threads : k.threads = []) (h_slot : ∀ w, k.slot w = none)
    (h_wait : ∀ s, k.links.Linked (.waitHead s) (.waitTail s)) :
    ∃ k', k.threadInit = .ok k' ∧
      KernelInv k' (Function.update (fun _ => []) .all [k.cur]) ∧
      k'.threads = [k.cur] ∧ k'.value = k.value := by
  -- all lists are empty when the main thread is entered
  set k₁ := ({ (k.listInit .all).listInit .ready with
    mainThread := some k.cur, threads := k.threads ++ [k.cur] }).initThread k.cur 31 with hk₁
  have h_rep₁ : LinkHeap.Rep k₁.links ListId.head ListId.tail (tags fun _ : ListId S => []) := by
    refine LinkHeap.Rep.of_sentinels (fun i => ?_) (fun i => ?_) fun i j h_ij => ?_
    · cases i with
      | ready | all =>
        simp [hk₁, initThread, setTask, listInit, LinkHeap.Linked, ListId.head, ListId.tail]
      | wait s =>
        simpa [hk₁, initThread, setTask, listInit, LinkHeap.Linked, ListId.head, ListId.tail]
          using h_wait s
    · cases i <;> simp [ListId.head, ListId.tail]
    · cases i <;> cases j <;> simp_all [ListId.head, ListId.tail]
  have h_find := assertNotIn_of_rep h_rep₁ (i := .all) (t := k.cur) (Nat.zero_le _)
    List.not_mem_nil .startNotAll
  have h_free : ∀ j, ListId.tag .all k.cur ∉
      LinkHeap.nodes ListId.head ListId.tail (tags fun _ : ListId S => []) j :=
    all_notMem List.not_mem_nil
  refine ⟨k₁.listAppend .all (.all k.cur), ?_, ?_, ?_, ?_⟩
  · show (k₁.assertNotIn .all k.cur .startNotAll >>= fun _ => _) = _
    rw [h_find]
    rfl
  · rw [listAppend_eq]
    have h_status : (k₁.task k.cur).status = .running := by simp [hk₁, initThread, setTask]
    have h_thr : k₁.threads = [k.cur] := by simp [hk₁, initThread, setTask, h_threads]
    have h_cur : k₁.cur = k.cur := rfl
    exact
      { rep := append_rep h_rep₁ .all h_free
        all_eq := by simp [h_thr]
        cur_mem := by simp [h_thr, h_cur]
        main_mem := by simp [hk₁, initThread, setTask]
        status_cases := by simp [h_thr, h_status]
        running := by simp [h_thr, h_cur]
        ready := by simp [h_thr, h_status]
        waiting := by simp
        slots := fun w t hw => by
          rw [show k₁.slot = k.slot from rfl, h_slot w] at hw
          cases hw
        slot_inj := fun w w' t hw => by
          rw [show k₁.slot = k.slot from rfl, h_slot w] at hw
          cases hw
        magic := fun t ht => by
          obtain rfl : t = k.cur := by simpa [h_thr] using ht
          simp [hk₁, initThread, setTask]
        cur_running := h_status }
  · rw [listAppend_eq]
    simp [hk₁, initThread, setTask, h_threads]
  · rw [listAppend_eq]
    rfl

omit [DecidableEq W] in
/-- The `general_tag` of the main thread is as `init_thread` left it. -/
theorem threadInit_tag {k' : Kernel T S W} (h_ok : k.threadInit = .ok k') :
    k'.cur = k.cur ∧ (k'.links (.general k.cur)).next = .null := by
  set k₁ := ({ (k.listInit .all).listInit .ready with
    mainThread := some k.cur, threads := k.threads ++ [k.cur] }).initThread k.cur 31 with hk₁
  have h_eq : k.threadInit = k₁.assertNotIn .all k.cur .startNotAll >>= fun _ =>
    .ok (k₁.listAppend .all (.all k.cur)) := rfl
  rw [h_eq] at h_ok
  cases h_find : k₁.assertNotIn .all k.cur .startNotAll with
  | error e =>
    rw [h_find] at h_ok
    cases h_ok
  | ok _ =>
    rw [h_find] at h_ok
    cases h_ok
    rw [listAppend_eq]
    refine ⟨rfl, ?_⟩
    -- the tag that is linked is that of `thread_all_list`, and the other one is left alone
    have h_prev : (k₁.links .allTail).prev = .allHead := by
      simp [hk₁, initThread, setTask, listInit, ListId.head, ListId.tail]
    calc (k₁.links.insertBefore .allTail (.all k.cur) (.general k.cur)).next
        = (k₁.links (.general k.cur)).next :=
          LinkHeap.insertBefore_next_of_ne (by rw [h_prev]; simp) (by simp)
      _ = .null := by simp [hk₁, initThread, setTask]

omit [DecidableEq W] in
/-- `semaphore_init` leaves an empty wait list. -/
theorem semaphoreInit_linked (k : Kernel T S W) (psem : S) (v : BitVec 8) :
    (k.semaphoreInit psem v).links.Linked (.waitHead psem) (.waitTail psem) := by
  simp [semaphoreInit, listInit, LinkHeap.Linked, ListId.head, ListId.tail]

end

end Kernel
end ToiletOS
