import ToiletOS.Sched.SchedSys

/-!
# The scheduler invariant in every run

Every reachable kernel state satisfies `KernelInv`, and no `ASSERT` of the
functions involved fails except the three that say something about the use of the
kernel and not about its lists: `schedule` needs a ready thread, and
`semaphore_down` and `semaphore_up` are for binary semaphores.

`SchedState.exec_cases` is the inversion lemma of the machine. It says once, for
all actions, what a step does to the view of the kernel and to the ghosts
(`SchedEffect`); the proofs about runs argue from it and never open a step.
-/

namespace ToiletOS

variable {T S W : Type} [DecidableEq T] [DecidableEq S] [DecidableEq W]

/-- The `ASSERT`s that a step may fail. -/
def SchedAllowed (a : Assertion) : Prop :=
  a = .scheduleNonEmpty ∨ a = .downValueZero ∨ a = .upValueZero

/-- What a step does: a pass of `semaphore_down`, a `semaphore_up`, or neither.
The last kind of step leaves the semaphores alone and may put to sleep the
running thread only. -/
inductive SchedEffect (st : SchedState T S W) (v : View T S W) (st' : SchedState T S W)
    (v' : View T S W) : SchedAct T S W → Prop
  | down {a : SchedAct T S W} (psem : S) (oldStatus : IntrStatus) (taken : Bool)
      (h_cur : st.ctx st.cur = .user ∨ st.ctx st.cur = .down psem oldStatus)
      (h_view : v.semaphoreDown st.cur psem = .ok (taken, v'))
      (h_ctx : st'.ctx =
        Function.update st.ctx st.cur (if taken then .user else .down psem oldStatus))
      (h_woken : st'.woken =
        Function.update st.woken psem ((st.woken psem).filter (· ≠ st.cur)))
      (h_own : st'.own = Function.update st.own st.cur (Function.update (st.own st.cur) psem
        (st.own st.cur psem + if taken then 1 else 0)))
      (h_threads : st'.kernel.threads = st.kernel.threads) : SchedEffect st v st' v' a
  | up (psem : S)
      (h_view : v.semaphoreUp psem = .ok v')
      (h_ctx : st'.ctx = st.ctx)
      (h_woken : st'.woken = Function.update st.woken psem
        ((v.sem psem).waiters.head?.toList ++ st.woken psem))
      (h_own : st'.own = Function.update st.own st.cur (Function.update (st.own st.cur) psem
        (st.own st.cur psem - 1)))
      (h_threads : st'.kernel.threads = st.kernel.threads) : SchedEffect st v st' v' (.up psem)
  | other {a : SchedAct T S W}
      (h_sem : v'.sem = v.sem)
      (h_status : ∀ t, v'.status t = .blocked → v.status t = .blocked ∨ t = st.cur)
      (h_cur : ∀ psem oldStatus, st.ctx st.cur ≠ .down psem oldStatus)
      (h_ctx : ∀ t ∈ st.kernel.threads, t ≠ st.cur → st'.ctx t = st.ctx t)
      (h_woken : st'.woken = st.woken) (h_own : st'.own = st.own)
      (h_threads : st.kernel.threads ⊆ st'.kernel.threads) : SchedEffect st v st' v' a

namespace SchedState

variable {st : SchedState T S W} {F : ListId S → List T}

/-- The outcome of the action `a`: one of the allowed `ASSERT`s fails, or the
invariant holds again and the step is one of those of `SchedEffect`. -/
def Outcome (st : SchedState T S W) (F : ListId S → List T) (a : SchedAct T S W)
    (r : Except Stop (SchedState T S W)) : Prop :=
  (∃ e, SchedAllowed e ∧ r = .error (.assertion e)) ∨
    ∃ st' F', r = .ok st' ∧ KernelInv st'.kernel F' ∧
      SchedEffect st (st.kernel.view F) st' (st'.kernel.view F') a

omit [DecidableEq W] in
theorem timer_cases (h : KernelInv st.kernel F) (h_user : st.ctx st.cur = .user) :
    st.Outcome F .timer st.timer := by
  obtain ⟨switched, k', F', h_ok, h_inv, h_view, h_threads⟩ :=
    Kernel.intrTimerHandler_spec h
  refine Or.inr ⟨_, F', by rw [timer, h_ok]; rfl, h_inv, .other ?_ ?_ ?_ ?_ ?_ ?_ ?_⟩
  · simp [setKernel, h_view]
  · intro t ht
    exact Or.inl (by simpa [setKernel, h_view] using ht)
  · simp [h_user]
  · intro t _ h_ne
    cases switched <;> simp [setKernel, setCtx, h_ne]
  · cases switched <;> rfl
  · cases switched <;> rfl
  · simp [setKernel, h_threads]

omit [DecidableEq W] in
/-- A pass of `semaphore_down`, from the thread's own code or after it slept. -/
theorem downPass_cases (h : KernelInv st.kernel F) {a : SchedAct T S W} {psem : S}
    {oldStatus : IntrStatus} {k : Kernel T S W} {status : IntrStatus}
    (hk : k = { st.kernel with intr := status })
    (h_cur : st.ctx st.cur = .user ∨ st.ctx st.cur = .down psem oldStatus) :
    st.Outcome F a ((st.setKernel k).downPass psem oldStatus) := by
  have h_inv : KernelInv k F := by
    subst hk
    exact h.of_eq rfl (fun _ => ⟨rfl, rfl⟩) rfl rfl rfl rfl
  have h_same : k.cur = st.cur := by rw [hk]; rfl
  have h_view : k.view F = st.kernel.view F := by rw [hk]; rfl
  have h_refines := Kernel.semaphoreDown_refines h_inv psem oldStatus
  rw [h_same, h_view] at h_refines
  -- the pass is the function of the kernel, and then the bookkeeping
  have h_pass (r : Except Stop (Bool × Kernel T S W)) (hr : k.semaphoreDown psem oldStatus = r) :
      (st.setKernel k).downPass psem oldStatus = r >>= fun x => .ok
        ⟨x.2, Function.update st.ctx st.cur (if x.1 then .user else .down psem oldStatus),
          Function.update st.woken psem ((st.woken psem).filter (· ≠ st.cur)),
          Function.update st.own st.cur (Function.update (st.own st.cur) psem
            (st.own st.cur psem + if x.1 then 1 else 0))⟩ := by
    rw [← hr, ← h_same]
    rfl
  cases h_up : (st.kernel.view F).semaphoreDown st.cur psem with
  | error e =>
    rw [h_up] at h_refines
    have h_free : st.cur ∉ ((st.kernel.view F).sem psem).waiters := h.cur_free _ (by simp)
    refine Or.inl ⟨e, Or.inr (Or.inl (View.semaphoreDown_error h_free h_up)), ?_⟩
    rw [h_pass _ h_refines]
    rfl
  | ok res =>
    obtain ⟨taken, v'⟩ := res
    rw [h_up] at h_refines
    rcases h_refines with h_stuck | ⟨k', F', h_ok, h_inv', h_view', h_threads⟩
    · refine Or.inl ⟨.scheduleNonEmpty, Or.inl rfl, ?_⟩
      rw [h_pass _ h_stuck]
      rfl
    · refine Or.inr ⟨_, F', h_pass _ h_ok, h_inv', ?_⟩
      exact .down psem oldStatus taken h_cur (h_up.trans (by rw [← h_view'])) rfl rfl rfl
        (h_threads.trans (by rw [hk]))

omit [DecidableEq W] in
theorem firstWaiter_eq (h : KernelInv st.kernel F) (psem : S) :
    st.firstWaiter psem = (F (.wait psem)).head? := by
  rw [firstWaiter, Kernel.listEmpty_eq h.toKernelCore]
  cases h_wait : F (.wait psem) with
  | nil => rfl
  | cons t ts =>
    have h_next : (st.kernel.links (.waitHead psem)).next = .general t :=
      h.rep.head_next (i := .wait psem)
        (by rw [tags, h_wait, List.map_cons, List.cons_append]; rfl)
    simp [h_next, elem2entry, Except.toOption]

omit [DecidableEq W] in
theorem up_cases (h : KernelInv st.kernel F) (psem : S) :
    st.Outcome F (.up psem) (st.up psem) := by
  have h_refines := Kernel.semaphoreUp_refines h psem
  have h_blocked : ∀ t ∈ ((st.kernel.view F).sem psem).waiters,
      (st.kernel.view F).status t = .blocked := fun t ht =>
    Kernel.asleep_eq_blocked.mpr (h.waiting psem t ht).2
  cases h_up : (st.kernel.view F).semaphoreUp psem with
  | error e =>
    rw [h_up] at h_refines
    refine Or.inl ⟨e, Or.inr (Or.inr (View.semaphoreUp_error h_blocked h_up)), ?_⟩
    rw [up, h_refines]
    rfl
  | ok v' =>
    rw [h_up] at h_refines
    obtain ⟨k', F', h_ok, h_inv, h_view, h_threads⟩ := h_refines
    refine Or.inr ⟨_, F', by rw [up, h_ok]; rfl, h_inv, ?_⟩
    refine .up psem (h_up.trans (by rw [← h_view])) rfl ?_ rfl h_threads
    rw [firstWaiter_eq h]
    rfl

theorem wait_cases (h : KernelInv st.kernel F) (h_user : st.ctx st.cur = .user) (waiter : W) :
    st.Outcome F (.wait waiter) (st.wait waiter) := by
  rcases Kernel.queueWait_spec h waiter with h_stuck | ⟨k', F', h_ok, h_inv, h_view, h_threads⟩
  · exact Or.inl ⟨.scheduleNonEmpty, Or.inl rfl, by rw [wait, h_stuck]; rfl⟩
  · refine Or.inr ⟨(st.setCtx (.wait st.kernel.intr)).setKernel k', F',
      by rw [wait, h_ok]; rfl, h_inv, .other ?_ ?_ ?_ ?_ rfl rfl ?_⟩
    · simp [setKernel, h_view, View.block, View.setSlot]
    · intro t ht
      -- nobody but the caller is put to sleep
      by_cases h_t : t = st.cur
      · exact Or.inr h_t
      · refine Or.inl ?_
        have h_ne : t ≠ st.kernel.cur := h_t
        simpa [setKernel, h_view, View.block, View.setSlot, h_ne] using ht
    · simp [h_user]
    · intro t _ h_ne
      simp [setKernel, setCtx, h_ne]
    · simp [setKernel, setCtx, h_threads]

theorem wake_cases (h : KernelInv st.kernel F) (h_user : st.ctx st.cur = .user) {waiter : W}
    (h_slot : st.kernel.slot waiter ≠ none) :
    st.Outcome F (.wake waiter) (st.wake waiter) := by
  obtain ⟨t, ht⟩ := Option.ne_none_iff_exists'.mp h_slot
  obtain ⟨k', F', h_ok, h_inv, h_view, h_threads⟩ := Kernel.wakeup_spec h ht
  refine Or.inr ⟨st.setKernel k', F', by rw [wake, h_ok]; rfl, h_inv,
    .other ?_ ?_ ?_ ?_ rfl rfl ?_⟩
  · simp [setKernel, h_view, View.unblock, View.setSlot]
  · intro u hu
    -- a wakeup puts nobody to sleep
    by_cases h_u : u = t
    · subst h_u
      simp [setKernel, h_view, View.unblock, View.setSlot] at hu
    · exact Or.inl (by simpa [setKernel, h_view, View.unblock, View.setSlot, h_u] using hu)
  · simp [h_user]
  · intro u _ _
    rfl
  · simp [setKernel, h_threads]

omit [DecidableEq W] in
theorem start_cases (h : KernelInv st.kernel F) (h_user : st.ctx st.cur = .user) {t : T}
    (ht : t ∉ st.kernel.threads) (prio : BitVec 32) :
    st.Outcome F (.start t prio) (st.start t prio) := by
  obtain ⟨k', F', h_ok, h_inv, h_view, h_threads⟩ := Kernel.threadStart_spec h ht prio
  refine Or.inr ⟨{ st with kernel := k', ctx := Function.update st.ctx t .entry }, F',
    by rw [start, h_ok]; rfl, h_inv, .other ?_ ?_ ?_ ?_ rfl rfl ?_⟩
  · simp [h_view, View.unblock]
  · intro u hu
    by_cases h_u : u = t
    · subst h_u
      simp [h_view, View.unblock] at hu
    · exact Or.inl (by simpa [h_view, View.unblock, h_u] using hu)
  · simp [h_user]
  · intro u hu _
    -- the new thread is none of those that were created before
    have h_u : u ≠ t := fun h_eq => ht (h_eq ▸ hu)
    simp [h_u]
  · simp [h_threads]

omit [DecidableEq W] in
/-- A step that writes the interrupt flag and goes back to the thread's code. -/
theorem intr_cases (h : KernelInv st.kernel F) (a : SchedAct T S W)
    (h_cur : ∀ psem oldStatus, st.ctx st.cur ≠ .down psem oldStatus) (status : IntrStatus) :
    st.Outcome F a (.ok ((st.setCtx .user).setKernel { st.kernel with intr := status })) := by
  refine Or.inr ⟨_, F, rfl, h.of_eq rfl (fun _ => ⟨rfl, rfl⟩) rfl rfl rfl rfl,
    .other rfl (fun _ ht => Or.inl ht) h_cur (fun t _ h_ne => ?_) rfl rfl fun _ ht => ht⟩
  simp [setKernel, setCtx, h_ne]

omit [DecidableEq W] in
theorem intr_user_cases (h : KernelInv st.kernel F) (a : SchedAct T S W)
    (h_user : st.ctx st.cur = .user) (status : IntrStatus) :
    st.Outcome F a (.ok (st.setKernel { st.kernel with intr := status })) := by
  have h_set : st.setCtx .user = st := by
    rw [setCtx, ← h_user, Function.update_eq_self]
  have h_cases := intr_cases h a (by simp [h_user]) status
  rwa [h_set] at h_cases

omit [DecidableEq W] in
theorem resume_cases (h : KernelInv st.kernel F) : st.Outcome F .resume st.resume := by
  rw [resume]
  cases h_ctx : st.ctx st.cur with
  | user =>
    exact Or.inr ⟨st, F, rfl, h, .other rfl (fun _ ht => Or.inl ht) (by simp [h_ctx])
      (fun _ _ _ => rfl) rfl rfl fun _ ht => ht⟩
  | entry => exact intr_cases h .resume (by simp [h_ctx]) .on
  | preempted => exact intr_cases h .resume (by simp [h_ctx]) .on
  | down psem oldStatus =>
    exact downPass_cases h (Kernel.intrSetStatus_self st.kernel .off) (Or.inr h_ctx)
  | wait oldStatus =>
    dsimp only
    rw [Kernel.intrSetStatus_self]
    exact intr_cases h .resume (by simp [h_ctx]) oldStatus

omit [DecidableEq W] in
theorem rotate_cases (h : KernelInv st.kernel F) (h_user : st.ctx st.cur = .user)
    (h_ready : st.kernel.listEmpty .ready = false) : st.Outcome F .rotate (.ok st.rotate) := by
  rw [Kernel.listEmpty_eq h.toKernelCore] at h_ready
  obtain ⟨t, ts, h_head⟩ : ∃ t ts, F .ready = t :: ts :=
    List.exists_cons_of_ne_nil (by simpa using h_ready)
  obtain ⟨h_pop, h_rep⟩ := Kernel.listPop_eq h.rep h_head
  have h_t : t ∈ F .ready := h_head ▸ List.mem_cons_self
  -- between the two operations `t` is in no list but `thread_all_list`
  have h_free : ∀ i : ListId S, i ≠ .all → t ∉ Function.update F .ready ts i := by
    intro i hi h_in
    by_cases h_i : i = .ready
    · subst h_i
      have h_nodup := h.nodup .ready
      rw [h_head] at h_nodup
      exact (List.nodup_cons.mp h_nodup).1 (by simpa using h_in)
    · rw [Function.update_of_ne h_i] at h_in
      exact h_i (h.one_list hi (by simp) h_in h_t)
  set links := (st.kernel.links.unlink (.general t)).insertBefore .readyTail (.general t)
  set F₁ := Function.update F .ready ts with hF₁
  have h_rep' : LinkHeap.Rep links ListId.head ListId.tail
      (tags (Function.update F₁ .ready (F₁ .ready ++ [t]))) :=
    Kernel.append_rep (k := { st.kernel with links := st.kernel.links.unlink (.general t) })
      h_rep .ready (general_notMem h_free)
  have h_eq : st.rotate = st.setKernel { st.kernel with links := links } := by
    rw [rotate, h_pop]
    dsimp only
    rw [Kernel.listAppend_eq]
    rfl
  rw [h_eq]
  refine Or.inr ⟨_, Function.update F₁ .ready (F₁ .ready ++ [t]), rfl, ?_,
    .other ?_ (fun _ hu => Or.inl hu) (by simp [h_user]) (fun _ _ _ => rfl) rfl rfl
      fun _ hu => hu⟩
  · refine h.of_lists h_rep' (by simp [hF₁]) (fun u => ?_) (by simp [hF₁])
    simp [hF₁, h_head, or_comm]
  · simp [setKernel, Kernel.view, hF₁]

/-- **What a step can do.** -/
theorem exec_cases {value : S → BitVec 8} (h : KernelInv st.kernel F) {a : SchedAct T S W}
    (h_enabled : (schedSys value).enabled st a) :
    st.Outcome F a ((schedSys value).exec st a) := by
  cases a with
  | timer => exact timer_cases h h_enabled.1
  | down psem =>
    have h_off : st.kernel.intrDisable.2 = { st.kernel with intr := .off } := rfl
    exact downPass_cases h h_off (Or.inl h_enabled)
  | up psem => exact up_cases h psem
  | wait waiter => exact wait_cases h h_enabled waiter
  | wake waiter => exact wake_cases h h_enabled.1 h_enabled.2
  | start thread prio => exact start_cases h h_enabled.1 h_enabled.2 prio
  | enable => exact intr_user_cases h .enable h_enabled .on
  | disable => exact intr_user_cases h .disable h_enabled .off
  | resume => exact resume_cases h
  | rotate => exact rotate_cases h h_enabled.1 h_enabled.2

end SchedState

/-! ### The invariant -/

variable {value : S → BitVec 8}

theorem schedSys_init {st : SchedState T S W} (h : (schedSys value).init st) :
    KernelInv st.kernel (Function.update (fun _ => []) .all [st.cur]) ∧
      st.kernel.threads = [st.cur] ∧ st.kernel.value = value := by
  obtain ⟨-, -, -, k, h_threads, h_slot, rfl, h_wait, h_ok⟩ := h
  obtain ⟨k', h_ok', h_inv, h_thr, h_value⟩ := Kernel.threadInit_spec h_threads h_slot h_wait
  have h_k : k' = st.kernel := Except.ok.inj (h_ok'.symm.trans h_ok)
  subst h_k
  have h_cur : st.cur = k.cur := by
    have h_mem := h_inv.cur_mem
    rw [h_thr] at h_mem
    exact List.mem_singleton.mp h_mem
  rw [h_cur]
  exact ⟨h_inv, h_thr, h_value⟩

/-- **The scheduler invariant.** -/
theorem schedSys_inv {st : SchedState T S W} (h : (schedSys value).Reachable st) :
    ∃ F, KernelInv st.kernel F := by
  refine h.invariant (P := fun st => ∃ F, KernelInv st.kernel F) (fun st h_init => ?_) ?_
  · exact ⟨_, (schedSys_init h_init).1⟩
  · rintro st a st' ⟨F, hF⟩ ⟨h_enabled, h_exec⟩
    rcases SchedState.exec_cases hF h_enabled with ⟨e, -, h_err⟩ | ⟨st₁, F', h_ok, h_inv, -⟩
    · rw [h_exec] at h_err
      cases h_err
    · obtain rfl : st' = st₁ := Except.ok.inj (h_exec.symm.trans h_ok)
      exact ⟨F', h_inv⟩

/-- What the lists, the status fields and the running thread have to do with each
other. `F` gives the threads of each list. -/
structure SchedSafe (k : Kernel T S W) (F : ListId S → List T) : Prop where
  /-- The link cells hold the lists `F`, and no node is in two of them. -/
  lists : LinkHeap.Rep k.links ListId.head ListId.tail (tags F)
  created : F .all = k.threads
  /-- Exactly one thread runs, the current one. -/
  running : k.cur ∈ k.threads ∧
    ∀ t ∈ k.threads, (k.task t).status = .running ↔ t = k.cur
  /-- The ready list holds exactly the ready threads, each once. -/
  ready : (F .ready).Nodup ∧ ∀ t, t ∈ F .ready ↔ t ∈ k.threads ∧ (k.task t).status = .ready
  blocked : ∀ t, (k.task t).status = .blocked → t ∉ F .ready
  /-- `general_tag` is in one list at most. -/
  one_list : ∀ i j t, i ≠ .all → j ≠ .all → t ∈ F i → t ∈ F j → i = j

/-- In every run from `thread_init`, the lists and the status fields fit
together, and no `ASSERT` fails but those of `SchedAllowed`. -/
theorem scheduler_invariant (value : S → BitVec 8) {st : SchedState T S W}
    (h : (schedSys value).Reachable st) :
    (∃ F, SchedSafe st.kernel F) ∧
    ∀ a e, (schedSys value).Faults st a e → ∃ b, SchedAllowed b ∧ e = .assertion b := by
  obtain ⟨F, hF⟩ := schedSys_inv h
  constructor
  · refine ⟨F, hF.rep, hF.all_eq, ⟨hF.cur_mem, fun t ht => ⟨hF.running t ht, ?_⟩⟩,
      ⟨hF.nodup _, hF.ready⟩, fun t ht h_mem => ?_, fun i j t => hF.one_list⟩
    · rintro rfl
      exact hF.cur_running
    · -- a thread in the ready list is ready, so it is not blocked
      rw [((hF.ready t).mp h_mem).2] at ht
      cases ht
  · rintro a e ⟨h_enabled, h_err⟩
    rcases SchedState.exec_cases hF h_enabled with ⟨b, h_b, h_exec⟩ | ⟨st', F', h_ok, -⟩
    · exact ⟨b, h_b, Except.error.inj (h_err.symm.trans h_exec)⟩
    · rw [h_err] at h_ok
      cases h_ok

/-- The memory before `thread_init`, with the semaphores and slots initialised,
on the stack of the thread that becomes the main thread. -/
def bootKernel (cur : T) (value : S → BitVec 8) : Kernel T S W where
  links
    | .waitHead s => ⟨.null, .waitTail s⟩
    | .waitTail s => ⟨.waitHead s, .null⟩
    | _ => ⟨.null, .null⟩
  task _ := ⟨.died, 0, 0, 0, 0⟩
  cur := cur
  mainThread := none
  intr := .off
  ticks := 0
  value := value
  slot _ := none
  threads := []

/-- The state that `thread_init` leaves. -/
def bootState (cur : T) (value : S → BitVec 8) : SchedState T S W where
  kernel := ((bootKernel cur value).threadInit).toOption.getD (bootKernel cur value)
  ctx _ := .user
  woken _ := []
  own _ _ := 0

theorem bootState_init (cur : T) (value : S → BitVec 8) :
    (schedSys value).init (bootState cur value : SchedState T S W) := by
  have h_wait (s : S) : (bootKernel cur value : Kernel T S W).links.Linked
      (.waitHead s) (.waitTail s) := ⟨rfl, rfl⟩
  obtain ⟨k, h_ok, -⟩ := Kernel.threadInit_spec (k := (bootKernel cur value : Kernel T S W))
    rfl (fun _ => rfl) h_wait
  refine ⟨rfl, rfl, rfl, bootKernel cur value, rfl, fun _ => rfl, rfl, h_wait, ?_⟩
  simp [bootState, h_ok, Except.toOption]

/-- Three threads: the main thread holds the semaphore and sleeps in a slot, the
second sleeps in the semaphore, the third runs. -/
theorem scheduler_invariant_three : ∃ st : SchedState (Fin 3) Unit Unit,
    st.cur = 2 ∧ st.kernel.slot () = some 0 ∧ (st.kernel.task 1).status = .blocked ∧
    ∃ F, SchedSafe st.kernel F := by
  have h := Machine.Reachable.play (M := schedSys (T := Fin 3) (W := Unit) fun _ : Unit => 1)
    (.init (bootState_init 0 _))
    [.start 1 31, .start 2 31, .down (), .wait (), .resume, .down (), .resume] rfl
  exact ⟨_, rfl, rfl, rfl, (scheduler_invariant _ h).1⟩

end ToiletOS
