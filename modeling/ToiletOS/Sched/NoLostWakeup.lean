import ToiletOS.Sched.SchedSafety

/-!
# No lost wakeup

`semaphore_up` wakes the first waiter and gives the unit back for whoever tests
the value first; the woken thread may be overtaken and has to sleep again. Still a
unit never lies idle while threads wait: there is then a thread on the way to test
the value. It is in the ready list, or the switch to it is being made
(`woken_thread_runs`).

`WakeInv` ties this to the ghosts. As long as `semaphore_up` is called only by a
thread that owns the unit, the unit is either free or owned by exactly one thread
(`count`), so that an up always finds the value 0. It is the only step that makes
the value 1, and if somebody waits then it puts a thread into `woken`
(`progress`). A thread leaves `woken` only by testing the value, and this leaves
the value 0 in any case: it takes the unit, or it finds it taken.
-/

namespace ToiletOS

variable {T S W : Type} [DecidableEq T] [DecidableEq S] [DecidableEq W]

/-- `semaphore_up` on `s` is called only by a thread that completed a
`semaphore_down` on `s` and did not undo it. -/
def UpByOwner (s : S) (st : SchedState T S W) : SchedAct T S W → Prop
  | .up psem => psem = s → 0 < st.own st.cur s
  | _ => True

instance (s : S) (st : SchedState T S W) : ∀ a, Decidable (UpByOwner s st a)
  | .up psem => inferInstanceAs (Decidable (psem = s → 0 < st.own st.cur s))
  | .timer | .down _ | .wait _ | .wake _ | .start _ _ | .enable | .disable | .resume
  | .rotate => isTrue trivial

/-- The invariant of a binary semaphore `s` in a state with the view `v`. -/
structure WakeInv (s : S) (st : SchedState T S W) (v : View T S W) : Prop where
  sleeping : ∀ t ∈ (v.sem s).waiters, ∃ oldStatus, st.ctx t = .down s oldStatus
  woken : ∀ t ∈ st.woken s, t ∈ st.kernel.threads ∧ v.status t ≠ .blocked ∧
    ∃ oldStatus, st.ctx t = .down s oldStatus
  /-- The unit is free, or one thread owns it. -/
  count : (v.sem s).value = 1 ∧ (∀ t, st.own t s = 0) ∨
    (v.sem s).value = 0 ∧ ∃ o, st.own o s = 1 ∧ ∀ t, t ≠ o → st.own t s = 0
  progress : (v.sem s).value = 1 → (v.sem s).waiters ≠ [] → st.woken s ≠ []

section Steps

variable {s : S} {st st' : SchedState T S W} {v v' : View T S W}

omit [DecidableEq T] [DecidableEq S] [DecidableEq W] in
/-- A step that leaves the semaphore alone. -/
theorem WakeInv.frame (hI : WakeInv s st v) (h_sem : v'.sem s = v.sem s)
    (h_ctx : ∀ t ∈ st.kernel.threads, ∀ oldStatus, st.ctx t = .down s oldStatus →
      st'.ctx t = st.ctx t)
    (h_waiters : ∀ t ∈ (v.sem s).waiters, t ∈ st.kernel.threads)
    (h_status : ∀ t ∈ st.woken s, v'.status t ≠ .blocked)
    (h_woken : st'.woken s = st.woken s) (h_own : ∀ t, st'.own t s = st.own t s)
    (h_threads : st.kernel.threads ⊆ st'.kernel.threads) : WakeInv s st' v' where
  sleeping t ht := by
    rw [h_sem] at ht
    obtain ⟨oldStatus, h_t⟩ := hI.sleeping t ht
    exact ⟨oldStatus, (h_ctx t (h_waiters t ht) oldStatus h_t).trans h_t⟩
  woken t ht := by
    rw [h_woken] at ht
    obtain ⟨h_mem, -, oldStatus, h_t⟩ := hI.woken t ht
    exact ⟨h_threads h_mem, h_status t ht, oldStatus, (h_ctx t h_mem oldStatus h_t).trans h_t⟩
  count := by simpa only [h_sem, h_own] using hI.count
  progress := by simpa only [h_sem, h_woken] using hI.progress

omit [DecidableEq W] in
/-- A pass of `semaphore_down` on the semaphore leaves the value 0: it takes the
unit, or it finds it taken and sleeps. -/
theorem WakeInv.down (hI : WakeInv s st v) {taken : Bool} {oldStatus : IntrStatus}
    (h_free : st.cur ∉ (v.sem s).waiters)
    (h_view : v.semaphoreDown st.cur s = .ok (taken, v'))
    (h_ctx : st'.ctx =
      Function.update st.ctx st.cur (if taken then .user else .down s oldStatus))
    (h_woken : st'.woken = Function.update st.woken s ((st.woken s).filter (· ≠ st.cur)))
    (h_own : st'.own = Function.update st.own st.cur (Function.update (st.own st.cur) s
      (st.own st.cur s + if taken then 1 else 0)))
    (h_threads : st'.kernel.threads = st.kernel.threads) : WakeInv s st' v' := by
  -- the other threads are where they were
  have h_ctx_ne {t : T} (h_t : t ≠ st.cur) : st'.ctx t = st.ctx t := by
    rw [h_ctx, Function.update_of_ne h_t]
  have h_woken' (t : T) (ht : t ∈ st'.woken s) : t ∈ st'.kernel.threads ∧
      v'.status t ≠ .blocked ∧ ∃ oldStatus, st'.ctx t = .down s oldStatus := by
    rw [h_woken, Function.update_self, List.mem_filter] at ht
    have h_t : t ≠ st.cur := by simpa using ht.2
    obtain ⟨h_mem, h_awake, h_down⟩ := hI.woken t ht.1
    rw [h_threads, (View.semaphoreDown_frame h_free h_view).2 t h_t, h_ctx_ne h_t]
    exact ⟨h_mem, h_awake, h_down⟩
  have h_own_ne {t : T} (h_t : t ≠ st.cur) : st'.own t s = st.own t s := by
    rw [h_own, Function.update_of_ne h_t]
  have h_own_cur : st'.own st.cur s = st.own st.cur s + if taken then 1 else 0 := by
    rw [h_own, Function.update_self, Function.update_self]
  rcases hI.count with ⟨h_one, h_none⟩ | ⟨h_zero, o, h_o, h_others⟩
  · -- the unit is free and is taken
    rw [View.semaphoreDown_free st.cur h_one] at h_view
    obtain ⟨rfl, rfl⟩ : taken = true ∧ v' = _ := by simpa [eq_comm] using h_view
    refine ⟨fun t ht => ?_, h_woken', Or.inr ⟨by simp [View.setSem], st.cur, ?_, ?_⟩, ?_⟩
    · have ht : t ∈ (v.sem s).waiters := by simpa [View.setSem] using ht
      rw [h_ctx_ne fun h_t => h_free (h_t ▸ ht)]
      exact hI.sleeping t ht
    · rw [h_own_cur, h_none, if_pos rfl]
    · intro t h_t
      rw [h_own_ne h_t, h_none]
    · simp [View.setSem]
  · -- the unit is taken and the thread sleeps
    rw [View.semaphoreDown_taken h_zero h_free] at h_view
    obtain ⟨rfl, rfl⟩ : taken = false ∧ v' = _ := by simpa [eq_comm] using h_view
    refine ⟨fun t ht => ?_, h_woken', Or.inr ⟨by simp [View.block, View.setSem], o, ?_, ?_⟩, ?_⟩
    · by_cases h_t : t = st.cur
      · subst h_t
        exact ⟨oldStatus, by rw [h_ctx, Function.update_self]; rfl⟩
      · rw [h_ctx_ne h_t]
        exact hI.sleeping t (by simpa [View.block, View.setSem, h_t] using ht)
    · by_cases h_t : o = st.cur
      · subst h_t; rw [h_own_cur, h_o]; rfl
      · rw [h_own_ne h_t, h_o]
    · intro t h_ne
      by_cases h_t : t = st.cur
      · subst h_t; rw [h_own_cur, h_others _ h_ne]; rfl
      · rw [h_own_ne h_t, h_others t h_ne]
    · simp [View.block, View.setSem]

omit [DecidableEq W] in
/-- `semaphore_up` on the semaphore by the owner of the unit. -/
theorem WakeInv.up (hI : WakeInv s st v) (h_owner : 0 < st.own st.cur s)
    (h_waiters : ∀ t ∈ (v.sem s).waiters, t ∈ st.kernel.threads ∧ v.status t = .blocked)
    (h_view : v.semaphoreUp s = .ok v') (h_ctx : st'.ctx = st.ctx)
    (h_woken : st'.woken = Function.update st.woken s
      ((v.sem s).waiters.head?.toList ++ st.woken s))
    (h_own : st'.own = Function.update st.own st.cur (Function.update (st.own st.cur) s
      (st.own st.cur s - 1)))
    (h_threads : st'.kernel.threads = st.kernel.threads) : WakeInv s st' v' := by
  -- only the owner has a completed down, so the value is 0 and nobody owns the unit next
  obtain ⟨h_zero, h_one, h_others⟩ : (v.sem s).value = 0 ∧ st.own st.cur s = 1 ∧
      ∀ t, t ≠ st.cur → st.own t s = 0 := by
    rcases hI.count with ⟨-, h_none⟩ | ⟨h_zero, o, h_o, h_others⟩
    · rw [h_none] at h_owner
      exact absurd h_owner (Nat.lt_irrefl 0)
    · have h_cur : st.cur = o := by
        by_contra h_ne
        rw [h_others _ h_ne] at h_owner
        exact Nat.lt_irrefl 0 h_owner
      rw [h_cur]
      exact ⟨h_zero, h_o, h_others⟩
  have h_none (t : T) : st'.own t s = 0 := by
    rw [h_own]
    by_cases h_t : t = st.cur
    · subst h_t; simp [h_one]
    · rw [Function.update_of_ne h_t, h_others t h_t]
  have h_frame := View.semaphoreUp_frame (fun t ht => (h_waiters t ht).2) h_view
  -- the threads that were woken before are still on the way
  have h_old (t : T) (ht : t ∈ st.woken s) : t ∈ st'.kernel.threads ∧
      v'.status t ≠ .blocked ∧ ∃ oldStatus, st'.ctx t = .down s oldStatus := by
    obtain ⟨h_mem, h_awake, h_down⟩ := hI.woken t ht
    rw [h_threads, h_ctx]
    exact ⟨h_mem, fun h_b => h_awake (h_frame.2 t h_b), h_down⟩
  cases h_wait : (v.sem s).waiters with
  | nil =>
    rw [View.semaphoreUp_nil h_zero h_wait] at h_view
    obtain rfl : v' = _ := by simpa [eq_comm] using h_view
    refine ⟨by simp [View.setSem], fun t ht => h_old t ?_, Or.inl ⟨by simp [View.setSem], h_none⟩,
      by simp [View.setSem]⟩
    simpa [h_woken, h_wait] using ht
  | cons w ws =>
    -- the first waiter is woken, and is one of them now
    have h_w : w ∈ (v.sem s).waiters := h_wait ▸ List.mem_cons_self
    rw [View.semaphoreUp_cons h_zero h_wait (h_waiters w h_w).2] at h_view
    obtain rfl : v' = _ := by simpa [eq_comm] using h_view
    refine ⟨fun t ht => ?_, fun t ht => ?_, Or.inl ⟨by simp [View.unblock, View.setSem], h_none⟩,
      fun _ _ => by simp [h_woken, h_wait]⟩
    · have ht : t ∈ ws := by simpa [View.unblock, View.setSem] using ht
      rw [h_ctx]
      exact hI.sleeping t (h_wait ▸ List.mem_cons_of_mem w ht)
    · rw [h_woken, Function.update_self, h_wait] at ht
      rcases List.mem_append.mp ht with h_head | h_t
      · obtain rfl : t = w := by simpa using h_head
        rw [h_threads, h_ctx]
        exact ⟨(h_waiters t h_w).1, by simp [View.unblock], hI.sleeping t h_w⟩
      · exact h_old t h_t

omit [DecidableEq W] in
/-- Every step keeps the invariant. -/
theorem WakeInv.step {F : ListId S → List T} {a : SchedAct T S W}
    (hF : KernelInv st.kernel F) (hI : WakeInv s st (st.kernel.view F))
    (h_guard : UpByOwner s st a) (h_effect : SchedEffect st (st.kernel.view F) st' v' a) :
    WakeInv s st' v' := by
  have h_waiters (psem : S) : ∀ t ∈ ((st.kernel.view F).sem psem).waiters,
      t ∈ st.kernel.threads ∧ (st.kernel.view F).status t = .blocked := fun t ht =>
    ⟨(hF.waiting psem t ht).1, Kernel.asleep_eq_blocked.mpr (hF.waiting psem t ht).2⟩
  have h_free (psem : S) : st.cur ∉ ((st.kernel.view F).sem psem).waiters :=
    hF.cur_free _ (by simp)
  cases h_effect with
  | down psem oldStatus taken h_cur h_view h_ctx h_woken h_own h_threads =>
    by_cases h_s : psem = s
    · subst h_s
      exact hI.down (h_free psem) h_view h_ctx h_woken h_own h_threads
    · -- a pass on another semaphore; the running thread is not in the loop for `s`
      have h_frame := View.semaphoreDown_frame (h_free psem) h_view
      have h_ne {t : T} {old : IntrStatus} (ht : st.ctx t = .down s old) : t ≠ st.cur := by
        rintro rfl
        rcases h_cur with h_user | h_down
        · rw [h_user] at ht
          cases ht
        · rw [h_down] at ht
          cases ht
          exact h_s rfl
      refine hI.frame (h_frame.1 s (Ne.symm h_s)) (fun t _ old ht => ?_)
        (fun t ht => (h_waiters s t ht).1) (fun t ht => ?_) ?_ (fun t => ?_)
        (by rw [h_threads]; exact List.Subset.refl _)
      · rw [h_ctx, Function.update_of_ne (h_ne ht)]
      · obtain ⟨-, h_awake, old, h_t⟩ := hI.woken t ht
        rwa [h_frame.2 t (h_ne h_t)]
      · rw [h_woken, Function.update_of_ne (Ne.symm h_s)]
      · rw [h_own]
        by_cases h_t : t = st.cur
        · subst h_t; simp [Ne.symm h_s]
        · rw [Function.update_of_ne h_t]
  | up psem h_view h_ctx h_woken h_own h_threads =>
    by_cases h_s : psem = s
    · subst h_s
      exact hI.up (h_guard rfl) (h_waiters psem) h_view h_ctx h_woken h_own h_threads
    · -- an up on another semaphore wakes nobody who waits for `s`
      have h_frame := View.semaphoreUp_frame (fun t ht => (h_waiters psem t ht).2) h_view
      refine hI.frame (h_frame.1 s (Ne.symm h_s)) (fun t _ _ _ => by rw [h_ctx])
        (fun t ht => (h_waiters s t ht).1) (fun t ht h_b => ?_) ?_ (fun t => ?_)
        (by rw [h_threads]; exact List.Subset.refl _)
      · exact (hI.woken t ht).2.1 (h_frame.2 t h_b)
      · rw [h_woken, Function.update_of_ne (Ne.symm h_s)]
      · rw [h_own]
        by_cases h_t : t = st.cur
        · subst h_t; simp [Ne.symm h_s]
        · rw [Function.update_of_ne h_t]
  | other h_sem h_status h_cur h_ctx h_woken h_own h_threads =>
    have h_ne {t : T} {old : IntrStatus} (ht : st.ctx t = .down s old) : t ≠ st.cur := by
      rintro rfl
      exact h_cur s old ht
    refine hI.frame (by rw [h_sem]) (fun t h_mem old ht => h_ctx t h_mem (h_ne ht))
      (fun t ht => (h_waiters s t ht).1) (fun t ht h_b => ?_) (by rw [h_woken])
      (fun t => by rw [h_own]) h_threads
    -- a thread that is put to sleep here was not in the loop for `s`
    obtain ⟨-, h_awake, old, h_t⟩ := hI.woken t ht
    exact h_awake ((h_status t h_b).resolve_right (h_ne h_t))

end Steps

/-- Both invariants hold in every run with ups by owners. -/
theorem wakeInv_of_reachable {value : S → BitVec 8} {s : S} (h_value : value s = 1)
    {st : SchedState T S W} (h : ((schedSys value).guard (UpByOwner s)).Reachable st) :
    ∃ F, KernelInv st.kernel F ∧ WakeInv s st (st.kernel.view F) := by
  refine h.invariant
    (P := fun st => ∃ F, KernelInv st.kernel F ∧ WakeInv s st (st.kernel.view F))
    (fun st h_init => ?_) ?_
  · obtain ⟨h_inv, -, h_val⟩ := schedSys_init h_init
    obtain ⟨-, h_woken, h_own, -⟩ := h_init
    -- at the start the unit is free, and nobody waits, owns it or was woken
    have h_one : st.kernel.value s = 1 := by rw [h_val, h_value]
    exact ⟨_, h_inv, by simp [Kernel.view], by simp [h_woken],
      Or.inl ⟨h_one, by simp [h_own]⟩, by simp [Kernel.view]⟩
  · rintro st a st' ⟨F, hF, hI⟩ h_step
    obtain ⟨⟨h_enabled, h_exec⟩, h_guard⟩ := Machine.guard_step_iff.mp h_step
    rcases SchedState.exec_cases hF h_enabled with ⟨e, -, h_err⟩ | ⟨st₁, F', h_ok, hF', h_effect⟩
    · rw [h_exec] at h_err
      cases h_err
    · obtain rfl : st' = st₁ := Except.ok.inj (h_exec.symm.trans h_ok)
      exact ⟨F', hF', hI.step hF h_guard h_effect⟩

/-- `t` was popped from the waiters of `s`, has not tested the value since, and is
ready and in the ready list. -/
def OnTheWay (s : S) (st : SchedState T S W) (t : T) : Prop :=
  t ∈ st.woken s ∧ (∃ oldStatus, st.ctx t = .down s oldStatus) ∧
    (st.kernel.task t).status = .ready ∧ st.kernel.listFind .ready (.general t) = .ok true

/-- **No lost wakeup.** If a binary semaphore is free while threads wait, a woken
thread is on the way to test it. In the middle of a switch, before the new thread
is back in its own code, this may be the very thread that is switched to. -/
theorem no_lost_wakeup (value : S → BitVec 8) (s : S) (h_value : value s = 1)
    {st : SchedState T S W} (h : ((schedSys value).guard (UpByOwner s)).Reachable st)
    (h_free : st.kernel.value s = 1) (h_wait : st.kernel.listEmpty (.wait s) = false) :
    (st.ctx st.cur = .user → ∃ t, OnTheWay s st t) ∧
      ∃ t ∈ st.woken s, OnTheWay s st t ∨
        t = st.cur ∧ ∃ oldStatus, st.ctx t = .down s oldStatus := by
  obtain ⟨F, hF, hI⟩ := wakeInv_of_reachable h_value h
  have h_ne : F (.wait s) ≠ [] := by
    rw [Kernel.listEmpty_eq hF.toKernelCore] at h_wait
    simpa using h_wait
  -- the unit is free and somebody waits, so a woken thread is left
  obtain ⟨t, ht⟩ := List.exists_mem_of_ne_nil _ (hI.progress h_free h_ne)
  obtain ⟨h_mem, h_awake, old, h_t⟩ := hI.woken t ht
  -- awake and not running is ready
  have h_way (h_cur : t ≠ st.cur) : OnTheWay s st t := by
    have h_ready : (st.kernel.task t).status = .ready := by
      rcases hF.status_cases t h_mem with h_run | h_ready | h_blocked
      · exact absurd (hF.running t h_mem h_run) h_cur
      · exact h_ready
      · exact absurd (Kernel.asleep_eq_blocked.mpr h_blocked) h_awake
    have h_in : t ∈ F .ready := (hF.ready t).mpr ⟨h_mem, h_ready⟩
    have h_find := Kernel.listFind_eq hF.rep (i := .ready) (hF.length_le _) t
    rw [decide_eq_true h_in] at h_find
    exact ⟨ht, ⟨old, h_t⟩, h_ready, h_find⟩
  refine ⟨fun h_user => ⟨t, h_way ?_⟩, t, ht, ?_⟩
  · rintro rfl
    rw [h_user] at h_t
    cases h_t
  · by_cases h_cur : t = st.cur
    · exact Or.inr ⟨h_cur, old, h_t⟩
    · exact Or.inl (h_way h_cur)

/-- Two threads wait while a third gives the unit back: the unit is free, one of
them waits on, and the other is on its way. -/
theorem no_lost_wakeup_three : ∃ st : SchedState (Fin 3) Unit Unit,
    st.kernel.value () = 1 ∧ st.kernel.listEmpty (.wait ()) = false ∧
      ∃ t, OnTheWay () st t := by
  have h := Machine.Reachable.play
    (M := (schedSys (T := Fin 3) (W := Unit) fun _ : Unit => 1).guard (UpByOwner ()))
    (.init (bootState_init 0 _))
    [.start 1 31, .start 2 31, .down (), .wait (), .resume, .down (), .resume, .wake (),
      .down (), .resume, .up ()] rfl
  exact ⟨_, rfl, rfl, (no_lost_wakeup _ () rfl h rfl rfl).1 rfl⟩

/-- The timer takes the processor away from the thread that has given the unit back and switches to
the one it woke: that one is running and has not tested the value yet, and nobody is on the way in
the ready list. -/
theorem woken_thread_runs : ∃ st : SchedState (Fin 3) Unit Unit,
    ((schedSys fun _ : Unit => 1).guard (UpByOwner ())).Reachable st ∧
      st.kernel.value () = 1 ∧ st.kernel.listEmpty (.wait ()) = false ∧
      ¬ ∃ t, OnTheWay () st t := by
  have h_init : ((schedSys (T := Fin 3) (W := Unit) fun _ : Unit => 1).guard
      (UpByOwner ())).Reachable _ := .init (bootState_init 0 _)
  have h_play : ((((schedSys (T := Fin 3) (W := Unit) fun _ : Unit => 1).guard
      (UpByOwner ())).play (bootState 0 fun _ => 1) ([.start 1 31, .start 2 31, .enable] ++
        [.down ()] ++ List.replicate 32 .timer ++
        [.resume, .down (), .resume, .down (), .resume, .up ()] ++
        List.replicate 32 .timer)).any fun st => decide (st.kernel.value () = 1 ∧
      st.kernel.listEmpty (.wait ()) = false ∧ st.woken () = [1] ∧
      (st.kernel.task 1).status = .running)) = true := by
    decide +kernel
  obtain ⟨st, h_st, h_any⟩ := (Option.any_eq_true _ _).mp h_play
  obtain ⟨h_value, h_wait, h_woken, h_running⟩ := of_decide_eq_true h_any
  refine ⟨st, h_init.play _ h_st, h_value, h_wait, ?_⟩
  rintro ⟨t, h_t, -, h_ready, -⟩
  -- the only thread that was woken is the one that runs
  obtain rfl : t = 1 := by simpa [h_woken] using h_t
  rw [h_running] at h_ready
  cases h_ready

end ToiletOS
