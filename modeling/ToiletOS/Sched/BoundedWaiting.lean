import Mathlib.Algebra.BigOperators.Group.List.Basic
import ToiletOS.Framework.WaitingLine
import ToiletOS.Sched.TimeSlices

/-!
# How long a ready thread waits

The ready list is a waiting line: `schedule` serves its head, threads that are new or have used up
their time slice join at the end. But `thread_unblock` pushes the thread that it wakes, so those who
wake up overtake everybody else.

`Moves` says once what any step of the kernel does to the line, to the time slice of the running
thread and to the counters of the clock. From it, by induction over a run, a ready thread waits
for at most as many calls of `schedule` as there are threads ahead of it and threads that have been
woken since (`bounded_waiting`), and every timer interrupt is charged to the thread that ran
(`interrupts_charged`).
-/

namespace ToiletOS

variable {T S W : Type} [DecidableEq T] [DecidableEq S] [DecidableEq W]

/-- How many steps of a run satisfy `p`, which sees the state before the step. -/
def tally {σ α : Type} (p : σ → α → Bool) (s : σ) : List (α × σ) → ℕ
  | [] => 0
  | (a, s') :: tr => (p s a).toNat + tally p s' tr

theorem tally_append {σ α ε : Type} {M : Machine σ α ε} {p : σ → α → Bool} {s s' : σ}
    {tr tr' : List (α × σ)} (h : M.Run s tr s') :
    tally p s (tr ++ tr') = tally p s tr + tally p s' tr' := by
  induction h with
  | nil s => simp [tally]
  | cons h_step h_rest ih => rw [List.cons_append, tally, tally, ih, Nat.add_assoc]

/-- A computation that runs through has run through its first part. -/
theorem bind_eq_ok {ε α β : Type} {x : Except ε α} {f : α → Except ε β} {b : β}
    (h : x >>= f = .ok b) : ∃ a, x = .ok a ∧ f a = .ok b := by
  cases x with
  | error e => cases h
  | ok a => exact ⟨a, rfl, h⟩

/-! ### What is counted -/

/-- A timer interrupt. -/
def SchedAct.isTimer : SchedAct T S W → Bool
  | .timer => true
  | _ => false

/-- The step is one of the kernel, which keeps the order of its ready threads. -/
def SchedAct.IsKernel : SchedAct T S W → Prop
  | .rotate => False
  | _ => True

instance : DecidablePred (SchedAct.IsKernel : SchedAct T S W → Prop)
  | .rotate => inferInstanceAs (Decidable False)
  | .timer | .down _ | .up _ | .wait _ | .wake _ | .start _ _ | .enable | .disable | .resume =>
    inferInstanceAs (Decidable True)

namespace SchedState

/-- The step calls `schedule`. -/
def schedules (st : SchedState T S W) : SchedAct T S W → Bool
  | .timer => decide ((st.kernel.task st.cur).ticks = 0)
  | .down psem => decide (st.kernel.value psem = 0)
  | .wait _ => true
  | .resume =>
    match st.ctx st.cur with
    | .down psem _ => decide (st.kernel.value psem = 0)
    | _ => false
  | _ => false

/-- The step makes a sleeping thread ready. -/
def wakes (st : SchedState T S W) : SchedAct T S W → Bool
  | .up psem => !st.kernel.listEmpty (.wait psem)
  | .wake _ => true
  | _ => false

/-- The timer interrupts `t`. -/
def charges (t : T) (st : SchedState T S W) (a : SchedAct T S W) : Bool :=
  a.isTimer && decide (st.cur = t)

end SchedState

/-! ### What a step does -/

namespace Kernel

variable {k : Kernel T S W} {F : ListId S → List T}

/-- The kernel after the running thread has gone to sleep in the slot `waiter`. -/
def asleepIn (k : Kernel T S W) (waiter : W) : Kernel T S W :=
  { k with
    intr := .off, task := setStatusOf k.task k.cur .blocked
    slot := Function.update k.slot waiter (some k.cur) }

/-- `queue_wait`: the caller sleeps in its slot, and the second half of `schedule` follows. -/
theorem queueWait_eq (h : KernelInv k F) (waiter : W) :
    k.queueWait waiter = ((k.asleepIn waiter).scheduleIn >>= fun k' => .ok (k.intr, k')) ∧
      KernelCore (k.asleepIn waiter) F ∧
      ((k.asleepIn waiter).task (k.asleepIn waiter).cur).status ≠ .running := by
  have h_status : ((k.asleepIn waiter).task (k.asleepIn waiter).cur).status = .blocked := by
    simp [asleepIn]
  -- the caller runs, so no slot can name it yet
  have h_none (w : W) : k.slot w ≠ some k.cur := by
    intro h_w
    have h_blocked := (h.slots w _ h_w).2.1
    rw [h.cur_running] at h_blocked
    cases h_blocked
  have h_at {w : W} (hw : Function.update k.slot waiter (some k.cur) w = some k.cur) :
      w = waiter := by
    by_contra h_w
    exact h_none w (by simpa [h_w] using hw)
  have h_core : KernelCore { k.asleepIn waiter with intr := k.intr } F := by
    refine h.sleep h.rep rfl rfl (fun s t ht => Or.inl ht) (fun w t hw => ?_) fun w w' hw hw' => ?_
    · by_cases h_w : w = waiter
      · subst h_w
        have h_t : k.cur = t := by simpa [asleepIn] using hw
        exact Or.inr ⟨h_t.symm, fun s => h.cur_free _ (by simp)⟩
      · exact Or.inl (by simpa [asleepIn, h_w] using hw)
    · rw [h_at hw, h_at hw']
  refine ⟨?_, h_core.setIntr .off, by simp [h_status]⟩
  -- the thread is blocked, so `schedule` does not put it back into the ready list
  have h_sched : (k.asleepIn waiter).schedule = (k.asleepIn waiter).scheduleIn := by
    rw [schedule, assert_pos (by rfl), scheduleOut]
    simp [h_status]
  rw [queueWait, threadBlock, assert_pos TaskStatus.asleep_blocked, ← h_sched]
  rfl

/-- `wakeup` moves the thread in the slot to the head of the ready list. -/
theorem wakeup_eq (h : KernelInv k F) {waiter : W} {t : T} (h_slot : k.slot waiter = some t) :
    ∃ links, k.wakeup waiter = .ok { k with
        links := links, task := setStatusOf k.task t .ready
        slot := Function.update k.slot waiter none } ∧
      KernelInv { k with
        links := links, task := setStatusOf k.task t .ready
        slot := Function.update k.slot waiter none }
        (Function.update F .ready (t :: F .ready)) := by
  obtain ⟨h_mem, h_blocked, h_wait⟩ := h.slots waiter t h_slot
  have h_slots (w : W) (u : T) (hw : Function.update k.slot waiter none w = some u) :
      k.slot w = some u ∧ u ≠ t := by
    by_cases h_w : w = waiter
    · subst h_w; simp at hw
    · rw [Function.update_of_ne h_w] at hw
      exact ⟨hw, fun h_eq => h_w (h.slot_inj w waiter t (h_eq ▸ hw) h_slot)⟩
  refine ⟨_, ?_, wake_inv h h_mem h_blocked h_wait h_slots⟩
  simp only [Kernel.wakeup, h_slot, threadUnblock_eq h.toKernelCore h_blocked]
  rfl

end Kernel

/-- What a step does to the line of ready threads, to the time slice of the running thread and to
the counters: whether it is a timer interrupt, calls `schedule`, wakes a thread. -/
structure Moves (k : Kernel T S W) (F : ListId S → List T) (k' : Kernel T S W)
    (F' : ListId S → List T) (timer schedules wakes : Bool) : Prop where
  inv : KernelInv k' F'
  line : ∃ ops served, (⟨F .ready, []⟩ : Line T).run ops = some ⟨F' .ready, served⟩ ∧
    Line.fronts ops = wakes.toNat ∧ served.length = schedules.toNat ∧ ∀ t ∈ served, t = k'.cur
  /-- Without `schedule`, an interrupt uses up a part of the slice. -/
  slice : timer.toNat + (k'.task k'.cur).ticks.toNat ≤
    256 * schedules.toNat + (k.task k.cur).ticks.toNat
  ticks : k'.ticks = k.ticks + BitVec.ofNat 32 timer.toNat
  threads : ∃ new, k'.threads = k.threads ++ new ∧ ∀ t ∈ new, (k'.task t).elaspsedTicks = 0
  elapsed : ∀ t ∈ k.threads, (k'.task t).elaspsedTicks =
    (k.task t).elaspsedTicks + BitVec.ofNat 32 (timer && decide (k.cur = t)).toNat

section Moves

variable {k k' : Kernel T S W} {F F' : ListId S → List T} {t : T} {ts : List T}

omit [DecidableEq T] [DecidableEq S] [DecidableEq W] in
theorem ticks_lt (b : BitVec 8) : b.toNat < 256 := b.isLt

omit [DecidableEq S] [DecidableEq W] in
/-- Nobody is moved. -/
theorem Moves.stay (h : KernelInv k' F') (h_ready : F' .ready = F .ready) (h_cur : k'.cur = k.cur)
    (h_task : k'.task = k.task) (h_ticks : k'.ticks = k.ticks)
    (h_threads : k'.threads = k.threads) :
    Moves k F k' F' false false false where
  inv := h
  line := ⟨[], [], by rw [h_ready]; rfl, rfl, rfl, fun _ h_mem => absurd h_mem List.not_mem_nil⟩
  slice := by simp [h_cur, h_task]
  ticks := by simp [h_ticks]
  threads := ⟨[], by simp [h_threads], by simp⟩
  elapsed t _ := by simp [h_task]

omit [DecidableEq W] in
/-- The running thread has gone to sleep, and the head of the ready list runs. -/
theorem Moves.sleep {k₁ : Kernel T S W} {F₁ : ListId S → List T} (h : KernelCore k₁ F₁)
    (h_cur : (k₁.task k₁.cur).status ≠ .running) (h_head : F .ready = t :: ts)
    (h_ready : F₁ .ready = F .ready) (h_ticks : k₁.ticks = k.ticks)
    (h_threads : k₁.threads = k.threads)
    (h_elapsed : ∀ u, (k₁.task u).elaspsedTicks = (k.task u).elaspsedTicks) :
    k₁.scheduleIn = .ok (k₁.dispatched t) ∧
      Moves k F (k₁.dispatched t) (Function.update F₁ .ready ts) false true false := by
  obtain ⟨h_in, h_inv⟩ := Kernel.scheduleIn_cons h h_cur (h_ready.trans h_head)
  refine ⟨h_in, h_inv, ⟨[.serve], [t], ?_, rfl, rfl, ?_⟩, ?_, ?_, ⟨[], ?_, by simp⟩, fun u _ => ?_⟩
  · rw [h_head, Function.update_self]
    rfl
  · intro u hu
    exact List.mem_singleton.mp hu
  · have h_lt := ticks_lt ((k₁.dispatched t).task (k₁.dispatched t).cur).ticks
    simp only [Bool.toNat_false, Bool.toNat_true]
    omega
  · simpa [Kernel.dispatched] using h_ticks
  · simpa [Kernel.dispatched] using h_threads
  · simp [h_elapsed]

omit [DecidableEq S] [DecidableEq W] in
/-- A sleeping thread overtakes the others. -/
theorem Moves.wake (h : KernelInv k' F') (h_ready : F' .ready = t :: F .ready)
    (h_cur : k'.cur = k.cur) (h_ticks : k'.ticks = k.ticks) (h_threads : k'.threads = k.threads)
    (h_task : k'.task = setStatusOf k.task t .ready) : Moves k F k' F' false false true where
  inv := h
  line := ⟨[.front t], [], by rw [h_ready]; rfl, rfl, rfl,
    fun _ h_mem => absurd h_mem List.not_mem_nil⟩
  slice := by
    rw [h_cur, h_task]
    by_cases h_t : k.cur = t
    · subst h_t; simp [setStatusOf]
    · simp [setStatusOf_of_ne _ _ h_t]
  ticks := by simp [h_ticks]
  threads := ⟨[], by simp [h_threads], by simp⟩
  elapsed u _ := by
    rw [h_task]
    by_cases h_u : u = t
    · subst h_u; simp [setStatusOf]
    · simp [setStatusOf_of_ne _ _ h_u]

omit [DecidableEq W] in
/-- A new thread joins at the end. -/
theorem Moves.start (h : KernelInv k F) (ht : t ∉ k.threads) (prio : BitVec 32) :
    ∃ k' F', k.threadStart t prio = .ok k' ∧ Moves k F k' F' false false false := by
  obtain ⟨h_start, h_task, h_inv⟩ := Kernel.threadStart_eq h ht prio
  have h_ne : k.cur ≠ t := fun h_eq => ht (h_eq ▸ h.cur_mem)
  refine ⟨_, _, h_start, h_inv, ⟨[.back t], [], by simp [Line.run, Line.step], rfl, rfl,
    fun _ h_mem => absurd h_mem List.not_mem_nil⟩, ?_, ?_, ⟨[t], rfl, fun u hu => ?_⟩,
    fun u hu => ?_⟩
  · show 0 + (((k.initThread t prio).task k.cur).ticks.toNat) ≤ _
    rw [h_task, Function.update_of_ne h_ne]
    simp
  · simp [Kernel.enlisted, Kernel.created, Kernel.initThread, Kernel.setTask]
  · -- `init_thread` has zeroed the PCB
    obtain rfl : u = t := List.mem_singleton.mp hu
    show ((k.initThread u prio).task u).elaspsedTicks = 0
    rw [h_task, Function.update_self]
  · have h_u : u ≠ t := fun h_eq => ht (h_eq ▸ hu)
    show ((k.initThread t prio).task u).elaspsedTicks = _
    rw [h_task, Function.update_of_ne h_u]
    simp

omit [DecidableEq W] in
/-- A timer interrupt. -/
theorem Moves.timer (h : KernelInv k F) :
    ∃ k' F', k.intrTimerHandler = .ok (decide ((k.task k.cur).ticks = 0), k') ∧
      Moves k F k' F' true (decide ((k.task k.cur).ticks = 0)) false := by
  rw [Kernel.intrTimerHandler_eq h]
  by_cases h_zero : (k.task k.cur).ticks = 0
  · -- the running thread joins at the end, and the first one runs, which may be itself
    obtain ⟨t, ts, h_head⟩ : ∃ t ts, F .ready ++ [k.cur] = t :: ts :=
      List.exists_cons_of_ne_nil (by simp)
    obtain ⟨h_ok, h_inv⟩ := Kernel.schedule_rotates (Kernel.charged_inv h) rfl h_head
    rw [if_pos h_zero, h_ok, decide_eq_true h_zero]
    refine ⟨_, _, rfl, h_inv, ⟨[.back k.cur, .serve], [t], ?_, rfl, rfl, ?_⟩, ?_, ?_,
      ⟨[], (List.append_nil _).symm, by simp⟩, ?_⟩
    · simp [Line.run, Line.step, h_head]
    · intro u hu
      exact List.mem_singleton.mp hu
    · have h_lt := ticks_lt
        ((k.charged.requeued.dispatched t).task (k.charged.requeued.dispatched t).cur).ticks
      simp only [Bool.toNat_true, mul_one]
      omega
    · rfl
    · intro u _
      by_cases h_u : u = k.cur
      · simp [h_u]
      · simp [h_u, Ne.symm h_u]
  · rw [if_neg h_zero, decide_eq_false h_zero]
    refine ⟨_, F, rfl, Kernel.ticked_inv (Kernel.charged_inv h), ⟨[], [], rfl, rfl, rfl,
      fun _ h_mem => absurd h_mem List.not_mem_nil⟩, ?_, ?_,
      ⟨[], (List.append_nil _).symm, by simp⟩, ?_⟩
    · have h_pos : 0 < (k.task k.cur).ticks.toNat :=
        Nat.pos_of_ne_zero fun h_eq => h_zero (BitVec.eq_of_toNat_eq h_eq)
      have h_less : ((k.task k.cur).ticks - 1).toNat = (k.task k.cur).ticks.toNat - 1 :=
        BitVec.toNat_sub_of_le (BitVec.le_def.mpr h_pos)
      simp only [Kernel.ticked_cur, Kernel.charged_cur, Kernel.ticked_task_ticks, if_true,
        Kernel.charged_task_ticks, h_less, Bool.toNat_true, Bool.toNat_false]
      omega
    · rfl
    · intro u _
      by_cases h_u : u = k.cur
      · simp [h_u]
      · simp [h_u, Ne.symm h_u]

omit [DecidableEq W] in
/-- A pass of `semaphore_down`. -/
theorem Moves.down (h : KernelInv k F) {psem : S} {oldStatus : IntrStatus} {taken : Bool}
    (h_ok : k.semaphoreDown psem oldStatus = .ok (taken, k')) :
    ∃ F', Moves k F k' F' false (decide (k.value psem = 0)) false := by
  by_cases h_value : k.value psem = 0
  · obtain ⟨h_down, h_core, h_cur⟩ := Kernel.semaphoreDown_eq_taken h h_value oldStatus
    rw [h_down] at h_ok
    rw [decide_eq_true h_value]
    cases h_head : F .ready with
    | nil =>
      rw [Kernel.scheduleIn_nil h_core (by simpa using h_head)] at h_ok
      cases h_ok
    | cons t ts =>
      have h_elapsed (u : T) :
          ((k.asleepOn psem).task u).elaspsedTicks = (k.task u).elaspsedTicks := by
        by_cases h_u : u = k.cur
        · subst h_u; simp [Kernel.asleepOn, setStatusOf]
        · simp [Kernel.asleepOn, setStatusOf_of_ne _ _ h_u]
      obtain ⟨h_in, h_moves⟩ :=
        Moves.sleep (k := k) (F := F) h_core h_cur h_head (by simp) rfl rfl h_elapsed
      rw [h_in] at h_ok
      cases h_ok
      exact ⟨_, h_moves⟩
  · rw [decide_eq_false h_value]
    by_cases h_one : k.value psem = 1
    · rw [Kernel.semaphoreDown_eq_free h_one] at h_ok
      cases h_ok
      exact ⟨F, .stay (h.of_eq rfl (fun _ => ⟨rfl, rfl⟩) rfl rfl rfl rfl) rfl rfl rfl rfl rfl⟩
    · rw [Kernel.semaphoreDown_eq_several h_value h_one] at h_ok
      cases h_ok

omit [DecidableEq W] in
/-- `semaphore_up`. -/
theorem Moves.up (h : KernelInv k F) {psem : S} (h_ok : k.semaphoreUp psem = .ok k') :
    ∃ F', Moves k F k' F' false false (!k.listEmpty (.wait psem)) := by
  rw [Kernel.listEmpty_eq h.toKernelCore]
  by_cases h_value : k.value psem = 0
  · cases h_wait : F (.wait psem) with
    | nil =>
      rw [Kernel.semaphoreUp_eq_nil h.toKernelCore h_value h_wait] at h_ok
      cases h_ok
      exact ⟨F, .stay (h.of_eq rfl (fun _ => ⟨rfl, rfl⟩) rfl rfl rfl rfl) rfl rfl rfl rfl rfl⟩
    | cons t ts =>
      obtain ⟨h_up, h_inv⟩ := Kernel.semaphoreUp_eq_cons h h_value h_wait
      rw [h_up] at h_ok
      cases h_ok
      exact ⟨_, .wake (h_inv.of_eq rfl (fun _ => ⟨rfl, rfl⟩) rfl rfl rfl rfl) (by simp) rfl rfl rfl
        rfl⟩
  · -- the unit is not taken, and the `ASSERT` fails
    have h_err : k.semaphoreUp psem = .error (.assertion .upValueZero) := by
      show (assert (k.value psem = 0) _ >>= _) = _
      rw [assert_neg h_value]
      rfl
    rw [h_err] at h_ok
    cases h_ok

/-- `queue_wait`. -/
theorem Moves.wait (h : KernelInv k F) {waiter : W} {oldStatus : IntrStatus}
    (h_ok : k.queueWait waiter = .ok (oldStatus, k')) : ∃ F', Moves k F k' F' false true false := by
  obtain ⟨h_eq, h_core, h_cur⟩ := Kernel.queueWait_eq h waiter
  rw [h_eq] at h_ok
  cases h_head : F .ready with
  | nil =>
    rw [Kernel.scheduleIn_nil h_core h_head] at h_ok
    cases h_ok
  | cons t ts =>
    have h_elapsed (u : T) :
        ((k.asleepIn waiter).task u).elaspsedTicks = (k.task u).elaspsedTicks := by
      by_cases h_u : u = k.cur
      · subst h_u; simp [Kernel.asleepIn, setStatusOf]
      · simp [Kernel.asleepIn, setStatusOf_of_ne _ _ h_u]
    obtain ⟨h_in, h_moves⟩ := Moves.sleep (k := k) h_core h_cur h_head rfl rfl rfl h_elapsed
    rw [h_in] at h_ok
    cases h_ok
    exact ⟨_, h_moves⟩

/-- `wakeup`. -/
theorem Moves.wakeup (h : KernelInv k F) {waiter : W} (h_slot : k.slot waiter ≠ none)
    (h_ok : k.wakeup waiter = .ok k') : ∃ F', Moves k F k' F' false false true := by
  obtain ⟨t, ht⟩ := Option.ne_none_iff_exists'.mp h_slot
  obtain ⟨links, h_eq, h_inv⟩ := Kernel.wakeup_eq h ht
  rw [h_eq] at h_ok
  cases h_ok
  exact ⟨_, .wake h_inv (by simp) rfl rfl rfl rfl⟩

end Moves

/-! ### Steps and runs -/

namespace SchedState

/-- **What a step does to the ready threads.** -/
theorem moves_of_step {value : S → BitVec 8} {st st' : SchedState T S W} {F : ListId S → List T}
    (h : KernelInv st.kernel F) {a : SchedAct T S W} (h_kernel : a.IsKernel)
    (h_step : (schedSys value).Step st a st') :
    ∃ F', Moves st.kernel F st'.kernel F' a.isTimer (st.schedules a) (st.wakes a) := by
  obtain ⟨h_enabled, h_exec⟩ := h_step
  -- only the flag is written before a pass of `semaphore_down`
  have h_pass {psem : S} {oldStatus : IntrStatus} (status : IntrStatus) {k : Kernel T S W}
      (hk : k = { st.kernel with intr := status })
      (h_ok : (st.setKernel k).downPass psem oldStatus = .ok st') :
      ∃ F', Moves st.kernel F st'.kernel F' false (decide (st.kernel.value psem = 0)) false := by
    subst hk
    have h_inv : KernelInv { st.kernel with intr := status } F :=
      h.of_eq rfl (fun _ => ⟨rfl, rfl⟩) rfl rfl rfl rfl
    obtain ⟨⟨taken, k'⟩, h_down, h_eq⟩ := bind_eq_ok h_ok
    cases h_eq
    obtain ⟨F', h_moves⟩ := Moves.down h_inv h_down
    exact ⟨F', { h_moves with }⟩
  -- only the flag is written
  have h_flag (status : IntrStatus) (h_ok : st'.kernel = { st.kernel with intr := status }) :
      ∃ F', Moves st.kernel F st'.kernel F' false false false := by
    rw [h_ok]
    exact ⟨F, .stay (h.of_eq rfl (fun _ => ⟨rfl, rfl⟩) rfl rfl rfl rfl) rfl rfl rfl rfl rfl⟩
  cases a with
  | timer =>
    obtain ⟨k', F', h_ok, h_moves⟩ := Moves.timer h
    obtain ⟨⟨switched, k''⟩, h_timer, h_eq⟩ := bind_eq_ok h_exec
    cases h_eq
    obtain ⟨rfl, rfl⟩ := Prod.mk.inj (Except.ok.inj (h_ok.symm.trans h_timer))
    exact ⟨F', h_moves⟩
  | down psem => exact h_pass .off rfl h_exec
  | up psem =>
    obtain ⟨k', h_up, h_eq⟩ := bind_eq_ok h_exec
    cases h_eq
    exact Moves.up h h_up
  | wait waiter =>
    obtain ⟨⟨oldStatus, k'⟩, h_wait, h_eq⟩ := bind_eq_ok h_exec
    cases h_eq
    exact Moves.wait h h_wait
  | wake waiter =>
    obtain ⟨k', h_wake, h_eq⟩ := bind_eq_ok h_exec
    cases h_eq
    exact Moves.wakeup h h_enabled.2 h_wake
  | start t prio =>
    obtain ⟨k', F', h_start, h_moves⟩ := Moves.start h h_enabled.2 prio
    obtain ⟨k'', h_ok, h_eq⟩ := bind_eq_ok h_exec
    cases h_eq
    obtain rfl : k' = k'' := Except.ok.inj (h_start.symm.trans h_ok)
    exact ⟨F', h_moves⟩
  | enable =>
    cases h_exec
    exact h_flag .on rfl
  | disable =>
    cases h_exec
    exact h_flag .off rfl
  | resume =>
    have h_resume : st.resume = .ok st' := h_exec
    rw [resume] at h_resume
    rw [schedules]
    cases h_ctx : st.ctx st.cur with
    | user => exact absurd h_ctx h_enabled
    | entry | preempted =>
      rw [h_ctx] at h_resume
      cases h_resume
      exact h_flag .on rfl
    | down psem oldStatus =>
      rw [h_ctx] at h_resume
      exact h_pass .off (Kernel.intrSetStatus_self st.kernel .off) h_resume
    | wait oldStatus =>
      rw [h_ctx] at h_resume
      cases h_resume
      exact h_flag oldStatus (Kernel.intrSetStatus_self st.kernel oldStatus)
  | rotate => exact absurd h_kernel id

end SchedState

/-- The kernel, without the steps that are not its own. -/
def kernelSys (value : S → BitVec 8) : Machine (SchedState T S W) (SchedAct T S W) Stop :=
  (schedSys value).guard fun _ a => a.IsKernel

instance (value : S → BitVec 8) (st : SchedState T S W) (a : SchedAct T S W) :
    Decidable ((kernelSys value).enabled st a) :=
  inferInstanceAs (Decidable ((schedSys value).enabled st a ∧ a.IsKernel))

section Runs

variable {value : S → BitVec 8} {st st' : SchedState T S W} {F : ListId S → List T}
  {tr : List (SchedAct T S W × SchedState T S W)} {t : T} {i : ℕ}

/-- A thread that does not run keeps its place, but for those served and those who overtake it. -/
theorem place_of_run (h_run : (kernelSys value).Run st tr st') (h : KernelInv st.kernel F)
    (h_at : (F .ready)[i]? = some t) (h_never : ∀ x ∈ tr, x.2.cur ≠ t) :
    ∃ F' j, KernelInv st'.kernel F' ∧ (F' .ready)[j]? = some t ∧
      j + tally SchedState.schedules st tr = i + tally SchedState.wakes st tr := by
  induction h_run generalizing F i with
  | nil st => exact ⟨F, i, h, h_at, rfl⟩
  | @cons st st₁ st' a tr h_step h_rest ih =>
    obtain ⟨h_sched, h_kernel⟩ := Machine.guard_step_iff.mp h_step
    obtain ⟨F₁, h_moves⟩ := SchedState.moves_of_step h h_kernel h_sched
    obtain ⟨ops, served, h_line, h_fronts, h_served, h_cur⟩ := h_moves.line
    rcases Line.place h_line h_at with h_mem | ⟨j, h_j, h_place⟩
    · exact absurd (h_cur t h_mem).symm (h_never _ List.mem_cons_self)
    · obtain ⟨F', l, h_inv, h_l, h_eq⟩ :=
        ih h_moves.inv h_j fun x hx => h_never x (List.mem_cons_of_mem _ hx)
      refine ⟨F', l, h_inv, h_l, ?_⟩
      rw [h_fronts, h_served, List.length_nil] at h_place
      rw [tally, tally]
      omega

/-- Every time slice ends. -/
theorem slices_of_run (h_run : (kernelSys value).Run st tr st') (h : KernelInv st.kernel F) :
    tally (fun _ a => a.isTimer) st tr + (st'.kernel.task st'.cur).ticks.toNat ≤
      256 * tally SchedState.schedules st tr + (st.kernel.task st.cur).ticks.toNat := by
  induction h_run generalizing F with
  | nil st => simp [tally]
  | @cons st st₁ st' a tr h_step h_rest ih =>
    obtain ⟨h_sched, h_kernel⟩ := Machine.guard_step_iff.mp h_step
    obtain ⟨F₁, h_moves⟩ := SchedState.moves_of_step h h_kernel h_sched
    have h_slice : _ ≤ _ + (st.kernel.task st.cur).ticks.toNat := h_moves.slice
    have h_ih : _ ≤ _ + (st₁.kernel.task st₁.kernel.cur).ticks.toNat := ih h_moves.inv
    rw [tally, tally]
    omega

/-- **No ready thread waits for ever**, unless others keep being woken. As long as the thread at
place `i` of the ready list does not run, there are no more calls of `schedule` than `i` and the
wakeups, and so many time slices at most. -/
theorem bounded_waiting (value : S → BitVec 8) {st : SchedState T S W}
    (h : (schedSys value).Reachable st) :
    ∃ F, KernelInv st.kernel F ∧ ∀ i t, (F .ready)[i]? = some t → ∀ tr st',
      (kernelSys value).Run st tr st' → (∀ x ∈ tr, x.2.cur ≠ t) →
        tally SchedState.schedules st tr ≤ i + tally SchedState.wakes st tr ∧
        tally (fun _ a => a.isTimer) st tr < 256 * (i + tally SchedState.wakes st tr + 1) := by
  obtain ⟨F, hF⟩ := schedSys_inv h
  refine ⟨F, hF, fun i t h_at tr st' h_run h_never => ?_⟩
  obtain ⟨F', j, -, -, h_place⟩ := place_of_run h_run hF h_at h_never
  have h_slices := slices_of_run h_run hF
  have h_lt := ticks_lt (st.kernel.task st.cur).ticks
  constructor <;> omega

/-- A thread has been created and is ready. It runs after the first call of `schedule`, or somebody
is woken first. -/
theorem bounded_waiting_two :
    ∃ (st : SchedState (Fin 2) Unit Unit) (F : ListId Unit → List (Fin 2)),
    KernelInv st.kernel F ∧ F .ready = [1] ∧ ∀ tr st',
      (kernelSys fun _ => 1).Run st tr st' → (∀ x ∈ tr, x.2.cur ≠ 1) →
        tally SchedState.schedules st tr ≤ tally SchedState.wakes st tr := by
  have h_reach := Machine.Reachable.play (M := schedSys (T := Fin 2) (W := Unit) fun _ : Unit => 1)
    (.init (bootState_init 0 _)) [.start 1 2] rfl
  obtain ⟨F, h, h_wait⟩ := bounded_waiting _ h_reach
  have h_ready : F .ready = [1] := by
    have h_mem (t : Fin 2) : t ∈ F .ready ↔ t ∈ [1] := by
      rw [h.ready]
      revert t
      exact Fin.forall_fin_two.mpr ⟨by decide, by decide⟩
    exact List.perm_singleton.mp
      ((List.perm_ext_iff_of_nodup (h.nodup .ready) (List.nodup_singleton 1)).mpr h_mem)
  refine ⟨_, F, h, h_ready, fun tr st' h_run h_never => ?_⟩
  have h_le := (h_wait 0 1 (by rw [h_ready]; rfl) tr st' h_run h_never).1
  rwa [Nat.zero_add] at h_le

/-! ### The clock -/

/-- What is charged to one member of a list is added to its sum. -/
theorem sum_charged {w : ℕ} {c : T} {l : List T} (h_nodup : l.Nodup) (h_mem : c ∈ l)
    (f : T → BitVec w) (x : BitVec w) :
    (l.map fun t => f t + if c = t then x else 0).sum = (l.map f).sum + x := by
  induction l with
  | nil => exact absurd h_mem List.not_mem_nil
  | cons t ts ih =>
    obtain ⟨h_t, h_ts⟩ := List.nodup_cons.mp h_nodup
    rw [List.map_cons, List.map_cons, List.sum_cons, List.sum_cons]
    by_cases h_c : c = t
    · subst h_c
      have h_rest : (ts.map fun t => f t + if c = t then x else 0) = ts.map f := by
        refine List.map_congr_left fun u hu => ?_
        have h_u : c ≠ u := fun h_eq => h_t (h_eq ▸ hu)
        simp [h_u]
      rw [h_rest, if_pos rfl, add_assoc, add_assoc, add_comm x]
    · have h_in : c ∈ ts := (List.mem_cons.mp h_mem).resolve_left h_c
      rw [ih h_ts h_in, if_neg h_c, add_zero, add_assoc]

/-- The ticks of all threads together. -/
def Kernel.elapsedSum (k : Kernel T S W) : BitVec 32 :=
  (k.threads.map fun t => (k.task t).elaspsedTicks).sum

omit [DecidableEq S] [DecidableEq W] in
/-- An interrupt is charged once. -/
theorem Moves.elapsedSum {k k' : Kernel T S W} {F' : ListId S → List T}
    {timer schedules wakes : Bool} (h : KernelInv k F)
    (h_moves : Moves k F k' F' timer schedules wakes) :
    k'.elapsedSum = k.elapsedSum + BitVec.ofNat 32 timer.toNat := by
  obtain ⟨new, h_threads, h_new⟩ := h_moves.threads
  have h_nodup : k.threads.Nodup := h.all_eq ▸ h.nodup .all
  have h_old : (k.threads.map fun t => (k'.task t).elaspsedTicks) = k.threads.map fun t =>
      (k.task t).elaspsedTicks + if k.cur = t then BitVec.ofNat 32 timer.toNat else 0 := by
    refine List.map_congr_left fun t ht => ?_
    rw [h_moves.elapsed t ht]
    by_cases h_t : k.cur = t <;> simp [h_t]
  have h_zero : (new.map fun t => (k'.task t).elaspsedTicks).sum = 0 := by
    refine List.sum_eq_zero fun x hx => ?_
    obtain ⟨t, ht, rfl⟩ := List.mem_map.mp hx
    exact h_new t ht
  rw [Kernel.elapsedSum, h_threads, List.map_append, List.sum_append, h_zero, h_old,
    sum_charged h_nodup h.cur_mem, add_zero, Kernel.elapsedSum]

/-- The counters along a run. -/
theorem clock_of_run (h_run : (kernelSys value).Run st tr st') (h : KernelInv st.kernel F) :
    st'.kernel.ticks = st.kernel.ticks + BitVec.ofNat 32 (tally (fun _ a => a.isTimer) st tr) ∧
    st'.kernel.elapsedSum =
      st.kernel.elapsedSum + BitVec.ofNat 32 (tally (fun _ a => a.isTimer) st tr) ∧
    (∀ t ∈ st.kernel.threads, t ∈ st'.kernel.threads ∧ (st'.kernel.task t).elaspsedTicks =
      (st.kernel.task t).elaspsedTicks + BitVec.ofNat 32 (tally (SchedState.charges t) st tr)) ∧
    ∀ t ∈ st'.kernel.threads, t ∉ st.kernel.threads → (st'.kernel.task t).elaspsedTicks =
      BitVec.ofNat 32 (tally (SchedState.charges t) st tr) := by
  induction h_run generalizing F with
  | nil st => exact ⟨by simp [tally], by simp [tally], fun t ht => ⟨ht, by simp [tally]⟩,
      fun t ht h_new => absurd ht h_new⟩
  | @cons st st₁ st' a tr h_step h_rest ih =>
    obtain ⟨h_sched, h_kernel⟩ := Machine.guard_step_iff.mp h_step
    obtain ⟨F₁, h_moves⟩ := SchedState.moves_of_step h h_kernel h_sched
    obtain ⟨h_ticks, h_sum, h_old, h_new⟩ := ih h_moves.inv
    obtain ⟨new, h_threads, h_fresh⟩ := h_moves.threads
    simp only [tally, BitVec.ofNat_add]
    refine ⟨?_, ?_, fun t ht => ?_, fun t ht h_notMem => ?_⟩
    · rw [h_ticks, h_moves.ticks, add_assoc]
    · rw [h_sum, h_moves.elapsedSum h, add_assoc]
    · have h_t : t ∈ st₁.kernel.threads := by
        rw [h_threads]
        exact List.mem_append_left new ht
      refine ⟨(h_old t h_t).1, ?_⟩
      rw [(h_old t h_t).2, h_moves.elapsed t ht, add_assoc]
      rfl
    · -- a thread that has not been created does not run, so the step is not charged to it
      have h_cur : st.cur ≠ t := fun h_eq => h_notMem (h_eq ▸ h.cur_mem)
      have h_charge : st.charges t a = false := by simp [SchedState.charges, h_cur]
      rw [h_charge]
      by_cases h_t : t ∈ new
      · have h_in : t ∈ st₁.kernel.threads := by
          rw [h_threads]
          exact List.mem_append_right _ h_t
        rw [(h_old t h_in).2, h_fresh t h_t]
        simp
      · have h_out : t ∉ st₁.kernel.threads := by
          rw [h_threads, List.mem_append]
          exact not_or.mpr ⟨h_notMem, h_t⟩
        rw [h_new t ht h_out]
        simp

omit [DecidableEq W] in
/-- `thread_init` zeroes the PCB of the main thread. -/
theorem Kernel.threadInit_elapsed {k k' : Kernel T S W} (h_ok : k.threadInit = .ok k') :
    (k'.task k'.cur).elaspsedTicks = 0 := by
  obtain ⟨_, -, h_eq⟩ := bind_eq_ok h_ok
  cases h_eq
  rw [Kernel.listAppend_eq]
  simp [Kernel.initThread, Kernel.setTask]

/-- **Every timer interrupt is charged to the thread that ran.** In every run from `thread_init`,
`elaspsed_ticks` of a thread counts the interrupts that found it running, `ticks` counts all of
them, and the two counts agree. -/
theorem interrupts_charged (value : S → BitVec 8) {st st' : SchedState T S W}
    {tr : List (SchedAct T S W × SchedState T S W)} (h_init : (schedSys value).init st)
    (h_run : (kernelSys value).Run st tr st') :
    (∀ t ∈ st'.kernel.threads, (st'.kernel.task t).elaspsedTicks =
      BitVec.ofNat 32 (tally (SchedState.charges t) st tr)) ∧
    st'.kernel.ticks - st.kernel.ticks =
      BitVec.ofNat 32 (tally (fun _ a => a.isTimer) st tr) ∧
    st'.kernel.ticks - st.kernel.ticks = st'.kernel.elapsedSum := by
  obtain ⟨h_inv, h_threads, -⟩ := schedSys_init h_init
  obtain ⟨-, -, -, k, -, -, -, -, h_ok⟩ := h_init
  have h_zero : (st.kernel.task st.cur).elaspsedTicks = 0 := Kernel.threadInit_elapsed h_ok
  obtain ⟨h_ticks, h_sum, h_old, h_new⟩ := clock_of_run h_run h_inv
  refine ⟨fun t ht => ?_, ?_, ?_⟩
  · by_cases h_t : t ∈ st.kernel.threads
    · obtain rfl : t = st.cur := by simpa [h_threads] using h_t
      rw [(h_old _ h_t).2, h_zero, zero_add]
    · exact h_new t ht h_t
  · rw [h_ticks, add_sub_cancel_left]
  · have h_start : st.kernel.elapsedSum = 0 := by
      simp [Kernel.elapsedSum, h_threads, h_zero]
    rw [h_ticks, h_sum, h_start, zero_add, add_sub_cancel_left]

/-- Two interrupts of the main thread, whose slice they do not use up. -/
theorem interrupts_charged_main : ∃ (st st' : SchedState (Fin 2) Unit Unit)
    (tr : List (SchedAct (Fin 2) Unit Unit × SchedState (Fin 2) Unit Unit)),
    (kernelSys fun _ => 1).Run st tr st' ∧
    tr.map Prod.fst = [.start 1 2, .enable, .timer, .timer] ∧
    (st'.kernel.task 0).elaspsedTicks = 2 ∧
    BitVec.ofNat 32 (tally (SchedState.charges 0) st tr) = 2 ∧
    st'.kernel.ticks - st.kernel.ticks = st'.kernel.elapsedSum := by
  obtain ⟨tr, h_run, h_tr⟩ := Machine.Run.of_play
    (M := kernelSys (T := Fin 2) (W := Unit) fun _ : Unit => 1) (s := bootState 0 fun _ => 1)
    [.start 1 2, .enable, .timer, .timer] rfl
  obtain ⟨h_elapsed, -, h_sum⟩ := interrupts_charged _ (bootState_init 0 _) h_run
  exact ⟨_, _, tr, h_run, h_tr, rfl, (h_elapsed 0 (by decide)).symm, h_sum⟩

/-! ### Two threads that wake each other -/

/-- `a` runs, and `b` sleeps in the slot `w`. -/
structure Partners (st : SchedState T S W) (F : ListId S → List T) (a b : T) (w : W) : Prop where
  inv : KernelInv st.kernel F
  cur : st.cur = a
  user : st.ctx a = .user
  slot : st.kernel.slot w = some b
  asleep : ∃ oldStatus, st.ctx b = .wait oldStatus

/-- `a` wakes `b` and goes to sleep. Then `b` runs, as it has overtaken all the ready threads. -/
theorem Partners.swap (value : S → BitVec 8) {a b : T} {w : W} (h : Partners st F a b w) (w' : W) :
    ∃ st' F' tr, (kernelSys value).Run st tr st' ∧ Partners st' F' b a w' ∧
      F' .ready = F .ready ∧ (∀ x ∈ tr, x.2.cur = a ∨ x.2.cur = b) ∧
      tally SchedState.schedules st tr = 1 ∧ tally SchedState.wakes st tr = 1 := by
  obtain ⟨h_inv, rfl, h_user, h_slot, oldStatus, h_ctx⟩ := h
  have h_ne : b ≠ st.cur := by
    rintro rfl
    rw [h_user] at h_ctx
    cases h_ctx
  obtain ⟨links, h_wake, h_inv₁⟩ := Kernel.wakeup_eq h_inv h_slot
  set k₁ : Kernel T S W := { st.kernel with
    links := links, task := setStatusOf st.kernel.task b .ready
    slot := Function.update st.kernel.slot w none } with hk₁
  obtain ⟨h_wait, h_core, h_cur⟩ := Kernel.queueWait_eq h_inv₁ w'
  obtain ⟨h_in, h_inv₂⟩ := Kernel.scheduleIn_cons h_core h_cur (t := b) (Function.update_self ..)
  rw [Function.update_idem, Function.update_eq_self] at h_inv₂
  set k₂ := (k₁.asleepIn w').dispatched b with hk₂
  set st₁ := st.setKernel k₁ with hst₁
  set st₂ := (st₁.setCtx (.wait k₁.intr)).setKernel k₂ with hst₂
  set st₃ := (st₂.setCtx .user).setKernel (st₂.kernel.intrSetStatus oldStatus) with hst₃
  have h_ctx₂ : st₂.ctx st₂.cur = .wait oldStatus := by
    show Function.update st.ctx st.cur _ b = _
    rw [Function.update_of_ne h_ne, h_ctx]
  have h_kernel₃ : st₃.kernel = { k₂ with intr := oldStatus } :=
    Kernel.intrSetStatus_self k₂ oldStatus
  have h_cur₃ : st₃.cur = b := by rw [SchedState.cur, h_kernel₃]; rfl
  have h_step₁ : (kernelSys value).Step st (.wake w) st₁ := by
    refine Machine.guard_step_iff.mpr ⟨⟨⟨h_user, by simp [h_slot]⟩, ?_⟩, trivial⟩
    show (st.kernel.wakeup w >>= _) = _
    rw [h_wake]
    rfl
  have h_step₂ : (kernelSys value).Step st₁ (.wait w') st₂ := by
    refine Machine.guard_step_iff.mpr ⟨⟨h_user, ?_⟩, trivial⟩
    show (k₁.queueWait w' >>= _) = _
    rw [h_wait, h_in]
    rfl
  have h_step₃ : (kernelSys value).Step st₂ .resume st₃ := by
    refine Machine.guard_step_iff.mpr ⟨⟨?_, ?_⟩, trivial⟩
    · show st₂.ctx st₂.cur ≠ .user
      simp [h_ctx₂]
    · show st₂.resume = _
      rw [SchedState.resume, h_ctx₂]
  refine ⟨st₃, F, [(.wake w, st₁), (.wait w', st₂), (.resume, st₃)],
    .cons h_step₁ (.cons h_step₂ (.cons h_step₃ (.nil _))), ⟨?_, h_cur₃, ?_, ?_, ?_⟩, rfl, ?_, ?_,
    ?_⟩
  · rw [h_kernel₃]
    exact h_inv₂.of_eq rfl (fun _ => ⟨rfl, rfl⟩) rfl rfl rfl rfl
  · exact Function.update_self ..
  · rw [h_kernel₃]
    exact Function.update_self ..
  · refine ⟨k₁.intr, ?_⟩
    show Function.update (Function.update st.ctx st.cur _) b _ st.cur = _
    rw [Function.update_of_ne (Ne.symm h_ne), Function.update_self]
  · intro x hx
    simp only [List.mem_cons, List.not_mem_nil, or_false] at hx
    rcases hx with rfl | rfl | rfl
    · exact Or.inl rfl
    · exact Or.inr rfl
    · exact Or.inr h_cur₃
  · simp [tally, SchedState.schedules, h_ctx₂]
  · simp [tally, SchedState.wakes]

/-- **Starvation.** Two threads that take turns in waking each other, with `wakeup` and
`queue_wait`, keep the processor for any number of calls of `schedule`: every other ready thread
stays where it is. -/
theorem partners_starve (value : S → BitVec 8) {st : SchedState T S W} {F : ListId S → List T}
    {a b : T} {w : W} (h : Partners st F a b w) (w' : W) (n : ℕ) :
    ∃ st' F' tr, (kernelSys value).Run st tr st' ∧ KernelInv st'.kernel F' ∧
      F' .ready = F .ready ∧ (∀ x ∈ tr, x.2.cur = a ∨ x.2.cur = b) ∧
      tally SchedState.schedules st tr = n ∧ tally SchedState.wakes st tr = n := by
  induction n generalizing st F a b w w' with
  | zero => exact ⟨st, F, [], .nil st, h.inv, rfl, by simp, rfl, rfl⟩
  | succ n ih =>
    obtain ⟨st₁, F₁, tr, h_run, h_swap, h_ready, h_cur, h_sched, h_wakes⟩ := h.swap value w'
    obtain ⟨st', F', tr', h_run', h_inv, h_ready', h_cur', h_sched', h_wakes'⟩ :=
      ih h_swap w
    refine ⟨st', F', tr ++ tr', h_run.trans h_run', h_inv, h_ready'.trans h_ready, ?_, ?_, ?_⟩
    · intro x hx
      rcases List.mem_append.mp hx with h_mem | h_mem
      · exact h_cur x h_mem
      · exact (h_cur' x h_mem).symm
    · rw [tally_append h_run, h_sched, h_sched', Nat.add_comm]
    · rw [tally_append h_run, h_wakes, h_wakes', Nat.add_comm]

/-- The main thread sleeps in a slot, the second thread runs, and the third one is ready. -/
theorem partners_starve_third : ∃ (st : SchedState (Fin 3) Unit Bool)
    (F : ListId Unit → List (Fin 3)), Partners st F 1 0 true ∧ (2 : Fin 3) ∈ F .ready ∧
    ∀ n, ∃ st' F' tr, (kernelSys fun _ => 1).Run st tr st' ∧ KernelInv st'.kernel F' ∧
      F' .ready = F .ready ∧ (∀ x ∈ tr, x.2.cur = 1 ∨ x.2.cur = 0) ∧
      tally SchedState.schedules st tr = n ∧ tally SchedState.wakes st tr = n := by
  have h_reach := Machine.Reachable.play (M := schedSys (T := Fin 3) (W := Bool) fun _ : Unit => 1)
    (.init (bootState_init 0 _)) [.start 1 31, .start 2 31, .wait true, .resume] rfl
  obtain ⟨F, h⟩ := schedSys_inv h_reach
  have h_partners : Partners _ F 1 0 true := ⟨h, rfl, rfl, rfl, ⟨.off, rfl⟩⟩
  exact ⟨_, F, h_partners, (h.ready 2).mpr ⟨by decide, by decide⟩,
    partners_starve _ h_partners false⟩

end Runs
end ToiletOS
