import ToiletOS.Framework.RoundRobin
import ToiletOS.Sched.SchedSafety

/-!
# Round-robin time slices

`intr_timer_handler` charges an interrupt to the running thread and takes one from its `ticks`; when
none is left, `schedule` puts the thread at the tail of the ready list with `ticks = priority` and
runs the head. So a turn takes `priority + 1` interrupts: those that count `ticks` down, and one
more that finds it zero.

While no thread blocks or creates another, the running thread and the ready list take turns in the
sense of `Framework/RoundRobin.lean`: `InSlice` relates a kernel to the `Turns` it stands for, and
one interrupt is one `Turns.step` (`InSlice.step`). Whoever runs after some interrupts, how often
each thread has been charged, and that whole rounds lead back, is then read off there
(`round_robin`). -/

namespace ToiletOS

variable {T S W : Type} [DecidableEq T] [DecidableEq S] [DecidableEq W]

namespace Kernel

/-- A timer interrupt, up to the first instruction of the thread that runs then. That thread has the
interrupt flag set, by `iretd` or by the `intr_enable` of `kernel_thread`. -/
def timerInterrupt (k : Kernel T S W) : Except Stop (Kernel T S W) := do
  let (_, k) ← k.intrTimerHandler
  return k.intrEnable.2

/-- Some timer interrupts, and between them nothing that blocks or creates a thread. -/
def timerInterrupts (k : Kernel T S W) : ℕ → Except Stop (Kernel T S W)
  | 0 => .ok k
  | j + 1 => do
    let k ← k.timerInterrupts j
    k.timerInterrupt

/-- The interrupts of a turn. -/
def turnLength (k : Kernel T S W) (t : T) : ℕ := (k.task t).priority.toNat + 1

/-! ### What the handler does to a PCB -/

section Fields

omit [DecidableEq S] [DecidableEq W]

variable (k : Kernel T S W) (t u : T)

@[simp] theorem charged_cur : k.charged.cur = k.cur := rfl
@[simp] theorem charged_ticks : k.charged.ticks = k.ticks + 1 := rfl
@[simp] theorem ticked_cur : k.ticked.cur = k.cur := rfl
@[simp] theorem ticked_ticks : k.ticked.ticks = k.ticks := rfl

@[simp] theorem charged_priority : (k.charged.task u).priority = (k.task u).priority := by
  by_cases h_u : u = k.cur
  · subst h_u; simp [charged]
  · simp [charged, h_u]

@[simp] theorem charged_task_ticks : (k.charged.task u).ticks = (k.task u).ticks := by
  by_cases h_u : u = k.cur
  · subst h_u; simp [charged]
  · simp [charged, h_u]

@[simp] theorem charged_elapsed : (k.charged.task u).elaspsedTicks =
    (k.task u).elaspsedTicks + if u = k.cur then 1 else 0 := by
  by_cases h_u : u = k.cur
  · subst h_u; simp [charged]
  · simp [charged, h_u]

@[simp] theorem ticked_priority : (k.ticked.task u).priority = (k.task u).priority := by
  by_cases h_u : u = k.cur
  · subst h_u; simp [ticked]
  · simp [ticked, h_u]

@[simp] theorem ticked_elapsed : (k.ticked.task u).elaspsedTicks = (k.task u).elaspsedTicks := by
  by_cases h_u : u = k.cur
  · subst h_u; simp [ticked]
  · simp [ticked, h_u]

@[simp] theorem ticked_task_ticks : (k.ticked.task u).ticks =
    if u = k.cur then (k.task u).ticks - 1 else (k.task u).ticks := by
  by_cases h_u : u = k.cur
  · subst h_u; simp [ticked]
  · simp [ticked, h_u]

variable [DecidableEq S]

/-- The next thread is handed on as `schedule` found it, but for its status. -/
theorem dispatched_task :
    ∃ status, (k.dispatched t).task u = { k.task u with status := status } := by
  by_cases h_u : u = t
  · subst h_u
    exact ⟨.running, by simp [dispatched, setStatusOf]⟩
  · exact ⟨(k.task u).status, by simp [dispatched, setStatusOf_of_ne _ _ h_u]⟩

@[simp] theorem dispatched_cur : (k.dispatched t).cur = t := rfl

@[simp] theorem dispatched_priority : ((k.dispatched t).task u).priority = (k.task u).priority := by
  obtain ⟨status, h_task⟩ := k.dispatched_task t u
  rw [h_task]

@[simp] theorem dispatched_task_ticks : ((k.dispatched t).task u).ticks = (k.task u).ticks := by
  obtain ⟨status, h_task⟩ := k.dispatched_task t u
  rw [h_task]

@[simp] theorem dispatched_elapsed :
    ((k.dispatched t).task u).elaspsedTicks = (k.task u).elaspsedTicks := by
  obtain ⟨status, h_task⟩ := k.dispatched_task t u
  rw [h_task]

@[simp] theorem requeued_priority : (k.requeued.task u).priority = (k.task u).priority := by
  by_cases h_u : u = k.cur
  · subst h_u; simp [requeued]
  · simp [requeued, h_u]

@[simp] theorem requeued_elapsed :
    (k.requeued.task u).elaspsedTicks = (k.task u).elaspsedTicks := by
  by_cases h_u : u = k.cur
  · subst h_u; simp [requeued]
  · simp [requeued, h_u]

@[simp] theorem requeued_task_ticks : (k.requeued.task u).ticks =
    if u = k.cur then (k.task u).priority else (k.task u).ticks := by
  by_cases h_u : u = k.cur
  · subst h_u; simp [requeued]
  · simp [requeued, h_u]

end Fields

omit [DecidableEq W] in
/-- An interrupt inside a turn. -/
theorem timerInterrupt_inside {k : Kernel T S W} {F : ListId S → List T} (h : KernelInv k F)
    (h_ticks : (k.task k.cur).ticks ≠ 0) : k.timerInterrupt = .ok k.charged.ticked := by
  rw [timerInterrupt, intrTimerHandler_eq h, if_neg h_ticks]
  rfl

omit [DecidableEq W] in
/-- An interrupt that ends a turn. -/
theorem timerInterrupt_last {k : Kernel T S W} {F : ListId S → List T} (h : KernelInv k F)
    (h_ticks : (k.task k.cur).ticks = 0) {t : T} {ts : List T}
    (h_head : F .ready ++ [k.cur] = t :: ts) :
    k.timerInterrupt = .ok { k.charged.requeued.dispatched t with intr := .on } ∧
      KernelInv { k.charged.requeued.dispatched t with intr := .on }
        (Function.update F .ready ts) := by
  obtain ⟨h_ok, h_inv⟩ := schedule_rotates (charged_inv h) rfl h_head
  refine ⟨?_, h_inv.of_eq rfl (fun _ => ⟨rfl, rfl⟩) rfl rfl rfl rfl⟩
  rw [timerInterrupt, intrTimerHandler_eq h, if_pos h_ticks, h_ok]
  rfl

end Kernel

/-! ### The kernel takes turns -/

/-- The kernel stands for `s`: the running thread holds the turn and has `s.used` of it behind it,
the ready list holds the others in order, each with a turn before it. -/
structure InSlice (len : T → ℕ) (k : Kernel T S W) (F : ListId S → List T) (s : Turns T) :
    Prop where
  inv : KernelInv k F
  queue : s.queue = k.cur :: F .ready
  length (t : T) : k.turnLength t = len t
  cur : (k.task k.cur).ticks.toNat + s.used = (k.task k.cur).priority.toNat
  others : ∀ t ∈ F .ready, (k.task t).ticks = (k.task t).priority

/-- From `k` to `k'` there were `j` interrupts, of which `n t` are charged to `t`. -/
structure Accounts (k k' : Kernel T S W) (j : ℕ) (n : T → ℕ) : Prop where
  ticks : k'.ticks = k.ticks + BitVec.ofNat 32 j
  elapsed (t : T) :
    (k'.task t).elaspsedTicks = (k.task t).elaspsedTicks + BitVec.ofNat 32 (n t)

section

omit [DecidableEq W]

variable {len : T → ℕ} {k : Kernel T S W} {F : ListId S → List T} {s : Turns T}

omit [DecidableEq S] in
/-- An interrupt inside a turn is a step. -/
theorem InSlice.step_inside (h : InSlice len k F s) (h_ticks : (k.task k.cur).ticks ≠ 0) :
    InSlice len k.charged.ticked F (s.step len) := by
  have h_pos : 0 < (k.task k.cur).ticks.toNat :=
    Nat.pos_of_ne_zero fun h_zero => h_ticks (BitVec.eq_of_toNat_eq h_zero)
  have h_less : ((k.task k.cur).ticks - 1).toNat = (k.task k.cur).ticks.toNat - 1 :=
    BitVec.toNat_sub_of_le (BitVec.le_def.mpr h_pos)
  have h_cur := h.cur
  have h_used : s.used + 1 < len k.cur := by
    rw [← h.length, Kernel.turnLength, ← h_cur]
    omega
  have h_step : s.step len = ⟨k.cur :: F .ready, s.used + 1⟩ := by
    obtain ⟨queue, used⟩ := s
    obtain rfl : queue = k.cur :: F .ready := h.queue
    exact Turns.step_inside h_used
  rw [h_step]
  refine ⟨Kernel.ticked_inv (Kernel.charged_inv h.inv), rfl, fun t => ?_, ?_, fun t h_t => ?_⟩
  · rw [← h.length]
    simp [Kernel.turnLength]
  · simp only [Kernel.ticked_cur, Kernel.charged_cur, Kernel.ticked_task_ticks,
      Kernel.ticked_priority, Kernel.charged_task_ticks, Kernel.charged_priority, if_pos]
    omega
  · have h_ne : t ≠ k.cur := by
      rintro rfl
      exact h.inv.cur_free .ready (by simp) h_t
    simpa [h_ne] using h.others t h_t

/-- An interrupt that ends a turn is a step. -/
theorem InSlice.step_last (h : InSlice len k F s) (h_ticks : (k.task k.cur).ticks = 0) {t : T}
    {ts : List T} (h_head : F .ready ++ [k.cur] = t :: ts) :
    InSlice len { k.charged.requeued.dispatched t with intr := .on }
      (Function.update F .ready ts) (s.step len) := by
  -- `ticks` has come down to zero: this was the last unit of the turn
  have h_used : s.used + 1 = len k.cur := by
    rw [← h.length, Kernel.turnLength, ← h.cur, h_ticks]
    exact congrArg (· + 1) (Nat.zero_add s.used).symm
  have h_step : s.step len = ⟨t :: ts, 0⟩ := by
    obtain ⟨queue, used⟩ := s
    obtain rfl : queue = k.cur :: F .ready := h.queue
    rw [← h_head]
    exact Turns.step_last h_used
  -- `schedule` gives the thread that goes back its full slice
  have h_task (u : T) (h_u : u ∈ t :: ts) :
      ((k.charged.requeued.dispatched t).task u).ticks = (k.task u).priority := by
    rw [Kernel.dispatched_task_ticks, Kernel.requeued_task_ticks, Kernel.charged_priority,
      Kernel.charged_task_ticks, Kernel.charged_cur]
    split
    · rfl
    · next h_ne =>
      -- a thread that was in the ready list before
      rw [← h_head] at h_u
      rcases List.mem_append.mp h_u with h_u | h_u
      · exact h.others u h_u
      · exact absurd (List.mem_singleton.mp h_u) h_ne
  rw [h_step]
  refine ⟨(Kernel.timerInterrupt_last h.inv h_ticks h_head).2, ?_, fun u => ?_, ?_, fun u h_u => ?_⟩
  · rw [Function.update_self]
    rfl
  · rw [← h.length]
    simp [Kernel.turnLength]
  · have h_t := congrArg BitVec.toNat (h_task t List.mem_cons_self)
    simpa using h_t
  · rw [Function.update_self] at h_u
    simpa using h_task u (List.mem_cons_of_mem t h_u)

/-- **One interrupt is one step**, charged to the running thread. -/
theorem InSlice.step (h : InSlice len k F s) :
    ∃ k' F', k.timerInterrupt = .ok k' ∧ InSlice len k' F' (s.step len) ∧
      Accounts k k' 1 fun t => if t = k.cur then 1 else 0 := by
  have h_one (t : T) :
      BitVec.ofNat 32 (if t = k.cur then 1 else 0) = if t = k.cur then 1 else 0 := by
    split <;> rfl
  by_cases h_ticks : (k.task k.cur).ticks = 0
  · -- the slice is used up, and the list with the thread at its end is not empty
    obtain ⟨t, ts, h_head⟩ : ∃ t ts, F .ready ++ [k.cur] = t :: ts :=
      List.exists_cons_of_ne_nil (by simp)
    refine ⟨_, _, (Kernel.timerInterrupt_last h.inv h_ticks h_head).1,
      h.step_last h_ticks h_head, rfl, fun u => ?_⟩
    rw [h_one]
    simp
  · refine ⟨_, F, Kernel.timerInterrupt_inside h.inv h_ticks, h.step_inside h_ticks, rfl,
      fun u => ?_⟩
    rw [h_one]
    simp

/-- Some interrupts are as many steps, and every one is charged to the thread that it finds
running. -/
theorem InSlice.steps (h : InSlice len k F s) (j : ℕ) :
    ∃ k' F', k.timerInterrupts j = .ok k' ∧ InSlice len k' F' ((Turns.step len)^[j] s) ∧
      Accounts k k' j fun t =>
        Nat.count (fun i => ((Turns.step len)^[i] s).queue.head? = some t) j := by
  induction j with
  | zero =>
    refine ⟨k, F, rfl, h, (BitVec.add_zero _).symm, fun t => ?_⟩
    exact (BitVec.add_zero _).symm
  | succ j ih =>
    obtain ⟨k₁, F₁, h_ok₁, h₁, h_acc₁⟩ := ih
    obtain ⟨k₂, F₂, h_ok₂, h₂, h_acc₂⟩ := h₁.step
    refine ⟨k₂, F₂, ?_, ?_, ?_, fun t => ?_⟩
    · rw [Kernel.timerInterrupts, h_ok₁]
      exact h_ok₂
    · rwa [Function.iterate_succ_apply']
    · rw [h_acc₂.ticks, h_acc₁.ticks, BitVec.add_assoc, ← BitVec.ofNat_add]
    · -- the interrupt is charged to the thread that it found running
      have h_head : ((Turns.step len)^[j] s).queue.head? = some t ↔ t = k₁.cur := by
        rw [h₁.queue, List.head?_cons, Option.some_inj, eq_comm]
      rw [h_acc₂.elapsed, h_acc₁.elapsed, BitVec.add_assoc, ← BitVec.ofNat_add, Nat.count_succ]
      simp only [h_head]

/-! ### Round robin -/

omit [DecidableEq T] [DecidableEq S] in
/-- Threads with whole turns before them. -/
theorem InSlice.start (h : KernelInv k F)
    (h_full : ∀ t ∈ k.cur :: F .ready, (k.task t).ticks = (k.task t).priority) :
    InSlice k.turnLength k F ⟨k.cur :: F .ready, 0⟩ where
  inv := h
  queue := rfl
  length _ := rfl
  cur := by
    rw [h_full k.cur List.mem_cons_self]
    rfl
  others t h_t := h_full t (List.mem_cons_of_mem _ h_t)

omit [DecidableEq T] [DecidableEq S] in
/-- A thread at the beginning of its turn, or waiting for it, has its whole slice. -/
theorem InSlice.ticks_eq (h : InSlice len k F s) (h_used : s.used = 0) :
    ∀ t ∈ k.cur :: F .ready, (k.task t).ticks = (k.task t).priority := by
  intro t h_t
  rcases List.mem_cons.mp h_t with rfl | h_t
  · have h_cur := h.cur
    rw [h_used, Nat.add_zero] at h_cur
    exact BitVec.eq_of_toNat_eq h_cur
  · exact h.others t h_t

omit [DecidableEq T] [DecidableEq S] in
/-- Turns of the same length come from the same priority. -/
theorem InSlice.priority_eq {k' : Kernel T S W} {F' : ListId S → List T} {s' : Turns T}
    (h : InSlice len k F s) (h' : InSlice len k' F' s') (t : T) :
    (k'.task t).priority = (k.task t).priority := by
  apply BitVec.eq_of_toNat_eq
  have h_length : k'.turnLength t = k.turnLength t := (h'.length t).trans (h.length t).symm
  exact Nat.succ.inj h_length

/-- **Round robin.** The running thread and the ready list, each with `ticks` equal to its
priority, take turns in the order of the list: after `j` interrupts the thread at the place `j` of
the word runs, which goes around and in which each thread stands `priority + 1` times in a row, and
every interrupt so far is charged to the thread that it found running. After whole rounds the
running thread, the ready list and the `ticks` are as before, and each thread has been charged for
`priority + 1` interrupts a round. -/
theorem round_robin (h : KernelInv k F)
    (h_full : ∀ t ∈ k.cur :: F .ready, (k.task t).ticks = (k.task t).priority) :
    let word := (k.cur :: F .ready).flatMap fun t =>
      List.replicate ((k.task t).priority.toNat + 1) t
    let round := ((k.cur :: F .ready).map fun t => (k.task t).priority.toNat + 1).sum
    (∀ j, ∃ k' F', k.timerInterrupts j = .ok k' ∧ KernelInv k' F' ∧
      (k'.cur :: F' .ready).IsRotated (k.cur :: F .ready) ∧
      some k'.cur = word[j % round]? ∧
      k'.ticks = k.ticks + BitVec.ofNat 32 j ∧
      ∀ t, (k'.task t).elaspsedTicks = (k.task t).elaspsedTicks +
        BitVec.ofNat 32 (Nat.count (fun i => word[i % round]? = some t) j)) ∧
    ∀ n, ∃ k' F', k.timerInterrupts (n * round) = .ok k' ∧ KernelInv k' F' ∧
      k'.cur = k.cur ∧ F' .ready = F .ready ∧
      k'.ticks = k.ticks + BitVec.ofNat 32 (n * round) ∧
      ∀ t ∈ k.cur :: F .ready, (k'.task t).ticks = (k.task t).ticks ∧
        (k'.task t).elaspsedTicks = (k.task t).elaspsedTicks +
          BitVec.ofNat 32 (n * ((k.task t).priority.toNat + 1)) := by
  intro word round
  have h_pos (t : T) : 0 < k.turnLength t := Nat.succ_pos _
  have h_start := InSlice.start h h_full
  have h_word : turnWord k.turnLength (k.cur :: F .ready) = word := rfl
  have h_round : word.length = round := by
    simp only [word, round, List.length_flatMap, List.length_replicate]
  -- who runs after `i` interrupts is read off the word
  have h_holder (i : ℕ) :
      ((Turns.step k.turnLength)^[i] ⟨k.cur :: F .ready, 0⟩).queue.head? = word[i % round]? := by
    rw [Turns.holder_iterate h_pos (List.cons_ne_nil _ _) i, h_word, h_round]
  constructor
  · intro j
    obtain ⟨k', F', h_ok, h', h_acc⟩ := h_start.steps j
    refine ⟨k', F', h_ok, h'.inv, ?_, ?_, h_acc.ticks, fun t => ?_⟩
    · rw [← h'.queue]
      exact Turns.queue_iterate _ j
    · rw [← h_holder, h'.queue, List.head?_cons]
    · rw [h_acc.elapsed]
      simp only [h_holder]
  · intro n
    obtain ⟨k', F', h_ok, h', h_acc⟩ := h_start.steps (n * round)
    -- whole rounds bring the queue back
    rw [← h_round, ← h_word, Turns.round h_pos] at h'
    obtain ⟨h_cur, h_ready⟩ := List.cons.inj h'.queue
    refine ⟨k', F', h_ok, h'.inv, h_cur.symm, h_ready.symm, h_acc.ticks, fun t h_t => ⟨?_, ?_⟩⟩
    · rw [h'.ticks_eq rfl t (h'.queue ▸ h_t), h_full t h_t, h_start.priority_eq h' t]
    · have h_nodup : (k.cur :: F .ready).Nodup :=
        List.nodup_cons.mpr ⟨h.cur_free .ready (by simp), h.nodup .ready⟩
      have h_count : Nat.count (fun i => word[i % round]? = some t) (n * round) =
          n * ((k.task t).priority.toNat + 1) := by
        rw [← h_round, count_rounds, ← h_word, count_word h_nodup h_t]
        rfl
      rw [h_acc.elapsed, ← h_count]
      simp only [h_holder]

end

/-- The main thread, of priority 31, and a thread of priority 2: after 40 interrupts the main thread
has had its 32, the other one its 3, and the main thread 5 more. -/
theorem round_robin_two : ∃ (k : Kernel (Fin 2) Unit Unit) (F : ListId Unit → List (Fin 2)),
    KernelInv k F ∧ k.cur = 0 ∧ F .ready = [1] ∧ (k.task 0).priority = 31 ∧
    (k.task 1).priority = 2 ∧
    ∃ k', k.timerInterrupts 40 = .ok k' ∧ k'.cur = 0 ∧ k'.ticks = 40 ∧
      (k'.task 0).elaspsedTicks = 37 ∧ (k'.task 1).elaspsedTicks = 3 := by
  have h_reach := Machine.Reachable.play (M := schedSys (T := Fin 2) (W := Unit) fun _ : Unit => 1)
    (.init (bootState_init 0 _)) [.start 1 2] rfl
  obtain ⟨F, h⟩ := schedSys_inv h_reach
  have h_ready : F .ready = [1] := by
    have h_mem (t : Fin 2) : t ∈ F .ready ↔ t ∈ [1] := by
      rw [h.ready]
      revert t
      exact Fin.forall_fin_two.mpr ⟨by decide, by decide⟩
    exact List.perm_singleton.mp
      ((List.perm_ext_iff_of_nodup (h.nodup .ready) (List.nodup_singleton 1)).mpr h_mem)
  refine ⟨_, F, h, rfl, h_ready, rfl, rfl, ?_⟩
  -- forty interrupts are a round of 35 and five more
  have h_run := (round_robin h (Fin.forall_fin_two.mpr ⟨fun _ => rfl, fun _ => rfl⟩)).1 40
  rw [h_ready] at h_run
  obtain ⟨k', F', h_ok, -, -, h_cur, h_ticks, h_elapsed⟩ := h_run
  exact ⟨k', h_ok, Option.some.inj h_cur, h_ticks, h_elapsed 0, h_elapsed 1⟩

end ToiletOS
