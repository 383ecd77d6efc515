import Mathlib.Logic.Function.Basic
import Mathlib.Data.List.Nodup
import Mathlib.Data.BitVec

/-!
# Task status, semaphores and locks

The data of `thread.h` and `sync.h` that the synchronisation code works on, and
that code itself: `thread_block` and `thread_unblock` (`kernel/thread/thread.c`),
`semaphore_init`, `semaphore_down`, `semaphore_up` and `lock_init`
(`kernel/thread/sync.c`).

This is the level at which the lock and the queue are verified. A thread that is
not asleep may be given the processor at every point where control can move, so
the status map records only who is asleep and who is not, and a wait list is the
sequence of its threads. `ToiletOS/Sched` models the same functions one level
down, with the ready list, the running thread and the pointers of the intrusive
lists, and proves that level to refine this one.

`semaphore_down` sleeps in the middle of its loop. `semaphoreDown` is one pass of
that loop: it either takes the semaphore or falls asleep, and a thread that is
woken makes the next pass.
-/

namespace ToiletOS

/-- The `ASSERT`s of the thread, synchronisation and queue code. A failed one
calls `panic_spin`, which never returns. -/
inductive Assertion
  -- `thread_block`: `status` is one of the three sleeping states.
  | blockStatus
  -- `thread_unblock`: the thread is in one of the three sleeping states.
  | unblockStatus
  -- `thread_unblock`: `!list_find(&thread_ready_list, &pthread->general_tag)`.
  | unblockNotReady
  -- `schedule`: `intr_get_status() == INTR_OFF`.
  | scheduleIntrOff
  -- `schedule`: `!list_find(&thread_ready_list, &cur_thread->general_tag)`.
  | scheduleNotReady
  -- `schedule`: `!list_empty(&thread_ready_list)`.
  | scheduleNonEmpty
  -- `thread_start`: `!list_find(&thread_ready_list, &thread->general_tag)`.
  | startNotReady
  -- `thread_start` and `make_main_thread`: the thread is not in
  -- `thread_all_list`.
  | startNotAll
  -- `intr_timer_handler`: `cur_thread->stack_magic == 0x77777777`.
  | timerMagic
  -- `semaphore_down`: `!list_find(&psem->waiters, &cur->general_tag)`.
  | downNotWaiting
  -- `semaphore_down`: `psem->value == 0` after the decrement.
  | downValueZero
  -- `semaphore_up`: `psem->value == 0` on entry.
  | upValueZero
  -- `semaphore_up`: `psem->value == 1` after the increment.
  | upValueOne
  -- `lock_acquire`: `plock->holder_repeat_num == 0`.
  | acquireRepeatZero
  -- `lock_release`: `plock->holder == running_thread()`.
  | releaseHolder
  -- `lock_release`: `plock->holder_repeat_num == 1`.
  | releaseRepeatOne
  deriving DecidableEq, Repr

/-- `ASSERT(c)`: go on if `c` holds, stop in `panic_spin` otherwise. -/
def assert {ε : Type} (c : Prop) [Decidable c] (e : ε) : Except ε Unit :=
  if c then .ok () else .error e

@[simp] theorem assert_pos {ε : Type} {c : Prop} [Decidable c] {e : ε} (h : c) :
    assert c e = .ok () := if_pos h

@[simp] theorem assert_neg {ε : Type} {c : Prop} [Decidable c] {e : ε} (h : ¬ c) :
    assert c e = .error e := if_neg h

@[simp] theorem ok_bind {ε α β : Type} (a : α) (f : α → Except ε β) :
    (Except.ok a >>= f) = f a := rfl

@[simp] theorem error_bind {ε α β : Type} (e : ε) (f : α → Except ε β) :
    ((Except.error e : Except ε α) >>= f) = .error e := rfl

@[simp] theorem pure_eq_ok {ε α : Type} (a : α) : (pure a : Except ε α) = .ok a := rfl

/-- `enum task_status`. -/
inductive TaskStatus
  | running | ready | blocked | waitting | hanging | died
  deriving DecidableEq, Repr

/-- The three states a thread can be put to sleep in. -/
def TaskStatus.Asleep (s : TaskStatus) : Prop :=
  s = .blocked ∨ s = .hanging ∨ s = .waitting

instance (s : TaskStatus) : Decidable s.Asleep :=
  inferInstanceAs (Decidable (_ ∨ _ ∨ _))

theorem TaskStatus.asleep_blocked : TaskStatus.blocked.Asleep := Or.inl rfl

variable {T : Type} [DecidableEq T]

/-- `thread_block` up to the point where another thread runs: the caller gets
the given status. -/
def threadBlock (cur : T) (st : TaskStatus) (status : T → TaskStatus) :
    Except Assertion (T → TaskStatus) := do
  assert st.Asleep .blockStatus
  return Function.update status cur st

/-- `thread_unblock`: a sleeping thread becomes ready. -/
def threadUnblock (pthread : T) (status : T → TaskStatus) :
    Except Assertion (T → TaskStatus) := do
  assert (status pthread).Asleep .unblockStatus
  if status pthread ≠ .ready then
    return Function.update status pthread .ready
  else
    return status

/-- `struct semaphore`. -/
structure Semaphore (T : Type) where
  value : BitVec 8
  waiters : List T

/-- `semaphore_init`. -/
def semaphoreInit (value : BitVec 8) : Semaphore T := ⟨value, []⟩

/-- One pass of the loop of `semaphore_down` by thread `cur`. The flag says
whether the semaphore was taken; if it was not, `cur` is asleep in `waiters` and
makes another pass when it is woken. -/
def semaphoreDown (cur : T) (status : T → TaskStatus) (psem : Semaphore T) :
    Except Assertion (Bool × (T → TaskStatus) × Semaphore T) :=
  if psem.value = 0 then do
    assert (cur ∉ psem.waiters) .downNotWaiting
    let psem := { psem with waiters := psem.waiters ++ [cur] }
    let status ← threadBlock cur .blocked status
    return (false, status, psem)
  else do
    let psem := { psem with value := psem.value - 1 }
    assert (psem.value = 0) .downValueZero
    return (true, status, psem)

/-- `semaphore_up`: wake the first waiter, if any, and give the unit back. -/
def semaphoreUp (status : T → TaskStatus) (psem : Semaphore T) :
    Except Assertion ((T → TaskStatus) × Semaphore T) := do
  assert (psem.value = 0) .upValueZero
  let (status, waiters) ← match psem.waiters with
    | [] => pure (status, [])
    | waiter :: rest => do
      let status ← threadUnblock waiter status
      pure (status, rest)
  let psem : Semaphore T := ⟨psem.value + 1, waiters⟩
  assert (psem.value = 1) .upValueOne
  return (status, psem)

/-! ### What the operations do on a binary semaphore -/

omit [DecidableEq T] in
@[simp] theorem semaphoreInit_value (v : BitVec 8) :
    (semaphoreInit v : Semaphore T).value = v := rfl

omit [DecidableEq T] in
@[simp] theorem semaphoreInit_waiters (v : BitVec 8) :
    (semaphoreInit v : Semaphore T).waiters = [] := rfl

theorem threadBlock_blocked (cur : T) (status : T → TaskStatus) :
    threadBlock cur .blocked status = .ok (Function.update status cur .blocked) := by
  simp [threadBlock, TaskStatus.asleep_blocked]

theorem threadUnblock_blocked {t : T} {status : T → TaskStatus} (h : status t = .blocked) :
    threadUnblock t status = .ok (Function.update status t .ready) := by
  simp [threadUnblock, h, TaskStatus.asleep_blocked]

/-- A pass that finds the unit takes it. -/
theorem semaphoreDown_free (cur : T) (status : T → TaskStatus) {psem : Semaphore T}
    (hv : psem.value = 1) :
    semaphoreDown cur status psem = .ok (true, status, ⟨0, psem.waiters⟩) := by
  simp [semaphoreDown, hv]

/-- Taking one of several units fails the `ASSERT` after the decrement. -/
theorem semaphoreDown_several (cur : T) (status : T → TaskStatus) {psem : Semaphore T}
    (hv : psem.value ≠ 0) (h1 : psem.value ≠ 1) :
    semaphoreDown cur status psem = .error .downValueZero := by
  have h_dec : ¬ psem.value - 1 = 0 := fun h => h1 (by rwa [sub_eq_zero] at h)
  rw [semaphoreDown, if_neg hv]
  show assert (psem.value - 1 = 0) _ >>= _ = _
  rw [assert_neg h_dec]
  rfl

/-- A pass that does not find the unit puts the thread to sleep. -/
theorem semaphoreDown_taken {cur : T} (status : T → TaskStatus) {psem : Semaphore T}
    (hv : psem.value = 0) (hw : cur ∉ psem.waiters) :
    semaphoreDown cur status psem
      = .ok (false, Function.update status cur .blocked, ⟨0, psem.waiters ++ [cur]⟩) := by
  simp [semaphoreDown, hv, hw, threadBlock_blocked]

/-- An up with nobody waiting only gives the unit back. -/
theorem semaphoreUp_nil (status : T → TaskStatus) {psem : Semaphore T}
    (hv : psem.value = 0) (hw : psem.waiters = []) :
    semaphoreUp status psem = .ok (status, ⟨1, []⟩) := by
  simp [semaphoreUp, hv, hw]

/-- An up wakes the first waiter; the unit is free for whoever tests it first. -/
theorem semaphoreUp_cons (status : T → TaskStatus) {psem : Semaphore T} {w : T} {ws : List T}
    (hv : psem.value = 0) (hw : psem.waiters = w :: ws) (hb : status w = .blocked) :
    semaphoreUp status psem = .ok (Function.update status w .ready, ⟨1, ws⟩) := by
  simp [semaphoreUp, hv, hw, threadUnblock_blocked hb]

/-- `struct lock`. -/
structure Lock (T : Type) where
  holder : Option T
  semaphore : Semaphore T
  holderRepeatNum : BitVec 32

/-- `lock_init`. -/
def lockInit : Lock T := ⟨none, semaphoreInit 1, 0⟩

end ToiletOS
