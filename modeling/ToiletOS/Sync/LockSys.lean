import ToiletOS.Framework.Machine
import ToiletOS.Sync.Semaphore

/-!
# Threads that use one lock

`lock_acquire` and `lock_release` (`kernel/thread/sync.c`) run with interrupts
enabled, so a thread can lose the processor between any two of their steps. Only
the semaphore operations they call run with interrupts disabled. `LockPc` lists
the points at which a thread can stand: one before each access to a field of the
lock, with `holder_repeat_num++` and `holder_repeat_num--` split into the read
and the write of the field. `LockState.run` takes the thread from one point to
the next.

`lockSys` lets any number of threads call the two functions in any order, with
`lock_release` called only by a thread that holds the lock, and lets any thread
that is not asleep take the next step. `depth` is a ghost: it counts the calls of
`lock_acquire` that a thread has made and not yet undone by `lock_release`, and
is updated where the code updates `holder_repeat_num`.
-/

namespace ToiletOS

/-- Where a thread stands in the code of the lock. -/
inductive LockPc
  -- In its own code, in no call of the lock.
  | user
  -- `lock_acquire`: before reading `plock->holder`.
  | testHolder
  -- `lock_acquire`: in the loop of `semaphore_down`, possibly asleep.
  | down
  -- `lock_acquire`: before `plock->holder = cur`.
  | setHolder
  -- `lock_acquire`: before the `ASSERT` on `holder_repeat_num`.
  | assertRepeatZero
  -- `lock_acquire`: before `holder_repeat_num = 1`.
  | setRepeat
  -- `lock_acquire`: before the read of `holder_repeat_num++`.
  | incLoad
  -- `lock_acquire`: before the write of `holder_repeat_num++`.
  | incStore (v : BitVec 32)
  -- `lock_release`: before the `ASSERT` on `holder`.
  | assertHolder
  -- `lock_release`: before the test `holder_repeat_num > 1`.
  | testRepeat
  -- `lock_release`: before the read of `holder_repeat_num--`.
  | decLoad
  -- `lock_release`: before the write of `holder_repeat_num--`.
  | decStore (v : BitVec 32)
  -- `lock_release`: before the `ASSERT` on `holder_repeat_num`.
  | assertRepeatOne
  -- `lock_release`: before `plock->holder = NULL`.
  | clearHolder
  -- `lock_release`: before `holder_repeat_num = 0`.
  | clearRepeat
  -- `lock_release`: before `semaphore_up`.
  | up
  deriving DecidableEq, Repr

/-- The points of a call of `lock_release`. -/
def LockPc.releasing : LockPc → Bool
  | .assertHolder | .testRepeat | .decLoad | .decStore _ | .assertRepeatOne
  | .clearHolder | .clearRepeat | .up => true
  | _ => false

/-- The lock, the threads and where each of them stands. -/
structure LockState (T : Type) where
  status : T → TaskStatus
  lock : Lock T
  pc : T → LockPc
  /-- The calls of `lock_acquire` not yet undone (ghost). -/
  depth : T → ℕ

/-- What can happen next: a thread calls one of the two functions, or takes the
next step of the call it is in. -/
inductive LockAct (T : Type)
  | acquire (t : T)
  | release (t : T)
  | run (t : T)

variable {T : Type} [DecidableEq T]

namespace LockState

/-- Thread `t` moves to the point `p`. -/
def goto (s : LockState T) (t : T) (p : LockPc) : LockState T :=
  { s with pc := Function.update s.pc t p }

/-- A write of `plock->holder`. -/
def setHolder (s : LockState T) (h : Option T) : LockState T :=
  { s with lock := ⟨h, s.lock.semaphore, s.lock.holderRepeatNum⟩ }

/-- A write of `v` to `holder_repeat_num` by thread `t`, which makes its nesting
depth `d`. -/
def setRepeat (s : LockState T) (t : T) (v : BitVec 32) (d : ℕ) : LockState T :=
  { s with
    lock := ⟨s.lock.holder, s.lock.semaphore, v⟩
    depth := Function.update s.depth t d }

/-- The outcome of a semaphore operation. -/
def setSemaphore (s : LockState T) (status : T → TaskStatus) (sem : Semaphore T) :
    LockState T :=
  { s with
    status := status
    lock := ⟨s.lock.holder, sem, s.lock.holderRepeatNum⟩ }

/-- The next step of thread `t` in the call it is in. -/
def run (s : LockState T) (t : T) : Except Assertion (LockState T) :=
  match s.pc t with
  | .user => .ok s
  | .testHolder =>
    .ok (if s.lock.holder ≠ some t then s.goto t .down else s.goto t .incLoad)
  | .down => do
    let (taken, status, sem) ← semaphoreDown t s.status s.lock.semaphore
    let s := s.setSemaphore status sem
    return if taken then s.goto t .setHolder else s
  | .setHolder => .ok ((s.setHolder (some t)).goto t .assertRepeatZero)
  | .assertRepeatZero => do
    assert (s.lock.holderRepeatNum = 0) .acquireRepeatZero
    return s.goto t .setRepeat
  | .setRepeat => .ok ((s.setRepeat t 1 (s.depth t + 1)).goto t .user)
  | .incLoad => .ok (s.goto t (.incStore s.lock.holderRepeatNum))
  | .incStore v => .ok ((s.setRepeat t (v + 1) (s.depth t + 1)).goto t .user)
  | .assertHolder => do
    assert (s.lock.holder = some t) .releaseHolder
    return s.goto t .testRepeat
  | .testRepeat =>
    .ok (if 1 < s.lock.holderRepeatNum then s.goto t .decLoad else s.goto t .assertRepeatOne)
  | .decLoad => .ok (s.goto t (.decStore s.lock.holderRepeatNum))
  | .decStore v => .ok ((s.setRepeat t (v - 1) (s.depth t - 1)).goto t .user)
  | .assertRepeatOne => do
    assert (s.lock.holderRepeatNum = 1) .releaseRepeatOne
    return s.goto t .clearHolder
  | .clearHolder => .ok ((s.setHolder none).goto t .clearRepeat)
  | .clearRepeat => .ok ((s.setRepeat t 0 (s.depth t - 1)).goto t .up)
  | .up => do
    let (status, sem) ← semaphoreUp s.status s.lock.semaphore
    return (s.setSemaphore status sem).goto t .user

/-- `t` is between the return of its outermost `lock_acquire` and the start of
the matching `lock_release`. -/
def InCritical (s : LockState T) (t : T) : Prop :=
  0 < s.depth t ∧ ¬ (s.depth t = 1 ∧ (s.pc t).releasing = true)

end LockState

/-- Any number of threads around one lock set up by `lock_init`. -/
def lockSys (T : Type) [DecidableEq T] : Machine (LockState T) (LockAct T) Assertion where
  init s := s = ⟨fun _ => .ready, lockInit, fun _ => .user, fun _ => 0⟩
  enabled s
    | .acquire t => s.pc t = .user
    | .release t => s.pc t = .user ∧ 0 < s.depth t
    | .run t => s.pc t ≠ .user ∧ s.status t ≠ .blocked
  exec s
    | .acquire t => .ok (s.goto t .testHolder)
    | .release t => .ok (s.goto t .assertHolder)
    | .run t => s.run t

instance (s : LockState T) : ∀ a, Decidable ((lockSys T).enabled s a)
  | .acquire t => inferInstanceAs (Decidable (s.pc t = .user))
  | .release t => inferInstanceAs (Decidable (s.pc t = .user ∧ 0 < s.depth t))
  | .run t => inferInstanceAs (Decidable (s.pc t ≠ .user ∧ s.status t ≠ .blocked))

/-- The point before the write of `holder_repeat_num++`. -/
def LockPc.incrementing : LockPc → Bool
  | .incStore _ => true
  | _ => false

/-- The step does not nest the lock `2 ^ 32` deep: the counter the thread is
about to increment is not at its maximum. -/
def NestBound (s : LockState T) : LockAct T → Prop
  | .run t => (s.pc t).incrementing = true → s.depth t + 1 < 2 ^ 32
  | _ => True

instance (s : LockState T) : ∀ a, Decidable (NestBound s a)
  | .acquire _ | .release _ => isTrue trivial
  | .run t =>
    inferInstanceAs (Decidable ((s.pc t).incrementing = true → s.depth t + 1 < 2 ^ 32))

end ToiletOS
