import ToiletOS.Framework.Machine
import ToiletOS.Sched.Refinement

/-!
# The scheduler as a machine

`schedSys` runs the kernel of `Sched/Kernel.lean`: from `thread_init`, the running
thread makes any of the calls that move threads between lists, in any order, and
the timer interrupts it wherever interrupts are enabled. One step is a section
with interrupts disabled, up to its end or up to `switch_to`; what the thread
switched to does before it is back in its own code is the step `resume`, and
`SchedCtx` records what that is.

`rotate` is no step of the kernel. It turns the ready list, so that a theorem
about all runs covers every choice of the next thread and does not depend on the
order in which the kernel happens to keep its ready threads.

Two ghosts serve the statement about lost wakeups: `woken s` lists the threads
that `semaphore_up` popped from the waiters of `s` and that have not tested the
value again, and `own t s` counts the calls of `semaphore_down` on `s` that `t`
completed and did not undo.
-/

namespace ToiletOS

/-- What a thread does when it is switched to. -/
inductive SchedCtx (S : Type)
  -- It is in its own code.
  | user
  -- It has never run; `kernel_thread` enables interrupts first.
  | entry
  -- It was interrupted by the timer; `iretd` enables interrupts again.
  | preempted
  -- It sleeps in the loop of `semaphore_down`.
  | down (psem : S) (oldStatus : IntrStatus)
  -- It sleeps in `queue_wait`.
  | wait (oldStatus : IntrStatus)
  deriving DecidableEq

/-- The kernel and its threads. -/
structure SchedState (T S W : Type) where
  kernel : Kernel T S W
  ctx : T → SchedCtx S
  woken : S → List T
  own : T → S → ℕ

/-- What can happen next. -/
inductive SchedAct (T S W : Type)
  | timer
  | down (psem : S)
  | up (psem : S)
  | wait (waiter : W)
  | wake (waiter : W)
  | start (thread : T) (prio : BitVec 32)
  | enable
  | disable
  | resume
  | rotate

variable {T S W : Type} [DecidableEq T] [DecidableEq S] [DecidableEq W]

namespace SchedState

/-- The running thread. -/
def cur (st : SchedState T S W) : T := st.kernel.cur

/-- The running thread goes on in the context `c`. -/
def setCtx (st : SchedState T S W) (c : SchedCtx S) : SchedState T S W :=
  { st with ctx := Function.update st.ctx st.cur c }

/-- The kernel moves on. -/
def setKernel (st : SchedState T S W) (k : Kernel T S W) : SchedState T S W :=
  { st with kernel := k }

/-- A timer interrupt. -/
def timer (st : SchedState T S W) : Except Stop (SchedState T S W) := do
  let (switched, k) ← st.kernel.intrTimerHandler
  return (if switched then st.setCtx .preempted else st).setKernel k

/-- A pass of the loop of `semaphore_down`, which tests the value. -/
def downPass (st : SchedState T S W) (psem : S) (oldStatus : IntrStatus) :
    Except Stop (SchedState T S W) := do
  let (taken, k) ← st.kernel.semaphoreDown psem oldStatus
  let ctx := if taken then .user else .down psem oldStatus
  let own := st.own st.cur psem + if taken then 1 else 0
  return {
    kernel := k
    ctx := Function.update st.ctx st.cur ctx
    woken := Function.update st.woken psem ((st.woken psem).filter (· ≠ st.cur))
    own := Function.update st.own st.cur (Function.update (st.own st.cur) psem own) }

/-- `semaphore_down`, entered from the thread's own code. -/
def down (st : SchedState T S W) (psem : S) : Except Stop (SchedState T S W) :=
  let (oldStatus, k) := st.kernel.intrDisable
  (st.setKernel k).downPass psem oldStatus

/-- The thread that `semaphore_up` is about to pop. -/
def firstWaiter (st : SchedState T S W) (psem : S) : Option T :=
  if st.kernel.listEmpty (.wait psem) then none
  else (elem2entry (st.kernel.links (.waitHead psem)).next).toOption

/-- `semaphore_up`. -/
def up (st : SchedState T S W) (psem : S) : Except Stop (SchedState T S W) := do
  let k ← st.kernel.semaphoreUp psem
  return {
    kernel := k
    ctx := st.ctx
    woken := Function.update st.woken psem ((st.firstWaiter psem).toList ++ st.woken psem)
    own := Function.update st.own st.cur
      (Function.update (st.own st.cur) psem (st.own st.cur psem - 1)) }

/-- `queue_wait`. -/
def wait (st : SchedState T S W) (waiter : W) : Except Stop (SchedState T S W) := do
  let (oldStatus, k) ← st.kernel.queueWait waiter
  return (st.setCtx (.wait oldStatus)).setKernel k

/-- `wakeup`. -/
def wake (st : SchedState T S W) (waiter : W) : Except Stop (SchedState T S W) := do
  let k ← st.kernel.wakeup waiter
  return st.setKernel k

/-- `thread_start`. -/
def start (st : SchedState T S W) (thread : T) (prio : BitVec 32) :
    Except Stop (SchedState T S W) := do
  let k ← st.kernel.threadStart thread prio
  return { st with kernel := k, ctx := Function.update st.ctx thread .entry }

/-- What the thread that has been switched to does first. -/
def resume (st : SchedState T S W) : Except Stop (SchedState T S W) :=
  match st.ctx st.cur with
  | .user => .ok st
  | .entry | .preempted => .ok ((st.setCtx .user).setKernel st.kernel.intrEnable.2)
  | .down psem oldStatus =>
    -- `thread_block` was called with interrupts disabled, and leaves them so
    (st.setKernel (st.kernel.intrSetStatus .off)).downPass psem oldStatus
  | .wait oldStatus => .ok ((st.setCtx .user).setKernel (st.kernel.intrSetStatus oldStatus))

/-- The head of the ready list goes to its tail. -/
def rotate (st : SchedState T S W) : SchedState T S W :=
  let (elem, k) := st.kernel.listPop .ready
  st.setKernel (k.listAppend .ready elem)

end SchedState

/-- Any number of threads, semaphores and waiter slots. The semaphores are as
`semaphore_init` leaves them, with the values `value`, and the slots are empty. -/
def schedSys (value : S → BitVec 8) :
    Machine (SchedState T S W) (SchedAct T S W) Stop where
  init st := st.ctx = (fun _ => .user) ∧ st.woken = (fun _ => []) ∧ st.own = (fun _ _ => 0) ∧
    ∃ k : Kernel T S W, k.threads = [] ∧ (∀ w, k.slot w = none) ∧ k.value = value ∧
      (∀ s, k.links.Linked (.waitHead s) (.waitTail s)) ∧ k.threadInit = .ok st.kernel
  enabled st
    | .timer => st.ctx st.cur = .user ∧ st.kernel.intr = .on
    | .down _ | .up _ | .wait _ | .enable | .disable => st.ctx st.cur = .user
    | .wake waiter => st.ctx st.cur = .user ∧ st.kernel.slot waiter ≠ none
    | .start thread _ => st.ctx st.cur = .user ∧ thread ∉ st.kernel.threads
    | .resume => st.ctx st.cur ≠ .user
    | .rotate => st.ctx st.cur = .user ∧ st.kernel.listEmpty .ready = false
  exec st
    | .timer => st.timer
    | .down psem => st.down psem
    | .up psem => st.up psem
    | .wait waiter => st.wait waiter
    | .wake waiter => st.wake waiter
    | .start thread prio => st.start thread prio
    | .enable => .ok (st.setKernel st.kernel.intrEnable.2)
    | .disable => .ok (st.setKernel st.kernel.intrDisable.2)
    | .resume => st.resume
    | .rotate => .ok st.rotate

instance (value : S → BitVec 8) (st : SchedState T S W) :
    ∀ a, Decidable ((schedSys value).enabled st a)
  | .timer => inferInstanceAs (Decidable (st.ctx st.cur = .user ∧ st.kernel.intr = .on))
  | .down _ | .up _ | .wait _ | .enable | .disable =>
    inferInstanceAs (Decidable (st.ctx st.cur = .user))
  | .wake waiter =>
    inferInstanceAs (Decidable (st.ctx st.cur = .user ∧ st.kernel.slot waiter ≠ none))
  | .start thread _ =>
    inferInstanceAs (Decidable (st.ctx st.cur = .user ∧ thread ∉ st.kernel.threads))
  | .resume => inferInstanceAs (Decidable (st.ctx st.cur ≠ .user))
  | .rotate =>
    inferInstanceAs (Decidable (st.ctx st.cur = .user ∧ st.kernel.listEmpty .ready = false))

end ToiletOS
