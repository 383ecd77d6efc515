import ToiletOS.Sched.SchedSys
import Mathlib.Data.Fintype.Basic

/-!
# The walk of `thread_start`, node by node

`list_find` does not disable interrupts, and `thread_start` calls it from the
code of a thread, so the timer may interrupt the walk over `thread_ready_list`
between any two nodes. `walkSys` is the machine of `Sched/SchedSys.lean` with
this walk taken apart: `start` gets the page, fills in the PCB and loads
`list->head.next` into `e`, `next` is one `e = e->next`, and `finish` leaves the
loop and runs the rest of `thread_start`, the walk over `thread_all_list` with it, in
one piece. Between them every other thread may run the scheduler, the semaphores and
a `thread_start` of its own.

A thread inside the walk has no other action than the next one of the walk, and
can be interrupted like any other. `e` is a register of the thread, so nothing
another thread does changes it, while the links it is about to follow may change.
-/

namespace ToiletOS

/-- `thread_start` inside the walk over `thread_ready_list`: the page of the new PCB,
and the node `e` the walk stands on. -/
structure Walk (T S : Type) where
  thread : T
  e : Node T S

/-- The kernel, its threads, and the walks they are in. -/
structure WalkState (T S : Type) where
  sched : SchedState T S Empty
  walk : T → Option (Walk T S)

/-- What can happen next. -/
inductive WalkAct (T S : Type)
  | timer
  | down (psem : S)
  | up (psem : S)
  | enable
  | disable
  | resume
  -- The three parts of `thread_start`.
  | start (thread : T) (prio : BitVec 32)
  | next
  | finish

variable {T S : Type} [DecidableEq T] [DecidableEq S]

namespace WalkState

/-- The kernel. -/
def kernel (st : WalkState T S) : Kernel T S Empty := st.sched.kernel

/-- The running thread. -/
def cur (st : WalkState T S) : T := st.sched.cur

/-- The running thread is in its own code, outside `thread_start`. -/
def Free (st : WalkState T S) : Prop := st.sched.ctx st.cur = .user ∧ st.walk st.cur = none

instance (st : WalkState T S) : Decidable st.Free :=
  inferInstanceAs (Decidable (st.sched.ctx st.cur = .user ∧ st.walk st.cur = none))

/-- What the scheduler, the semaphores and the interrupt flag do leaves the walks alone. -/
def setSched (st : WalkState T S) (r : Except Stop (SchedState T S Empty)) :
    Except Stop (WalkState T S) := do
  let sched ← r
  return { st with sched := sched }

/-- `thread_start` up to the first node of the walk. -/
def start (st : WalkState T S) (thread : T) (prio : BitVec 32) : WalkState T S :=
  let k := st.kernel.initThread thread prio
  -- `e = list->head.next`
  { sched := st.sched.setKernel k
    walk := Function.update st.walk st.cur (some ⟨thread, (k.links .readyHead).next⟩) }

/-- `e = e->next`. -/
def next (st : WalkState T S) (w : Walk T S) : Except Stop (WalkState T S) :=
  if w.e = .null then .error .wild
  else
    .ok { st with
      walk := Function.update st.walk st.cur (some { w with e := (st.kernel.links w.e).next }) }

/-- `thread_start` from the end of the walk. -/
def finish (st : WalkState T S) (w : Walk T S) : Except Stop (WalkState T S) := do
  assert (w.e ≠ .general w.thread) (.assertion .startNotReady)
  let k := (st.kernel.created w.thread).listAppend .ready (.general w.thread)
  k.assertNotIn .all w.thread .startNotAll
  return {
    sched := { st.sched with
      kernel := k.listAppend .all (.all w.thread)
      ctx := Function.update st.sched.ctx w.thread .entry }
    walk := Function.update st.walk st.cur none }

end WalkState

/-- The loop of `list_find` ends at the tail of the list, or at the node it looks for. -/
def Walk.Ended (w : Walk T S) : Prop := w.e = .readyTail ∨ w.e = .general w.thread

instance (w : Walk T S) : Decidable w.Ended :=
  inferInstanceAs (Decidable (w.e = .readyTail ∨ w.e = .general w.thread))

/-- Any number of threads and semaphores, with the semaphores as `semaphore_init` leaves them.
`get_kernel_pages` returns no page that is already a PCB. -/
def walkSys (value : S → BitVec 8) : Machine (WalkState T S) (WalkAct T S) Stop where
  init st := (schedSys value).init st.sched ∧ ∀ t, st.walk t = none
  enabled st
    | .timer => st.sched.ctx st.cur = .user ∧ st.kernel.intr = .on
    | .down _ | .up _ | .enable | .disable => st.Free
    | .resume => st.sched.ctx st.cur ≠ .user
    | .start thread _ => st.Free ∧ thread ∉ st.kernel.threads ∧
        ∀ t, (st.walk t).map Walk.thread ≠ some thread
    | .next => st.sched.ctx st.cur = .user ∧ ∃ w ∈ st.walk st.cur, ¬ w.Ended
    | .finish => st.sched.ctx st.cur = .user ∧ ∃ w ∈ st.walk st.cur, w.Ended
  exec st
    | .timer => st.setSched st.sched.timer
    | .down psem => st.setSched (st.sched.down psem)
    | .up psem => st.setSched (st.sched.up psem)
    | .enable => st.setSched (.ok (st.sched.setKernel st.kernel.intrEnable.2))
    | .disable => st.setSched (.ok (st.sched.setKernel st.kernel.intrDisable.2))
    | .resume => st.setSched st.sched.resume
    | .start thread prio => .ok (st.start thread prio)
    | .next => (st.walk st.cur).elim (.ok st) st.next
    | .finish => (st.walk st.cur).elim (.ok st) st.finish

instance [Fintype T] (value : S → BitVec 8) (st : WalkState T S) :
    ∀ a, Decidable ((walkSys value).enabled st a)
  | .timer => inferInstanceAs (Decidable (st.sched.ctx st.cur = .user ∧ st.kernel.intr = .on))
  | .down _ | .up _ | .enable | .disable => inferInstanceAs (Decidable st.Free)
  | .resume => inferInstanceAs (Decidable (st.sched.ctx st.cur ≠ .user))
  | .start thread _ => inferInstanceAs (Decidable (st.Free ∧ thread ∉ st.kernel.threads ∧
      ∀ t, (st.walk t).map Walk.thread ≠ some thread))
  | .next => inferInstanceAs (Decidable
      (st.sched.ctx st.cur = .user ∧ ∃ w ∈ st.walk st.cur, ¬ w.Ended))
  | .finish => inferInstanceAs (Decidable
      (st.sched.ctx st.cur = .user ∧ ∃ w ∈ st.walk st.cur, w.Ended))

end ToiletOS
