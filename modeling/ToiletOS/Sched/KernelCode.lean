import ToiletOS.Framework.RelyGuarantee
import ToiletOS.Sched.Kernel

/-!
# The code of the lists, the threads and the locks, access by access

The functions of `include/kernel/list.c`, `kernel/thread/thread.c` and `kernel/thread/sync.c`, the
interrupt status functions of `kernel/interrupt.c` and the timer handler, as programs
(`KernelCode`). An operation is one access to memory or to the interrupt flag, so that an
interrupt may come between any two of them.

Calls and returns are operations, too. A call gives the interrupt flag that it finds, and the
return records it together with the flag that it leaves (`framed`). The record, `FlagEvent`, is a
ghost: it also holds the flag at each call of `schedule` and at each write to a list or to the
value of a semaphore.

A loop gets a number of passes, after which the program stops with `.endless`. Whoever makes a
call guesses this number, so that runs of any length are covered.
-/

namespace ToiletOS

/-- The functions whose calls are recorded. -/
inductive Func
  | listInsertBefore | listRemove | schedule | threadBlock | threadUnblock
  | semaphoreDown | semaphoreUp | lockAcquire | lockRelease
  deriving DecidableEq, Repr

/-- An access to memory or to the interrupt flag. A lock is named by its semaphore. -/
inductive KernelOp (T S : Type)
  -- `GET_EFLAGS`, `sti` and `cli`
  | getEflags | sti | cli
  -- `running_thread()`
  | runningThread
  -- the members of a `struct list_elem`
  | next (elem : Node T S) | setNext (elem next : Node T S)
  | prev (elem : Node T S) | setPrev (elem prev : Node T S)
  -- those of a `struct task_struct`
  | status (t : T) | setStatus (t : T) (status : TaskStatus)
  | priority (t : T)
  | ticks (t : T) | setTicks (t : T) (ticks : BitVec 8)
  | elaspsedTicks (t : T) | setElaspsedTicks (t : T) (ticks : BitVec 32)
  | stackMagic (t : T)
  -- those of a `struct semaphore` and a `struct lock`
  | value (psem : S) | setValue (psem : S) (value : BitVec 8)
  | holder (plock : S) | setHolder (plock : S) (holder : Option T)
  | holderRepeatNum (plock : S) | setHolderRepeatNum (plock : S) (num : BitVec 32)
  -- the variable `ticks` of `timer.c`
  | totalTicks | setTotalTicks (ticks : BitVec 32)
  -- `get_kernel_pages`, `init_thread` and `thread_create`: the PCB of a new thread
  | initThread (thread : T) (prio : BitVec 32)
  | switchTo (next : T)
  | iretd (intr : IntrStatus)
  | call (f : Func)
  | ret (f : Func) (atCall : IntrStatus)

/-- What an operation returns. -/
def KernelOp.Res {T S : Type} : KernelOp T S → Type
  | getEflags | call _ => IntrStatus
  | runningThread => T
  | next _ | prev _ => Node T S
  | status _ => TaskStatus
  | priority _ | ticks _ | value _ => BitVec 8
  | elaspsedTicks _ | stackMagic _ | holderRepeatNum _ | totalTicks => BitVec 32
  | holder _ => Option T
  | _ => Unit

/-- What is recorded of the interrupt flag. -/
inductive FlagEvent
  | returned (f : Func) (atCall atReturn : IntrStatus)
  | scheduled (intr : IntrStatus)
  | wrote (intr : IntrStatus)
  deriving DecidableEq, Repr

/-- The kernel and the locks, with the record. -/
structure CodeState (T S : Type) where
  kernel : Kernel T S Empty
  holder : S → Option T
  holderRepeatNum : S → BitVec 32
  events : List FlagEvent

section

variable {T S : Type} [DecidableEq T] [DecidableEq S]

namespace CodeState

variable (s : CodeState T S)

/-- The kernel moves on. -/
def setKernel (k : Kernel T S Empty) : CodeState T S := { s with kernel := k }

/-- Something is recorded. -/
def record (e : FlagEvent) : CodeState T S := { s with events := s.events ++ [e] }

end CodeState

/-- The effect of an operation. -/
def KernelOp.exec : (o : KernelOp T S) → CodeState T S → o.Res × CodeState T S
  | getEflags, s => (s.kernel.intr, s)
  | sti, s => ((), s.setKernel { s.kernel with intr := .on })
  | cli, s => ((), s.setKernel { s.kernel with intr := .off })
  | runningThread, s => (s.kernel.cur, s)
  | next elem, s => ((s.kernel.links elem).next, s)
  | setNext elem n, s =>
    ((), (s.setKernel { s.kernel with links := s.kernel.links.setNext elem n }).record
      (.wrote s.kernel.intr))
  | prev elem, s => ((s.kernel.links elem).prev, s)
  | setPrev elem n, s =>
    ((), (s.setKernel { s.kernel with links := s.kernel.links.setPrev elem n }).record
      (.wrote s.kernel.intr))
  | status t, s => ((s.kernel.task t).status, s)
  | setStatus t v, s => ((), s.setKernel (s.kernel.setStatus t v))
  | priority t, s => ((s.kernel.task t).priority, s)
  | ticks t, s => ((s.kernel.task t).ticks, s)
  | setTicks t v, s => ((), s.setKernel (s.kernel.setTask t { s.kernel.task t with ticks := v }))
  | elaspsedTicks t, s => ((s.kernel.task t).elaspsedTicks, s)
  | setElaspsedTicks t v, s =>
    ((), s.setKernel (s.kernel.setTask t { s.kernel.task t with elaspsedTicks := v }))
  | stackMagic t, s => ((s.kernel.task t).stackMagic, s)
  | value psem, s => (s.kernel.value psem, s)
  | setValue psem v, s =>
    ((), (s.setKernel { s.kernel with value := Function.update s.kernel.value psem v }).record
      (.wrote s.kernel.intr))
  | holder plock, s => (s.holder plock, s)
  | setHolder plock v, s => ((), { s with holder := Function.update s.holder plock v })
  | holderRepeatNum plock, s => (s.holderRepeatNum plock, s)
  | setHolderRepeatNum plock v, s =>
    ((), { s with holderRepeatNum := Function.update s.holderRepeatNum plock v })
  | totalTicks, s => (s.kernel.ticks, s)
  | setTotalTicks v, s => ((), s.setKernel { s.kernel with ticks := v })
  | initThread thread prio, s =>
    ((), s.setKernel ({ s.kernel with threads := s.kernel.threads ++ [thread] }.initThread
      thread prio))
  | switchTo t, s => ((), s.setKernel { s.kernel with cur := t })
  | iretd intr, s => ((), s.setKernel { s.kernel with intr := intr })
  | call f, s => (s.kernel.intr, if f = .schedule then s.record (.scheduled s.kernel.intr) else s)
  | ret f atCall, s => ((), s.record (.returned f atCall s.kernel.intr))

/-- Kernel code. -/
abbrev codeSig (T S : Type) : Signature where
  Op := KernelOp T S
  Res := KernelOp.Res
  Mark := Empty
  Err := Stop

/-- Kernel code that returns an `α`. -/
abbrev KernelCode (T S α : Type) : Type := Prog (codeSig T S) α

/-- What kernel code does to the state. -/
def codeSem : Semantics (codeSig T S) (CodeState T S) where
  exec o s := .ok (o.exec s)
  note _ s := s

namespace KernelCode

variable {α : Type}

/-- One operation. -/
def perform (o : KernelOp T S) : KernelCode T S o.Res := Prog.perform (S := codeSig T S) o

/-- `ASSERT`. -/
def assert (c : Prop) [Decidable c] (a : Assertion) : KernelCode T S Unit :=
  if c then .ret () else .stop (.assertion a)

/-- A call of `f`. -/
def framed (f : Func) (body : KernelCode T S α) : KernelCode T S α := do
  let atCall : IntrStatus ← perform (.call f)
  let result ← body
  perform (.ret f atCall)
  return result

/-! ### `interrupt.c` -/

/-- `intr_get_status`. -/
def intrGetStatus : KernelCode T S IntrStatus := perform .getEflags

/-- `intr_enable`. -/
def intrEnable : KernelCode T S IntrStatus := do
  if IntrStatus.on = (← intrGetStatus) then
    return .on
  else
    perform .sti
    return .off

/-- `intr_disable`. -/
def intrDisable : KernelCode T S IntrStatus := do
  if IntrStatus.off = (← intrGetStatus) then
    return .off
  else
    perform .cli
    return .on

/-- `intr_set_status`. -/
def intrSetStatus (status : IntrStatus) : KernelCode T S IntrStatus :=
  match status with
  | .on => intrEnable
  | .off => intrDisable

/-! ### `list.c` -/

/-- `list_insert_before`. -/
def listInsertBefore (before elem : Node T S) : KernelCode T S Unit :=
  framed .listInsertBefore do
    let oldStatus ← intrDisable
    perform (.setNext (← perform (.prev before)) elem)
    perform (.setPrev elem (← perform (.prev before)))
    perform (.setNext elem before)
    perform (.setPrev before elem)
    let _ ← intrSetStatus oldStatus

/-- `list_push`. -/
def listPush (l : ListId S) (elem : Node T S) : KernelCode T S Unit := do
  listInsertBefore (← perform (.next l.head)) elem

/-- `list_append`. -/
def listAppend (l : ListId S) (elem : Node T S) : KernelCode T S Unit :=
  listInsertBefore l.tail elem

/-- `list_remove`. -/
def listRemove (elem : Node T S) : KernelCode T S Unit :=
  framed .listRemove do
    let oldStatus ← intrDisable
    perform (.setNext (← perform (.prev elem)) (← perform (.next elem)))
    perform (.setPrev (← perform (.next elem)) (← perform (.prev elem)))
    let _ ← intrSetStatus oldStatus

/-- `list_pop`. -/
def listPop (l : ListId S) : KernelCode T S (Node T S) := do
  let result : Node T S ← perform (.next l.head)
  listRemove result
  return result

/-- The loop of `list_find`, over `passes` nodes at most. -/
def findLoop (l : ListId S) (elem : Node T S) : ℕ → Node T S → KernelCode T S Bool
  | 0, _ => .stop .endless
  | passes + 1, e =>
    if e = l.tail then return false
    else if e = elem then return true
    else do findLoop l elem passes (← perform (.next e))

/-- `list_find`. -/
def listFind (passes : ℕ) (l : ListId S) (elem : Node T S) : KernelCode T S Bool := do
  findLoop l elem passes (← perform (.next l.head))

/-- `list_empty`. -/
def listEmpty (l : ListId S) : KernelCode T S Bool := do
  let first : Node T S ← perform (.next l.head)
  return decide (first = l.tail)

/-! ### `thread.c` -/

/-- `elem2entry(struct task_struct, general_tag, elem)`. -/
def elem2entry : Node T S → KernelCode T S T
  | .general t => return t
  | _ => .stop .wild

/-- `ASSERT(!list_find(&list, &t->tag))`. -/
def assertNotIn (passes : ℕ) (l : ListId S) (t : T) (a : Assertion) : KernelCode T S Unit := do
  let found ← listFind passes l (l.tag t)
  assert (found = false) a

/-- `schedule`. -/
def schedule (passes : ℕ) : KernelCode T S Unit :=
  framed .schedule do
    let intr ← intrGetStatus
    assert (intr = .off) .scheduleIntrOff
    let curThread : T ← perform .runningThread
    let status : TaskStatus ← perform (.status curThread)
    if status = .running then
      assertNotIn passes .ready curThread .scheduleNotReady
      listAppend .ready (.general curThread)
      perform (.setTicks curThread (← perform (.priority curThread)))
      perform (.setStatus curThread .ready)
    let empty ← listEmpty .ready
    assert (empty = false) .scheduleNonEmpty
    let threadTag ← listPop .ready
    let next ← elem2entry threadTag
    perform (.setStatus next .running)
    perform (.switchTo next)

/-- `thread_block`. -/
def threadBlock (passes : ℕ) (status : TaskStatus) : KernelCode T S Unit :=
  framed .threadBlock do
    assert status.Asleep .blockStatus
    let oldStatus ← intrDisable
    let cur : T ← perform .runningThread
    perform (.setStatus cur status)
    schedule passes
    let _ ← intrSetStatus oldStatus

/-- `thread_unblock`. -/
def threadUnblock (passes : ℕ) (pthread : T) : KernelCode T S Unit :=
  framed .threadUnblock do
    let oldStatus ← intrDisable
    let status : TaskStatus ← perform (.status pthread)
    assert status.Asleep .unblockStatus
    if status ≠ .ready then
      assertNotIn passes .ready pthread .unblockNotReady
      listPush .ready (.general pthread)
      perform (.setStatus pthread .ready)
    let _ ← intrSetStatus oldStatus

/-- `thread_start`, with the page that `get_kernel_pages` returns. -/
def threadStart (passes : ℕ) (thread : T) (prio : BitVec 32) : KernelCode T S Unit := do
  perform (.initThread thread prio)
  assertNotIn passes .ready thread .startNotReady
  listAppend .ready (.general thread)
  assertNotIn passes .all thread .startNotAll
  listAppend .all (.all thread)

/-- `kernel_thread`, up to the call of the thread's function. -/
def kernelThread : KernelCode T S Unit := do
  let _ ← intrEnable

/-! ### `sync.c` -/

/-- The loop of `semaphore_down`. -/
def downLoop (passes : ℕ) (psem : S) : ℕ → KernelCode T S Unit
  | 0 => .stop .endless
  | left + 1 => do
    let value : BitVec 8 ← perform (.value psem)
    if value = 0 then
      let cur : T ← perform .runningThread
      assertNotIn passes (.wait psem) cur .downNotWaiting
      listAppend (.wait psem) (.general cur)
      threadBlock passes .blocked
      downLoop passes psem left

/-- `semaphore_down`. -/
def semaphoreDown (passes : ℕ) (psem : S) : KernelCode T S Unit :=
  framed .semaphoreDown do
    let oldStatus ← intrDisable
    downLoop passes psem passes
    let value : BitVec 8 ← perform (.value psem)
    perform (.setValue psem (value - 1))
    let value : BitVec 8 ← perform (.value psem)
    assert (value = 0) .downValueZero
    let _ ← intrSetStatus oldStatus

/-- `semaphore_up`. -/
def semaphoreUp (passes : ℕ) (psem : S) : KernelCode T S Unit :=
  framed .semaphoreUp do
    let oldStatus ← intrDisable
    let value : BitVec 8 ← perform (.value psem)
    assert (value = 0) .upValueZero
    let empty ← listEmpty (.wait psem)
    if empty = false then
      let waiter ← elem2entry (← listPop (.wait psem))
      threadUnblock passes waiter
    let value : BitVec 8 ← perform (.value psem)
    perform (.setValue psem (value + 1))
    let value : BitVec 8 ← perform (.value psem)
    assert (value = 1) .upValueOne
    let _ ← intrSetStatus oldStatus

/-- `lock_acquire`. -/
def lockAcquire (passes : ℕ) (plock : S) : KernelCode T S Unit :=
  framed .lockAcquire do
    let cur : T ← perform .runningThread
    let holder : Option T ← perform (.holder plock)
    if holder ≠ some cur then
      semaphoreDown passes plock
      perform (.setHolder plock (some cur))
      let num : BitVec 32 ← perform (.holderRepeatNum plock)
      assert (num = 0) .acquireRepeatZero
      perform (.setHolderRepeatNum plock 1)
    else
      let num : BitVec 32 ← perform (.holderRepeatNum plock)
      perform (.setHolderRepeatNum plock (num + 1))

/-- `lock_release`. -/
def lockRelease (passes : ℕ) (plock : S) : KernelCode T S Unit :=
  framed .lockRelease do
    let holder : Option T ← perform (.holder plock)
    let cur : T ← perform .runningThread
    assert (holder = some cur) .releaseHolder
    let num : BitVec 32 ← perform (.holderRepeatNum plock)
    if 1 < num then
      let num : BitVec 32 ← perform (.holderRepeatNum plock)
      perform (.setHolderRepeatNum plock (num - 1))
    else
      let num : BitVec 32 ← perform (.holderRepeatNum plock)
      assert (num = 1) .releaseRepeatOne
      perform (.setHolder plock none)
      perform (.setHolderRepeatNum plock 0)
      semaphoreUp passes plock

/-! ### `timer.c` -/

/-- `intr_timer_handler`. -/
def intrTimerHandler (passes : ℕ) : KernelCode T S Unit := do
  let curThread : T ← perform .runningThread
  let stackMagic : BitVec 32 ← perform (.stackMagic curThread)
  assert (stackMagic = 0x77777777) .timerMagic
  let elaspsedTicks : BitVec 32 ← perform (.elaspsedTicks curThread)
  perform (.setElaspsedTicks curThread (elaspsedTicks + 1))
  let totalTicks : BitVec 32 ← perform .totalTicks
  perform (.setTotalTicks (totalTicks + 1))
  let ticks : BitVec 8 ← perform (.ticks curThread)
  if ticks = 0 then
    schedule passes
  else
    perform (.setTicks curThread (ticks - 1))

end KernelCode
end

end ToiletOS
