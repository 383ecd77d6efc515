import ToiletOS.Framework.LinkedList
import ToiletOS.Sync.Semaphore

/-!
# The scheduler and the sleeping primitives on intrusive lists

The code of `include/kernel/list.c`, `kernel/thread/thread.c`,
`kernel/thread/sync.c`, the waiter slots of `device/ioqueue.c` and the timer
handler of `device/timer.c`, on the data they really share: one heap of link
cells in which every thread carries two nodes, `general_tag` and `all_list_tag`,
the sentinels of `thread_ready_list`, of `thread_all_list` and of the wait list
of every semaphore, the PCB fields the code reads, and the interrupt flag.

The types `T` of threads, `S` of semaphores and `W` of waiter slots are
arbitrary. A thread stands for the page of its PCB, so `running_thread()`, which
masks `esp`, is the field `cur`; `switch_to` moves `cur`. `threads` is a ghost:
the PCBs handed out so far, in order. It bounds the list walks, since a walk over
more nodes than there are PCBs is caught in a cycle and never ends.

A function that blocks is given up to the point where `switch_to` leaves; what
runs when the thread is scheduled again is in `ToiletOS/Sched/SchedSys.lean`.
-/

namespace ToiletOS

/-- `enum intr_status`. -/
inductive IntrStatus
  | off | on
  deriving DecidableEq, Repr

/-- Why a kernel function does not return. -/
inductive Stop
  -- A failed `ASSERT`.
  | assertion (a : Assertion)
  -- A list walk that never reaches the tail of its list.
  | endless
  -- A pointer that is used as a thread's and is none.
  | wild
  deriving DecidableEq, Repr

/-- The nodes a `struct list_elem*` of the kernel can point to. -/
inductive Node (T S : Type)
  | null
  | readyHead | readyTail
  | allHead | allTail
  | waitHead (s : S) | waitTail (s : S)
  -- `general_tag` and `all_list_tag` of a PCB.
  | general (t : T) | all (t : T)
  deriving DecidableEq

/-- The lists of the kernel: `thread_ready_list`, `thread_all_list` and the
`waiters` of each semaphore. -/
inductive ListId (S : Type)
  | ready | all | wait (s : S)
  deriving DecidableEq

/-- The fields of `struct task_struct` that the code below uses. -/
structure TaskStruct where
  status : TaskStatus
  priority : BitVec 8
  ticks : BitVec 8
  elaspsedTicks : BitVec 32
  stackMagic : BitVec 32

/-- The kernel's memory, as far as threads and semaphores are concerned. -/
structure Kernel (T S W : Type) where
  links : LinkHeap (Node T S)
  task : T → TaskStruct
  cur : T
  mainThread : Option T
  intr : IntrStatus
  ticks : BitVec 32
  value : S → BitVec 8
  slot : W → Option T
  threads : List T

variable {T S W : Type} [DecidableEq T] [DecidableEq S] [DecidableEq W]

namespace ListId

/-- `&list->head`. -/
def head : ListId S → Node T S
  | .ready => .readyHead
  | .all => .allHead
  | .wait s => .waitHead s

/-- `&list->tail`. -/
def tail : ListId S → Node T S
  | .ready => .readyTail
  | .all => .allTail
  | .wait s => .waitTail s

/-- The node a thread is linked by: `all_list_tag` in `thread_all_list`,
`general_tag` in every other list. -/
def tag : ListId S → T → Node T S
  | .all => .all
  | _ => .general

end ListId

/-- `elem2entry(struct task_struct, general_tag, elem)`. -/
def elem2entry : Node T S → Except Stop T
  | .general t => .ok t
  | _ => .error .wild

namespace Kernel

/-! ### `interrupt.c` -/

/-- `intr_enable`. -/
def intrEnable (k : Kernel T S W) : IntrStatus × Kernel T S W :=
  (k.intr, { k with intr := .on })

/-- `intr_disable`. -/
def intrDisable (k : Kernel T S W) : IntrStatus × Kernel T S W :=
  (k.intr, { k with intr := .off })

/-- `intr_set_status`. -/
def intrSetStatus (k : Kernel T S W) (status : IntrStatus) : Kernel T S W :=
  match status with
  | .on => k.intrEnable.2
  | .off => k.intrDisable.2

/-! ### `list.c` -/

/-- `list_init`. -/
def listInit (k : Kernel T S W) (l : ListId S) : Kernel T S W :=
  { k with links :=
      Function.update (Function.update k.links l.head ⟨.null, l.tail⟩) l.tail ⟨l.head, .null⟩ }

/-- `list_insert_before`. -/
def listInsertBefore (k : Kernel T S W) (before elem : Node T S) : Kernel T S W :=
  let (oldStatus, k) := k.intrDisable
  let k := { k with links := k.links.insertBefore before elem }
  k.intrSetStatus oldStatus

/-- `list_push`. -/
def listPush (k : Kernel T S W) (l : ListId S) (elem : Node T S) : Kernel T S W :=
  k.listInsertBefore (k.links l.head).next elem

/-- `list_append`. -/
def listAppend (k : Kernel T S W) (l : ListId S) (elem : Node T S) : Kernel T S W :=
  k.listInsertBefore l.tail elem

/-- `list_remove`. -/
def listRemove (k : Kernel T S W) (elem : Node T S) : Kernel T S W :=
  let (oldStatus, k) := k.intrDisable
  let k := { k with links := k.links.unlink elem }
  k.intrSetStatus oldStatus

/-- `list_pop`. -/
def listPop (k : Kernel T S W) (l : ListId S) : Node T S × Kernel T S W :=
  let result := (k.links l.head).next
  (result, k.listRemove result)

/-- `list_find`. -/
def listFind (k : Kernel T S W) (l : ListId S) (elem : Node T S) : Except Stop Bool :=
  match k.links.find l.tail elem (k.threads.length + 1) (k.links l.head).next with
  | some found => .ok found
  | none => .error .endless

/-- `list_empty`. -/
def listEmpty (k : Kernel T S W) (l : ListId S) : Bool :=
  decide ((k.links l.head).next = l.tail)

/-! ### `thread.c` -/

/-- Write to the PCB of a thread. -/
def setTask (k : Kernel T S W) (t : T) (p : TaskStruct) : Kernel T S W :=
  { k with task := Function.update k.task t p }

/-- `t->status = status`. -/
def setStatus (k : Kernel T S W) (t : T) (status : TaskStatus) : Kernel T S W :=
  k.setTask t { k.task t with status := status }

/-- `ASSERT(!list_find(&list, &t->tag))`. -/
def assertNotIn (k : Kernel T S W) (l : ListId S) (t : T) (a : Assertion) : Except Stop Unit := do
  let found ← k.listFind l (l.tag t)
  assert (found = false) (.assertion a)

/-- The first half of `schedule`: a thread that is still running goes to the
tail of the ready list with a fresh time slice. -/
def scheduleOut (k : Kernel T S W) : Except Stop (Kernel T S W) := do
  let curThread := k.cur
  if (k.task curThread).status = .running then
    k.assertNotIn .ready curThread .scheduleNotReady
    let k := k.listAppend .ready (.general curThread)
    return k.setTask curThread
      { k.task curThread with ticks := (k.task curThread).priority, status := .ready }
  else
    return k

/-- The second half of `schedule`: the head of the ready list runs. -/
def scheduleIn (k : Kernel T S W) : Except Stop (Kernel T S W) := do
  assert (k.listEmpty .ready = false) (.assertion .scheduleNonEmpty)
  let (threadTag, k) := k.listPop .ready
  let next ← elem2entry threadTag
  let k := k.setStatus next .running
  -- `switch_to(cur_thread, next)`
  return { k with cur := next }

/-- `schedule`. -/
def schedule (k : Kernel T S W) : Except Stop (Kernel T S W) := do
  assert (k.intr = .off) (.assertion .scheduleIntrOff)
  let k ← k.scheduleOut
  k.scheduleIn

/-- `thread_block` up to `switch_to`, with the interrupt status it will restore
when the thread runs again. -/
def threadBlock (k : Kernel T S W) (status : TaskStatus) :
    Except Stop (IntrStatus × Kernel T S W) := do
  assert status.Asleep (.assertion .blockStatus)
  let (oldStatus, k) := k.intrDisable
  let k := k.setStatus k.cur status
  let k ← k.schedule
  return (oldStatus, k)

/-- `thread_unblock`. -/
def threadUnblock (k : Kernel T S W) (pthread : T) : Except Stop (Kernel T S W) := do
  let (oldStatus, k) := k.intrDisable
  assert (k.task pthread).status.Asleep (.assertion .unblockStatus)
  let k ← if (k.task pthread).status ≠ .ready then do
      k.assertNotIn .ready pthread .unblockNotReady
      let k := k.listPush .ready (.general pthread)
      pure (k.setStatus pthread .ready)
    else pure k
  return k.intrSetStatus oldStatus

/-- `init_thread`: the PCB is zeroed and filled in. -/
def initThread (k : Kernel T S W) (pthread : T) (prio : BitVec 32) : Kernel T S W :=
  let links := Function.update (Function.update k.links (.general pthread) ⟨.null, .null⟩)
    (.all pthread) ⟨.null, .null⟩
  let status := if some pthread = k.mainThread then .running else .ready
  { k with links := links }.setTask pthread
    ⟨status, prio.setWidth 8, prio.setWidth 8, 0, 0x77777777⟩

/-- `thread_start`, with the page `get_kernel_pages(1)` returns for the PCB. -/
def threadStart (k : Kernel T S W) (thread : T) (prio : BitVec 32) :
    Except Stop (Kernel T S W) := do
  let k := { k with threads := k.threads ++ [thread] }
  let k := k.initThread thread prio
  k.assertNotIn .ready thread .startNotReady
  let k := k.listAppend .ready (.general thread)
  k.assertNotIn .all thread .startNotAll
  return k.listAppend .all (.all thread)

/-- `make_main_thread`. -/
def makeMainThread (k : Kernel T S W) : Except Stop (Kernel T S W) := do
  let k := { k with mainThread := some k.cur, threads := k.threads ++ [k.cur] }
  let k := k.initThread k.cur 31
  k.assertNotIn .all k.cur .startNotAll
  return k.listAppend .all (.all k.cur)

/-- `thread_init`. -/
def threadInit (k : Kernel T S W) : Except Stop (Kernel T S W) :=
  ((k.listInit .all).listInit .ready).makeMainThread

/-! ### `sync.c`, `ioqueue.c` and `timer.c` -/

/-- `semaphore_init`. -/
def semaphoreInit (k : Kernel T S W) (psem : S) (value : BitVec 8) : Kernel T S W :=
  { k with value := Function.update k.value psem value }.listInit (.wait psem)

/-- One pass of the loop of `semaphore_down`, which restores the interrupt
status `oldStatus` if it takes the semaphore. The flag says whether it did; if
not, the caller sleeps and another thread runs. -/
def semaphoreDown (k : Kernel T S W) (psem : S) (oldStatus : IntrStatus) :
    Except Stop (Bool × Kernel T S W) :=
  if k.value psem = 0 then do
    k.assertNotIn (.wait psem) k.cur .downNotWaiting
    let k := k.listAppend (.wait psem) (.general k.cur)
    let (_, k) ← k.threadBlock .blocked
    return (false, k)
  else do
    let k := { k with value := Function.update k.value psem (k.value psem - 1) }
    assert (k.value psem = 0) (.assertion .downValueZero)
    return (true, k.intrSetStatus oldStatus)

/-- `semaphore_up`. -/
def semaphoreUp (k : Kernel T S W) (psem : S) : Except Stop (Kernel T S W) := do
  let (oldStatus, k) := k.intrDisable
  assert (k.value psem = 0) (.assertion .upValueZero)
  let k : Kernel T S W ← if k.listEmpty (.wait psem) = false then do
      let (elem, k) := k.listPop (.wait psem)
      let waiter ← elem2entry elem
      k.threadUnblock waiter
    else pure k
  let k : Kernel T S W := { k with value := Function.update k.value psem (k.value psem + 1) }
  assert (k.value psem = 1) (.assertion .upValueOne)
  return k.intrSetStatus oldStatus

/-- `queue_wait` up to `switch_to`. -/
def queueWait (k : Kernel T S W) (waiter : W) : Except Stop (IntrStatus × Kernel T S W) :=
  let k := { k with slot := Function.update k.slot waiter (some k.cur) }
  k.threadBlock .blocked

/-- `wakeup`. -/
def wakeup (k : Kernel T S W) (waiter : W) : Except Stop (Kernel T S W) := do
  match k.slot waiter with
  | none => .error .wild
  | some pthread =>
    let k ← k.threadUnblock pthread
    return { k with slot := Function.update k.slot waiter none }

/-- `intr_timer_handler` from the interrupt gate, which clears the flag. The
flag of the result says whether `schedule` was called; if it was not, `iretd`
has set the interrupt flag again. -/
def intrTimerHandler (k : Kernel T S W) : Except Stop (Bool × Kernel T S W) := do
  let k := { k with intr := .off }
  let curThread := k.cur
  assert ((k.task curThread).stackMagic = 0x77777777) (.assertion .timerMagic)
  let k := k.setTask curThread
    { k.task curThread with elaspsedTicks := (k.task curThread).elaspsedTicks + 1 }
  let k := { k with ticks := k.ticks + 1 }
  if (k.task curThread).ticks = 0 then
    let k ← k.schedule
    return (true, k)
  else
    let k := k.setTask curThread { k.task curThread with ticks := (k.task curThread).ticks - 1 }
    return (false, { k with intr := .on })

end Kernel
end ToiletOS
