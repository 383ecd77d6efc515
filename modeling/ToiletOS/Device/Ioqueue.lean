import ToiletOS.Framework.Ring
import ToiletOS.Sync.Lock

/-!
# The queue of `device/ioqueue.c`

`queue_getchar` and `queue_putchar` are one function with two sets of arguments:
while the queue is empty (full), get the lock, sleep in the slot `consumer`
(`producer`) and release the lock; then move a byte and wake the thread in the
other slot. `QueueState.enter` is this function, `QueueCall` its argument, and the
two functions of the source are its instances.

They run with interrupts disabled, so another thread gets control only where a
call sleeps or returns. `queueSys` takes these pieces as its steps: a thread that
is in no call makes one, or a thread that slept in a call and has been woken goes
on with it, up to the point where it sleeps again or returns. Which thread moves
next is open, and so is the number of threads; the keyboard interrupt puts a byte
whenever the queue is not full (`init_keyboard_handler`).

The lock is the separate structure that `&queue->lock` is meant to be. What the
code does with the bytes it really points to is in `Device/IoqueueLayout.lean`.
The ghosts `stored` and `returned` list the bytes put and got so far.
-/

namespace ToiletOS

/-- `buf_size`. -/
abbrev bufSize : ℕ := 64

/-- The two waiter slots. -/
inductive Slot
  | producer | consumer
  deriving DecidableEq, Repr

/-- `struct ioqueue`; `buf`, `head` and `tail` are the fields of `ring`. -/
structure Ioqueue (T : Type) where
  lock : Lock T
  producer : Option T
  consumer : Option T
  ring : Ring (BitVec 8) bufSize

/-- `next_pos`. -/
def nextPos (pos : Fin bufSize) : Fin bufSize := Ring.next pos

namespace Ioqueue

variable {T : Type}

/-- `is_queue_full`. -/
def IsQueueFull (queue : Ioqueue T) : Prop := nextPos queue.ring.head = queue.ring.tail

/-- `is_queue_empty`. -/
def IsQueueEmpty (queue : Ioqueue T) : Prop := queue.ring.head = queue.ring.tail

instance (queue : Ioqueue T) : Decidable queue.IsQueueFull := inferInstanceAs (Decidable (_ = _))

instance (queue : Ioqueue T) : Decidable queue.IsQueueEmpty := inferInstanceAs (Decidable (_ = _))

/-- The content of a slot. -/
def slot (queue : Ioqueue T) : Slot → Option T
  | .producer => queue.producer
  | .consumer => queue.consumer

/-- A write to a slot. -/
def setSlot (queue : Ioqueue T) : Slot → Option T → Ioqueue T
  | .producer, t => { queue with producer := t }
  | .consumer, t => { queue with consumer := t }

/-- A write to the lock. -/
def setLock (queue : Ioqueue T) (lock : Lock T) : Ioqueue T := { queue with lock := lock }

/-- A write to `buf`, `head` or `tail`. -/
def setRing (queue : Ioqueue T) (ring : Ring (BitVec 8) bufSize) : Ioqueue T :=
  { queue with ring := ring }

end Ioqueue

variable {T : Type} [DecidableEq T]

/-- `queue_wait` up to the switch to another thread. -/
def queueWait (cur : T) (waiter : Slot) (status : T → TaskStatus) (queue : Ioqueue T) :
    Except Assertion ((T → TaskStatus) × Ioqueue T) := do
  let queue := queue.setSlot waiter (some cur)
  let status ← threadBlock cur .blocked status
  return (status, queue)

/-- `if (*waiter != NULL) wakeup(waiter)`. -/
def wakeup (waiter : Slot) (status : T → TaskStatus) (queue : Ioqueue T) :
    Except Assertion ((T → TaskStatus) × Ioqueue T) :=
  match queue.slot waiter with
  | none => .ok (status, queue)
  | some pthread => do
    let status ← threadUnblock pthread status
    return (status, queue.setSlot waiter none)

/-- A call of `queue_getchar` or of `queue_putchar`. -/
inductive QueueCall
  | getchar
  | putchar (byte : BitVec 8)
  deriving DecidableEq, Repr

namespace QueueCall

/-- The slot the caller sleeps in. -/
def waiter : QueueCall → Slot
  | .getchar => .consumer
  | .putchar _ => .producer

/-- The slot of the threads that wait for what the call does. -/
def partner : QueueCall → Slot
  | .getchar => .producer
  | .putchar _ => .consumer

/-- The condition of the loop. -/
def MustWait (c : QueueCall) (queue : Ioqueue T) : Prop :=
  match c with
  | .getchar => queue.IsQueueEmpty
  | .putchar _ => queue.IsQueueFull

instance (c : QueueCall) (queue : Ioqueue T) : Decidable (c.MustWait queue) :=
  match c with
  | .getchar => inferInstanceAs (Decidable queue.IsQueueEmpty)
  | .putchar _ => inferInstanceAs (Decidable queue.IsQueueFull)

end QueueCall

/-- Where a thread stands in the code of the queue. -/
inductive QueuePc
  -- In no call.
  | idle
  -- In `lock_acquire`, where it slept in the semaphore.
  | lock (c : QueueCall)
  -- In `queue_wait`, where it slept.
  | wait (c : QueueCall)
  deriving DecidableEq, Repr

/-- The queue, its threads and where each of them stands. -/
structure QueueState (T : Type) where
  status : T → TaskStatus
  queue : Ioqueue T
  pc : T → QueuePc
  /-- The bytes stored by `queue_putchar`, in the order of `head` (ghost). -/
  stored : List (BitVec 8)
  /-- The bytes returned by `queue_getchar`, in the order of `tail` (ghost). -/
  returned : List (BitVec 8)

namespace QueueState

/-- Thread `t` moves to the point `p`. -/
def goto (st : QueueState T) (t : T) (p : QueuePc) : QueueState T :=
  { st with pc := Function.update st.pc t p }

/-- Threads and queue after an operation. -/
def set (st : QueueState T) (status : T → TaskStatus) (queue : Ioqueue T) : QueueState T :=
  { st with status := status, queue := queue }

/-- The byte is moved: the code after the loop, before the wakeup. -/
def move (st : QueueState T) : QueueCall → QueueState T
  | .getchar =>
    let (byte, ring) := st.queue.ring.get
    { st with queue := st.queue.setRing ring, returned := st.returned ++ [byte] }
  | .putchar byte =>
    { st with queue := st.queue.setRing (st.queue.ring.put byte), stored := st.stored ++ [byte] }

/-- The code after the loop. -/
def finish (st : QueueState T) (c : QueueCall) : Except Assertion (QueueState T) := do
  let st := st.move c
  let (status, queue) ← wakeup c.partner st.status st.queue
  return st.set status queue

/-- The loop body once `lock_acquire` has come to an end or to sleep: with the
lock, the thread sleeps in its slot. -/
def acquired (st : QueueState T) (t : T) (c : QueueCall)
    (res : Bool × (T → TaskStatus) × Lock T) : Except Assertion (QueueState T) := do
  let (taken, status, lock) := res
  let st := st.set status (st.queue.setLock lock)
  if taken then
    let (status, queue) ← queueWait t c.waiter st.status st.queue
    return (st.set status queue).goto t (.wait c)
  else
    return st.goto t (.lock c)

/-- The call from the test of the loop on. -/
def enter (st : QueueState T) (t : T) (c : QueueCall) : Except Assertion (QueueState T) :=
  if c.MustWait st.queue then
    lockAcquire t st.status st.queue.lock >>= st.acquired t c
  else do
    let st ← st.finish c
    return st.goto t .idle

/-- `queue_getchar`. -/
def queueGetchar (st : QueueState T) (t : T) : Except Assertion (QueueState T) :=
  st.enter t .getchar

/-- `queue_putchar`. -/
def queuePutchar (st : QueueState T) (t : T) (byte : BitVec 8) :
    Except Assertion (QueueState T) :=
  st.enter t (.putchar byte)

/-- A thread that slept in a call goes on. -/
def resume (st : QueueState T) (t : T) : Except Assertion (QueueState T) :=
  match st.pc t with
  | .idle => .ok st
  | .lock c => lockAcquireDown t st.status st.queue.lock >>= st.acquired t c
  | .wait c => do
    let (status, lock) ← lockRelease t st.status st.queue.lock
    ((st.set status (st.queue.setLock lock)).goto t .idle).enter t c

end QueueState

/-- What can happen next. -/
inductive QueueAct (T : Type)
  | getchar (t : T)
  | putchar (t : T) (byte : BitVec 8)
  | keyboard (byte : BitVec 8)
  | resume (t : T)

/-- What `ioqueue_init` is meant to leave: the queue is empty and unlocked and its
slots are `NULL`. -/
def QueueState.start {T : Type} (buf : Fin bufSize → BitVec 8) : QueueState T where
  status _ := .ready
  queue := ⟨lockInit, none, none, ⟨buf, 0, 0⟩⟩
  pc _ := .idle
  stored := []
  returned := []

/-- Any number of threads around one queue. -/
def queueSys (T : Type) [DecidableEq T] : Machine (QueueState T) (QueueAct T) Assertion where
  init st := ∃ buf, st = .start buf
  enabled st
    | .getchar t | .putchar t _ => st.pc t = .idle
    | .keyboard _ => ¬ st.queue.IsQueueFull
    | .resume t => st.pc t ≠ .idle ∧ st.status t ≠ .blocked
  exec st
    | .getchar t => st.queueGetchar t
    | .putchar t byte => st.queuePutchar t byte
    -- `init_keyboard_handler`, past `!is_queue_full(&keyboard_buffer)`
    | .keyboard byte => st.finish (.putchar byte)
    | .resume t => st.resume t

instance (st : QueueState T) : ∀ a, Decidable ((queueSys T).enabled st a)
  | .getchar t | .putchar t _ => inferInstanceAs (Decidable (st.pc t = .idle))
  | .keyboard _ => inferInstanceAs (Decidable (¬ st.queue.IsQueueFull))
  | .resume t => inferInstanceAs (Decidable (st.pc t ≠ .idle ∧ st.status t ≠ .blocked))

end ToiletOS
