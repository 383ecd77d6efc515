import ToiletOS.Framework.ByteMemory

/-!
# The bytes of the queue

`struct ioqueue` declares `lock` as a pointer, but `&queue->lock`, the address of
that pointer, is what `lock_init` and `lock_acquire` get. So the 28 bytes of the
lock lie over the first 28 bytes of the queue: `semaphore.value` is the first
byte of `producer`, `waiters.head.prev` is `consumer`, and the rest of `waiters`
and `holder_repeat_num` is in `buf`.

This file has the initialisers and `queue_putchar` on the bytes of memory, at the
offsets that follow from the declarations. `ioqueue_init` writes `producer` last
and thereby the value of the semaphore, which is 0 afterwards whatever was in
memory before (`ioqueueInit_value`).
-/

namespace ToiletOS
namespace Layout

open ByteMemory

/-! ### Declarations -/

/-- `struct list_elem`: `prev`, `next`. -/
def listElem : List CType := [.pointer, .pointer]

/-- `struct list`: `head`, `tail`. -/
def list : List CType := [.struct listElem, .struct listElem]

/-- `struct semaphore`: `value`, `waiters`. -/
def semaphore : List CType := [.char, .struct list]

/-- `struct lock`: `holder`, `semaphore`, `holder_repeat_num`. -/
def lock : List CType := [.pointer, .struct semaphore, .int]

/-- `struct ioqueue`: `lock`, `producer`, `consumer`, `buf`, `head`, `tail`. -/
def ioqueue : List CType :=
  [.pointer, .pointer, .pointer, .array 64 .char, .int, .int]

/-- `&elem->prev`. -/
def prevAt (elem : BitVec 32) : BitVec 32 := addr elem (CType.offset listElem 0)

/-- `&elem->next`. -/
def nextAt (elem : BitVec 32) : BitVec 32 := addr elem (CType.offset listElem 1)

/-- `&list->head`. -/
def listHeadAt (l : BitVec 32) : BitVec 32 := addr l (CType.offset list 0)

/-- `&list->tail`. -/
def listTailAt (l : BitVec 32) : BitVec 32 := addr l (CType.offset list 1)

/-- `&psem->value`. -/
def valueAt (psem : BitVec 32) : BitVec 32 := addr psem (CType.offset semaphore 0)

/-- `&psem->waiters`. -/
def waitersAt (psem : BitVec 32) : BitVec 32 := addr psem (CType.offset semaphore 1)

/-- `&lock->holder`. -/
def holderAt (plock : BitVec 32) : BitVec 32 := addr plock (CType.offset lock 0)

/-- `&lock->semaphore`. -/
def semaphoreAt (plock : BitVec 32) : BitVec 32 := addr plock (CType.offset lock 1)

/-- `&lock->holder_repeat_num`. -/
def repeatNumAt (plock : BitVec 32) : BitVec 32 := addr plock (CType.offset lock 2)

/-- `&queue->lock`, which the code takes for the address of a `struct lock`. -/
def lockAt (queue : BitVec 32) : BitVec 32 := addr queue (CType.offset ioqueue 0)

/-- `&queue->producer`. -/
def producerAt (queue : BitVec 32) : BitVec 32 := addr queue (CType.offset ioqueue 1)

/-- `&queue->consumer`. -/
def consumerAt (queue : BitVec 32) : BitVec 32 := addr queue (CType.offset ioqueue 2)

/-- `queue->buf`. -/
def bufAt (queue : BitVec 32) : BitVec 32 := addr queue (CType.offset ioqueue 3)

/-- `&queue->head`. -/
def headAt (queue : BitVec 32) : BitVec 32 := addr queue (CType.offset ioqueue 4)

/-- `&queue->tail`. -/
def tailAt (queue : BitVec 32) : BitVec 32 := addr queue (CType.offset ioqueue 5)

/-! ### Code -/

/-- `list_init`. -/
def listInit (m : ByteMemory) (l : BitVec 32) : ByteMemory :=
  let m := m.store32 (prevAt (listHeadAt l)) 0
  let m := m.store32 (nextAt (listHeadAt l)) (listTailAt l)
  let m := m.store32 (nextAt (listTailAt l)) 0
  m.store32 (prevAt (listTailAt l)) (listHeadAt l)

/-- `semaphore_init`. -/
def semaphoreInit (m : ByteMemory) (psem : BitVec 32) (value : BitVec 8) : ByteMemory :=
  let m := m.store8 (valueAt psem) value
  listInit m (waitersAt psem)

/-- `lock_init`. -/
def lockInit (m : ByteMemory) (plock : BitVec 32) : ByteMemory :=
  let m := m.store32 (holderAt plock) 0
  let m := m.store32 (repeatNumAt plock) 0
  semaphoreInit m (semaphoreAt plock) 1

/-- `ioqueue_init`. -/
def ioqueueInit (m : ByteMemory) (queue : BitVec 32) : ByteMemory :=
  let m := lockInit m (lockAt queue)
  -- `queue->head = queue->tail = 0`
  let m := m.store32 (tailAt queue) 0
  let m := m.store32 (headAt queue) 0
  -- `queue->producer = queue->tail = NULL`
  let m := m.store32 (tailAt queue) 0
  m.store32 (producerAt queue) 0

/-- `next_pos`. -/
def nextPos (pos : BitVec 32) : BitVec 32 := (pos + 1).srem 64

/-- `is_queue_full`. -/
def IsQueueFull (m : ByteMemory) (queue : BitVec 32) : Prop :=
  nextPos (m.load32 (headAt queue)) = m.load32 (tailAt queue)

/-- `is_queue_empty`. -/
def IsQueueEmpty (m : ByteMemory) (queue : BitVec 32) : Prop :=
  m.load32 (headAt queue) = m.load32 (tailAt queue)

/-- `queue_putchar` on a queue that is not full, with the effect `unblock` of
`thread_unblock` on memory. -/
def queuePutchar (unblock : BitVec 32 → ByteMemory → ByteMemory) (m : ByteMemory)
    (queue : BitVec 32) (byte : BitVec 8) : ByteMemory :=
  let m := m.store8 (bufAt queue + m.load32 (headAt queue)) byte
  let m := m.store32 (headAt queue) (nextPos (m.load32 (headAt queue)))
  if m.load32 (consumerAt queue) ≠ 0 then
    let m := unblock (m.load32 (consumerAt queue)) m
    m.store32 (consumerAt queue) 0
  else m

/-- The memories that calls of `queue_putchar` on a non-full queue lead to. -/
inductive Puts (unblock : BitVec 32 → ByteMemory → ByteMemory) (queue : BitVec 32) :
    ByteMemory → ByteMemory → Prop
  | nil (m : ByteMemory) : Puts unblock queue m m
  | cons {m m' : ByteMemory} (byte : BitVec 8) : ¬ IsQueueFull m queue →
      Puts unblock queue (queuePutchar unblock m queue byte) m' → Puts unblock queue m m'

/-- The bytes at `plock` are those of a lock as `lock_init` leaves it: no holder,
value 1, no waiters, count 0. -/
structure LockReady (m : ByteMemory) (plock : BitVec 32) : Prop where
  holder : m.load32 (holderAt plock) = 0
  value : m (valueAt (semaphoreAt plock)) = 1
  waiters : m.load32 (nextAt (listHeadAt (waitersAt (semaphoreAt plock))))
    = listTailAt (waitersAt (semaphoreAt plock))
  repeatNum : m.load32 (repeatNumAt plock) = 0

/-- The queue is empty, both slots are `NULL`, and the lock is ready and stays so
while bytes are put. -/
structure EmbeddedSound (unblock : BitVec 32 → ByteMemory → ByteMemory) (m : ByteMemory)
    (queue : BitVec 32) : Prop where
  empty : IsQueueEmpty (ioqueueInit m queue) queue
  producer : (ioqueueInit m queue).load32 (producerAt queue) = 0
  consumer : (ioqueueInit m queue).load32 (consumerAt queue) = 0
  lock : ∀ m', Puts unblock queue (ioqueueInit m queue) m' → LockReady m' (lockAt queue)

/-! ### Offsets -/

/-- A member of a member. -/
theorem addr_member (base : BitVec 32) {i j k : ℕ} (h : i + j = k) :
    addr (addr base i) j = addr base k := by rw [addr_addr, h]

section Members

variable (p : BitVec 32)

theorem holderAt_eq : holderAt p = addr p 0 := rfl

theorem valueAt_semaphore : valueAt (semaphoreAt p) = addr p 4 :=
  addr_member p (by decide)

theorem listHeadAt_semaphore : listHeadAt (waitersAt (semaphoreAt p)) = addr p 8 := by
  rw [listHeadAt, waitersAt, semaphoreAt, addr_addr]
  exact addr_member p (by decide)

theorem listTailAt_semaphore : listTailAt (waitersAt (semaphoreAt p)) = addr p 16 := by
  rw [listTailAt, waitersAt, semaphoreAt, addr_addr]
  exact addr_member p (by decide)

theorem prevAt_eq (i : ℕ) : prevAt (addr p i) = addr p i := addr_member p (Nat.add_zero i)

theorem nextAt_eq (i : ℕ) : nextAt (addr p i) = addr p (i + 4) := addr_member p rfl

theorem repeatNumAt_eq : repeatNumAt p = addr p 24 := rfl

theorem lockAt_eq : lockAt p = p := addr_zero p

theorem producerAt_eq : producerAt p = addr p 4 := rfl

theorem consumerAt_eq : consumerAt p = addr p 8 := rfl

theorem headAt_eq : headAt p = addr p 76 := rfl

theorem tailAt_eq : tailAt p = addr p 80 := rfl

end Members

/-! ### What the initialisers leave -/

/-- The memory after `lock_init`, member by member. -/
theorem lockInit_eq (m : ByteMemory) (p : BitVec 32) : lockInit m p =
    (((((((m.store32 (addr p 0) 0).store32 (addr p 24) 0).store8 (addr p 4) 1).store32
      (addr p 8) 0).store32 (addr p 12) (addr p 16)).store32 (addr p 20) 0).store32
      (addr p 16) (addr p 8)) := by
  simp only [lockInit, semaphoreInit, listInit, holderAt_eq, repeatNumAt_eq, valueAt_semaphore,
    listHeadAt_semaphore, listTailAt_semaphore, prevAt_eq, nextAt_eq]

/-- `lock_init` on a lock of its own leaves it ready. -/
theorem lockInit_ready (m : ByteMemory) (p : BitVec 32) : LockReady (lockInit m p) p := by
  rw [lockInit_eq]
  constructor
  · rw [holderAt_eq]
    simp (disch := omega) only [load32_store32_of_disjoint, load32_store8_of_disjoint,
      load32_store32]
  · rw [valueAt_semaphore]
    simp (disch := omega) only [store32_of_disjoint, store8_self]
  · rw [listHeadAt_semaphore, listTailAt_semaphore, nextAt_eq]
    simp (disch := omega) only [load32_store32_of_disjoint, load32_store32]
  · rw [repeatNumAt_eq]
    simp (disch := omega) only [load32_store32_of_disjoint, load32_store8_of_disjoint,
      load32_store32]

/-- What `ioqueue_init` gets right: the queue is empty, the slots are `NULL`, and
the lock has no holder, no waiters and the count 0. -/
theorem ioqueueInit_fields (m : ByteMemory) (queue : BitVec 32) :
    IsQueueEmpty (ioqueueInit m queue) queue ∧
    (ioqueueInit m queue).load32 (headAt queue) = 0 ∧
    (ioqueueInit m queue).load32 (producerAt queue) = 0 ∧
    (ioqueueInit m queue).load32 (consumerAt queue) = 0 ∧
    (ioqueueInit m queue).load32 (holderAt (lockAt queue)) = 0 ∧
    (ioqueueInit m queue).load32 (nextAt (listHeadAt (waitersAt (semaphoreAt (lockAt queue)))))
      = listTailAt (waitersAt (semaphoreAt (lockAt queue))) ∧
    (ioqueueInit m queue).load32 (repeatNumAt (lockAt queue)) = 0 := by
  simp only [IsQueueEmpty, ioqueueInit, lockInit_eq, lockAt_eq, holderAt_eq, repeatNumAt_eq,
    listHeadAt_semaphore, listTailAt_semaphore, nextAt_eq, producerAt_eq, consumerAt_eq,
    headAt_eq, tailAt_eq]
  simp (disch := omega) only [load32_store32_of_disjoint, load32_store8_of_disjoint,
    load32_store32, and_self]

/-- **What it gets wrong.** The value of the semaphore is the first byte of
`producer`, which is written last. -/
theorem ioqueueInit_value (m : ByteMemory) (queue : BitVec 32) :
    ioqueueInit m queue (valueAt (semaphoreAt (lockAt queue))) = 0 := by
  rw [lockAt_eq, valueAt_semaphore, ← producerAt_eq, ioqueueInit, store32_low]
  rfl

/-- The first byte put goes into `waiters.head.next`. -/
theorem queuePutchar_waiters (unblock : BitVec 32 → ByteMemory → ByteMemory) (m : ByteMemory)
    (queue : BitVec 32) (byte : BitVec 8) :
    queuePutchar unblock (ioqueueInit m queue) queue byte
      (nextAt (listHeadAt (waitersAt (semaphoreAt (lockAt queue))))) = byte := by
  obtain ⟨-, h_head, -, h_consumer, -⟩ := ioqueueInit_fields m queue
  have h_buf : bufAt queue + 0 = addr queue 12 := BitVec.add_zero _
  rw [lockAt_eq, listHeadAt_semaphore, nextAt_eq, queuePutchar, h_head, h_buf]
  dsimp only
  -- nobody is in the slot, so the put ends with the write of `head`
  rw [if_neg]
  · rw [headAt_eq, store32_of_disjoint _ _ _ (by omega) (by omega) (by omega), store8_self]
  · rw [consumerAt_eq] at h_consumer
    rw [consumerAt_eq, headAt_eq,
      load32_store32_of_disjoint _ _ _ (by omega) (by omega) (by omega),
      load32_store8_of_disjoint _ _ _ (by omega) (by omega) (by omega), h_consumer]
    exact not_not.mpr rfl

/-- **The embedded lock is never ready.** -/
theorem ioqueue_embedded_unsound (unblock : BitVec 32 → ByteMemory → ByteMemory)
    (m : ByteMemory) (queue : BitVec 32) : ¬ EmbeddedSound unblock m queue := by
  intro h
  have h_value := (h.lock _ (.nil _)).value
  rw [ioqueueInit_value] at h_value
  exact absurd h_value (by decide)

/-- For instance in memory that was all zeros. -/
theorem ioqueue_embedded_unsound_zero :
    ¬ EmbeddedSound (fun _ m => m) (fun _ => 0) 0xc0010000 := by
  intro h
  have h_value := (h.lock _ (.nil _)).value
  have h_zero := ioqueueInit_value (fun _ => 0) 0xc0010000
  rw [h_zero] at h_value
  exact absurd h_value (by decide)

end Layout
end ToiletOS
