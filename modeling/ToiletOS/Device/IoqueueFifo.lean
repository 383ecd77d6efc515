import ToiletOS.Device.Ioqueue

/-!
# First in, first out

`QueueInv st o ws` is the invariant of the queue: `o` is the thread that holds the
lock, `ws` are the threads asleep in it. A thread in `queue_wait` holds the lock,
so there is at most one (`holder`); the slots name exactly the threads that still
sleep there (`slot`), so that `wakeup` always finds a sleeping thread; and what
has been stored is what has been returned, followed by the bytes in the ring
(`fifo`).

A step is made of four moves, each with its lemma: a thread goes to sleep in the
lock (`QueueInv.sleepLock`) or in a slot (`QueueInv.sleepSlot`), it releases the
lock (`QueueInv.release`), or it moves a byte and wakes the thread in the other
slot (`QueueInv.finish`).
-/

namespace ToiletOS

variable {T : Type} [DecidableEq T]

/-- The lock, held by `o`. -/
def lockOf : Option T → List T → Lock T
  | none, ws => freeLock ws
  | some t, ws => heldLock t ws

/-- The invariant of the queue. -/
structure QueueInv (st : QueueState T) (o : Option T) (ws : List T) : Prop where
  lock : st.queue.lock = lockOf o ws
  nodup : ws.Nodup
  waiting : ∀ t, t ∈ ws ↔ st.status t = .blocked ∧ ∃ c, st.pc t = .lock c
  holder : ∀ t, o = some t ↔ ∃ c, st.pc t = .wait c
  slot : ∀ w t, st.queue.slot w = some t ↔
    st.status t = .blocked ∧ ∃ c, c.waiter = w ∧ st.pc t = .wait c
  idle : ∀ t, st.pc t = .idle → st.status t ≠ .blocked
  fifo : st.stored = st.returned ++ st.queue.ring.contents

namespace Ioqueue

variable (queue : Ioqueue T)

omit [DecidableEq T]

@[simp] theorem setSlot_slot_self (w : Slot) (t : Option T) :
    (queue.setSlot w t).slot w = t := by cases w <;> rfl

theorem setSlot_slot_of_ne {w w' : Slot} (t : Option T) (h : w' ≠ w) :
    (queue.setSlot w t).slot w' = queue.slot w' := by
  cases w <;> cases w' <;> first | rfl | exact absurd rfl h

@[simp] theorem setSlot_lock (w : Slot) (t : Option T) :
    (queue.setSlot w t).lock = queue.lock := by cases w <;> rfl

@[simp] theorem setSlot_ring (w : Slot) (t : Option T) :
    (queue.setSlot w t).ring = queue.ring := by cases w <;> rfl

@[simp] theorem setLock_slot (lock : Lock T) (w : Slot) :
    (queue.setLock lock).slot w = queue.slot w := by cases w <;> rfl

@[simp] theorem setRing_slot (ring : Ring (BitVec 8) bufSize) (w : Slot) :
    (queue.setRing ring).slot w = queue.slot w := by cases w <;> rfl

end Ioqueue

namespace QueueState

/-- `t` sleeps in the lock, which `ws` and now `t` wait for. -/
def sleepLock (st : QueueState T) (t : T) (c : QueueCall) (lock : Lock T) : QueueState T :=
  (st.set (Function.update st.status t .blocked) (st.queue.setLock lock)).goto t (.lock c)

/-- `t` has got the lock and sleeps in its slot. -/
def sleepSlot (st : QueueState T) (t : T) (c : QueueCall) (ws : List T) : QueueState T :=
  (st.set (Function.update st.status t .blocked)
    ((st.queue.setLock (heldLock t ws)).setSlot c.waiter (some t))).goto t (.wait c)

/-- The thread in the slot `w`, if any, is awake. -/
def wake (st : QueueState T) (w : Slot) : QueueState T :=
  match st.queue.slot w with
  | none => st
  | some t => st.set (Function.update st.status t .ready) (st.queue.setSlot w none)

end QueueState

namespace QueueInv

variable {st : QueueState T} {o : Option T} {ws : List T}

omit [DecidableEq T] in
theorem initial (buf : Fin bufSize → BitVec 8) :
    QueueInv (QueueState.start buf : QueueState T) none [] where
  lock := rfl
  nodup := List.nodup_nil
  waiting := by simp [QueueState.start]
  holder := by simp [QueueState.start]
  slot w t := by cases w <;> simp [QueueState.start, Ioqueue.slot]
  idle := by simp [QueueState.start]
  fifo := by simp [QueueState.start, Ring.contents, Ring.length]

omit [DecidableEq T] in
/-- At most one thread is in `queue_wait`, the holder of the lock. -/
theorem wait_unique (hI : QueueInv st o ws) {t u : T} {c c' : QueueCall}
    (ht : st.pc t = .wait c) (hu : st.pc u = .wait c') : u = t := by
  have h_u := (hI.holder u).mpr ⟨c', hu⟩
  rw [(hI.holder t).mpr ⟨c, ht⟩] at h_u
  exact (Option.some.inj h_u).symm

/-- A thread that is not asleep goes to sleep in the lock. -/
theorem sleepLock (hI : QueueInv st o ws) {t : T} (h_awake : st.status t ≠ .blocked)
    (h_pc : ∀ c, st.pc t ≠ .wait c) (c : QueueCall) :
    QueueInv (st.sleepLock t c (lockOf o (ws ++ [t]))) o (ws ++ [t]) := by
  have h_free : t ∉ ws := fun h => h_awake ((hI.waiting t).mp h).1
  refine ⟨rfl, ?_, fun u => ?_, fun u => ?_, fun w u => ?_, fun u => ?_, hI.fifo⟩
  · -- the caller was not among those that wait
    exact List.nodup_append.mpr ⟨hI.nodup, List.nodup_singleton t, by
      rintro x hx y hy rfl
      exact h_free (List.mem_singleton.mp hy ▸ hx)⟩
  · -- waiting: the caller is one of them now
    by_cases h_u : u = t
    · subst h_u; simp [QueueState.sleepLock, QueueState.set, QueueState.goto]
    · simp [QueueState.sleepLock, QueueState.set, QueueState.goto, h_u, hI.waiting u]
  · -- holder: the caller was not in `queue_wait`, and is not now
    by_cases h_u : u = t
    · subst h_u
      simp [QueueState.sleepLock, QueueState.set, QueueState.goto, hI.holder u, h_pc]
    · simp [QueueState.sleepLock, QueueState.set, QueueState.goto, h_u, hI.holder u]
  · by_cases h_u : u = t
    · subst h_u
      simp [QueueState.sleepLock, QueueState.set, QueueState.goto, hI.slot w u, h_awake]
    · simp [QueueState.sleepLock, QueueState.set, QueueState.goto, h_u, hI.slot w u]
  · by_cases h_u : u = t
    · subst h_u; simp [QueueState.sleepLock, QueueState.set, QueueState.goto]
    · simpa [QueueState.sleepLock, QueueState.set, QueueState.goto, h_u] using hI.idle u

omit [DecidableEq T] in
/-- With the lock free, nobody is in `queue_wait` and both slots are empty. -/
theorem slot_of_free (hI : QueueInv st none ws) (w : Slot) : st.queue.slot w = none := by
  rw [Option.eq_none_iff_forall_ne_some]
  intro t ht
  obtain ⟨-, c, -, h_pc⟩ := (hI.slot w t).mp ht
  cases (hI.holder t).mpr ⟨c, h_pc⟩

/-- A thread that is not asleep takes the free lock and sleeps in its slot. -/
theorem sleepSlot (hI : QueueInv st none ws) {t : T} (h_awake : st.status t ≠ .blocked)
    (c : QueueCall) : QueueInv (st.sleepSlot t c ws) (some t) ws := by
  have h_free : t ∉ ws := fun h => h_awake ((hI.waiting t).mp h).1
  -- the lock was free, so nobody was in `queue_wait`
  have h_nowhere (u : T) (c' : QueueCall) : st.pc u ≠ .wait c' := by
    intro h_pc
    cases (hI.holder u).mpr ⟨c', h_pc⟩
  refine ⟨?_, hI.nodup, fun u => ?_, fun u => ?_, fun w u => ?_, fun u => ?_, ?_⟩
  · simp [QueueState.sleepSlot, QueueState.set, QueueState.goto, Ioqueue.setLock, lockOf]
  · by_cases h_u : u = t
    · subst h_u; simp [QueueState.sleepSlot, QueueState.set, QueueState.goto, h_free]
    · simp [QueueState.sleepSlot, QueueState.set, QueueState.goto, h_u, hI.waiting u]
  · by_cases h_u : u = t
    · subst h_u; simp [QueueState.sleepSlot, QueueState.set, QueueState.goto]
    · simp [QueueState.sleepSlot, QueueState.set, QueueState.goto, h_u, Ne.symm h_u, h_nowhere]
  · by_cases h_w : w = c.waiter
    · by_cases h_u : u = t
      · subst h_u; simp [QueueState.sleepSlot, QueueState.set, QueueState.goto, h_w]
      · simp [QueueState.sleepSlot, QueueState.set, QueueState.goto, h_w, h_u, Ne.symm h_u,
          h_nowhere]
    · -- the other slot is empty: a free lock means that nobody sleeps in a slot
      have h_slot : (st.sleepSlot t c ws).queue.slot w = none := by
        show ((st.queue.setLock _).setSlot _ _).slot w = none
        rw [Ioqueue.setSlot_slot_of_ne _ _ h_w, Ioqueue.setLock_slot, hI.slot_of_free]
      rw [h_slot]
      by_cases h_u : u = t
      · subst h_u
        simp [QueueState.sleepSlot, QueueState.set, QueueState.goto, Ne.symm h_w]
      · simp [QueueState.sleepSlot, QueueState.set, QueueState.goto, h_u, h_nowhere]
  · by_cases h_u : u = t
    · subst h_u; simp [QueueState.sleepSlot, QueueState.set, QueueState.goto]
    · simpa [QueueState.sleepSlot, QueueState.set, QueueState.goto, h_u] using hI.idle u
  · have h_ring : (st.sleepSlot t c ws).queue.ring = st.queue.ring := Ioqueue.setSlot_ring ..
    rw [h_ring]
    exact hI.fifo

/-- A woken thread in `queue_wait` releases the lock, and the first thread that
waits for it is woken. -/
theorem release (hI : QueueInv st o ws) {t : T} {c : QueueCall} (h_pc : st.pc t = .wait c)
    (h_awake : st.status t ≠ .blocked) :
    ∃ status, lockRelease t st.status st.queue.lock = .ok (status, freeLock ws.tail) ∧
      (∀ u, status u = .blocked ↔ st.status u = .blocked ∧ (u ∈ ws → u ∈ ws.tail)) ∧
      QueueInv ((st.set status (st.queue.setLock (freeLock ws.tail))).goto t .idle)
        none ws.tail := by
  obtain rfl : o = some t := (hI.holder t).mpr ⟨c, h_pc⟩
  -- `t` was the only thread in `queue_wait`, so nobody is there any more
  have h_slot (w : Slot) : st.queue.slot w = none := by
    rw [Option.eq_none_iff_forall_ne_some]
    intro u hu
    obtain ⟨h_blocked, c', -, h_u⟩ := (hI.slot w u).mp hu
    exact h_awake (hI.wait_unique h_pc h_u ▸ h_blocked)
  have h_nowhere (u : T) (c' : QueueCall) (h_u : u ≠ t) : st.pc u ≠ .wait c' :=
    fun h => h_u (hI.wait_unique h_pc h)
  have h_ws (w : T) (hw : w ∈ ws) : st.status w = .blocked := ((hI.waiting w).mp hw).1
  obtain ⟨status, h_ok, h_status⟩ : ∃ status,
      lockRelease t st.status (heldLock t ws) = .ok (status, freeLock ws.tail) ∧
        ∀ u, status u = .blocked ↔ st.status u = .blocked ∧ (u ∈ ws → u ∈ ws.tail) :=
    lockRelease_tail hI.nodup h_ws
  refine ⟨status, by rw [hI.lock]; exact h_ok, h_status, rfl, hI.nodup.tail, fun u => ?_,
    fun u => ?_, fun w u => ?_, fun u h_idle => ?_, hI.fifo⟩
  · -- waiting: the first one has left the list and is awake
    by_cases h_u : u = t
    · subst h_u
      have h_free : u ∉ ws.tail := fun h =>
        h_awake ((hI.waiting u).mp (List.mem_of_mem_tail h)).1
      simp [QueueState.set, QueueState.goto, h_free]
    · have h_tail : u ∈ ws.tail → u ∈ ws := List.mem_of_mem_tail
      have h_old := hI.waiting u
      simp only [QueueState.set, QueueState.goto, Function.update_of_ne h_u, h_status]
      tauto
  · -- holder: the lock is free and nobody is in `queue_wait`
    by_cases h_u : u = t
    · subst h_u; simp [QueueState.set, QueueState.goto]
    · simp [QueueState.set, QueueState.goto, h_u, h_nowhere]
  · by_cases h_u : u = t
    · subst h_u; simp [QueueState.set, QueueState.goto, h_slot]
    · simp [QueueState.set, QueueState.goto, h_u, h_slot, h_nowhere]
  · -- `lock_release` wakes threads and puts none to sleep
    have h_blocked : status u = .blocked → st.status u = .blocked := fun h => ((h_status u).mp h).1
    by_cases h_u : u = t
    · subst h_u; exact fun h => h_awake (h_blocked h)
    · have h_pc_u : st.pc u = .idle := by
        simpa [QueueState.set, QueueState.goto, h_u] using h_idle
      exact fun h => hI.idle u h_pc_u (h_blocked h)

/-! ### Moving a byte -/

omit [DecidableEq T] in
/-- A byte is moved in a queue that allows it. -/
theorem move (hI : QueueInv st o ws) {c : QueueCall} (h_go : ¬ c.MustWait st.queue) :
    QueueInv (st.move c) o ws := by
  -- only the bytes change: the lock and the slots are as before
  have h_queue : (st.move c).queue.lock = st.queue.lock ∧
      ∀ w, (st.move c).queue.slot w = st.queue.slot w := by
    cases c <;> exact ⟨rfl, fun w => by cases w <;> rfl⟩
  have h_status : (st.move c).status = st.status ∧ (st.move c).pc = st.pc := by
    cases c <;> exact ⟨rfl, rfl⟩
  refine ⟨by rw [h_queue.1, hI.lock], hI.nodup, ?_, ?_, fun w => ?_, ?_, ?_⟩
  · rw [h_status.1, h_status.2]; exact hI.waiting
  · rw [h_status.2]; exact hI.holder
  · rw [h_status.1, h_status.2, h_queue.2]; exact hI.slot w
  · rw [h_status.1, h_status.2]; exact hI.idle
  · -- what was stored is what was returned and then what is in the ring
    have h_fifo := hI.fifo
    cases c with
    | getchar =>
      show st.stored = (st.returned ++ [st.queue.ring.get.1]) ++ st.queue.ring.get.2.contents
      rw [h_fifo, Ring.contents_get _ h_go, List.append_assoc, List.singleton_append]
    | putchar byte =>
      show st.stored ++ [byte] = st.returned ++ (st.queue.ring.put byte).contents
      rw [h_fifo, Ring.contents_put _ _ h_go, List.append_assoc]

/-- The thread in a slot is woken. -/
theorem wake (hI : QueueInv st o ws) (w : Slot) :
    wakeup w st.status st.queue = .ok ((st.wake w).status, (st.wake w).queue) ∧
      QueueInv (st.wake w) o ws := by
  cases h_slot : st.queue.slot w with
  | none =>
    have h_wake : st.wake w = st := by simp [QueueState.wake, h_slot]
    rw [h_wake]
    exact ⟨by simp [wakeup, h_slot], hI⟩
  | some t =>
    obtain ⟨h_blocked, c, h_c, h_pc⟩ := (hI.slot w t).mp h_slot
    have h_wake : st.wake w =
        st.set (Function.update st.status t .ready) (st.queue.setSlot w none) := by
      simp [QueueState.wake, h_slot]
    rw [h_wake]
    refine ⟨by simp [wakeup, h_slot, threadUnblock_blocked h_blocked, QueueState.set], ?_,
      hI.nodup, fun u => ?_, hI.holder, fun w' u => ?_, fun u => ?_, ?_⟩
    · exact (Ioqueue.setSlot_lock ..).trans hI.lock
    · by_cases h_u : u = t
      · subst h_u
        -- a thread in a slot is in `queue_wait`, not in the lock
        have h_free : u ∉ ws := by simp [hI.waiting, h_pc]
        simp [QueueState.set, h_free]
      · simpa [QueueState.set, h_u] using hI.waiting u
    · -- only the holder of the lock can be in a slot, and it is awake now
      have h_nobody : ¬ (Function.update st.status t TaskStatus.ready u = .blocked ∧
          ∃ c, c.waiter = w' ∧ st.pc u = .wait c) := by
        rintro ⟨h_u, c', -, h_pc'⟩
        obtain rfl := hI.wait_unique h_pc h_pc'
        simp at h_u
      refine iff_of_false (fun h => ?_) h_nobody
      by_cases h_w : w' = w
      · subst h_w
        simp [QueueState.set] at h
      · have h_old : st.queue.slot w' = some u := by
          rwa [← Ioqueue.setSlot_slot_of_ne st.queue none h_w]
        obtain ⟨h_u, c', h_c', h_pc'⟩ := (hI.slot w' u).mp h_old
        obtain rfl := hI.wait_unique h_pc h_pc'
        rw [h_pc] at h_pc'
        cases h_pc'
        exact h_w (h_c'.symm.trans h_c)
    · by_cases h_u : u = t
      · subst h_u; simp [QueueState.set, h_pc]
      · simpa [QueueState.set, h_u] using hI.idle u
    · exact hI.fifo.trans (by rw [QueueState.set, Ioqueue.setSlot_ring])

/-! ### The steps -/

/-- With the lock, a thread sleeps in its slot. -/
theorem acquired_taken (st : QueueState T) (t : T) (c : QueueCall) (ws : List T) :
    st.acquired t c (true, st.status, heldLock t ws) = .ok (st.sleepSlot t c ws) := by
  simp [QueueState.acquired, queueWait, threadBlock_blocked, QueueState.sleepSlot,
    QueueState.set, QueueState.goto]

/-- Without it, it sleeps in the lock. -/
theorem acquired_asleep (st : QueueState T) (t : T) (c : QueueCall) (lock : Lock T) :
    st.acquired t c (false, Function.update st.status t .blocked, lock)
      = .ok (st.sleepLock t c lock) := rfl

/-- A thread that has to wait while the lock is free. -/
theorem enter_free (hI : QueueInv st none ws) {t : T} {c : QueueCall}
    (h_wait : c.MustWait st.queue) : st.enter t c = .ok (st.sleepSlot t c ws) := by
  rw [QueueState.enter, if_pos h_wait, hI.lock, lockOf, lockAcquire_free, ok_bind,
    acquired_taken]

/-- A thread that has to wait while another one holds the lock. -/
theorem enter_held {h : T} (hI : QueueInv st (some h) ws) {t : T} {c : QueueCall}
    (h_idle : st.pc t = .idle) (h_wait : c.MustWait st.queue) :
    st.enter t c = .ok (st.sleepLock t c (lockOf (some h) (ws ++ [t]))) := by
  have h_ne : h ≠ t := by
    rintro rfl
    obtain ⟨c', h_pc⟩ := (hI.holder h).mp rfl
    rw [h_idle] at h_pc
    cases h_pc
  have h_free : t ∉ ws := by simp [hI.waiting, h_idle]
  rw [QueueState.enter, if_pos h_wait, hI.lock, lockOf, lockAcquire_held h_ne h_free, ok_bind,
    acquired_asleep]
  rfl

/-- The code after the loop. -/
theorem finish_eq (hI : QueueInv st o ws) {c : QueueCall} (h_go : ¬ c.MustWait st.queue) :
    st.finish c = .ok ((st.move c).wake c.partner) ∧
      QueueInv ((st.move c).wake c.partner) o ws := by
  obtain ⟨h_ok, h_inv⟩ := (hI.move h_go).wake c.partner
  refine ⟨?_, h_inv⟩
  rw [QueueState.finish, h_ok]
  show Except.ok ((st.move c).set _ _) = _
  rw [QueueState.wake]
  split <;> rfl

/-- A thread that does not have to wait. -/
theorem enter_go (hI : QueueInv st o ws) {t : T} {c : QueueCall} (h_idle : st.pc t = .idle)
    (h_go : ¬ c.MustWait st.queue) : st.enter t c = .ok ((st.move c).wake c.partner) := by
  have h_pc : ((st.move c).wake c.partner).pc = st.pc := by
    rw [QueueState.wake]
    split <;> cases c <;> rfl
  have h_goto : ((st.move c).wake c.partner).goto t .idle = (st.move c).wake c.partner := by
    rw [QueueState.goto, h_pc, ← h_idle, Function.update_eq_self, ← h_pc]
  rw [QueueState.enter, if_neg h_go, (hI.finish_eq h_go).1, ok_bind, h_goto]
  rfl

/-- A thread woken from the lock finds it free, or sleeps again. -/
theorem resume_lock_free (hI : QueueInv st none ws) {t : T} {c : QueueCall}
    (h_pc : st.pc t = .lock c) : st.resume t = .ok (st.sleepSlot t c ws) := by
  rw [QueueState.resume, h_pc]
  dsimp only
  rw [hI.lock, lockOf, lockAcquireDown_free, ok_bind, acquired_taken]

theorem resume_lock_held {h : T} (hI : QueueInv st (some h) ws) {t : T} {c : QueueCall}
    (h_pc : st.pc t = .lock c) (h_awake : st.status t ≠ .blocked) :
    st.resume t = .ok (st.sleepLock t c (lockOf (some h) (ws ++ [t]))) := by
  have h_free : t ∉ ws := fun h => h_awake ((hI.waiting t).mp h).1
  rw [QueueState.resume, h_pc]
  dsimp only
  rw [hI.lock, lockOf, lockAcquireDown_held h_free, ok_bind, acquired_asleep]
  rfl

/-- A call, from the test of the loop on. -/
theorem enter_step (hI : QueueInv st o ws) {t : T} (h_idle : st.pc t = .idle) (c : QueueCall) :
    ∃ st' o' ws', st.enter t c = .ok st' ∧ QueueInv st' o' ws' := by
  have h_awake := hI.idle t h_idle
  by_cases h_wait : c.MustWait st.queue
  · cases o with
    | none => exact ⟨_, _, _, hI.enter_free h_wait, hI.sleepSlot h_awake c⟩
    | some h =>
      exact ⟨_, _, _, hI.enter_held h_idle h_wait, hI.sleepLock h_awake (by simp [h_idle]) c⟩
  · exact ⟨_, _, _, hI.enter_go h_idle h_wait, (hI.finish_eq h_wait).2⟩

/-- **Every step runs through and keeps the invariant.** -/
theorem step (hI : QueueInv st o ws) {a : QueueAct T} (h_enabled : (queueSys T).enabled st a) :
    ∃ st' o' ws', (queueSys T).exec st a = .ok st' ∧ QueueInv st' o' ws' := by
  cases a with
  | getchar t => exact hI.enter_step h_enabled .getchar
  | putchar t byte => exact hI.enter_step h_enabled (.putchar byte)
  | keyboard byte =>
    obtain ⟨h_ok, h_inv⟩ := hI.finish_eq (c := .putchar byte) h_enabled
    exact ⟨_, _, _, h_ok, h_inv⟩
  | resume t =>
    obtain ⟨h_busy, h_awake⟩ := h_enabled
    cases h_pc : st.pc t with
    | idle => exact absurd h_pc h_busy
    | lock c =>
      cases o with
      | none => exact ⟨_, _, _, hI.resume_lock_free h_pc, hI.sleepSlot h_awake c⟩
      | some h =>
        exact ⟨_, _, _, hI.resume_lock_held h_pc h_awake,
          hI.sleepLock h_awake (by simp [h_pc]) c⟩
    | wait c =>
      -- the lock is released, and the loop of the call tests the queue again
      obtain ⟨status, h_ok, -, h_inv⟩ := hI.release h_pc h_awake
      obtain ⟨st', o', ws', h_enter, h_inv'⟩ :=
        h_inv.enter_step (t := t) (Function.update_self ..) c
      refine ⟨st', o', ws', ?_, h_inv'⟩
      show st.resume t = _
      rw [QueueState.resume, h_pc]
      dsimp only
      rw [h_ok]
      exact h_enter

end QueueInv

theorem queueInv_of_reachable {st : QueueState T} (h : (queueSys T).Reachable st) :
    ∃ o ws, QueueInv st o ws := by
  refine h.invariant (P := fun st => ∃ o ws, QueueInv st o ws) ?_ ?_
  · rintro st ⟨buf, rfl⟩
    exact ⟨none, [], .initial buf⟩
  · rintro st a st' ⟨o, ws, hI⟩ ⟨h_enabled, h_exec⟩
    obtain ⟨st₁, o', ws', h_ok, h_inv⟩ := hI.step h_enabled
    obtain rfl : st' = st₁ := Except.ok.inj (h_exec.symm.trans h_ok)
    exact ⟨o', ws', h_inv⟩

/-- What the queue promises in a state. -/
structure QueueSafe (st : QueueState T) : Prop where
  /-- What was returned is a prefix of what was stored, and the rest is in the
  ring, from `tail` to `head`. -/
  fifo : st.stored = st.returned ++ st.queue.ring.contents
  room : st.queue.ring.contents.length ≤ 63
  /-- A slot names a thread that sleeps in `queue_wait` and holds the lock. -/
  waiter : ∀ w t, st.queue.slot w = some t → st.status t = .blocked ∧
    (∃ c, c.waiter = w ∧ st.pc t = .wait c) ∧ st.queue.lock.holder = some t
  /-- No `ASSERT` is about to fail, that of `thread_unblock` included. -/
  assertions : ∀ a e, ¬ (queueSys T).Faults st a e

/-- **First in, first out**, for any number of producers and consumers and any
interleaving. -/
theorem ioqueue_fifo (T : Type) [DecidableEq T] {st : QueueState T}
    (h : (queueSys T).Reachable st) : QueueSafe st := by
  obtain ⟨o, ws, hI⟩ := queueInv_of_reachable h
  refine ⟨hI.fifo, ?_, fun w t h_slot => ?_, ?_⟩
  · rw [Ring.contents_length]
    exact Nat.le_of_lt_succ st.queue.ring.length_lt
  · obtain ⟨h_blocked, c, h_c, h_pc⟩ := (hI.slot w t).mp h_slot
    obtain rfl := (hI.holder t).mpr ⟨c, h_pc⟩
    exact ⟨h_blocked, ⟨c, h_c, h_pc⟩, by rw [hI.lock]; rfl⟩
  · rintro a e ⟨h_enabled, h_err⟩
    obtain ⟨st', -, -, h_ok, -⟩ := hI.step h_enabled
    rw [h_ok] at h_err
    cases h_err

/-- A consumer sleeps, the keyboard puts two bytes, and the consumer returns the
first of them. -/
theorem ioqueue_fifo_two : ∃ st : QueueState (Fin 2), st.stored = [7, 9] ∧
    st.returned = [7] ∧ QueueSafe st := by
  have h := Machine.Reachable.play (M := queueSys (Fin 2)) (.init ⟨fun _ => 0, rfl⟩)
    [.getchar 0, .keyboard 7, .keyboard 9, .resume 0] rfl
  exact ⟨_, rfl, rfl, ioqueue_fifo (Fin 2) h⟩

end ToiletOS
