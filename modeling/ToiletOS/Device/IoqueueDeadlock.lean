import ToiletOS.Device.IoqueueFifo

/-!
# One producer and one consumer

A thread that sleeps in `queue_wait` keeps the lock of the queue, and a thread
that sleeps in `lock_acquire` does not look at the queue when it is woken. So the
two threads can end up waiting for each other: the producer finds the queue full
and waits for the lock, which the sleeping consumer holds; the consumer wakes,
releases the lock and drains the whole queue; it takes the lock again and sleeps
until something is put; and the producer, still waiting for the lock only, never
puts it.

`KeepsMoving` excludes the steps at which this becomes inevitable. A step of a
thread that must wait is allowed only if its partner is not in `lock_acquire`, and
a thread that comes out of the semaphore of `lock_acquire` must not find its
partner's side of the loop (the consumer's: an empty queue) in force. Under the
condition the two are never both asleep (`ioqueue_deadlock_free`), and a step
that breaks it leaves exactly one way to go, into the deadlock.
-/

namespace ToiletOS

/-- The two threads. -/
inductive Party
  | producer | consumer
  deriving DecidableEq, Repr

namespace Party

/-- The other one. -/
def other : Party → Party
  | .producer => .consumer
  | .consumer => .producer

@[simp] theorem other_other (p : Party) : p.other.other = p := by cases p <;> rfl

theorem eq_other {p q : Party} (h : q ≠ p) : q = p.other := by
  cases p <;> cases q <;> first | rfl | exact absurd rfl h

theorem ne_other (p : Party) : p ≠ p.other := by cases p <;> simp [other]

/-- The condition of the loop that the thread runs. -/
def MustWait (p : Party) (queue : Ioqueue Party) : Prop :=
  match p with
  | .consumer => queue.IsQueueEmpty
  | .producer => queue.IsQueueFull

/-- A queue is not empty and full at once. -/
theorem MustWait.not_other {p : Party} {queue : Ioqueue Party} (h : p.MustWait queue) :
    ¬ p.other.MustWait queue := by
  intro h_other
  obtain ⟨h_empty, h_full⟩ : queue.ring.length = 0 ∧ queue.ring.length = bufSize - 1 := by
    cases p with
    | consumer => exact ⟨(Ring.isEmpty_iff _).mp h, (Ring.isFull_iff _).mp h_other⟩
    | producer => exact ⟨(Ring.isEmpty_iff _).mp h_other, (Ring.isFull_iff _).mp h⟩
  rw [h_empty] at h_full
  exact absurd h_full (by decide)

end Party

/-- Who makes a call. -/
def QueueCall.party : QueueCall → Party
  | .getchar => .consumer
  | .putchar _ => .producer

theorem QueueCall.mustWait_iff (c : QueueCall) (queue : Ioqueue Party) :
    c.MustWait queue ↔ c.party.MustWait queue := by cases c <;> rfl

/-- The producer puts, the consumer gets. -/
def InRole (_ : QueueState Party) : QueueAct Party → Prop
  | .getchar t => t = .consumer
  | .putchar t _ => t = .producer
  | .keyboard _ => False
  | .resume _ => True

instance (st : QueueState Party) : ∀ a, Decidable (InRole st a)
  | .getchar t => inferInstanceAs (Decidable (t = .consumer))
  | .putchar t _ => inferInstanceAs (Decidable (t = .producer))
  | .keyboard _ => inferInstanceAs (Decidable False)
  | .resume _ => inferInstanceAs (Decidable True)

/-- One producer thread and one consumer thread. -/
def pairSys : Machine (QueueState Party) (QueueAct Party) Assertion :=
  (queueSys Party).guard InRole

instance (st : QueueState Party) (a : QueueAct Party) : Decidable (pairSys.enabled st a) :=
  inferInstanceAs (Decidable (((queueSys Party).guard InRole).enabled st a))

/-- Both threads sleep. -/
def Deadlock (st : QueueState Party) : Prop := ∀ p, st.status p = .blocked

instance (st : QueueState Party) : Decidable (Deadlock st) :=
  decidable_of_iff (st.status .producer = .blocked ∧ st.status .consumer = .blocked)
    ⟨fun h p => by cases p; exacts [h.1, h.2], fun h => ⟨h _, h _⟩⟩

/-- The thread is in `lock_acquire`, where it slept. -/
def AtLock (st : QueueState Party) (p : Party) : Prop := ∃ c, st.pc p = .lock c

/-- The step does not leave the partner waiting for a lock that will not come
free. -/
def KeepsMoving (st : QueueState Party) : QueueAct Party → Prop
  | .getchar t => st.queue.IsQueueEmpty → ¬ AtLock st t.other
  | .putchar t _ => st.queue.IsQueueFull → ¬ AtLock st t.other
  | .keyboard _ => True
  | .resume t => AtLock st t → ¬ t.other.MustWait st.queue

/-- The invariant of the pair, on top of `QueueInv`. -/
structure PairInv (st : QueueState Party) (o : Option Party) (ws : List Party) : Prop where
  inv : QueueInv st o ws
  role : ∀ p c, st.pc p = .lock c ∨ st.pc p = .wait c → c.party = p
  /-- Nobody is left in the semaphore of a free lock. -/
  free : o = none → ws = []
  one_lock : ∀ p, AtLock st p → ¬ AtLock st p.other
  /-- The partner of a thread asleep in its slot can move a byte. -/
  asleep : ∀ p c, st.pc p = .wait c → st.status p = .blocked →
    ¬ p.other.MustWait st.queue ∧ ¬ AtLock st p.other
  /-- A thread woken from its slot can move a byte. -/
  awake : ∀ p c, st.pc p = .wait c → st.status p ≠ .blocked → ¬ p.MustWait st.queue

namespace PairInv

variable {st st' : QueueState Party} {o : Option Party} {ws : List Party}

theorem initial (buf : Fin bufSize → BitVec 8) : PairInv (.start buf) none [] where
  inv := .initial buf
  role := by simp [QueueState.start]
  free _ := rfl
  one_lock := by simp [AtLock, QueueState.start]
  asleep := by simp [QueueState.start]
  awake := by simp [QueueState.start]

/-- The invariant excludes the deadlock. -/
theorem not_deadlock (hI : PairInv st o ws) : ¬ Deadlock st := by
  intro h_dead
  -- neither thread can be asleep outside the queue, and at most one is in `queue_wait`
  have h_not_wait (p : Party) (c : QueueCall) : st.pc p ≠ .wait c := by
    intro h_pc
    obtain ⟨-, h_lock⟩ := hI.asleep p c h_pc (h_dead p)
    cases h_other : st.pc p.other with
    | idle => exact hI.inv.idle _ h_other (h_dead _)
    | lock c' => exact h_lock ⟨c', h_other⟩
    | wait c' => exact p.ne_other (hI.inv.wait_unique h_other h_pc)
  have h_lock (p : Party) : AtLock st p := by
    cases h_pc : st.pc p with
    | idle => exact absurd (h_dead p) (hI.inv.idle p h_pc)
    | lock c => exact ⟨c, h_pc⟩
    | wait c => exact absurd h_pc (h_not_wait p c)
  exact hI.one_lock .producer (h_lock _) (h_lock _)

/-! ### The moves -/

/-- A thread takes the free lock and sleeps in its slot. -/
theorem sleepSlot (hI : PairInv st none ws) {p : Party} {c : QueueCall} (h_role : c.party = p)
    (h_awake : st.status p ≠ .blocked) (h_lock : ¬ AtLock st p.other)
    (h_go : ¬ p.other.MustWait st.queue) : PairInv (st.sleepSlot p c ws) (some p) ws := by
  have h_ring : (st.sleepSlot p c ws).queue.ring = st.queue.ring := Ioqueue.setSlot_ring ..
  have h_must (q : Party) :
      q.MustWait (st.sleepSlot p c ws).queue ↔ q.MustWait st.queue := by
    cases q <;> simp only [Party.MustWait, Ioqueue.IsQueueEmpty, Ioqueue.IsQueueFull, h_ring]
  have h_pc_self : (st.sleepSlot p c ws).pc p = .wait c := Function.update_self ..
  have h_pc_ne {q : Party} (h : q ≠ p) : (st.sleepSlot p c ws).pc q = st.pc q :=
    Function.update_of_ne h ..
  -- the lock is free, so nobody is in `queue_wait` yet
  have h_nowhere (q : Party) (c' : QueueCall) : st.pc q ≠ .wait c' := by
    intro h_pc
    cases (hI.inv.holder q).mpr ⟨c', h_pc⟩
  have h_not_self : ¬ AtLock (st.sleepSlot p c ws) p := by
    rintro ⟨c', h_pc⟩
    rw [h_pc_self] at h_pc
    cases h_pc
  refine ⟨hI.inv.sleepSlot h_awake c, fun q c' h_pc => ?_, by rintro ⟨⟩, fun q => ?_,
    fun q c' h_pc h_blocked => ?_, fun q c' h_pc h_status => ?_⟩
  · -- role
    by_cases h_q : q = p
    · subst h_q
      rw [h_pc_self] at h_pc
      rcases h_pc with h_pc | h_pc <;> cases h_pc
      exact h_role
    · rw [h_pc_ne h_q] at h_pc
      exact hI.role q c' h_pc
  · -- one_lock
    intro h_q h_other
    by_cases h_eq : q = p
    · exact h_not_self (h_eq ▸ h_q)
    · rw [Party.eq_other h_eq, Party.other_other] at h_other
      exact h_not_self h_other
  · -- asleep: the partner can go on and is not at the lock
    by_cases h_q : q = p
    · subst h_q
      rw [h_must]
      refine ⟨h_go, fun ⟨c', h_pc'⟩ => h_lock ⟨c', ?_⟩⟩
      rwa [← h_pc_ne (q.ne_other.symm)]
    · rw [h_pc_ne h_q] at h_pc
      exact absurd h_pc (h_nowhere q c')
  · -- awake: the caller is asleep, and it is the only one that waits
    by_cases h_q : q = p
    · subst h_q
      exact absurd (Function.update_self ..) h_status
    · rw [h_pc_ne h_q] at h_pc
      exact absurd h_pc (h_nowhere q c')

/-- A thread sleeps in the lock that its partner, awake, holds. -/
theorem sleepLock {h : Party} (hI : PairInv st (some h) ws) {p : Party} {c : QueueCall}
    (h_role : c.party = p) (h_awake : st.status p ≠ .blocked) (h_pc : ∀ c, st.pc p ≠ .wait c)
    (h_other : st.status p.other ≠ .blocked) :
    PairInv (st.sleepLock p c (lockOf (some h) (ws ++ [p]))) (some h) (ws ++ [p]) := by
  obtain ⟨c₀, h_holder⟩ := (hI.inv.holder h).mp rfl
  have h_h : h = p.other := Party.eq_other fun h_eq => h_pc c₀ (h_eq ▸ h_holder)
  subst h_h
  set st₁ := st.sleepLock p c (lockOf (some p.other) (ws ++ [p])) with hst₁
  have h_pc_self : st₁.pc p = .lock c := Function.update_self ..
  have h_pc_other : st₁.pc p.other = .wait c₀ :=
    (Function.update_of_ne p.ne_other.symm ..).trans h_holder
  have h_status_other : st₁.status p.other = st.status p.other :=
    Function.update_of_ne p.ne_other.symm ..
  -- the caller stops at the lock, so only the partner waits in `queue_wait`
  have h_only {q : Party} {c' : QueueCall} (h_q : st₁.pc q = .wait c') : q = p.other := by
    refine Party.eq_other fun h_eq => ?_
    rw [h_eq, h_pc_self] at h_q
    cases h_q
  refine ⟨hI.inv.sleepLock h_awake h_pc c, fun q c' h_q => ?_, by rintro ⟨⟩, fun q => ?_,
    fun q c' h_q h_blocked => ?_, fun q c' h_q h_status => ?_⟩
  · by_cases h_eq : q = p
    · subst h_eq
      rw [h_pc_self] at h_q
      rcases h_q with h_q | h_q <;> cases h_q
      exact h_role
    · rw [Party.eq_other h_eq] at h_q ⊢
      rw [h_pc_other] at h_q
      rcases h_q with h_q | h_q <;> cases h_q
      exact hI.role _ _ (Or.inr h_holder)
  · rintro ⟨c₁, h₁⟩ ⟨c₂, h₂⟩
    by_cases h_eq : q = p
    · rw [h_eq, h_pc_other] at h₂
      cases h₂
    · rw [Party.eq_other h_eq, h_pc_other] at h₁
      cases h₁
  · rw [h_only h_q, h_status_other] at h_blocked
    exact absurd h_blocked h_other
  · obtain rfl := h_only h_q
    rw [h_pc_other] at h_q
    exact hI.awake _ _ h_holder h_other

/-- Moving a byte makes room for the partner, or gives it something to take. -/
theorem move_other (st : QueueState Party) {c : QueueCall} (h_go : ¬ c.MustWait st.queue) :
    ¬ c.party.other.MustWait (st.move c).queue := by
  cases c with
  | getchar =>
    intro h_full
    -- a byte was there, and one has gone: the ring is not full
    have h_length := Ring.get_length st.queue.ring h_go
    have h_lt := st.queue.ring.length_lt
    have h_eq : st.queue.ring.get.2.length = bufSize - 1 := (Ring.isFull_iff _).mp h_full
    omega
  | putchar byte =>
    intro h_empty
    -- a byte has come: the ring is not empty
    have h_length := Ring.put_length st.queue.ring byte h_go
    have h_eq : (st.queue.ring.put byte).length = 0 := (Ring.isEmpty_iff _).mp h_empty
    omega

/-- A byte is moved by a thread that is in no call. -/
theorem finish (hI : PairInv st o ws) {c : QueueCall} (h_idle : st.pc c.party = .idle)
    (h_go : ¬ c.MustWait st.queue) : PairInv ((st.move c).wake c.partner) o ws := by
  set st₁ := (st.move c).wake c.partner with hst₁
  have h_pc : st₁.pc = st.pc := by
    rw [hst₁, QueueState.wake]
    split <;> cases c <;> rfl
  have h_ring : st₁.queue.ring = (st.move c).queue.ring := by
    rw [hst₁, QueueState.wake]
    split
    · rfl
    · exact Ioqueue.setSlot_ring ..
  -- moving the byte is what the partner waited for
  have h_room : ¬ c.party.other.MustWait st₁.queue := by
    have h_move := move_other st h_go
    revert h_move
    cases c <;> simp only [Party.MustWait, QueueCall.party, Party.other, Ioqueue.IsQueueEmpty,
      Ioqueue.IsQueueFull, h_ring] <;> exact id
  -- the partner, if it slept in its slot, is awake now
  have h_woken (c' : QueueCall) (h_wait : st.pc c.party.other = .wait c') :
      st₁.status c.party.other ≠ .blocked := by
    have h_role := hI.role _ _ (Or.inr h_wait)
    have h_partner : c'.waiter = c.partner := by
      revert h_role
      cases c <;> cases c' <;> simp [QueueCall.party, QueueCall.waiter, QueueCall.partner,
        Party.other]
    have h_slot : (st.move c).queue.slot c.partner = st.queue.slot c.partner := by
      cases c <;> rfl
    have h_status : (st.move c).status = st.status := by cases c <;> rfl
    by_cases h_blocked : st.status c.party.other = .blocked
    · have h_some := (hI.inv.slot c.partner _).mpr ⟨h_blocked, c', h_partner, h_wait⟩
      rw [← h_slot] at h_some
      simp [hst₁, QueueState.wake, h_some, QueueState.set]
    · rw [hst₁, QueueState.wake]
      split
      · rwa [h_status]
      · next u _ =>
        show Function.update (st.move c).status u .ready _ ≠ _
        by_cases h_u : c.party.other = u
        · rw [h_u, Function.update_self]; simp
        · rwa [Function.update_of_ne h_u, h_status]
  -- the caller is in no call, so only the partner can be in `queue_wait`
  have h_only {q : Party} {c' : QueueCall} (h_q : st.pc q = .wait c') : q = c.party.other := by
    refine Party.eq_other fun h_eq => ?_
    rw [h_eq, h_idle] at h_q
    cases h_q
  refine ⟨(hI.inv.finish_eq h_go).2, fun q c' => by rw [h_pc]; exact hI.role q c', hI.free,
    fun q => by simp only [AtLock, h_pc]; exact hI.one_lock q, fun q c' h_q h_blocked => ?_,
    fun q c' h_q h_status => ?_⟩
  · rw [h_pc] at h_q
    obtain rfl := h_only h_q
    exact absurd h_blocked (h_woken c' h_q)
  · rw [h_pc] at h_q
    rw [h_only h_q]
    exact h_room

/-- A woken thread releases the lock; nobody is left in it. -/
theorem release (hI : PairInv st o ws) {p : Party} {c : QueueCall} (h_pc : st.pc p = .wait c)
    (h_awake : st.status p ≠ .blocked) :
    ∃ status, lockRelease p st.status st.queue.lock = .ok (status, freeLock []) ∧
      PairInv ((st.set status (st.queue.setLock (freeLock []))).goto p .idle) none [] := by
  obtain ⟨status, h_ok, -, h_inv⟩ := hI.inv.release h_pc h_awake
  have h_tail : ws.tail = [] := by
    -- only the partner can be in the lock
    have h_mem (q : Party) (hq : q ∈ ws) : q = p.other :=
      Party.eq_other fun h_eq => h_awake (h_eq ▸ ((hI.inv.waiting q).mp hq).1)
    have h_nodup := hI.inv.nodup
    match ws, h_mem, h_nodup with
    | [], _, _ => rfl
    | [_], _, _ => rfl
    | q :: r :: _, h_mem, h_nodup =>
      have h_q := h_mem q (by simp)
      have h_r := h_mem r (by simp)
      simp [h_q, h_r] at h_nodup
  rw [h_tail] at h_ok h_inv
  refine ⟨status, h_ok, h_inv, fun q c' h_q => ?_, fun _ => rfl, fun q => ?_,
    fun q c' h_q => ?_, fun q c' h_q => ?_⟩
  · by_cases h_eq : q = p
    · subst h_eq; simp [QueueState.goto] at h_q
    · exact hI.role q c' (by simpa [QueueState.goto, QueueState.set, h_eq] using h_q)
  · rintro ⟨c₁, h₁⟩ ⟨c₂, h₂⟩
    by_cases h_eq : q = p
    · subst h_eq; simp [QueueState.goto] at h₁
    · rw [Party.eq_other h_eq, Party.other_other] at h₂
      simp [QueueState.goto] at h₂
  · cases (h_inv.holder q).mpr ⟨c', h_q⟩
  · cases (h_inv.holder q).mpr ⟨c', h_q⟩

/-! ### The steps -/

/-- The partner of a thread that must wait is awake if it holds the lock. -/
theorem holder_awake {h : Party} (hI : PairInv st (some h) ws) {p : Party}
    (h_pc : ∀ c, st.pc p ≠ .wait c) (h_wait : p.MustWait st.queue ∨ AtLock st p) :
    st.status p.other ≠ .blocked := by
  obtain ⟨c₀, h_holder⟩ := (hI.inv.holder h).mp rfl
  obtain rfl : h = p.other := Party.eq_other fun h_eq => h_pc c₀ (h_eq ▸ h_holder)
  intro h_blocked
  obtain ⟨h_go, h_lock⟩ := hI.asleep _ c₀ h_holder h_blocked
  rw [Party.other_other] at h_go h_lock
  rcases h_wait with h_wait | h_wait
  · exact h_go h_wait
  · exact h_lock h_wait

/-- A call under the condition. -/
theorem enter_step (hI : PairInv st o ws) {c : QueueCall} (h_idle : st.pc c.party = .idle)
    (h_cond : c.MustWait st.queue → ¬ AtLock st c.party.other)
    (h : st.enter c.party c = .ok st') : ∃ o' ws', PairInv st' o' ws' := by
  have h_awake := hI.inv.idle _ h_idle
  by_cases h_wait : c.MustWait st.queue
  · have h_must : c.party.MustWait st.queue := (c.mustWait_iff st.queue).mp h_wait
    cases o with
    | none =>
      obtain rfl : st' = _ := Except.ok.inj (h.symm.trans (hI.inv.enter_free h_wait))
      exact ⟨_, _, hI.sleepSlot rfl h_awake (h_cond h_wait) h_must.not_other⟩
    | some u =>
      obtain rfl : st' = _ := Except.ok.inj (h.symm.trans (hI.inv.enter_held h_idle h_wait))
      have h_pc (c' : QueueCall) : st.pc c.party ≠ .wait c' := by simp [h_idle]
      exact ⟨_, _, hI.sleepLock rfl h_awake h_pc (hI.holder_awake h_pc (Or.inl h_must))⟩
  · -- the queue lets the call through
    obtain rfl : st' = _ := Except.ok.inj (h.symm.trans (hI.inv.enter_go h_idle h_wait))
    exact ⟨_, _, hI.finish h_idle h_wait⟩

/-- A step that meets the condition keeps the invariant. -/
theorem step (hI : PairInv st o ws) {a : QueueAct Party} (h_step : pairSys.Step st a st')
    (h_cond : KeepsMoving st a) : ∃ o' ws', PairInv st' o' ws' := by
  obtain ⟨⟨h_enabled, h_exec⟩, h_role⟩ := Machine.guard_step_iff.mp h_step
  cases a with
  | getchar t =>
    obtain rfl : t = .consumer := h_role
    exact hI.enter_step (c := .getchar) h_enabled h_cond h_exec
  | putchar t byte =>
    obtain rfl : t = .producer := h_role
    exact hI.enter_step (c := .putchar byte) h_enabled h_cond h_exec
  | keyboard byte => exact h_role.elim
  | resume t =>
    obtain ⟨h_busy, h_awake⟩ := h_enabled
    -- `resume`: the thread goes on inside `lock_acquire` or after the sleep in `ioqueue_wait`
    cases h_pc : st.pc t with
    | idle => exact absurd h_pc h_busy
    | lock c =>
      have h_at : AtLock st t := ⟨c, h_pc⟩
      have h_party := hI.role t c (Or.inl h_pc)
      have h_not_wait (c' : QueueCall) : st.pc t ≠ .wait c' := by simp [h_pc]
      cases o with
      | none =>
        obtain rfl : st' = _ := Except.ok.inj (h_exec.symm.trans (hI.inv.resume_lock_free h_pc))
        exact ⟨_, _, hI.sleepSlot h_party h_awake (hI.one_lock t h_at) (h_cond h_at)⟩
      | some u =>
        obtain rfl : st' = _ :=
          Except.ok.inj (h_exec.symm.trans (hI.inv.resume_lock_held h_pc h_awake))
        exact ⟨_, _, hI.sleepLock h_party h_awake h_not_wait
          (hI.holder_awake h_not_wait (Or.inr h_at))⟩
    | wait c =>
      obtain rfl := hI.role t c (Or.inr h_pc)
      obtain ⟨status, h_ok, h_inv⟩ := hI.release h_pc h_awake
      refine h_inv.enter_step (c := c) (Function.update_self ..) (fun h_wait => ?_) ?_
      · -- a woken thread does not have to wait
        exact absurd ((c.mustWait_iff _).mp h_wait) (hI.awake _ c h_pc h_awake)
      · rw [← h_exec]
        show _ = st.resume c.party
        rw [QueueState.resume, h_pc]
        dsimp only
        rw [h_ok]
        rfl

end PairInv

/-! ### The point of no return -/

/-- All that can happen next is a step into the deadlock, and such a step is
possible. -/
def Doomed (st : QueueState Party) : Prop :=
  (∃ a st', pairSys.Step st a st') ∧ ∀ a st', pairSys.Step st a st' → Deadlock st'

section Doomed

variable {st st' : QueueState Party} {o : Option Party} {ws : List Party}

/-- One thread sleeps with the lock, and the other needs the lock. -/
theorem doomed_of_asleep {p : Party} (hI : QueueInv st (some p) ws)
    (h_asleep : st.status p = .blocked)
    (h_other : AtLock st p.other ∧ st.status p.other ≠ .blocked ∨
      st.pc p.other = .idle ∧ p.other.MustWait st.queue) : Doomed st := by
  obtain ⟨c₀, h_wait⟩ := (hI.holder p).mp rfl
  -- both threads sleep once the other one has gone to sleep in the lock
  have h_dead (c : QueueCall) (lock : Lock Party) : Deadlock (st.sleepLock p.other c lock) := by
    intro q
    by_cases h_q : q = p.other
    · subst h_q; exact Function.update_self ..
    · rw [Party.eq_other h_q, Party.other_other]
      exact (Function.update_of_ne p.ne_other ..).trans h_asleep
  rcases h_other with ⟨⟨c, h_pc⟩, h_awake⟩ | ⟨h_pc, h_must⟩
  · -- the other thread can only make another pass in `lock_acquire`
    have h_resume := hI.resume_lock_held h_pc h_awake
    refine ⟨⟨.resume p.other, _, Machine.guard_step_iff.mpr
      ⟨⟨⟨by simp [h_pc], h_awake⟩, h_resume⟩, trivial⟩⟩, fun a st' h_step => ?_⟩
    obtain ⟨⟨h_enabled, h_exec⟩, h_role⟩ := Machine.guard_step_iff.mp h_step
    have h_busy (q : Party) : st.pc q ≠ .idle := by
      by_cases h_q : q = p
      · subst h_q; simp [h_wait]
      · rw [Party.eq_other h_q]; simp [h_pc]
    cases a with
    | getchar t => exact absurd h_enabled (h_busy t)
    | putchar t byte => exact absurd h_enabled (h_busy t)
    | keyboard byte => exact h_role.elim
    | resume t =>
      obtain rfl : t = p.other := Party.eq_other fun h_eq => h_enabled.2 (h_eq ▸ h_asleep)
      obtain rfl : st' = _ := Except.ok.inj (h_exec.symm.trans h_resume)
      exact h_dead _ _
  · -- the other thread can only make a call, which has to wait
    have h_call (c : QueueCall) (h_c : c.party = p.other) :
        st.enter p.other c = .ok (st.sleepLock p.other c (lockOf (some p) (ws ++ [p.other]))) :=
      hI.enter_held h_pc ((c.mustWait_iff st.queue).mpr (h_c ▸ h_must))
    refine ⟨?_, fun a st' h_step => ?_⟩
    · cases h_p : p.other with
      | consumer =>
        rw [h_p] at h_pc h_call
        exact ⟨.getchar .consumer, _, Machine.guard_step_iff.mpr
          ⟨⟨h_pc, h_call .getchar rfl⟩, rfl⟩⟩
      | producer =>
        rw [h_p] at h_pc h_call
        exact ⟨.putchar .producer 0, _, Machine.guard_step_iff.mpr
          ⟨⟨h_pc, h_call (.putchar 0) rfl⟩, rfl⟩⟩
    · obtain ⟨⟨h_enabled, h_exec⟩, h_role⟩ := Machine.guard_step_iff.mp h_step
      have h_caller (q : Party) (h_q : st.pc q = .idle) : q = p.other := by
        refine Party.eq_other fun h_eq => ?_
        rw [h_eq, h_wait] at h_q
        cases h_q
      cases a with
      | getchar t =>
        obtain rfl := h_caller t h_enabled
        obtain rfl : st' = _ := Except.ok.inj (h_exec.symm.trans (h_call .getchar h_role.symm))
        exact h_dead _ _
      | putchar t byte =>
        obtain rfl := h_caller t h_enabled
        obtain rfl : st' = _ :=
          Except.ok.inj (h_exec.symm.trans (h_call (.putchar byte) h_role.symm))
        exact h_dead _ _
      | keyboard byte => exact h_role.elim
      | resume t =>
        obtain rfl : t = p.other := Party.eq_other fun h_eq => h_enabled.2 (h_eq ▸ h_asleep)
        exact absurd h_pc h_enabled.1

/-- A call that breaks the condition. -/
theorem PairInv.enter_doomed (hI : PairInv st o ws) {c : QueueCall}
    (h_idle : st.pc c.party = .idle) (h_wait : c.MustWait st.queue)
    (h_lock : AtLock st c.party.other) (h : st.enter c.party c = .ok st') : Doomed st' := by
  obtain ⟨c', h_pc'⟩ := h_lock
  -- neither thread is in `queue_wait`, so the lock is free and nobody sleeps in it
  obtain rfl : o = none := by
    rw [Option.eq_none_iff_forall_ne_some]
    intro q h_q
    obtain ⟨c₀, h_pc⟩ := (hI.inv.holder q).mp h_q
    by_cases h_eq : q = c.party
    · rw [h_eq, h_idle] at h_pc
      cases h_pc
    · rw [Party.eq_other h_eq, h_pc'] at h_pc
      cases h_pc
  obtain rfl : st' = _ := Except.ok.inj (h.symm.trans (hI.inv.enter_free h_wait))
  have h_ne := c.party.ne_other.symm
  have h_awake : st.status c.party.other ≠ .blocked := by
    intro h_blocked
    have h_mem := (hI.inv.waiting _).mpr ⟨h_blocked, c', h_pc'⟩
    rw [hI.free rfl] at h_mem
    cases h_mem
  refine doomed_of_asleep (hI.inv.sleepSlot (hI.inv.idle _ h_idle) c) (Function.update_self ..)
    (Or.inl ⟨⟨c', (Function.update_of_ne h_ne ..).trans h_pc'⟩, ?_⟩)
  exact fun h_blocked => h_awake ((Function.update_of_ne h_ne ..).symm.trans h_blocked)

/-- **A step that breaks the condition seals the deadlock.** -/
theorem PairInv.step_doomed (hI : PairInv st o ws) {a : QueueAct Party}
    (h_step : pairSys.Step st a st') (h_cond : ¬ KeepsMoving st a) : Doomed st' := by
  obtain ⟨⟨h_enabled, h_exec⟩, h_role⟩ := Machine.guard_step_iff.mp h_step
  cases a with
  | getchar t =>
    obtain rfl : t = .consumer := h_role
    obtain ⟨h_wait, h_lock⟩ := Classical.not_imp.mp h_cond
    exact hI.enter_doomed (c := .getchar) h_enabled h_wait (not_not.mp h_lock) h_exec
  | putchar t byte =>
    obtain rfl : t = .producer := h_role
    obtain ⟨h_wait, h_lock⟩ := Classical.not_imp.mp h_cond
    exact hI.enter_doomed (c := .putchar byte) h_enabled h_wait (not_not.mp h_lock) h_exec
  | keyboard byte => exact h_role.elim
  | resume t =>
    obtain ⟨h_busy, h_awake⟩ := h_enabled
    obtain ⟨⟨c, h_pc⟩, h_must⟩ := Classical.not_imp.mp h_cond
    replace h_must := not_not.mp h_must
    -- the thread is at the lock, so its partner is neither there nor in `queue_wait`
    have h_no_lock := hI.one_lock t ⟨c, h_pc⟩
    have h_no_wait (c' : QueueCall) : st.pc t.other ≠ .wait c' := by
      intro h_wait
      by_cases h_blocked : st.status t.other = .blocked
      · have h_lock := (hI.asleep _ c' h_wait h_blocked).2
        rw [Party.other_other] at h_lock
        exact h_lock ⟨c, h_pc⟩
      · exact hI.awake _ c' h_wait h_blocked h_must
    have h_idle : st.pc t.other = .idle := by
      cases h_other : st.pc t.other with
      | idle => rfl
      | lock c' => exact absurd ⟨c', h_other⟩ h_no_lock
      | wait c' => exact absurd h_other (h_no_wait c')
    -- nobody in `queue_wait` means that the lock is free
    obtain rfl : o = none := by
      rw [Option.eq_none_iff_forall_ne_some]
      intro q h_q
      obtain ⟨c₀, h_wait⟩ := (hI.inv.holder q).mp h_q
      by_cases h_eq : q = t
      · rw [h_eq, h_pc] at h_wait
        cases h_wait
      · rw [Party.eq_other h_eq] at h_wait
        exact h_no_wait c₀ h_wait
    obtain rfl : st' = _ := Except.ok.inj (h_exec.symm.trans (hI.inv.resume_lock_free h_pc))
    refine doomed_of_asleep (hI.inv.sleepSlot h_awake c) (Function.update_self ..)
      (Or.inr ⟨(Function.update_of_ne t.ne_other.symm ..).trans h_idle, ?_⟩)
    have h_ring : (st.sleepSlot t c ws).queue.ring = st.queue.ring := Ioqueue.setSlot_ring ..
    revert h_must
    cases t <;> simp only [Party.MustWait, Party.other, Ioqueue.IsQueueEmpty,
      Ioqueue.IsQueueFull, h_ring] <;> exact id

end Doomed

/-! ### The result -/

theorem pairInv_of_reachable {st : QueueState Party}
    (h : (pairSys.guard KeepsMoving).Reachable st) : ∃ o ws, PairInv st o ws := by
  refine h.invariant (P := fun st => ∃ o ws, PairInv st o ws) ?_ ?_
  · rintro st ⟨buf, rfl⟩
    exact ⟨none, [], .initial buf⟩
  · rintro st a st' ⟨o, ws, hI⟩ h_step
    obtain ⟨h_step, h_cond⟩ := Machine.guard_step_iff.mp h_step
    exact hI.step h_step h_cond

/-- **Deadlock freedom, and where it ends.** A run whose steps all meet the
condition never has both threads asleep; and a step from it that breaks the
condition leaves no way but into the deadlock. -/
theorem ioqueue_deadlock_free {st : QueueState Party}
    (h : (pairSys.guard KeepsMoving).Reachable st) :
    ¬ Deadlock st ∧ ∀ a st', pairSys.Step st a st' → ¬ KeepsMoving st a → Doomed st' := by
  obtain ⟨o, ws, hI⟩ := pairInv_of_reachable h
  exact ⟨hI.not_deadlock, fun a st' h_step h_cond => hI.step_doomed h_step h_cond⟩

/-- The consumer sleeps on the empty queue and the producer is about to put. -/
theorem ioqueue_deadlock_free_one : ∃ st : QueueState Party, st.status .consumer = .blocked ∧
    ¬ Deadlock st ∧ ∀ a st', pairSys.Step st a st' → ¬ KeepsMoving st a → Doomed st' := by
  have h_init : (pairSys.guard KeepsMoving).Reachable (.start fun _ => 0) :=
    .init ⟨fun _ => 0, rfl⟩
  have h_wait : (pairSys.guard KeepsMoving).Step (.start fun _ => 0) (.getchar .consumer) _ :=
    ⟨⟨⟨rfl, rfl⟩, fun _ ⟨_, h_lock⟩ => by cases h_lock⟩, rfl⟩
  exact ⟨_, rfl, ioqueue_deadlock_free (h_init.step h_wait)⟩

/-- The consumer sleeps, the producer fills the queue and waits for the lock, the
consumer drains the queue and sleeps again, and the producer finds the lock
taken. -/
def deadlockSchedule : List (QueueAct Party) :=
  [.getchar .consumer] ++ List.replicate 64 (.putchar .producer 7) ++ [.resume .consumer] ++
    List.replicate 63 (.getchar .consumer) ++ [.resume .producer]

/-- Two threads that only call the two functions can put each other to sleep for
good. -/
theorem ioqueue_deadlock :
    ¬ ∀ st : QueueState Party, pairSys.Reachable st → ¬ Deadlock st := by
  intro h_all
  have h_play : (pairSys.play (.start fun _ => 0) deadlockSchedule).any
      (fun st => Deadlock st) = true := by decide +kernel
  obtain ⟨st, h_ok, h_dead⟩ := (Option.any_eq_true ..).mp h_play
  have h := Machine.Reachable.play (M := pairSys) (.init ⟨fun _ => 0, rfl⟩) _ h_ok
  exact h_all st h (of_decide_eq_true h_dead)

end ToiletOS
