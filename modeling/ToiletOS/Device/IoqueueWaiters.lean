import ToiletOS.Device.IoqueueFifo

/-!
# Threads that sleep beside what they wait for

A consumer should sleep in `queue_wait` only while the queue is empty, and a
producer only while it is full (`WaitersHaveToWait`). The code tests this before
`lock_acquire` and not after, and `lock_acquire` may sleep: a thread that is woken
from the lock goes to sleep in its slot whatever the queue looks like by then.

`RetestHolds` is the condition on a step that excludes just this: a thread that
gets the lock after it slept for it would pass the test of its loop again. A run
keeps `WaitersHaveToWait` throughout if and only if all its steps meet it.
-/

namespace ToiletOS

variable {T : Type} [DecidableEq T]

/-- Whoever sleeps in a slot really has to wait. -/
def WaitersHaveToWait (st : QueueState T) : Prop :=
  (st.queue.consumer ≠ none → st.queue.IsQueueEmpty) ∧
    (st.queue.producer ≠ none → st.queue.IsQueueFull)

/-- A thread that finds the lock free after it slept for it still has to wait. -/
def RetestHolds (st : QueueState T) : QueueAct T → Prop
  | .resume t => ∀ c, st.pc t = .lock c → st.queue.lock.semaphore.value ≠ 0 →
      c.MustWait st.queue
  | _ => True

variable {st : QueueState T} {o : Option T} {ws : List T}

omit [DecidableEq T] in
/-- Slots that are empty make no promise. -/
theorem WaitersHaveToWait.of_empty (h : ∀ w, st.queue.slot w = none) : WaitersHaveToWait st :=
  ⟨fun hc => absurd (h .consumer) hc, fun hp => absurd (h .producer) hp⟩

/-- A thread that goes to sleep in its slot keeps the promise exactly if it has to
wait at that moment. -/
theorem QueueInv.sleepSlot_iff (hI : QueueInv st none ws) (t : T) (c : QueueCall) :
    WaitersHaveToWait (st.sleepSlot t c ws) ↔ c.MustWait st.queue := by
  -- the lock is free, so both slots are empty before
  have h_consumer : st.queue.consumer = none := hI.slot_of_free .consumer
  have h_producer : st.queue.producer = none := hI.slot_of_free .producer
  cases c with
  | getchar =>
    constructor
    · rintro ⟨h_empty, -⟩
      exact h_empty (Option.some_ne_none t)
    · intro h_wait
      exact ⟨fun _ => h_wait, fun hp => absurd h_producer hp⟩
  | putchar byte =>
    constructor
    · rintro ⟨-, h_full⟩
      exact h_full (Option.some_ne_none t)
    · intro h_wait
      exact ⟨fun hc => absurd h_consumer hc, fun _ => h_wait⟩

/-- A byte can only be moved while nobody sleeps on the same side, and moving it
wakes the other side. -/
theorem WaitersHaveToWait.finish (hP : WaitersHaveToWait st) {c : QueueCall}
    (h_go : ¬ c.MustWait st.queue) :
    WaitersHaveToWait ((st.move c).wake c.partner) := by
  have h_move : ∀ w, (st.move c).queue.slot w = st.queue.slot w := by
    cases c <;> exact fun w => by cases w <;> rfl
  -- nobody sleeps on the caller's side, or the queue would not have let it through
  have h_same : (st.move c).queue.slot c.waiter = none := by
    rw [h_move]
    by_contra h_some
    cases c with
    | getchar => exact h_go (hP.1 h_some)
    | putchar byte => exact h_go (hP.2 h_some)
  have h_slots (w : Slot) : w = c.waiter ∨ w = c.partner := by
    cases w <;> cases c <;> simp [QueueCall.waiter, QueueCall.partner]
  -- with the partner woken, no slot is taken
  refine .of_empty fun w => ?_
  rw [QueueState.wake]
  cases h_partner : (st.move c).queue.slot c.partner with
  | none =>
    rcases h_slots w with rfl | rfl
    · exact h_same
    · exact h_partner
  | some u =>
    show ((st.move c).queue.setSlot c.partner none).slot w = none
    rcases h_slots w with rfl | rfl
    · rw [Ioqueue.setSlot_slot_of_ne _ _ (by cases c <;> simp [QueueCall.waiter,
        QueueCall.partner])]
      exact h_same
    · rw [Ioqueue.setSlot_slot_self]

/-- A call, from the test of the loop on, keeps the promise. -/
theorem QueueInv.enter_waiters (hI : QueueInv st o ws) (hP : WaitersHaveToWait st) {t : T}
    (h_idle : st.pc t = .idle) {c : QueueCall} {st' : QueueState T}
    (h : st.enter t c = .ok st') : WaitersHaveToWait st' := by
  by_cases h_wait : c.MustWait st.queue
  · cases o with
    | none =>
      rw [hI.enter_free h_wait] at h
      cases h
      -- the test has just been made, and nothing came in between
      exact (hI.sleepSlot_iff t c).mpr h_wait
    | some u =>
      rw [hI.enter_held h_idle h_wait] at h
      cases h
      -- the caller sleeps in the lock and takes no slot
      exact hP
  · rw [hI.enter_go h_idle h_wait] at h
    cases h
    exact hP.finish h_wait

/-- **A step keeps the promise exactly if it meets the condition.** -/
theorem QueueInv.step_waiters (hI : QueueInv st o ws) (hP : WaitersHaveToWait st)
    {a : QueueAct T} {st' : QueueState T} (h : (queueSys T).Step st a st') :
    WaitersHaveToWait st' ↔ RetestHolds st a := by
  obtain ⟨h_enabled, h_exec⟩ := h
  cases a with
  | getchar t => exact iff_of_true (hI.enter_waiters hP h_enabled h_exec) trivial
  | putchar t byte => exact iff_of_true (hI.enter_waiters hP h_enabled h_exec) trivial
  | keyboard byte =>
    have h_ok := (hI.finish_eq (c := .putchar byte) h_enabled).1
    obtain rfl : st' = _ := Except.ok.inj (h_exec.symm.trans h_ok)
    exact iff_of_true (hP.finish h_enabled) trivial
  | resume t =>
    obtain ⟨h_busy, h_awake⟩ := h_enabled
    cases h_pc : st.pc t with
    | idle => exact absurd h_pc h_busy
    | lock c =>
      -- past the lock the thread sleeps in the slot without a second look at the queue
      have h_only : RetestHolds st (.resume t) ↔
          (st.queue.lock.semaphore.value ≠ 0 → c.MustWait st.queue) := by
        simp [RetestHolds, h_pc]
      rw [h_only, hI.lock]
      cases o with
      | none =>
        obtain rfl : st' = _ := Except.ok.inj (h_exec.symm.trans (hI.resume_lock_free h_pc))
        rw [hI.sleepSlot_iff t c]
        simp [lockOf, freeLock]
      | some u =>
        -- the lock is taken again, and the thread sleeps on
        obtain rfl : st' = _ :=
          Except.ok.inj (h_exec.symm.trans (hI.resume_lock_held h_pc h_awake))
        exact iff_of_true hP (by simp [lockOf, heldLock])
    | wait c =>
      obtain ⟨status, h_ok, -, h_inv⟩ := hI.release h_pc h_awake
      -- after the sleep the call starts again from its test
      have h_enter : ((st.set status (st.queue.setLock (freeLock ws.tail))).goto t .idle).enter
          t c = .ok st' := by
        rw [← h_exec]
        show _ = st.resume t
        rw [QueueState.resume, h_pc]
        dsimp only
        rw [h_ok]
        rfl
      have h_empty := WaitersHaveToWait.of_empty h_inv.slot_of_free
      refine iff_of_true (h_inv.enter_waiters h_empty (Function.update_self ..) h_enter) ?_
      simp [RetestHolds, h_pc]

/-- **Exactly when waiters have to wait.** A run keeps the promise in all its
states if and only if all its steps meet the condition. -/
theorem waiters_have_to_wait_iff (T : Type) [DecidableEq T] {st st' : QueueState T}
    {tr : List (QueueAct T × QueueState T)} (h_init : (queueSys T).init st)
    (h_run : (queueSys T).Run st tr st') :
    (∀ x ∈ tr, WaitersHaveToWait x.2) ↔ ((queueSys T).guard RetestHolds).Run st tr st' := by
  refine Machine.safe_iff_guarded
    (I := fun st => (∃ o ws, QueueInv st o ws) ∧ WaitersHaveToWait st)
    (fun _ h => h.2) ?_ ?_ ?_ h_run
  · rintro st a st' ⟨⟨o, ws, hI⟩, hP⟩ h_step h_cond
    obtain ⟨st₁, o', ws', h_ok, h_inv⟩ := hI.step h_step.1
    obtain rfl : st' = st₁ := Except.ok.inj (h_step.2.symm.trans h_ok)
    exact ⟨⟨o', ws', h_inv⟩, (hI.step_waiters hP h_step).mpr h_cond⟩
  · rintro st a st' ⟨⟨o, ws, hI⟩, hP⟩ h_step hP'
    exact (hI.step_waiters hP h_step).mp hP'
  · obtain ⟨buf, rfl⟩ := h_init
    exact ⟨⟨none, [], .initial buf⟩, .of_empty fun w => by cases w <;> rfl⟩

/-- A run of two steps that meets the condition: a consumer sleeps and is woken. -/
theorem waiters_have_to_wait_iff_two : ∃ (st st' : QueueState (Fin 2))
    (tr : List (QueueAct (Fin 2) × QueueState (Fin 2))), tr.length = 2 ∧
    ((∀ x ∈ tr, WaitersHaveToWait x.2) ↔
      ((queueSys (Fin 2)).guard RetestHolds).Run st tr st') := by
  have h_init : (queueSys (Fin 2)).init (.start fun _ => 0) := ⟨fun _ => 0, rfl⟩
  have h₁ : (queueSys (Fin 2)).Step (.start fun _ => 0) (.getchar 0) _ := ⟨rfl, rfl⟩
  refine ⟨_, _, _, rfl, waiters_have_to_wait_iff (Fin 2) h_init
    (.cons h₁ (.cons (a := .keyboard 7) ⟨?_, rfl⟩ (.nil _)))⟩
  decide

/-- Two consumers: the second is woken from the lock after the first has returned
the only byte, another byte is put while it is on its way, and it falls asleep in
`queue_wait` beside that byte. -/
theorem waiter_beside_data :
    ¬ ∀ st : QueueState (Fin 2), (queueSys (Fin 2)).Reachable st → WaitersHaveToWait st := by
  intro h_all
  have h := Machine.Reachable.play (M := queueSys (Fin 2)) (.init ⟨fun _ => 0, rfl⟩)
    [.getchar 0, .getchar 1, .keyboard 7, .resume 0, .keyboard 9, .resume 1] rfl
  have h_empty := (h_all _ h).1 (by decide)
  exact absurd h_empty (by decide)

end ToiletOS
