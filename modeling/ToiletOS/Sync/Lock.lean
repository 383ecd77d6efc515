import ToiletOS.Sync.LockSafety
import Mathlib.Logic.Relation

/-!
# The lock with interrupts disabled

The queue calls `lock_acquire` and `lock_release` with interrupts disabled, so
they run without interruption up to the point where `semaphore_down` sleeps.
`lockAcquire` and `lockRelease` are the two functions in this setting, one call or
one pass at a time, and `acquire_alone`, `release_alone` connect them with the
steps of `Sync/LockSys.lean`: they compute what the thread does there when nobody
else moves.

A lock that is never nested is `freeLock ws` or `heldLock t ws`, and the operations
take one of these to another. The proofs about the queue use only these equations.
-/

namespace ToiletOS

variable {T : Type} [DecidableEq T]

/-- `lock_acquire` by a thread that does not hold the lock, from a pass of
`semaphore_down` on. The flag says whether it got the lock; if not, it sleeps in
the semaphore and makes the next pass when it is woken. -/
def lockAcquireDown (cur : T) (status : T → TaskStatus) (plock : Lock T) :
    Except Assertion (Bool × (T → TaskStatus) × Lock T) := do
  let (taken, status, sem) ← semaphoreDown cur status plock.semaphore
  if taken then
    assert (plock.holderRepeatNum = 0) .acquireRepeatZero
    return (true, status, ⟨some cur, sem, 1⟩)
  else
    return (false, status, ⟨plock.holder, sem, plock.holderRepeatNum⟩)

/-- `lock_acquire`. -/
def lockAcquire (cur : T) (status : T → TaskStatus) (plock : Lock T) :
    Except Assertion (Bool × (T → TaskStatus) × Lock T) :=
  if plock.holder ≠ some cur then
    lockAcquireDown cur status plock
  else
    .ok (true, status, ⟨plock.holder, plock.semaphore, plock.holderRepeatNum + 1⟩)

/-- `lock_release`. -/
def lockRelease (cur : T) (status : T → TaskStatus) (plock : Lock T) :
    Except Assertion ((T → TaskStatus) × Lock T) := do
  assert (plock.holder = some cur) .releaseHolder
  if 1 < plock.holderRepeatNum then
    return (status, ⟨plock.holder, plock.semaphore, plock.holderRepeatNum - 1⟩)
  else
    assert (plock.holderRepeatNum = 1) .releaseRepeatOne
    let (status, sem) ← semaphoreUp status plock.semaphore
    return (status, ⟨none, sem, 0⟩)

/-! ### A lock that is not nested -/

/-- A lock that nobody holds, with `ws` still in its semaphore. -/
def freeLock (ws : List T) : Lock T := ⟨none, ⟨1, ws⟩, 0⟩

/-- A lock that `t` holds once, with `ws` waiting for it. -/
def heldLock (t : T) (ws : List T) : Lock T := ⟨some t, ⟨0, ws⟩, 1⟩

section

variable {cur : T} {status : T → TaskStatus} {ws : List T}

omit [DecidableEq T] in
theorem lockInit_eq : (lockInit : Lock T) = freeLock [] := rfl

theorem lockAcquireDown_free :
    lockAcquireDown cur status (freeLock ws) = .ok (true, status, heldLock cur ws) := by
  rw [lockAcquireDown, freeLock, semaphoreDown_free cur status rfl]
  rfl

theorem lockAcquireDown_held {t : T} (h_free : cur ∉ ws) :
    lockAcquireDown cur status (heldLock t ws)
      = .ok (false, Function.update status cur .blocked, heldLock t (ws ++ [cur])) := by
  rw [lockAcquireDown, heldLock, semaphoreDown_taken status rfl h_free]
  rfl

theorem lockAcquire_free :
    lockAcquire cur status (freeLock ws) = .ok (true, status, heldLock cur ws) :=
  lockAcquireDown_free

theorem lockAcquire_held {t : T} (h_ne : t ≠ cur) (h_free : cur ∉ ws) :
    lockAcquire cur status (heldLock t ws)
      = .ok (false, Function.update status cur .blocked, heldLock t (ws ++ [cur])) := by
  rw [lockAcquire, if_pos (by simpa [heldLock] using h_ne)]
  exact lockAcquireDown_held h_free

theorem lockRelease_nil :
    lockRelease cur status (heldLock cur []) = .ok (status, freeLock []) := by
  rw [lockRelease, heldLock, assert_pos rfl, ok_bind, if_neg (by simp), assert_pos rfl, ok_bind,
    semaphoreUp_nil status rfl rfl]
  rfl

theorem lockRelease_cons {w : T} (h_blocked : status w = .blocked) :
    lockRelease cur status (heldLock cur (w :: ws))
      = .ok (Function.update status w .ready, freeLock ws) := by
  rw [lockRelease, heldLock, assert_pos rfl, ok_bind, if_neg (by simp), assert_pos rfl, ok_bind,
    semaphoreUp_cons status rfl rfl h_blocked]
  rfl

/-- `lock_release` with `ws` asleep in the lock: the first of them is woken, and
the others sleep on. -/
theorem lockRelease_tail (h_nodup : ws.Nodup) (h_blocked : ∀ w ∈ ws, status w = .blocked) :
    ∃ status', lockRelease cur status (heldLock cur ws) = .ok (status', freeLock ws.tail) ∧
      ∀ u, status' u = .blocked ↔ status u = .blocked ∧ (u ∈ ws → u ∈ ws.tail) := by
  cases ws with
  | nil => exact ⟨status, lockRelease_nil, by simp⟩
  | cons w ws =>
    refine ⟨_, lockRelease_cons (h_blocked w List.mem_cons_self), fun u => ?_⟩
    by_cases h_u : u = w
    · subst h_u; simp [(List.nodup_cons.mp h_nodup).1]
    · simp [h_u]

end

/-! ### The steps of one thread -/

namespace LockState

/-- Thread `t` moves on while nobody else does. -/
abbrev Alone (t : T) : LockState T → LockState T → Prop :=
  Relation.ReflTransGen fun s s' => s.run t = .ok s'

/-- A pass of `lock_acquire` is what the thread's steps do. -/
theorem acquireDown_alone {s : LockState T} {t : T} (h_pc : s.pc t = .down) {taken : Bool}
    {status : T → TaskStatus} {lock : Lock T}
    (h : lockAcquireDown t s.status s.lock = .ok (taken, status, lock)) :
    ∃ s', Alone t s s' ∧ s'.status = status ∧ s'.lock = lock ∧
      s'.pc t = if taken then .user else .down := by
  rw [lockAcquireDown] at h
  cases h_down : semaphoreDown t s.status s.lock.semaphore with
  | error e =>
    rw [h_down] at h
    cases h
  | ok res =>
    obtain ⟨flag, status₁, sem⟩ := res
    rw [h_down] at h
    -- `semaphore_down` is one step of the thread
    have h_run : s.run t = .ok (if flag then (s.setSemaphore status₁ sem).goto t .setHolder
        else s.setSemaphore status₁ sem) := by
      rw [run, h_pc]
      dsimp only
      rw [h_down]
      rfl
    cases flag with
    | false =>
      cases h
      -- the semaphore was not free: the thread stays in front of it
      exact ⟨s.setSemaphore status sem, .single h_run, rfl, rfl, h_pc⟩
    | true =>
      by_cases h_zero : s.lock.holderRepeatNum = 0
      · have h_ok : (Except.ok (true, status₁, (⟨some t, sem, 1⟩ : Lock T)) :
            Except Assertion _) = .ok (taken, status, lock) := by
          rw [← h]
          show _ = (assert (s.lock.holderRepeatNum = 0) _ >>= _)
          rw [assert_pos h_zero]
          rfl
        cases h_ok
        -- the unit is taken, and the fields of the lock are set one after another
        set s₁ := (s.setSemaphore status sem).goto t .setHolder with hs₁
        set s₂ := (s₁.setHolder (some t)).goto t .assertRepeatZero with hs₂
        set s₃ := s₂.goto t .setRepeat with hs₃
        have h₂ : s₁.run t = .ok s₂ := by rw [run, hs₁, goto_pc_self]
        have h₃ : s₂.run t = .ok s₃ := by
          rw [run, hs₂, goto_pc_self]
          show assert (s.lock.holderRepeatNum = 0) _ >>= _ = _
          rw [assert_pos h_zero]
          rfl
        have h₄ : s₃.run t = .ok ((s₃.setRepeat t 1 (s₃.depth t + 1)).goto t .user) := by
          rw [run, hs₃, goto_pc_self]
        exact ⟨(s₃.setRepeat t 1 (s₃.depth t + 1)).goto t .user,
          .head (b := s₁) h_run (.head h₂ (.head h₃ (.single h₄))), rfl, rfl, goto_pc_self ..⟩
      · -- the assertion of `lock_acquire` would have stopped the call
        have h_err : (Except.error .acquireRepeatZero : Except Assertion _) =
            .ok (taken, status, lock) := by
          rw [← h]
          show _ = (assert (s.lock.holderRepeatNum = 0) _ >>= _)
          rw [assert_neg h_zero]
          rfl
        cases h_err

/-- `lock_acquire` is what the thread's steps do. -/
theorem acquire_alone {s : LockState T} {t : T} {taken : Bool} {status : T → TaskStatus}
    {lock : Lock T} (h : lockAcquire t s.status s.lock = .ok (taken, status, lock)) :
    ∃ s', Alone t (s.goto t .testHolder) s' ∧ s'.status = status ∧ s'.lock = lock ∧
      s'.pc t = if taken then .user else .down := by
  rw [lockAcquire] at h
  by_cases h_holder : s.lock.holder ≠ some t
  · have h₁ : (s.goto t .testHolder).run t = .ok ((s.goto t .testHolder).goto t .down) := by
      rw [run, goto_pc_self]
      exact congrArg _ (if_pos h_holder)
    rw [if_pos h_holder] at h
    obtain ⟨s', h_alone, h_rest⟩ :=
      acquireDown_alone (s := (s.goto t .testHolder).goto t .down) (goto_pc_self ..) h
    exact ⟨s', .head h₁ h_alone, h_rest⟩
  · rw [if_neg h_holder] at h
    cases h
    -- the holder only counts one more
    have h₁ : (s.goto t .testHolder).run t = .ok ((s.goto t .testHolder).goto t .incLoad) := by
      rw [run, goto_pc_self]
      exact congrArg _ (if_neg h_holder)
    set s₁ := (s.goto t .testHolder).goto t .incLoad with hs₁
    set s₂ := s₁.goto t (.incStore s.lock.holderRepeatNum) with hs₂
    have h₂ : s₁.run t = .ok s₂ := by
      rw [run, hs₁, goto_pc_self]
      rfl
    have h₃ : s₂.run t = .ok ((s₂.setRepeat t (s.lock.holderRepeatNum + 1)
        (s₂.depth t + 1)).goto t .user) := by
      rw [run, hs₂, goto_pc_self]
    exact ⟨_, .head h₁ (.head h₂ (.single h₃)), rfl, rfl, goto_pc_self ..⟩

/-- An inner release only counts down. -/
theorem releaseInner_alone {s : LockState T} {t : T} (h_pc : s.pc t = .testRepeat)
    (h_nested : 1 < s.lock.holderRepeatNum) :
    ∃ s', Alone t s s' ∧ s'.status = s.status ∧
      s'.lock = { s.lock with holderRepeatNum := s.lock.holderRepeatNum - 1 } ∧
      s'.pc t = .user := by
  set s₁ := s.goto t .decLoad with hs₁
  set s₂ := s₁.goto t (.decStore s.lock.holderRepeatNum) with hs₂
  -- the counter is read and written in two steps
  have h₁ : s.run t = .ok s₁ := by
    rw [run, h_pc]
    exact congrArg _ (if_pos h_nested)
  have h₂ : s₁.run t = .ok s₂ := by
    rw [run, hs₁, goto_pc_self]
    rfl
  have h₃ : s₂.run t = .ok ((s₂.setRepeat t (s.lock.holderRepeatNum - 1)
      (s₂.depth t - 1)).goto t .user) := by
    rw [run, hs₂, goto_pc_self]
  exact ⟨_, .head h₁ (.head h₂ (.single h₃)), rfl, rfl, goto_pc_self ..⟩

/-- The outermost release clears the holder and the count before `semaphore_up`. -/
theorem releaseOuter_alone {s : LockState T} {t : T} (h_pc : s.pc t = .testRepeat)
    (h_one : s.lock.holderRepeatNum = 1) {status : T → TaskStatus} {sem : Semaphore T}
    (h_up : semaphoreUp s.status s.lock.semaphore = .ok (status, sem)) :
    ∃ s', Alone t s s' ∧ s'.status = status ∧ s'.lock = ⟨none, sem, 0⟩ ∧ s'.pc t = .user := by
  set s₁ := s.goto t .assertRepeatOne with hs₁
  set s₂ := s₁.goto t .clearHolder with hs₂
  set s₃ := (s₂.setHolder none).goto t .clearRepeat with hs₃
  set s₄ := (s₃.setRepeat t 0 (s₃.depth t - 1)).goto t .up with hs₄
  have h_not : ¬ 1 < s.lock.holderRepeatNum := by
    rw [h_one]
    decide
  have h₁ : s.run t = .ok s₁ := by
    rw [run, h_pc]
    exact congrArg _ (if_neg h_not)
  have h₂ : s₁.run t = .ok s₂ := by
    rw [run, hs₁, goto_pc_self]
    show assert (s.lock.holderRepeatNum = 1) _ >>= _ = _
    rw [assert_pos h_one]
    rfl
  have h₃ : s₂.run t = .ok s₃ := by rw [run, hs₂, goto_pc_self]
  have h₄ : s₃.run t = .ok s₄ := by rw [run, hs₃, goto_pc_self]
  -- only now can another thread take the lock
  have h₅ : s₄.run t = .ok ((s₄.setSemaphore status sem).goto t .user) := by
    rw [run, hs₄, goto_pc_self]
    show semaphoreUp s.status s.lock.semaphore >>= _ = _
    rw [h_up]
    rfl
  exact ⟨_, .head h₁ (.head h₂ (.head h₃ (.head h₄ (.single h₅)))), rfl, rfl, goto_pc_self ..⟩

/-- `lock_release` is what the thread's steps do. -/
theorem release_alone {s : LockState T} {t : T} {status : T → TaskStatus} {lock : Lock T}
    (h : lockRelease t s.status s.lock = .ok (status, lock)) :
    ∃ s', Alone t (s.goto t .assertHolder) s' ∧ s'.status = status ∧ s'.lock = lock ∧
      s'.pc t = .user := by
  rw [lockRelease] at h
  by_cases h_holder : s.lock.holder = some t
  swap
  · rw [assert_neg h_holder] at h
    cases h
  rw [assert_pos h_holder, ok_bind] at h
  set s₁ := (s.goto t .assertHolder).goto t .testRepeat with hs₁
  have h_pc : s₁.pc t = .testRepeat := goto_pc_self ..
  have h₁ : (s.goto t .assertHolder).run t = .ok s₁ := by
    rw [run, goto_pc_self]
    show assert (s.lock.holder = some t) _ >>= _ = _
    rw [assert_pos h_holder]
    rfl
  by_cases h_nested : 1 < s.lock.holderRepeatNum
  · rw [if_pos h_nested] at h
    cases h
    -- a nested acquisition is given back by counting down
    obtain ⟨s', h_alone, h_rest⟩ := releaseInner_alone h_pc h_nested
    exact ⟨s', .head h₁ h_alone, h_rest⟩
  · rw [if_neg h_nested] at h
    by_cases h_one : s.lock.holderRepeatNum = 1
    swap
    · rw [assert_neg h_one] at h
      cases h
    rw [assert_pos h_one, ok_bind] at h
    cases h_up : semaphoreUp s.status s.lock.semaphore with
    | error e =>
      rw [h_up] at h
      cases h
    | ok res =>
      obtain ⟨status₁, sem⟩ := res
      rw [h_up] at h
      cases h
      obtain ⟨s', h_alone, h_rest⟩ := releaseOuter_alone h_pc h_one h_up
      exact ⟨s', .head h₁ h_alone, h_rest⟩

end LockState

end ToiletOS
