import ToiletOS.Sync.LockSys
import Mathlib.Tactic.NormNum

/-!
# Mutual exclusion of the lock

`lock_acquire` and `lock_release` read and write `holder` and
`holder_repeat_num` outside the interrupt-disabled sections, so a thread can be
preempted between the semaphore operation and the update of the holder on both
sides. What makes this harmless is that the semaphore's unit has a single
**owner** (`LockInv`): the thread that took it in `semaphore_down` and has not
yet reached the `semaphore_up` of its outermost release. The fields of the lock
are written by the owner alone, so at each of its points they are known
(`Owns`). Every other thread is at a point where it has read nothing it will
still rely on (`Outside`), and the only comparison it makes, `holder != cur`,
comes out the same whatever the owner is doing.

`lock_mutual_exclusion` is for runs that never nest the lock `2 ^ 32` deep
(`NestBound`). The bound is the range of the `uint32_t` counter: at depth
`2 ^ 32` the counter is back at `0` (`lock_nest_wraps`).
-/

namespace ToiletOS

variable {T : Type} [DecidableEq T]

/-! ### The invariant -/

/-- What the owner `t` of the unit knows about the lock's fields, and about its
own nesting depth `d`, at each of its points. -/
def Owns (t : T) (holder : Option T) (rep : BitVec 32) (d : ℕ) : LockPc → Prop
  | .user | .testHolder | .incLoad | .assertHolder | .testRepeat =>
    0 < d ∧ holder = some t ∧ rep.toNat = d
  | .incStore v => 0 < d ∧ holder = some t ∧ rep.toNat = d ∧ v = rep
  | .down => False
  | .setHolder => d = 0 ∧ holder = none ∧ rep = 0
  | .assertRepeatZero | .setRepeat => d = 0 ∧ holder = some t ∧ rep = 0
  | .decLoad => 1 < d ∧ holder = some t ∧ rep.toNat = d
  | .decStore v => 1 < d ∧ holder = some t ∧ rep.toNat = d ∧ v = rep
  | .assertRepeatOne | .clearHolder => d = 1 ∧ holder = some t ∧ rep = 1
  | .clearRepeat => d = 1 ∧ holder = none ∧ rep = 1
  | .up => d = 0 ∧ holder = none ∧ rep = 0

omit [DecidableEq T] in
/-- The holder is the owner or, around the semaphore operations, nobody. -/
theorem Owns.holder {t : T} {holder : Option T} {rep : BitVec 32} {d : ℕ} {p : LockPc}
    (h : Owns t holder rep d p) : holder = none ∨ holder = some t := by
  cases p with
  | down => exact h.elim
  | setHolder | clearRepeat | up => exact Or.inl h.2.1
  | incStore v | decStore v => exact Or.inr h.2.1
  | _ => exact Or.inr h.2.1

/-- A thread that does not own the unit: outside every call, or in a
`lock_acquire` that has not taken the unit yet. -/
def Outside (s : LockState T) (t : T) : Prop :=
  s.depth t = 0 ∧ (s.pc t = .user ∨ s.pc t = .testHolder ∨ s.pc t = .down)

/-- The invariant, with the owner of the semaphore's unit. -/
structure LockInv (s : LockState T) (o : Option T) : Prop where
  nodup : s.lock.semaphore.waiters.Nodup
  /-- Exactly the waiters are asleep. -/
  asleep : ∀ t, s.status t = .blocked ↔ t ∈ s.lock.semaphore.waiters
  waiting : ∀ t ∈ s.lock.semaphore.waiters, s.pc t = .down
  outside : ∀ t, o ≠ some t → Outside s t
  /-- Without an owner the lock is as `lock_init` leaves it. -/
  free : o = none →
    s.lock.semaphore.value = 1 ∧ s.lock.holder = none ∧ s.lock.holderRepeatNum = 0
  owned : ∀ t, o = some t → s.lock.semaphore.value = 0 ∧
    Owns t s.lock.holder s.lock.holderRepeatNum (s.depth t) (s.pc t)

omit [DecidableEq T] in
theorem LockInv.initial : LockInv (⟨fun _ => .ready, lockInit, fun _ => .user, fun _ => 0⟩ :
    LockState T) none where
  nodup := List.nodup_nil
  asleep := by simp [lockInit]
  waiting := by simp [lockInit]
  outside := fun _ _ => ⟨rfl, Or.inl rfl⟩
  free := fun _ => ⟨rfl, rfl, rfl⟩
  owned := by simp

/-! ### Moving one thread -/

namespace LockState

@[simp] theorem goto_status (s : LockState T) (t : T) (p : LockPc) :
    (s.goto t p).status = s.status := rfl

@[simp] theorem goto_lock (s : LockState T) (t : T) (p : LockPc) :
    (s.goto t p).lock = s.lock := rfl

@[simp] theorem goto_depth (s : LockState T) (t : T) (p : LockPc) :
    (s.goto t p).depth = s.depth := rfl

omit [DecidableEq T] in
@[simp] theorem setSemaphore_status (s : LockState T) (status : T → TaskStatus)
    (sem : Semaphore T) : (s.setSemaphore status sem).status = status := rfl

omit [DecidableEq T] in
@[simp] theorem setSemaphore_semaphore (s : LockState T) (status : T → TaskStatus)
    (sem : Semaphore T) : (s.setSemaphore status sem).lock.semaphore = sem := rfl

@[simp] theorem goto_pc_self (s : LockState T) (t : T) (p : LockPc) :
    (s.goto t p).pc t = p := Function.update_self ..

theorem goto_pc_of_ne (s : LockState T) {t u : T} (p : LockPc) (h : u ≠ t) :
    (s.goto t p).pc u = s.pc u := Function.update_of_ne h ..

end LockState

/-- The owner moves, and the lock's fields and its own depth change as its new
point says. Nothing of this is visible to the other threads. -/
theorem LockInv.move_owner {s : LockState T} {t : T} (hI : LockInv s (some t))
    {h : Option T} {r : BitVec 32} {d : ℕ} {p : LockPc} (hO : Owns t h r d p) :
    LockInv { s with
      lock := ⟨h, s.lock.semaphore, r⟩
      pc := Function.update s.pc t p
      depth := Function.update s.depth t d } (some t) where
  nodup := hI.nodup
  asleep := hI.asleep
  waiting := by
    intro u hu
    -- the owner is not among those that wait
    have h_ne : u ≠ t := by
      rintro rfl
      have h_down := hI.waiting u hu
      have h_own := (hI.owned u rfl).2
      rw [h_down] at h_own
      exact h_own
    change Function.update s.pc t p u = .down
    rw [Function.update_of_ne h_ne]
    exact hI.waiting u hu
  outside := by
    intro u hu
    have h_ne : u ≠ t := fun e => hu (by rw [e])
    have h_out := hI.outside u hu
    unfold Outside at h_out ⊢
    simpa only [Function.update_of_ne h_ne] using h_out
  free := by simp
  owned := by
    rintro u hu
    obtain rfl : t = u := Option.some.inj hu
    refine ⟨(hI.owned t rfl).1, ?_⟩
    simpa using hO

/-- The owner moves without touching the lock. -/
theorem LockInv.goto_owner {s : LockState T} {t : T} (hI : LockInv s (some t)) {p : LockPc}
    (hO : Owns t s.lock.holder s.lock.holderRepeatNum (s.depth t) p) :
    LockInv (s.goto t p) (some t) := by
  have h := hI.move_owner hO
  rwa [Function.update_eq_self t s.depth] at h

/-- A thread outside moves to another point outside. -/
theorem LockInv.goto_outside {s : LockState T} {o : Option T} {t : T} (hI : LockInv s o)
    (h_ne : o ≠ some t) (h_awake : t ∉ s.lock.semaphore.waiters) {p : LockPc}
    (hp : p = .user ∨ p = .testHolder ∨ p = .down) : LockInv (s.goto t p) o where
  nodup := hI.nodup
  asleep := hI.asleep
  waiting := by
    intro u hu
    -- the thread is not asleep in the lock
    have h_ne' : u ≠ t := fun e => h_awake (by rwa [e] at hu)
    rw [LockState.goto_pc_of_ne s p h_ne']
    exact hI.waiting u hu
  outside := by
    intro u hu
    by_cases h_eq : u = t
    · subst h_eq
      exact ⟨(hI.outside u hu).1, by simpa using hp⟩
    · have h_out := hI.outside u hu
      unfold Outside at h_out ⊢
      rwa [LockState.goto_pc_of_ne s p h_eq]
  free := hI.free
  owned := by
    intro u hu
    have h_eq : u ≠ t := fun e => h_ne (by rw [hu, e])
    rw [LockState.goto_pc_of_ne s p h_eq]
    exact hI.owned u hu

/-! ### The semaphore operations -/

/-- A pass of `semaphore_down` that finds the unit makes the thread its owner. -/
theorem LockInv.take {s : LockState T} {t : T} (hI : LockInv s none)
    (h_awake : t ∉ s.lock.semaphore.waiters) :
    LockInv ((s.setSemaphore s.status ⟨0, s.lock.semaphore.waiters⟩).goto t .setHolder)
      (some t) where
  nodup := hI.nodup
  asleep := hI.asleep
  waiting := by
    intro u hu
    have h_ne : u ≠ t := fun e => h_awake (by rwa [e] at hu)
    rw [LockState.goto_pc_of_ne _ _ h_ne]
    exact hI.waiting u hu
  outside := by
    intro u hu
    have h_ne : u ≠ t := fun e => hu (by rw [e])
    have h_out := hI.outside u (by simp)
    unfold Outside at h_out ⊢
    rwa [LockState.goto_pc_of_ne _ _ h_ne]
  free := by simp
  owned := by
    intro u hu
    obtain rfl : t = u := Option.some.inj hu
    obtain ⟨-, h_holder, h_rep⟩ := hI.free rfl
    refine ⟨rfl, ?_⟩
    rw [LockState.goto_pc_self]
    exact ⟨(hI.outside t (by simp)).1, h_holder, h_rep⟩

/-- A pass that does not find the unit puts the thread to sleep. -/
theorem LockInv.sleep {s : LockState T} {t o : T} (hI : LockInv s (some o))
    (h_pc : s.pc t = .down) (h_awake : t ∉ s.lock.semaphore.waiters) :
    LockInv (s.setSemaphore (Function.update s.status t .blocked)
      ⟨0, s.lock.semaphore.waiters ++ [t]⟩) (some o) where
  nodup := by
    refine List.nodup_append.mpr ⟨hI.nodup, List.nodup_singleton t, ?_⟩
    rintro a ha b hb rfl
    exact h_awake (List.mem_singleton.mp hb ▸ ha)
  asleep := by
    intro u
    change Function.update s.status t .blocked u = .blocked ↔
      u ∈ s.lock.semaphore.waiters ++ [t]
    by_cases h_eq : u = t
    · subst h_eq; simp
    · rw [Function.update_of_ne h_eq, hI.asleep u]
      simp [h_eq]
  waiting := by
    intro u hu
    -- the thread joins the waiters where `semaphore_down` has it
    rcases List.mem_append.mp hu with hu | hu
    · exact hI.waiting u hu
    · exact List.mem_singleton.mp hu ▸ h_pc
  outside := hI.outside
  free := by simp
  owned := fun u hu => ⟨rfl, (hI.owned u hu).2⟩

/-- The owner's `semaphore_up` gives the unit back; whoever is woken is not
handed the unit but tests for it again. -/
theorem LockInv.up {s : LockState T} {t : T} (hI : LockInv s (some t)) (h_pc : s.pc t = .up) :
    ∃ status sem, semaphoreUp s.status s.lock.semaphore = .ok (status, sem) ∧
      LockInv ((s.setSemaphore status sem).goto t .user) none := by
  obtain ⟨h_value, h_own⟩ := hI.owned t rfl
  rw [h_pc] at h_own
  obtain ⟨h_depth, h_holder, h_rep⟩ := h_own
  -- with the unit given back, every thread is outside, the old owner too
  have h_outside : ∀ u : T, Outside (s.goto t .user) u := by
    intro u
    by_cases h_eq : u = t
    · subst h_eq; exact ⟨h_depth, Or.inl (by simp)⟩
    · have h_out := hI.outside u fun e => h_eq (Option.some.inj e).symm
      unfold Outside at h_out ⊢
      rwa [LockState.goto_pc_of_ne s _ h_eq]
  have h_waiting : ∀ u ∈ s.lock.semaphore.waiters, (s.goto t .user).pc u = .down := by
    intro u hu
    have h_ne : u ≠ t := by
      rintro rfl
      rw [hI.waiting u hu] at h_pc
      cases h_pc
    rw [LockState.goto_pc_of_ne s _ h_ne]
    exact hI.waiting u hu
  cases hw : s.lock.semaphore.waiters with
  | nil =>
    -- nobody waits
    refine ⟨_, _, semaphoreUp_nil s.status h_value hw, List.nodup_nil, ?_, ?_,
      fun u _ => h_outside u, fun _ => ⟨rfl, h_holder, h_rep⟩, by simp⟩
    · intro u
      simpa [hw] using hI.asleep u
    · exact fun u hu => absurd hu List.not_mem_nil
  | cons w ws =>
    -- the first thread that waits is woken, and leaves the list
    have h_nodup := hI.nodup
    rw [hw] at h_nodup
    obtain ⟨h_notMem, h_nodup⟩ := List.nodup_cons.mp h_nodup
    have h_asleep : s.status w = .blocked := (hI.asleep w).mpr (by simp [hw])
    refine ⟨_, _, semaphoreUp_cons s.status h_value hw h_asleep, h_nodup, ?_, ?_,
      fun u _ => h_outside u, fun _ => ⟨rfl, h_holder, h_rep⟩, by simp⟩
    · intro u
      change Function.update s.status w .ready u = .blocked ↔ u ∈ ws
      by_cases h_eq : u = w
      · subst h_eq; simp [h_notMem]
      · rw [Function.update_of_ne h_eq, hI.asleep u, hw]
        simp [h_eq]
    · exact fun u hu => h_waiting u (by rw [hw]; exact List.mem_cons_of_mem w hu)

/-! ### Every step keeps the invariant -/

/-- A step of a thread that does not own the unit. -/
theorem LockInv.run_outside {s : LockState T} {o : Option T} {t : T} (hI : LockInv s o)
    (h_ne : o ≠ some t) (h_user : s.pc t ≠ .user) (h_awake : t ∉ s.lock.semaphore.waiters) :
    ∃ s' o', s.run t = .ok s' ∧ LockInv s' o' := by
  rcases (hI.outside t h_ne).2 with h_pc | h_pc | h_pc
  · exact absurd h_pc h_user
  · -- the holder is another thread or nobody, whatever the owner is doing
    have h_holder : s.lock.holder ≠ some t := by
      cases ho : o with
      | none => rw [(hI.free ho).2.1]; simp
      | some u =>
        rcases (hI.owned u ho).2.holder with h | h
        · rw [h]; simp
        · exact fun e => h_ne (by rw [ho, ← h, e])
    exact ⟨_, o, by simp [LockState.run, h_pc, h_holder],
      hI.goto_outside h_ne h_awake (Or.inr (Or.inr rfl))⟩
  · cases ho : o with
    | none =>
      subst ho
      have h_down := semaphoreDown_free t s.status (hI.free rfl).1
      exact ⟨_, some t, by simp [LockState.run, h_pc, h_down], hI.take h_awake⟩
    | some u =>
      subst ho
      have h_down := semaphoreDown_taken s.status (hI.owned u rfl).1 h_awake
      exact ⟨_, some u, by simp [LockState.run, h_pc, h_down], hI.sleep h_pc h_awake⟩

/-- A step of the owner, which does not wrap the nesting counter. -/
theorem LockInv.run_owner {s : LockState T} {t : T} (hI : LockInv s (some t))
    (h_user : s.pc t ≠ .user) (h_nest : NestBound s (.run t)) :
    ∃ s' o', s.run t = .ok s' ∧ LockInv s' o' := by
  have h_own := (hI.owned t rfl).2
  unfold LockState.run
  cases h_pc : s.pc t with
  | user => exact absurd h_pc h_user
  | testHolder =>
    rw [h_pc] at h_own
    exact ⟨_, some t, by simp [h_own.2.1], hI.goto_owner (p := .incLoad) h_own⟩
  | down =>
    rw [h_pc] at h_own
    exact h_own.elim
  | setHolder =>
    rw [h_pc] at h_own
    have h := hI.move_owner (p := .assertRepeatZero) (h := some t) (d := s.depth t)
      (r := s.lock.holderRepeatNum) ⟨h_own.1, rfl, h_own.2.2⟩
    rw [Function.update_eq_self t s.depth] at h
    exact ⟨_, some t, rfl, h⟩
  | assertRepeatZero =>
    rw [h_pc] at h_own
    exact ⟨_, some t, by simp [h_own.2.2], hI.goto_owner (p := .setRepeat) h_own⟩
  | setRepeat =>
    rw [h_pc] at h_own
    refine ⟨_, some t, rfl, hI.move_owner (p := .user) ⟨Nat.succ_pos _, h_own.2.1, ?_⟩⟩
    rw [h_own.1]
    rfl
  | incLoad =>
    rw [h_pc] at h_own
    exact ⟨_, some t, rfl, hI.goto_owner ⟨h_own.1, h_own.2.1, h_own.2.2, rfl⟩⟩
  | incStore v =>
    rw [h_pc] at h_own
    obtain ⟨h_depth, h_holder, h_rep, rfl⟩ := h_own
    -- the bound on the nesting keeps the counter from wrapping
    have h_lt : s.depth t + 1 < 2 ^ 32 := h_nest (by rw [h_pc]; rfl)
    refine ⟨_, some t, rfl, hI.move_owner (p := .user) ⟨Nat.succ_pos _, h_holder, ?_⟩⟩
    rw [BitVec.toNat_add, h_rep]
    exact Nat.mod_eq_of_lt h_lt
  | assertHolder =>
    rw [h_pc] at h_own
    exact ⟨_, some t, by simp [h_own.2.1], hI.goto_owner (p := .testRepeat) h_own⟩
  | testRepeat =>
    rw [h_pc] at h_own
    obtain ⟨h_depth, h_holder, h_rep⟩ := h_own
    refine ⟨_, some t, rfl, ?_⟩
    by_cases h_one : 1 < s.lock.holderRepeatNum
    · -- the counter is the depth, so the branch is that of a nested acquisition
      have h_gt : 1 < s.depth t := h_rep ▸ (BitVec.lt_def.mp h_one)
      rw [if_pos h_one]
      exact hI.goto_owner ⟨h_gt, h_holder, h_rep⟩
    · have h_le : s.depth t ≤ 1 := by
        rw [← h_rep]
        exact Nat.le_of_not_lt fun h => h_one (BitVec.lt_def.mpr h)
      have h_eq : s.depth t = 1 := by omega
      rw [if_neg h_one]
      refine hI.goto_owner ⟨h_eq, h_holder, BitVec.eq_of_toNat_eq ?_⟩
      rw [h_rep, h_eq]
      rfl
  | decLoad =>
    rw [h_pc] at h_own
    exact ⟨_, some t, rfl, hI.goto_owner ⟨h_own.1, h_own.2.1, h_own.2.2, rfl⟩⟩
  | decStore v =>
    rw [h_pc] at h_own
    obtain ⟨h_depth, h_holder, h_rep, rfl⟩ := h_own
    refine ⟨_, some t, rfl, hI.move_owner (p := .user) ⟨by omega, h_holder, ?_⟩⟩
    have h_lt := s.lock.holderRepeatNum.isLt
    rw [BitVec.toNat_sub_of_le (by rw [BitVec.le_def, h_rep]; exact h_depth.le), h_rep]
    rfl
  | assertRepeatOne =>
    rw [h_pc] at h_own
    exact ⟨_, some t, by simp [h_own.2.2], hI.goto_owner (p := .clearHolder) h_own⟩
  | clearHolder =>
    rw [h_pc] at h_own
    -- the holder is cleared first, while the thread still owns the unit
    have h := hI.move_owner (p := .clearRepeat) (h := none) (d := s.depth t)
      (r := s.lock.holderRepeatNum) ⟨h_own.1, rfl, h_own.2.2⟩
    rw [Function.update_eq_self t s.depth] at h
    exact ⟨_, some t, rfl, h⟩
  | clearRepeat =>
    rw [h_pc] at h_own
    refine ⟨_, some t, rfl, hI.move_owner (p := .up) ⟨?_, h_own.2.1, rfl⟩⟩
    rw [h_own.1]
  | up =>
    obtain ⟨status, sem, h_up, h_inv⟩ := hI.up h_pc
    exact ⟨_, none, by simp [h_up], h_inv⟩

/-- **Step lemma.** An enabled step that does not nest the lock too deep runs
through, and keeps the invariant for some owner. -/
theorem LockInv.step {s : LockState T} {o : Option T} {a : LockAct T} (hI : LockInv s o)
    (h_en : (lockSys T).enabled s a) (h_nest : NestBound s a) :
    ∃ s' o', (lockSys T).exec s a = .ok s' ∧ LockInv s' o' := by
  -- a thread in its own code waits for nothing
  have h_user : ∀ t, s.pc t = .user → t ∉ s.lock.semaphore.waiters := by
    intro t h_pc h_mem
    rw [hI.waiting t h_mem] at h_pc
    cases h_pc
  cases a with
  | acquire t =>
    refine ⟨_, o, rfl, ?_⟩
    by_cases ho : o = some t
    · subst ho
      have h_own := (hI.owned t rfl).2
      rw [show s.pc t = .user from h_en] at h_own
      exact hI.goto_owner h_own
    · exact hI.goto_outside ho (h_user t h_en) (Or.inr (Or.inl rfl))
  | release t =>
    -- only an owner has a positive depth
    have ho : o = some t := by
      by_contra h_ne
      exact absurd (hI.outside t h_ne).1 h_en.2.ne'
    subst ho
    have h_own := (hI.owned t rfl).2
    rw [h_en.1] at h_own
    exact ⟨_, some t, rfl, hI.goto_owner h_own⟩
  | run t =>
    by_cases ho : o = some t
    · subst ho
      exact hI.run_owner h_en.1 h_nest
    · exact hI.run_outside ho h_en.1 fun h_mem => h_en.2 ((hI.asleep t).mpr h_mem)

/-- **Run lemma.** The invariant holds along every run within the nesting
bound. -/
theorem lockInv_of_reachable {s : LockState T}
    (h : ((lockSys T).guard NestBound).Reachable s) : ∃ o, LockInv s o := by
  refine Machine.Reachable.invariant (P := fun s => ∃ o, LockInv s o) ?_ ?_ h
  · rintro _ rfl
    exact ⟨none, LockInv.initial⟩
  · rintro s a s' ⟨o, hI⟩ ⟨⟨h_en, h_nest⟩, h_exec⟩
    obtain ⟨s₁, o', h_exec', hI'⟩ := hI.step h_en h_nest
    obtain rfl : s₁ = s' := Except.ok.inj (h_exec'.symm.trans h_exec)
    exact ⟨o', hI'⟩

/-! ### Mutual exclusion -/

/-- A thread in its critical section owns the unit, and the counter is its
nesting depth. -/
theorem LockInv.inCritical {s : LockState T} {o : Option T} {t : T} (hI : LockInv s o)
    (h : s.InCritical t) : o = some t ∧ s.lock.holderRepeatNum.toNat = s.depth t := by
  obtain ⟨h_depth, h_not⟩ := h
  have ho : o = some t := by
    by_contra h_ne
    exact absurd (hI.outside t h_ne).1 h_depth.ne'
  refine ⟨ho, ?_⟩
  have h_own := (hI.owned t ho).2
  cases h_pc : s.pc t with
  | down => rw [h_pc] at h_own; exact h_own.elim
  | setHolder | assertRepeatZero | setRepeat | up =>
    -- the owner at these points has depth `0`
    rw [h_pc] at h_own
    exact absurd h_own.1 h_depth.ne'
  | assertRepeatOne | clearHolder | clearRepeat =>
    -- the outermost release has started
    rw [h_pc] at h_own
    exact absurd ⟨h_own.1, by rw [h_pc]; rfl⟩ h_not
  | incStore v | decStore v => rw [h_pc] at h_own; exact h_own.2.2.1
  | user | testHolder | incLoad | assertHolder | testRepeat | decLoad =>
    rw [h_pc] at h_own
    exact h_own.2.2

/-- What the lock promises in a state: one thread at most in the critical
section, the counter equal to its nesting depth, and no `ASSERT` about to
fail. -/
def LockSafe (s : LockState T) : Prop :=
  (∀ t u, s.InCritical t → s.InCritical u → t = u) ∧
  (∀ t, s.InCritical t → s.lock.holderRepeatNum.toNat = s.depth t) ∧
  ∀ a e, ¬ (lockSys T).Faults s a e

/-- **Mutual exclusion.** Along every run that keeps the nesting depth within
the counter's range, `LockSafe` holds. -/
theorem lock_mutual_exclusion (T : Type) [DecidableEq T] {s : LockState T}
    (h : ((lockSys T).guard NestBound).Reachable s) : LockSafe s := by
  obtain ⟨o, hI⟩ := lockInv_of_reachable h
  refine ⟨fun t u ht hu => ?_, fun t ht => (hI.inCritical ht).2, ?_⟩
  · exact Option.some.inj ((hI.inCritical ht).1.symm.trans (hI.inCritical hu).1)
  · rintro a e ⟨h_en, h_exec⟩
    by_cases h_nest : NestBound s a
    · obtain ⟨s', o', h_ok, -⟩ := hI.step h_en h_nest
      rw [h_ok] at h_exec
      cases h_exec
    · -- a step that exceeds the bound is the plain write of `holder_repeat_num++`
      obtain ⟨t, rfl⟩ : ∃ t, a = .run t := by
        cases a with
        | run t => exact ⟨t, rfl⟩
        | acquire t | release t => exact absurd trivial h_nest
      obtain ⟨h_inc, -⟩ := Classical.not_imp.mp h_nest
      change s.run t = _ at h_exec
      unfold LockState.run at h_exec
      cases h_pc : s.pc t with
      | incStore v => rw [h_pc] at h_exec; cases h_exec
      | _ => rw [h_pc] at h_inc; cases h_inc

/-- Two threads: the first is in its critical section while the second has run
into the taken semaphore and sleeps. -/
theorem lock_mutual_exclusion_two :
    ∃ s : LockState (Fin 2), s.InCritical 0 ∧ s.status 1 = .blocked ∧ LockSafe s := by
  have h := Machine.Reachable.play (M := (lockSys (Fin 2)).guard NestBound) (.init rfl)
    (([.acquire 0, .acquire 1] ++ List.replicate 5 (.run 0)) ++ List.replicate 2 (.run 1))
    rfl
  exact ⟨_, ⟨by decide, by decide⟩, by decide, lock_mutual_exclusion (Fin 2) h⟩

/-! ### The range of the counter -/

theorem lock_run_reachable {s s' : LockState T} {t : T} (h : (lockSys T).Reachable s)
    (h_pc : s.pc t ≠ .user) (h_status : s.status t ≠ .blocked) (h_run : s.run t = .ok s') :
    (lockSys T).Reachable s' :=
  h.step (a := .run t) ⟨⟨h_pc, h_status⟩, h_run⟩

/-- What one more nested `lock_acquire` does for the thread that holds the lock. -/
theorem lock_nest_once {s : LockState T} {t : T} {n : ℕ} (h : (lockSys T).Reachable s)
    (h_pc : s.pc t = .user) (h_status : s.status t = .ready) (h_holder : s.lock.holder = some t)
    (h_depth : s.depth t = n) (h_rep : s.lock.holderRepeatNum = BitVec.ofNat 32 n) :
    ∃ s', (lockSys T).Reachable s' ∧ s'.pc t = .user ∧ s'.status t = .ready ∧
      s'.lock.holder = some t ∧ s'.depth t = n + 1 ∧
      s'.lock.holderRepeatNum = BitVec.ofNat 32 (n + 1) := by
  -- the four points of a nested `lock_acquire`
  have h₁ : (lockSys T).Reachable (s.goto t .testHolder) := h.step (a := .acquire t) ⟨h_pc, rfl⟩
  have h₂ : (lockSys T).Reachable ((s.goto t .testHolder).goto t .incLoad) :=
    lock_run_reachable h₁ (t := t) (by simp) (by simp [h_status])
      (by simp [LockState.run, h_holder])
  have h₃ := lock_run_reachable h₂ (t := t) (by simp) (by simp [h_status])
    (by simp only [LockState.run, LockState.goto_pc_self]; rfl)
  have h₄ := lock_run_reachable h₃ (t := t) (by simp) (by simp [h_status])
    (by simp only [LockState.run, LockState.goto_pc_self]; rfl)
  refine ⟨_, h₄, by simp, h_status, h_holder, by simp [LockState.setRepeat, h_depth], ?_⟩
  simp [LockState.setRepeat, h_rep, BitVec.ofNat_add]

/-- A thread alone can nest the lock to any depth, and the counter then holds
the depth modulo `2 ^ 32`. -/
theorem lock_nests (n : ℕ) : ∃ s : LockState Unit, (lockSys Unit).Reachable s ∧
    s.pc () = .user ∧ s.status () = .ready ∧ s.lock.holder = some () ∧
    s.depth () = n + 1 ∧ s.lock.holderRepeatNum = BitVec.ofNat 32 (n + 1) := by
  induction n with
  | zero =>
    have h := Machine.Reachable.play (M := lockSys Unit) (.init rfl)
      (.acquire () :: List.replicate 5 (.run ())) rfl
    exact ⟨_, h, rfl, rfl, rfl, rfl, rfl⟩
  | succ n ih =>
    obtain ⟨s, h, h_pc, h_status, h_holder, h_depth, h_rep⟩ := ih
    exact lock_nest_once h h_pc h_status h_holder h_depth h_rep

/-- At depth `2 ^ 32` the counter has wrapped to `0` while the thread is in its
critical section, so without the bound the lock breaks its promise. -/
theorem lock_nest_wraps : ¬ ∀ s : LockState Unit, (lockSys Unit).Reachable s → LockSafe s := by
  intro h_safe
  obtain ⟨s, h, h_pc, -, -, h_depth, h_rep⟩ := lock_nests 4294967295
  have h_in : s.InCritical () := by
    refine ⟨by rw [h_depth]; exact Nat.succ_pos _, ?_⟩
    rw [h_pc]
    exact fun h => Bool.false_ne_true h.2
  have h_eq := (h_safe s h).2.1 () h_in
  rw [h_rep, h_depth, BitVec.toNat_ofNat] at h_eq
  norm_num at h_eq

end ToiletOS
