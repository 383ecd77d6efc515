import ToiletOS.Framework.Monitor
import ToiletOS.Sync.LockSafety
import ToiletOS.Console.CursorDrift

/-!
# One console for all threads

`console_put_str`, `console_put_char` and `console_put_int` (`device/console.c`) print between
`console_acquire` and `console_release`, which take and give back the lock of the console. A thread
may also call these two itself, and print several messages in between.

`consoleSys` has any number of threads that do so, preempted between any two steps of the lock and
of the printing. What a message is printed with is a list of steps on a shared state, for each
thread its own, so that every way to cut `put_str` into steps is covered. The handler of the
keyboard echoes characters without the lock, at any time.

The lock makes the console a monitor (`console_serialised`): what the threads print comes in whole
critical sections. If nothing is echoed, then the screen is that of the messages printed one after
another, whatever the steps are (`console_screen`).
-/

namespace ToiletOS

/-! ### The machine -/

/-- Where a thread stands in `console.c`. -/
inductive ConsolePhase (C F : Type)
  /-- In its own code. -/
  | own
  /-- In `console_acquire`, called by itself or for a message. -/
  | acquiring (message : Option C)
  /-- In `put_str`, `put_char` or `put_int`, with the steps that are left. -/
  | printing (rest : List F)
  /-- In `console_release`. -/
  | releasing

/-- In one of the functions of `console.c`. -/
def ConsolePhase.calling {C F : Type} : ConsolePhase C F → Bool
  | .own => false
  | _ => true

/-- The lock of the console, the threads, and what they print on. -/
structure ConsoleState (T C σ : Type) where
  lock : LockState T
  phase : T → ConsolePhase C (σ → σ)
  screen : σ
  /-- What the threads did to the console (ghost). -/
  trace : List (MonitorEvent T C (σ → σ))

/-- What can happen next. -/
inductive ConsoleAct (T C σ : Type)
  -- the calls
  | acquire (t : T)
  | release (t : T)
  | put (t : T) (message : C)
  -- the next step, in the functions of the lock and in `console.c`
  | lock (t : T)
  | go (t : T)
  -- the interrupt of the keyboard
  | echo (f : σ → σ)

variable {T C σ : Type} [DecidableEq T]

namespace ConsoleState

/-- Thread `t` calls `lock_acquire`. -/
def startAcquire (s : ConsoleState T C σ) (t : T) (message : Option C) : ConsoleState T C σ :=
  { s with
    lock := s.lock.goto t .testHolder
    phase := Function.update s.phase t (.acquiring message) }

/-- Thread `t` calls `lock_release`. It leaves the console if that is the outermost one. -/
def startRelease (s : ConsoleState T C σ) (t : T) : ConsoleState T C σ :=
  { s with
    lock := s.lock.goto t .assertHolder
    phase := Function.update s.phase t .releasing
    trace := s.trace ++ if s.lock.depth t = 1 then [.leave t] else [] }

/-- Thread `t` goes on to `p`. -/
def goto (s : ConsoleState T C σ) (t : T) (p : ConsolePhase C (σ → σ)) : ConsoleState T C σ :=
  { s with phase := Function.update s.phase t p }

/-- A step of the printing. -/
def write (s : ConsoleState T C σ) (t : T) (f : σ → σ) (rest : List (σ → σ)) :
    ConsoleState T C σ :=
  { s with
    phase := Function.update s.phase t (.printing rest)
    screen := f s.screen
    trace := s.trace ++ [.write t f] }

/-- `lock_acquire` has returned, and the printing starts. -/
def startPrinting (s : ConsoleState T C σ) (t : T) (message : C) (steps : List (σ → σ)) :
    ConsoleState T C σ :=
  { s with
    phase := Function.update s.phase t (.printing steps)
    trace := s.trace ++ [.start t message] }

/-- The next step of thread `t` in `console.c`. -/
def go (body : T → C → List (σ → σ)) (s : ConsoleState T C σ) (t : T) : ConsoleState T C σ :=
  match s.phase t with
  | .own => s
  | .acquiring none => s.goto t .own
  | .acquiring (some message) => s.startPrinting t message (body t message)
  | .printing (f :: rest) => s.write t f rest
  | .printing [] => s.startRelease t
  | .releasing => s.goto t .own

/-- The next step of thread `t` in the functions of the lock. It enters the console with the last
step of an outermost `lock_acquire`. -/
def lockStep (s : ConsoleState T C σ) (t : T) : Except Assertion (ConsoleState T C σ) := do
  let lock ← s.lock.run t
  return { s with
    lock := lock
    trace := s.trace ++ if s.lock.pc t = .setRepeat then [.enter t] else [] }

end ConsoleState

/-- The state after `console_init`. -/
def consoleInit (screen : σ) : ConsoleState T C σ :=
  ⟨⟨fun _ => .ready, lockInit, fun _ => .user, fun _ => 0⟩, fun _ => .own, screen, []⟩

/-- Any number of threads that print, with the steps of `body`. -/
def consoleSys (body : T → C → List (σ → σ)) (screen : σ) :
    Machine (ConsoleState T C σ) (ConsoleAct T C σ) Assertion where
  init s := s = consoleInit screen
  enabled s
    | .acquire t | .put t _ => (s.phase t).calling = false
    | .release t => (s.phase t).calling = false ∧ 0 < s.lock.depth t
    | .lock t => s.lock.pc t ≠ .user ∧ s.lock.status t ≠ .blocked
    | .go t => s.lock.pc t = .user ∧ (s.phase t).calling = true
    | .echo _ => True
  exec s
    | .acquire t => .ok (s.startAcquire t none)
    | .put t message => .ok (s.startAcquire t (some message))
    | .release t => .ok (s.startRelease t)
    | .lock t => s.lockStep t
    | .go t => .ok (s.go body t)
    | .echo f => .ok { s with screen := f s.screen }

instance (body : T → C → List (σ → σ)) (screen : σ) (s : ConsoleState T C σ) :
    ∀ a, Decidable ((consoleSys body screen).enabled s a)
  | .acquire t | .put t _ => inferInstanceAs (Decidable ((s.phase t).calling = false))
  | .release t => inferInstanceAs (Decidable ((s.phase t).calling = false ∧ 0 < s.lock.depth t))
  | .lock t => inferInstanceAs (Decidable (s.lock.pc t ≠ .user ∧ s.lock.status t ≠ .blocked))
  | .go t => inferInstanceAs (Decidable (s.lock.pc t = .user ∧ (s.phase t).calling = true))
  | .echo _ => isTrue trivial

/-- The step does not nest the lock `2 ^ 32` deep. -/
def ConsoleNestBound (s : ConsoleState T C σ) : ConsoleAct T C σ → Prop
  | .lock t => NestBound s.lock (.run t)
  | _ => True

/-- Nor does it echo a character. -/
def ConsoleQuiet (s : ConsoleState T C σ) : ConsoleAct T C σ → Prop
  | .echo _ => False
  | a => ConsoleNestBound s a

instance (s : ConsoleState T C σ) : ∀ a, Decidable (ConsoleNestBound s a)
  | .lock t => inferInstanceAs (Decidable (NestBound s.lock (.run t)))
  | .acquire _ | .release _ | .put _ _ | .go _ | .echo _ => isTrue trivial

instance (s : ConsoleState T C σ) : ∀ a, Decidable (ConsoleQuiet s a)
  | .lock t => inferInstanceAs (Decidable (NestBound s.lock (.run t)))
  | .acquire _ | .release _ | .put _ _ | .go _ => isTrue trivial
  | .echo _ => isFalse id

/-! ### What a step of the lock does for the thread -/

/-- From one point in the code of the lock to the next, with the nesting depth. -/
def LockMoves (p : LockPc) (d : ℕ) (p' : LockPc) (d' : ℕ) : Prop :=
  match p with
  | .user => p' = .user ∧ d' = d
  | .testHolder => (p' = .down ∨ p' = .incLoad) ∧ d' = d
  | .down => (p' = .down ∨ p' = .setHolder) ∧ d' = d
  | .setHolder => p' = .assertRepeatZero ∧ d' = d
  | .assertRepeatZero => p' = .setRepeat ∧ d' = d
  | .incLoad => (∃ v, p' = .incStore v) ∧ d' = d
  | .setRepeat | .incStore _ => p' = .user ∧ d' = d + 1
  | .assertHolder => p' = .testRepeat ∧ d' = d
  | .testRepeat => (p' = .decLoad ∨ p' = .assertRepeatOne) ∧ d' = d
  | .decLoad => (∃ v, p' = .decStore v) ∧ d' = d
  | .decStore _ => p' = .user ∧ d' = d - 1
  | .assertRepeatOne => p' = .clearHolder ∧ d' = d
  | .clearHolder => p' = .clearRepeat ∧ d' = d
  | .clearRepeat => p' = .up ∧ d' = d - 1
  | .up => p' = .user ∧ d' = d

/-- A step moves the thread and nobody else. -/
theorem LockState.run_moves {s s' : LockState T} {t : T} (h : s.run t = .ok s') :
    ∃ p d, LockMoves (s.pc t) (s.depth t) p d ∧
      s'.pc = Function.update s.pc t p ∧ s'.depth = Function.update s.depth t d := by
  have h_depth : s.depth = Function.update s.depth t (s.depth t) :=
    (Function.update_eq_self t s.depth).symm
  unfold LockState.run at h
  cases h_pc : s.pc t with
  | user =>
    rw [h_pc] at h
    cases h
    exact ⟨.user, s.depth t, ⟨rfl, rfl⟩, by rw [← h_pc, Function.update_eq_self], h_depth⟩
  | testHolder =>
    rw [h_pc] at h
    by_cases h_holder : s.lock.holder ≠ some t
    · rw [if_pos h_holder] at h
      cases h
      exact ⟨.down, s.depth t, ⟨Or.inl rfl, rfl⟩, rfl, h_depth⟩
    · rw [if_neg h_holder] at h
      cases h
      exact ⟨.incLoad, s.depth t, ⟨Or.inr rfl, rfl⟩, rfl, h_depth⟩
  | down =>
    rw [h_pc] at h
    dsimp only at h
    cases h_down : semaphoreDown t s.status s.lock.semaphore with
    | error e => rw [h_down] at h; cases h
    | ok res =>
      obtain ⟨taken, status, sem⟩ := res
      rw [h_down] at h
      cases taken with
      | true =>
        cases h
        exact ⟨.setHolder, s.depth t, ⟨Or.inr rfl, rfl⟩, rfl, h_depth⟩
      | false =>
        -- the thread sleeps, and stays where it is
        cases h
        refine ⟨.down, s.depth t, ⟨Or.inl rfl, rfl⟩, ?_, h_depth⟩
        rw [← h_pc]
        exact (Function.update_eq_self t s.pc).symm
  | assertRepeatZero =>
    rw [h_pc] at h
    by_cases h_zero : s.lock.holderRepeatNum = 0
    · rw [assert_pos h_zero] at h
      cases h
      exact ⟨_, _, ⟨rfl, rfl⟩, rfl, h_depth⟩
    · rw [assert_neg h_zero] at h
      cases h
  | assertHolder =>
    rw [h_pc] at h
    by_cases h_holder : s.lock.holder = some t
    · rw [assert_pos h_holder] at h
      cases h
      exact ⟨_, _, ⟨rfl, rfl⟩, rfl, h_depth⟩
    · rw [assert_neg h_holder] at h
      cases h
  | assertRepeatOne =>
    rw [h_pc] at h
    by_cases h_one : s.lock.holderRepeatNum = 1
    · rw [assert_pos h_one] at h
      cases h
      exact ⟨_, _, ⟨rfl, rfl⟩, rfl, h_depth⟩
    · rw [assert_neg h_one] at h
      cases h
  | testRepeat =>
    rw [h_pc] at h
    by_cases h_many : 1 < s.lock.holderRepeatNum
    · rw [if_pos h_many] at h
      cases h
      exact ⟨.decLoad, s.depth t, ⟨Or.inl rfl, rfl⟩, rfl, h_depth⟩
    · rw [if_neg h_many] at h
      cases h
      exact ⟨.assertRepeatOne, s.depth t, ⟨Or.inr rfl, rfl⟩, rfl, h_depth⟩
  | incLoad | decLoad =>
    rw [h_pc] at h
    cases h
    exact ⟨_, s.depth t, ⟨⟨_, rfl⟩, rfl⟩, rfl, h_depth⟩
  | setHolder | clearHolder =>
    rw [h_pc] at h
    cases h
    exact ⟨_, s.depth t, ⟨rfl, rfl⟩, rfl, h_depth⟩
  | setRepeat | incStore v | decStore v | clearRepeat =>
    rw [h_pc] at h
    cases h
    exact ⟨_, _, ⟨rfl, rfl⟩, rfl, rfl⟩
  | up =>
    rw [h_pc] at h
    dsimp only at h
    cases h_up : semaphoreUp s.status s.lock.semaphore with
    | error e => rw [h_up] at h; cases h
    | ok res =>
      obtain ⟨status, sem⟩ := res
      rw [h_up] at h
      cases h
      exact ⟨.user, s.depth t, ⟨rfl, rfl⟩, rfl, h_depth⟩

/-- The points of a call of `lock_acquire`. -/
def LockPc.acquiring : LockPc → Bool
  | .testHolder | .down | .setHolder | .assertRepeatZero | .setRepeat | .incLoad
  | .incStore _ => true
  | _ => false

/-- A call of `lock_acquire` goes on, or has returned and the thread holds the lock. -/
theorem LockMoves.of_acquiring {p p' : LockPc} {d d' : ℕ} (h : LockMoves p d p' d')
    (hp : p.acquiring = true) : p'.acquiring = true ∨ p' = .user ∧ 0 < d' := by
  cases p with
  | testHolder | down =>
    obtain ⟨rfl | rfl, -⟩ := h <;> exact Or.inl rfl
  | setHolder | assertRepeatZero => exact Or.inl (by rw [h.1]; rfl)
  | incLoad =>
    obtain ⟨⟨v, rfl⟩, -⟩ := h
    exact Or.inl rfl
  | setRepeat | incStore v => exact Or.inr ⟨h.1, by rw [h.2]; exact Nat.succ_pos d⟩
  | _ => cases hp

/-- A call of `lock_release` goes on or has returned. -/
theorem LockMoves.of_releasing {p p' : LockPc} {d d' : ℕ} (h : LockMoves p d p' d')
    (hp : p.releasing = true) : p'.releasing = true ∨ p' = .user := by
  cases p with
  | decStore v | up => exact Or.inr h.1
  | testRepeat =>
    obtain ⟨rfl | rfl, -⟩ := h <;> exact Or.inl rfl
  | decLoad =>
    obtain ⟨⟨v, rfl⟩, -⟩ := h
    exact Or.inl rfl
  | assertHolder | assertRepeatOne | clearHolder | clearRepeat => exact Or.inl (by rw [h.1]; rfl)
  | _ => cases hp

/-- The least depth at which a thread that stands at `p` holds the lock for itself: an outermost
`lock_release` no longer counts. -/
def LockPc.base (p : LockPc) : ℕ := if p.releasing then 1 else 0

omit [DecidableEq T] in
theorem LockState.inCritical_iff {s : LockState T} {t : T} :
    s.InCritical t ↔ (s.pc t).base < s.depth t := by
  unfold InCritical LockPc.base
  cases (s.pc t).releasing with
  | true => simp; omega
  | false => simp

omit [DecidableEq T] in
/-- The owner comes into its critical section with the last step of an outermost `lock_acquire`,
and no step of the lock takes it out. -/
theorem LockMoves.critical {t : T} {h : Option T} {r : BitVec 32} {p p' : LockPc} {d d' : ℕ}
    (h_move : LockMoves p d p' d') (hO : Owns t h r d p) :
    p'.base < d' ↔ p.base < d ∨ p = .setRepeat := by
  -- both points count alike, and the thread was not about to come in
  have h_same : ∀ n, p ≠ .setRepeat → p.base = n → p'.base = n → d' = d →
      (p'.base < d' ↔ p.base < d ∨ p = .setRepeat) := by
    rintro n h_ne h h' rfl
    rw [h, h', or_iff_left h_ne]
  cases p with
  | down => exact hO.elim
  | testHolder =>
    obtain ⟨rfl | rfl, h_d⟩ := h_move <;> exact h_same 0 nofun rfl rfl h_d
  | testRepeat =>
    obtain ⟨rfl | rfl, h_d⟩ := h_move <;> exact h_same 1 nofun rfl rfl h_d
  | incLoad =>
    obtain ⟨⟨v, rfl⟩, h_d⟩ := h_move
    exact h_same 0 nofun rfl rfl h_d
  | decLoad =>
    obtain ⟨⟨v, rfl⟩, h_d⟩ := h_move
    exact h_same 1 nofun rfl rfl h_d
  | user | setHolder | assertRepeatZero =>
    obtain ⟨rfl, h_d⟩ := h_move
    exact h_same 0 nofun rfl rfl h_d
  | assertHolder | assertRepeatOne | clearHolder =>
    obtain ⟨rfl, h_d⟩ := h_move
    exact h_same 1 nofun rfl rfl h_d
  | setRepeat =>
    obtain ⟨rfl, rfl⟩ := h_move
    exact iff_of_true (Nat.succ_pos d) (Or.inr rfl)
  | incStore v =>
    obtain ⟨rfl, rfl⟩ := h_move
    exact iff_of_true (Nat.succ_pos d) (Or.inl hO.1)
  | decStore v =>
    -- the owner stays inside, with one call of `lock_acquire` less
    obtain ⟨rfl, rfl⟩ := h_move
    exact iff_of_true (Nat.sub_pos_of_lt hO.1) (Or.inl hO.1)
  | clearRepeat =>
    obtain ⟨rfl, rfl⟩ := h_move
    obtain ⟨rfl, -⟩ := hO
    exact iff_of_false (Nat.not_lt_zero _) (by rintro (h | h); exacts [lt_irrefl _ h, nomatch h])
  | up =>
    obtain ⟨rfl, rfl⟩ := h_move
    obtain ⟨rfl, -⟩ := hO
    exact iff_of_false (Nat.not_lt_zero _)
      (by rintro (h | h); exacts [Nat.not_lt_zero _ h, nomatch h])

/-- Who is critical after a step of the lock. -/
theorem LockInv.critical_of_run {s s' : LockState T} {o : Option T} {t : T} (hI : LockInv s o)
    (h : s.run t = .ok s') (u : T) :
    s'.InCritical u ↔ s.InCritical u ∨ u = t ∧ s.pc t = .setRepeat := by
  obtain ⟨p, d, h_move, h_pc, h_depth⟩ := LockState.run_moves h
  rw [LockState.inCritical_iff, LockState.inCritical_iff, h_pc, h_depth]
  by_cases h_u : u = t
  swap
  · rw [Function.update_of_ne h_u, Function.update_of_ne h_u]
    simp [h_u]
  subst h_u
  rw [Function.update_self, Function.update_self, and_iff_right rfl]
  by_cases h_o : o = some u
  · exact h_move.critical (hI.owned u h_o).2
  · -- a thread that does not own the unit has no depth, and does not get one
    obtain ⟨h_zero, h_at⟩ := hI.outside u h_o
    have h_d : d = 0 := by
      rcases h_at with h_at | h_at | h_at <;>
      · rw [h_at, h_zero] at h_move
        exact h_move.2
    rw [h_zero, h_d]
    rcases h_at with h_at | h_at | h_at <;> simp [h_at]

/-- Nobody is critical when a thread is about to come in. -/
theorem LockInv.nobody {s : LockState T} {o : Option T} {t : T} (hI : LockInv s o)
    (h_pc : s.pc t = .setRepeat) (u : T) : ¬ s.InCritical u := by
  have h_o : o = some t := by
    by_contra h_ne
    obtain ⟨-, h | h | h⟩ := hI.outside t h_ne <;> rw [h_pc] at h <;> cases h
  intro h_u
  obtain rfl : t = u := Option.some.inj (h_o.symm.trans (hI.inCritical h_u).1)
  have h_own := (hI.owned t h_o).2
  rw [h_pc] at h_own
  exact h_u.1.ne' h_own.1

/-! ### The invariant -/

/-- The steps that are left of the message. -/
def ConsolePhase.left {C F : Type} : ConsolePhase C F → List F
  | .printing rest => rest
  | _ => []

/-- Where a thread stands in `console.c` goes with where it stands in the lock. -/
def ConsolePhase.Fits {C F : Type} (p : LockPc) (d : ℕ) : ConsolePhase C F → Prop
  | .own => p = .user
  | .acquiring _ => p.acquiring = true ∨ p = .user ∧ 0 < d
  | .printing _ => p = .user ∧ 0 < d
  | .releasing => p.releasing = true ∨ p = .user

/-- What the state shows of the monitor: the thread in its critical section is inside, and its
message is the one that is pending. -/
structure ConsoleState.Shows (s : ConsoleState T C σ) (m : Monitor T (σ → σ)) : Prop where
  inside : ∀ t, m.inside = some t ↔ s.lock.InCritical t
  pending : ∀ t, m.inside = some t → m.pending = (s.phase t).left
  idle : m.inside = none → m.pending = []

/-- The invariant. -/
structure ConsoleInv (body : T → C → List (σ → σ)) (s : ConsoleState T C σ) : Prop where
  lock : ∃ o, LockInv s.lock o
  fits : ∀ t, (s.phase t).Fits (s.lock.pc t) (s.lock.depth t)
  monitor : ∃ m, MonitorTrace body s.trace m ∧ s.Shows m

namespace ConsoleState

variable {s s' : ConsoleState T C σ} {m : Monitor T (σ → σ)} {t : T}

omit [DecidableEq T] in
/-- The monitor, as the thread inside sees it. -/
theorem Shows.eq_some (h : s.Shows m) (ht : s.lock.InCritical t) :
    m = ⟨some t, (s.phase t).left⟩ := by
  have h_in : m.inside = some t := (h.inside t).mpr ht
  obtain ⟨inside, pending⟩ := m
  cases h_in
  exact congrArg _ (h.pending t rfl)

omit [DecidableEq T] in
theorem Shows.eq_none (h : s.Shows m) (h_nobody : ∀ t, ¬ s.lock.InCritical t) :
    m = ⟨none, []⟩ := by
  have h_in : m.inside = none := by
    rw [Option.eq_none_iff_forall_ne_some]
    exact fun t h_t => h_nobody t ((h.inside t).mp h_t)
  have h_pending := h.idle h_in
  obtain ⟨inside, pending⟩ := m
  cases h_in
  exact congrArg _ h_pending

omit [DecidableEq T] in
/-- Steps that show nothing of themselves. -/
theorem Shows.same (h : s.Shows m) (h_in : ∀ t, s'.lock.InCritical t ↔ s.lock.InCritical t)
    (h_left : ∀ t, (s'.phase t).left = (s.phase t).left) : s'.Shows m where
  inside t := (h.inside t).trans (h_in t).symm
  pending t ht := (h.pending t ht).trans (h_left t).symm
  idle := h.idle

omit [DecidableEq T] in
/-- Thread `t` is inside and nobody else. -/
theorem shows_some {rest : List (σ → σ)} (h_in : ∀ u, s'.lock.InCritical u ↔ u = t)
    (h_left : (s'.phase t).left = rest) : s'.Shows ⟨some t, rest⟩ where
  inside u := by
    rw [h_in u]
    exact ⟨fun h => (Option.some.inj h).symm, fun h => by rw [h]⟩
  pending u hu := by rw [← Option.some.inj hu, h_left]
  idle := nofun

omit [DecidableEq T] in
/-- Nobody is inside. -/
theorem shows_none (h_in : ∀ u, ¬ s'.lock.InCritical u) : s'.Shows ⟨none, []⟩ where
  inside u := iff_of_false nofun (h_in u)
  pending := nofun
  idle _ := rfl

end ConsoleState

/-! ### Every step keeps the invariant -/

theorem LockState.goto_inCritical_of_ne (s : LockState T) (p : LockPc) {t u : T} (h : u ≠ t) :
    (s.goto t p).InCritical u ↔ s.InCritical u := by
  unfold InCritical
  rw [goto_pc_of_ne s p h, goto_depth]

theorem LockState.goto_inCritical_self (s : LockState T) (t : T) (p : LockPc) :
    (s.goto t p).InCritical t ↔ p.base < s.depth t := by
  rw [inCritical_iff, goto_pc_self, goto_depth]

/-- The threads that do not move fit as they did. -/
theorem fits_update {phase : T → ConsolePhase C (σ → σ)} {l l' : LockState T} {t : T}
    (h : ∀ u, (phase u).Fits (l.pc u) (l.depth u))
    (h_others : ∀ u, u ≠ t → l'.pc u = l.pc u ∧ l'.depth u = l.depth u)
    {p : ConsolePhase C (σ → σ)} (hp : p.Fits (l'.pc t) (l'.depth t)) (u : T) :
    (Function.update phase t p u).Fits (l'.pc u) (l'.depth u) := by
  by_cases h_u : u = t
  · subst h_u
    rwa [Function.update_self]
  · rw [Function.update_of_ne h_u, (h_others u h_u).1, (h_others u h_u).2]
    exact h u

theorem left_update {phase : T → ConsolePhase C (σ → σ)} {t : T} {p : ConsolePhase C (σ → σ)}
    (h : p.left = (phase t).left) (u : T) :
    (Function.update phase t p u).left = (phase u).left := by
  by_cases h_u : u = t
  · rw [h_u, Function.update_self, h]
  · rw [Function.update_of_ne h_u]

variable {body : T → C → List (σ → σ)} {s : ConsoleState T C σ} {t : T}

namespace ConsoleInv

omit [DecidableEq T] in
theorem own_pc (hI : ConsoleInv body s) (h : (s.phase t).calling = false) :
    s.lock.pc t = .user ∧ (s.phase t).left = [] := by
  have h_fits := hI.fits t
  cases h_phase : s.phase t with
  | own =>
    rw [h_phase] at h_fits
    exact ⟨h_fits, rfl⟩
  | acquiring _ | printing _ | releasing => rw [h_phase] at h; cases h

/-- A call of `lock_acquire`. -/
theorem startAcquire (hI : ConsoleInv body s) (h_own : (s.phase t).calling = false)
    (message : Option C) : ConsoleInv body (s.startAcquire t message) := by
  obtain ⟨h_pc, h_left⟩ := hI.own_pc h_own
  obtain ⟨m, h_trace, h_shows⟩ := hI.monitor
  refine ⟨?_, ?_, m, h_trace, h_shows.same (fun u => ?_) (left_update h_left.symm)⟩
  · obtain ⟨o, h_lock⟩ := hI.lock
    obtain ⟨s', o', h_exec, h_inv⟩ := h_lock.step (a := .acquire t) h_pc trivial
    cases h_exec
    exact ⟨o', h_inv⟩
  · refine fits_update hI.fits (fun u h_u => ⟨LockState.goto_pc_of_ne _ _ h_u, rfl⟩) (Or.inl ?_)
    rw [LockState.goto_pc_self]
    rfl
  · by_cases h_u : u = t
    · subst h_u
      exact (LockState.goto_inCritical_self ..).trans (by rw [LockState.inCritical_iff, h_pc]; rfl)
    · exact LockState.goto_inCritical_of_ne _ _ h_u

/-- A call of `lock_release`. -/
theorem startRelease (hI : ConsoleInv body s) (h_pc : s.lock.pc t = .user)
    (h_depth : 0 < s.lock.depth t) (h_left : (s.phase t).left = []) :
    ConsoleInv body (s.startRelease t) := by
  obtain ⟨m, h_trace, h_shows⟩ := hI.monitor
  obtain ⟨o, h_lock⟩ := hI.lock
  have h_in : s.lock.InCritical t := by
    rw [LockState.inCritical_iff, h_pc]
    exact h_depth
  have h_m := h_shows.eq_some h_in
  rw [h_left] at h_m
  subst h_m
  refine ⟨?_, ?_, ?_⟩
  · obtain ⟨s', o', h_exec, h_inv⟩ := h_lock.step (a := .release t) ⟨h_pc, h_depth⟩ trivial
    cases h_exec
    exact ⟨o', h_inv⟩
  · refine fits_update hI.fits (fun u h_u => ⟨LockState.goto_pc_of_ne _ _ h_u, rfl⟩) (Or.inl ?_)
    rw [LockState.goto_pc_self]
    rfl
  · unfold ConsoleState.startRelease
    by_cases h_one : s.lock.depth t = 1
    · -- the outermost release: the thread leaves
      rw [if_pos h_one]
      refine ⟨_, .snoc h_trace (.leave t), ConsoleState.shows_none fun u => ?_⟩
      by_cases h_u : u = t
      · subst h_u
        rw [LockState.goto_inCritical_self, h_one]
        exact lt_irrefl 1
      · rw [LockState.goto_inCritical_of_ne _ _ h_u]
        exact fun h => h_u (Option.some.inj ((h_shows.inside u).mpr h)).symm
    · rw [if_neg h_one, List.append_nil]
      refine ⟨_, h_trace, h_shows.same (fun u => ?_) (left_update h_left.symm)⟩
      by_cases h_u : u = t
      · subst h_u
        rw [LockState.goto_inCritical_self]
        exact iff_of_true (by change 1 < _; omega) h_in
      · exact LockState.goto_inCritical_of_ne _ _ h_u

/-- A step of the lock. -/
theorem lockStep (hI : ConsoleInv body s) (h_user : s.lock.pc t ≠ .user)
    (h_awake : s.lock.status t ≠ .blocked) (h_nest : NestBound s.lock (.run t)) :
    ∃ s', s.lockStep t = .ok s' ∧ ConsoleInv body s' := by
  obtain ⟨m, h_trace, h_shows⟩ := hI.monitor
  obtain ⟨o, h_lock⟩ := hI.lock
  obtain ⟨l, o', h_run, h_inv⟩ := h_lock.step (a := .run t) ⟨h_user, h_awake⟩ h_nest
  change s.lock.run t = .ok l at h_run
  obtain ⟨p, d, h_move, h_pc, h_depth⟩ := LockState.run_moves h_run
  refine ⟨⟨l, s.phase, s.screen, s.trace ++ if s.lock.pc t = .setRepeat then [.enter t] else []⟩,
    by unfold ConsoleState.lockStep; rw [h_run]; rfl, ⟨o', h_inv⟩, fun u => ?_, ?_⟩
  · by_cases h_u : u = t
    swap
    · rw [h_pc, h_depth, Function.update_of_ne h_u, Function.update_of_ne h_u]
      exact hI.fits u
    subst h_u
    rw [h_pc, h_depth, Function.update_self, Function.update_self]
    have h_fits := hI.fits u
    -- a thread is in the code of the lock only when it acquires or releases
    change (s.phase u).Fits p d
    cases h_phase : s.phase u with
    | own => rw [h_phase] at h_fits; exact absurd h_fits h_user
    | printing rest => rw [h_phase] at h_fits; exact absurd h_fits.1 h_user
    | acquiring message =>
      rw [h_phase] at h_fits
      exact h_move.of_acquiring (h_fits.resolve_right fun h => h_user h.1)
    | releasing =>
      rw [h_phase] at h_fits
      exact h_move.of_releasing (h_fits.resolve_right h_user)
  · by_cases h_set : s.lock.pc t = .setRepeat
    · -- the thread enters
      have h_nobody := h_lock.nobody h_set
      rw [if_pos h_set]
      rw [h_shows.eq_none h_nobody] at h_trace
      refine ⟨_, .snoc h_trace (.enter t), ?_⟩
      have h_left : (s.phase t).left = [] := by
        have h_fits := hI.fits t
        cases h_phase : s.phase t with
        | printing rest => rw [h_phase] at h_fits; exact absurd h_fits.1 h_user
        | own | acquiring message | releasing => rfl
      refine ConsoleState.shows_some (fun u => ?_) h_left
      rw [h_lock.critical_of_run h_run u]
      simp [h_nobody u, h_set]
    · rw [if_neg h_set, List.append_nil]
      refine ⟨m, h_trace, h_shows.same (fun u => ?_) fun u => rfl⟩
      rw [h_lock.critical_of_run h_run u]
      simp [h_set]

/-- A step of a thread that neither moves in the lock nor shows. -/
theorem goto (hI : ConsoleInv body s) {p : ConsolePhase C (σ → σ)}
    (h_fits : p.Fits (s.lock.pc t) (s.lock.depth t)) (h_left : p.left = (s.phase t).left) :
    ConsoleInv body (s.goto t p) := by
  obtain ⟨m, h_trace, h_shows⟩ := hI.monitor
  exact ⟨hI.lock, fits_update hI.fits (fun u _ => ⟨rfl, rfl⟩) h_fits,
    m, h_trace, h_shows.same (fun u => Iff.rfl) (left_update h_left)⟩

/-- A step inside the monitor, from `rest` to `rest'`. -/
theorem printing (hI : ConsoleInv body s) (h_pc : s.lock.pc t = .user)
    (h_depth : 0 < s.lock.depth t) {e : MonitorEvent T C (σ → σ)} {rest' : List (σ → σ)}
    (h_step : MonitorStep body ⟨some t, (s.phase t).left⟩ e ⟨some t, rest'⟩) (screen : σ) :
    ConsoleInv body ⟨s.lock, Function.update s.phase t (.printing rest'), screen,
      s.trace ++ [e]⟩ := by
  obtain ⟨m, h_trace, h_shows⟩ := hI.monitor
  obtain ⟨o, h_lock⟩ := hI.lock
  have h_in : s.lock.InCritical t := by
    rw [LockState.inCritical_iff, h_pc]
    exact h_depth
  rw [h_shows.eq_some h_in] at h_trace
  refine ⟨⟨o, h_lock⟩, fits_update hI.fits (fun u _ => ⟨rfl, rfl⟩) ⟨h_pc, h_depth⟩,
    _, .snoc h_trace h_step, ConsoleState.shows_some (fun u => ?_) ?_⟩
  · -- one thread at most is critical
    refine ⟨fun h_u => ?_, fun h_u => h_u ▸ h_in⟩
    exact Option.some.inj ((h_lock.inCritical h_u).1.symm.trans (h_lock.inCritical h_in).1)
  · change (Function.update s.phase t (.printing rest') t).left = rest'
    rw [Function.update_self]
    rfl

/-- A step in `console.c`. -/
theorem go (hI : ConsoleInv body s) (h_pc : s.lock.pc t = .user)
    (h_calling : (s.phase t).calling = true) : ConsoleInv body (s.go body t) := by
  have h_fits := hI.fits t
  unfold ConsoleState.go
  cases h_phase : s.phase t with
  | own => rw [h_phase] at h_calling; cases h_calling
  | acquiring message =>
    rw [h_phase, h_pc] at h_fits
    have h_depth : 0 < s.lock.depth t := (h_fits.resolve_left nofun).2
    cases message with
    | none => exact hI.goto h_pc (by rw [h_phase]; rfl)
    | some message =>
      refine hI.printing h_pc h_depth ?_ s.screen
      rw [h_phase]
      exact .start t message
  | printing rest =>
    rw [h_phase] at h_fits
    cases rest with
    | nil => exact hI.startRelease h_pc h_fits.2 (by rw [h_phase]; rfl)
    | cons f rest =>
      refine hI.printing h_pc h_fits.2 ?_ (f s.screen)
      rw [h_phase]
      exact .write t f rest
  | releasing => exact hI.goto h_pc (by rw [h_phase]; rfl)

/-- **Step lemma.** An enabled step runs through and keeps the invariant. -/
theorem step (hI : ConsoleInv body s) {screen : σ} {a : ConsoleAct T C σ}
    (h_en : (consoleSys body screen).enabled s a) (h_nest : ConsoleNestBound s a) :
    ∃ s', (consoleSys body screen).exec s a = .ok s' ∧ ConsoleInv body s' := by
  cases a with
  | acquire t => exact ⟨_, rfl, hI.startAcquire h_en none⟩
  | put t message => exact ⟨_, rfl, hI.startAcquire h_en (some message)⟩
  | release t =>
    obtain ⟨h_pc, h_left⟩ := hI.own_pc h_en.1
    exact ⟨_, rfl, hI.startRelease h_pc h_en.2 h_left⟩
  | lock t => exact hI.lockStep h_en.1 h_en.2 h_nest
  | go t => exact ⟨_, rfl, hI.go h_en.1 h_en.2⟩
  | echo f =>
    obtain ⟨m, h_trace, h_shows⟩ := hI.monitor
    exact ⟨_, rfl, hI.lock, hI.fits, m, h_trace, h_shows.same (fun _ => Iff.rfl) fun _ => rfl⟩

end ConsoleInv

omit [DecidableEq T] in
theorem consoleInv_init (body : T → C → List (σ → σ)) (screen : σ) :
    ConsoleInv body (consoleInit screen) where
  lock := ⟨none, .initial⟩
  fits _ := rfl
  monitor := ⟨_, .nil, ConsoleState.shows_none fun _ h => lt_irrefl 0 h.1⟩

/-- **Run lemma.** -/
theorem consoleInv_of_reachable {screen : σ}
    (h : ((consoleSys body screen).guard ConsoleNestBound).Reachable s) : ConsoleInv body s := by
  refine Machine.Reachable.invariant ?_ ?_ h
  · rintro _ rfl
    exact consoleInv_init body screen
  · rintro s a s' hI ⟨⟨h_en, h_nest⟩, h_exec⟩
    obtain ⟨s₁, h_exec', hI'⟩ := hI.step h_en h_nest
    obtain rfl : s₁ = s' := Except.ok.inj (h_exec'.symm.trans h_exec)
    exact hI'

/-! ### What the threads print -/

/-- In `put_str`, `put_char` or `put_int`. -/
def ConsoleState.Prints (s : ConsoleState T C σ) (t : T) : Prop :=
  ∃ rest, s.phase t = .printing rest

/-- What the lock promises in a state: one thread at most prints, no `ASSERT` is about to fail, and
what the threads have done comes in whole critical sections, the last one perhaps unfinished. When
nobody prints, every message that was started is on the screen as a whole. -/
structure ConsoleSerial (body : T → C → List (σ → σ)) (screen : σ) (s : ConsoleState T C σ) :
    Prop where
  exclusive : ∀ t u, s.Prints t → s.Prints u → t = u
  noFault : ∀ a e, ¬ (consoleSys body screen).Faults s a e
  sections : ∃ stays, s.trace <+: Monitor.sections body stays
  whole : (∀ t, ¬ s.Prints t) → Monitor.written s.trace =
    (Monitor.started s.trace).flatMap fun x => body x.1 x.2

omit [DecidableEq T] in
/-- A thread that prints is in its critical section. -/
theorem ConsoleInv.inCritical (hI : ConsoleInv body s) (h : s.Prints t) : s.lock.InCritical t := by
  obtain ⟨rest, h_phase⟩ := h
  have h_fits := hI.fits t
  rw [h_phase] at h_fits
  rw [LockState.inCritical_iff, h_fits.1]
  exact h_fits.2

omit [DecidableEq T] in
/-- Nothing is pending when nobody prints. -/
theorem ConsoleInv.written (hI : ConsoleInv body s) (h : ∀ t, ¬ s.Prints t) :
    Monitor.written s.trace = (Monitor.started s.trace).flatMap fun x => body x.1 x.2 := by
  obtain ⟨m, h_trace, h_shows⟩ := hI.monitor
  have h_pending : m.pending = [] := by
    cases h_in : m.inside with
    | none => exact h_shows.idle h_in
    | some t =>
      rw [h_shows.pending t h_in]
      cases h_phase : s.phase t with
      | printing rest => exact absurd ⟨rest, h_phase⟩ (h t)
      | own | acquiring message | releasing => rfl
  rw [← Monitor.written_of_trace h_trace, h_pending, List.append_nil]

/-- **The console is serialised.** -/
theorem console_serialised (body : T → C → List (σ → σ)) (screen : σ) {s : ConsoleState T C σ}
    (h : ((consoleSys body screen).guard ConsoleNestBound).Reachable s) :
    ConsoleSerial body screen s := by
  have hI := consoleInv_of_reachable h
  refine ⟨fun t u ht hu => ?_, ?_, ?_, hI.written⟩
  · obtain ⟨o, h_lock⟩ := hI.lock
    exact Option.some.inj ((h_lock.inCritical (hI.inCritical ht)).1.symm.trans
      (h_lock.inCritical (hI.inCritical hu)).1)
  · rintro a e ⟨h_en, h_exec⟩
    by_cases h_nest : ConsoleNestBound s a
    · obtain ⟨s', h_ok, -⟩ := hI.step h_en h_nest
      rw [h_ok] at h_exec
      cases h_exec
    · -- a step that exceeds the bound is the plain write of `holder_repeat_num++`
      cases a with
      | lock t =>
        obtain ⟨h_inc, -⟩ := Classical.not_imp.mp h_nest
        change s.lockStep t = _ at h_exec
        unfold ConsoleState.lockStep LockState.run at h_exec
        cases h_pc : s.lock.pc t with
        | incStore v => rw [h_pc] at h_exec; cases h_exec
        | _ => rw [h_pc] at h_inc; cases h_inc
      | acquire | release | put | go | echo => exact h_nest trivial
  · obtain ⟨m, h_trace, -⟩ := hI.monitor
    exact (Monitor.inSections_of_trace h_trace).isPrefix

/-- Two threads that print, each cut off by the other: the first is in the middle of its message
while the second waits. -/
theorem console_serialised_two :
    ∃ s : ConsoleState (Fin 2) ℕ (List ℕ), s.Prints 0 ∧ s.lock.status 1 = .blocked ∧
      s.screen = [7] ∧ ConsoleSerial (fun _ n => [(n :: ·), (n :: ·)]) [] s := by
  have h := Machine.Reachable.play
    (M := (consoleSys (T := Fin 2) (fun _ n => [(n :: ·), (n :: ·)]) []).guard ConsoleNestBound)
    (.init rfl) (.put 0 7 :: .put 1 8 :: List.replicate 5 (.lock 0) ++
      [.go 0, .lock 1, .go 0, .lock 1]) rfl
  exact ⟨_, ⟨_, rfl⟩, rfl, rfl, console_serialised _ _ h⟩

/-! ### The screen -/

/-- Some steps, one after another. -/
def applySteps (fs : List (σ → σ)) (v : σ) : σ := fs.foldl (fun v f => f v) v

theorem applySteps_append (fs gs : List (σ → σ)) (v : σ) :
    applySteps (fs ++ gs) v = applySteps gs (applySteps fs v) := List.foldl_append

omit [DecidableEq T] in
/-- Events that write nothing leave the screen that was written. -/
theorem applySteps_written {trace events : List (MonitorEvent T C (σ → σ))}
    (h : Monitor.written events = []) (screen : σ) :
    applySteps (Monitor.written trace) screen =
      applySteps (Monitor.written (trace ++ events)) screen := by
  rw [Monitor.written_append, h, List.append_nil]

/-- While nothing is echoed, the screen is what the threads have written. -/
theorem screen_of_quiet {screen : σ}
    (h : ((consoleSys body screen).guard ConsoleQuiet).Reachable s) :
    s.screen = applySteps (Monitor.written s.trace) screen := by
  have h_release : ∀ (s : ConsoleState T C σ) (t : T),
      s.screen = applySteps (Monitor.written s.trace) screen →
      s.screen = applySteps (Monitor.written (s.startRelease t).trace) screen := by
    intro s t h
    exact h.trans (applySteps_written (by split <;> rfl) screen)
  refine Machine.Reachable.invariant
    (P := fun s => s.screen = applySteps (Monitor.written s.trace) screen) ?_ ?_ h
  · rintro _ rfl
    rfl
  · rintro s a s' hI ⟨⟨h_en, h_quiet⟩, h_exec⟩
    cases a with
    | acquire t | put t message =>
      cases h_exec
      exact hI
    | release t =>
      cases h_exec
      exact h_release s t hI
    | echo f => exact h_quiet.elim
    | lock t =>
      change s.lockStep t = _ at h_exec
      unfold ConsoleState.lockStep at h_exec
      cases h_run : s.lock.run t with
      | error e => rw [h_run] at h_exec; cases h_exec
      | ok l =>
        rw [h_run] at h_exec
        cases h_exec
        exact hI.trans (applySteps_written (by split <;> rfl) screen)
    | go t =>
      cases h_exec
      unfold ConsoleState.go
      cases h_phase : s.phase t with
      | own | releasing => exact hI
      | acquiring message =>
        cases message with
        | none => exact hI
        | some message => exact hI.trans (applySteps_written rfl screen)
      | printing rest =>
        cases rest with
        | nil => exact h_release s t hI
        | cons f rest =>
          change f s.screen = applySteps (Monitor.written (s.trace ++ [.write t f])) screen
          rw [Monitor.written_append, applySteps_append, ← hI]
          rfl

omit [DecidableEq T] in
/-- The steps of whole messages do what the messages do. -/
theorem applySteps_messages {body : T → ConsoleCall → List (σ → σ)} {view : σ → Option Vga}
    (h_body : ∀ t message v,
      view (applySteps (body t message) v) = view v >>= (ConsoleCall.run · message))
    (started : List (T × ConsoleCall)) (screen : σ) :
    view (applySteps (started.flatMap fun x => body x.1 x.2) screen) =
      view screen >>= (runCalls · (started.map Prod.snd)) := by
  induction started generalizing screen with
  | nil => exact (bind_pure (view screen)).symm
  | cons x started ih =>
    calc view (applySteps (body x.1 x.2 ++ started.flatMap fun x => body x.1 x.2) screen)
        = view (applySteps (body x.1 x.2) screen) >>= (runCalls · (started.map Prod.snd)) := by
          rw [applySteps_append, ih]
      _ = view screen >>= (ConsoleCall.run · x.2) >>= (runCalls · (started.map Prod.snd)) := by
          rw [h_body]
      _ = view screen >>= (runCalls · (x.2 :: started.map Prod.snd)) := by
          rw [bind_assoc]
          rfl

/-- **The screen.** Threads share the variables of the drivers and the card, which `view` reads off
the state, and cut the functions that print into steps as they like. If nothing is echoed, then
whenever nobody prints the screen is as if the messages had been printed one after another. -/
theorem console_screen {body : T → ConsoleCall → List (σ → σ)} (view : σ → Option Vga)
    (h_body : ∀ t message v,
      view (applySteps (body t message) v) = view v >>= (ConsoleCall.run · message))
    {screen : σ} {s : ConsoleState T ConsoleCall σ}
    (h : ((consoleSys body screen).guard ConsoleQuiet).Reachable s) (h_idle : ∀ t, ¬ s.Prints t) :
    view s.screen =
      view screen >>= (runCalls · ((Monitor.started s.trace).map Prod.snd)) := by
  have h_nest : ((consoleSys body screen).guard ConsoleNestBound).Reachable s := by
    refine Machine.Reachable.invariant ?_ ?_ h
    · exact fun s h_init => .init h_init
    · rintro s a s' h_reach ⟨⟨h_en, h_quiet⟩, h_exec⟩
      refine h_reach.step (a := a) ⟨⟨h_en, ?_⟩, h_exec⟩
      cases a with
      | echo f => trivial
      | acquire | release | put | lock | go => exact h_quiet
  rw [screen_of_quiet h, (consoleInv_of_reachable h_nest).written h_idle]
  exact applySteps_messages h_body _ screen

/-- Two threads print, each in two steps. The second one comes while the first one prints, sleeps
until it has given the lock back, and is about to give it back itself. The state is the list of the
messages that were printed. -/
theorem console_screen_two :
    ∃ s : ConsoleState Bool ConsoleCall (List ConsoleCall), s.lock.lock.holder = some true ∧
      (Monitor.started s.trace).map Prod.snd = [.putInt 7, .putInt 8] ∧
        ∀ v, runCalls v s.screen = runCalls v [.putInt 7, .putInt 8] := by
  have h := Machine.Reachable.play
    (M := (consoleSys (T := Bool) (fun _ (c : ConsoleCall) => [id, (· ++ [c])]) []).guard
      ConsoleQuiet)
    (.init rfl) (.put false (.putInt 7) :: List.replicate 5 (.lock false) ++
      [.go false, .go false, .put true (.putInt 8), .lock true, .lock true, .go false, .go false] ++
      List.replicate 6 (.lock false) ++ .go false :: List.replicate 4 (.lock true) ++
      List.replicate 4 (.go true)) rfl
  refine ⟨_, rfl, rfl, fun v => console_screen (runCalls v ·) ?_ h fun t => ?_⟩
  · intro t message calls
    change (calls ++ [message]).foldlM ConsoleCall.run v = _
    simp [List.foldlM_append, runCalls]
  · rintro ⟨rest, h_phase⟩
    cases t with
    | false =>
      have h_phase : (.own : ConsolePhase ConsoleCall _) = .printing rest := h_phase
      cases h_phase
    | true =>
      have h_phase : (.releasing : ConsolePhase ConsoleCall _) = .printing rest := h_phase
      cases h_phase

end ToiletOS
