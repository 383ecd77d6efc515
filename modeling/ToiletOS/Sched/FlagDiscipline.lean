import ToiletOS.Sched.KernelCode
import ToiletOS.Sched.SchedSafety

/-!
# The interrupt flag

Any number of threads run the code of `Sched/KernelCode.lean`, and wherever interrupts are enabled
one may come between two accesses. Each function that disables interrupts restores the flag that it
found, and nobody writes to a list, or calls `schedule`, with the flag set (`flag_discipline`).

The flag is one register, but it can be told which value a thread will find there. While
the thread runs it is the flag itself, and a thread that does not run finds it clear, since whoever
switches to it has interrupts disabled (`CodeState.flagOf`). What other threads do, and the
interrupts that a thread takes, leave this value alone. So the chain of disabling and restoring
calls of a thread can be followed as if it were by itself: `Runs f p Q` says how `p` goes from the
flag `f` on, and there is one lemma of this form for each function.
-/

namespace ToiletOS

/-- A call that a thread or an interrupt handler can make. -/
inductive KernelCall (T S : Type)
  | listInsertBefore (before elem : Node T S)
  | listRemove (elem : Node T S)
  | threadBlock (status : TaskStatus)
  | threadUnblock (pthread : T)
  | semaphoreDown (psem : S)
  | semaphoreUp (psem : S)
  | lockAcquire (plock : S)
  | lockRelease (plock : S)
  | intrEnable
  | intrDisable

/-- The handlers of the interrupts: that of the timer, and others, which make some calls. -/
inductive Handler (T S : Type)
  | timer
  | device (calls : List (KernelCall T S))

/-- The state, and what each thread still has to do until it is back in its own code. -/
structure CodeRun (T S : Type) where
  shared : CodeState T S
  code : T → KernelCode T S Unit

/-- What can happen next. -/
inductive CodeAct (T S : Type)
  | call (c : KernelCall T S) (passes : ℕ)
  | start (thread : T) (prio : BitVec 32) (passes : ℕ)
  | interrupt (handler : Handler T S) (passes : ℕ)
  | step

/-- What is recorded of the flag is as it should be. -/
def FlagEvent.Disciplined : FlagEvent → Prop
  | returned _ atCall atReturn => atReturn = atCall
  | scheduled intr | wrote intr => intr = .off

section

variable {T S : Type} [DecidableEq T] [DecidableEq S]

/-- The code of a call. -/
def KernelCall.code (passes : ℕ) : KernelCall T S → KernelCode T S Unit
  | listInsertBefore before elem => .listInsertBefore before elem
  | listRemove elem => .listRemove elem
  | threadBlock status => .threadBlock passes status
  | threadUnblock pthread => .threadUnblock passes pthread
  | semaphoreDown psem => .semaphoreDown passes psem
  | semaphoreUp psem => .semaphoreUp passes psem
  | lockAcquire plock => .lockAcquire passes plock
  | lockRelease plock => .lockRelease passes plock
  | intrEnable => do let _ ← KernelCode.intrEnable
  | intrDisable => do let _ ← KernelCode.intrDisable

/-- The code of some calls, one after the other. -/
def KernelCall.codes (passes : ℕ) : List (KernelCall T S) → KernelCode T S Unit
  | [] => return ()
  | c :: cs => do
    c.code passes
    codes passes cs

/-- The code of a handler. -/
def Handler.code (passes : ℕ) : Handler T S → KernelCode T S Unit
  | timer => .intrTimerHandler passes
  | device calls => KernelCall.codes passes calls

/-- The running thread goes on with a program, in a state. -/
def CodeRun.goOn (st : CodeRun T S) (p : KernelCode T S Unit) (s : CodeState T S) :
    Except Stop (CodeRun T S) :=
  match p.settle codeSem s with
  | .ok (p, s') => .ok ⟨s', Function.update st.code st.shared.kernel.cur p⟩
  | .error e => .error e

/-- Threads that call the functions of the kernel. An interrupt comes through a gate that clears the
flag, and `iretd` sets it again. A thread is started on a page that is not that of the running
thread. -/
def flagSys : Machine (CodeRun T S) (CodeAct T S) Stop where
  init st := st.code = (fun _ => .ret ()) ∧ st.shared.events = [] ∧
    ∃ k : Kernel T S Empty, k.threads = [] ∧
      (∀ s, k.links.Linked (.waitHead s) (.waitTail s)) ∧ k.threadInit = .ok st.shared.kernel
  enabled st
    | .call _ _ => ¬ (st.code st.shared.kernel.cur).IsRunning
    | .start thread _ _ =>
      ¬ (st.code st.shared.kernel.cur).IsRunning ∧ thread ≠ st.shared.kernel.cur
    | .interrupt _ _ => st.shared.kernel.intr = .on
    | .step => (st.code st.shared.kernel.cur).IsRunning
  exec st
    | .call c passes => st.goOn (c.code passes) st.shared
    | .start thread prio passes =>
      { st with code := Function.update st.code thread .kernelThread }.goOn
        (.threadStart passes thread prio) st.shared
    | .interrupt handler passes =>
      let interrupted := do
        handler.code passes
        KernelCode.perform (.iretd st.shared.kernel.intr)
        st.code st.shared.kernel.cur
      st.goOn interrupted (st.shared.setKernel { st.shared.kernel with intr := .off })
    | .step =>
      match (st.code st.shared.kernel.cur).step codeSem st.shared with
      | .ok (p, s) => .ok ⟨s, Function.update st.code st.shared.kernel.cur p⟩
      | .error e => .error e

instance (st : CodeRun T S) : ∀ a, Decidable ((flagSys (T := T) (S := S)).enabled st a)
  | .call _ _ => inferInstanceAs (Decidable (¬ _))
  | .start _ _ _ => inferInstanceAs (Decidable (¬ _ ∧ _))
  | .interrupt _ _ => inferInstanceAs (Decidable (_ = _))
  | .step => inferInstanceAs (Decidable (Prog.IsRunning _))

/-! ### The flag of a thread -/

namespace CodeState

/-- What a thread finds in the flag when it does its next access. -/
def flagOf (s : CodeState T S) (t : T) : IntrStatus :=
  if s.kernel.cur = t then s.kernel.intr else .off

/-- Everything that is recorded is as it should be. -/
def Disciplined (s : CodeState T S) : Prop := ∀ e ∈ s.events, e.Disciplined

variable {s : CodeState T S} {t : T}

omit [DecidableEq S] in
theorem flagOf_cur (h : s.kernel.cur = t) : s.flagOf t = s.kernel.intr := if_pos h

omit [DecidableEq S] in
theorem flagOf_of_ne (h : s.kernel.cur ≠ t) : s.flagOf t = .off := if_neg h

omit [DecidableEq T] [DecidableEq S] in
theorem disciplined_record {e : FlagEvent} (h : e.Disciplined) (hs : s.Disciplined) :
    (s.record e).Disciplined := by
  intro e' h_mem
  rcases List.mem_append.mp h_mem with h_mem | h_mem
  · exact hs e' h_mem
  · obtain rfl := List.mem_singleton.mp h_mem
    exact h

end CodeState

/-- The environment of thread `t`. -/
def flagEnv (t : T) : Env (codeSig T S) (CodeState T S) where
  toSemantics := codeSem
  rely s s' := s'.flagOf t = s.flagOf t
  guar s s' := (s.Disciplined → s'.Disciplined) ∧ ∀ u, u ≠ t → s'.flagOf u = s.flagOf u
  allowed _ s := s.kernel.cur = t
  fails e _ := e ≠ .assertion .scheduleIntrOff

/-- The flag after an operation of the thread. -/
def KernelOp.after (f : IntrStatus) : KernelOp T S → IntrStatus
  | sti => .on
  | cli => .off
  | iretd intr => intr
  | _ => f

/-- With the flag `f`, the operation is as it should be. -/
def KernelOp.Allowed (f : IntrStatus) : KernelOp T S → Prop
  | setNext _ _ | setPrev _ _ | setValue _ _ | switchTo _ => f = .off
  | call g => g = .schedule → f = .off
  | ret _ atCall => f = atCall
  | _ => True

/-- What the operation returns that depends on the flag. -/
def KernelOp.Returns (f : IntrStatus) : (o : KernelOp T S) → o.Res → Prop
  | getEflags, r => r = f
  | call _, r => r = f
  | _, _ => True

namespace KernelOp

variable (o : KernelOp T S) (s : CodeState T S)

theorem exec_intr : (o.exec s).2.kernel.intr = o.after s.kernel.intr := by
  cases o with
  | call f =>
    simp only [exec, after]
    split <;> rfl
  | _ => rfl

/-- Only `switch_to` changes the running thread. -/
theorem exec_cur (h : ∀ t, o ≠ .switchTo t) : (o.exec s).2.kernel.cur = s.kernel.cur := by
  cases o with
  | call f =>
    simp only [exec]
    split <;> rfl
  | switchTo t => exact absurd rfl (h t)
  | _ => rfl

theorem exec_returns : o.Returns s.kernel.intr (o.exec s).1 := by
  cases o with
  | getEflags | call f => rfl
  | _ => trivial

variable {o s}

theorem exec_disciplined (h : o.Allowed s.kernel.intr) (hs : s.Disciplined) :
    (o.exec s).2.Disciplined := by
  cases o with
  | setNext elem n | setPrev elem n | setValue psem v =>
    exact CodeState.disciplined_record (e := .wrote s.kernel.intr) h hs
  | ret f atCall =>
    exact CodeState.disciplined_record (e := .returned f atCall s.kernel.intr) h hs
  | call f =>
    simp only [exec]
    split
    · next h_f => exact CodeState.disciplined_record (e := .scheduled s.kernel.intr) (h h_f) hs
    · exact hs
  | _ => exact hs

/-- **One operation** of the running thread: the flag that it finds next, and those that the
others find. -/
theorem exec_flagOf {t : T} (h : o.Allowed s.kernel.intr) (h_cur : s.kernel.cur = t) (u : T) :
    (o.exec s).2.flagOf u = if u = t then o.after s.kernel.intr else s.flagOf u := by
  by_cases h_switch : ∃ v, o = .switchTo v
  · -- the flag is clear, so that whoever runs now finds what it would have found
    obtain ⟨v, rfl⟩ := h_switch
    have h_off : s.kernel.intr = .off := h
    have h_after : ((KernelOp.switchTo v).exec s).2.flagOf u = .off :=
      ite_eq_right_iff.mpr fun _ => h_off
    have h_before : s.flagOf u = .off := ite_eq_right_iff.mpr fun _ => h_off
    have h_own : (KernelOp.switchTo (S := S) v).after s.kernel.intr = .off := h_off
    rw [h_after, h_before, h_own, ite_self]
  · have h_same := (exec_cur o s fun v h_o => h_switch ⟨v, h_o⟩).trans h_cur
    by_cases h_u : u = t
    · rw [if_pos h_u, CodeState.flagOf_cur (h_same.trans h_u.symm), exec_intr]
    · have h_ne : t ≠ u := fun h_eq => h_u h_eq.symm
      rw [if_neg h_u, CodeState.flagOf_of_ne (h_same ▸ h_ne), CodeState.flagOf_of_ne (h_cur ▸ h_ne)]

theorem exec_guar {t : T} (h : o.Allowed s.kernel.intr) (h_cur : s.kernel.cur = t) :
    (flagEnv t).guar s (o.exec s).2 := by
  refine ⟨exec_disciplined h, fun u h_u => ?_⟩
  rw [exec_flagOf h h_cur, if_neg h_u]

end KernelOp

/-! ### Rules -/

/-- From the flag `f` on, the program returns with a result and a flag as `Q` says, unless it stops;
and it does not stop in the assertion of `schedule`. -/
def Runs {α : Type} (f : IntrStatus) (p : KernelCode T S α) (Q : α → IntrStatus → Prop) : Prop :=
  ∀ (t : T) (s₀ s : CodeState T S), (flagEnv t).guar s₀ s → s.flagOf t = f →
    (flagEnv t).wp (fun a s₁ s₂ => (flagEnv t).guar s₁ s₂ ∧ Q a (s₂.flagOf t)) p s₀ s

/-- The program returns with the flag that it has found. -/
abbrev Keeps {α : Type} (f : IntrStatus) (p : KernelCode T S α) : Prop :=
  Runs f p fun _ f' => f' = f

namespace Runs

variable {α β : Type} {f : IntrStatus} {Q : α → IntrStatus → Prop}

theorem ret {a : α} (h : Q a f) : Runs f (.ret a : KernelCode T S α) Q :=
  fun _ _ _ h_guar h_flag => ⟨h_guar, h_flag ▸ h⟩

theorem stop {e : Stop} (h : e ≠ .assertion .scheduleIntrOff) :
    Runs f (.stop e : KernelCode T S α) Q :=
  fun _ _ _ _ _ => h

theorem bind {p : KernelCode T S α} {k : α → KernelCode T S β} {R : β → IntrStatus → Prop}
    (h : Runs f p Q) (h_next : ∀ a f', Q a f' → Runs f' (k a) R) : Runs f (p >>= k) R := by
  intro t s₀ s h_guar h_flag
  rw [Env.wp_bind]
  apply Env.wp_mono (h t s₀ s h_guar h_flag)
  rintro a s₁ s₂ ⟨h_guar', h_Q⟩
  exact h_next a _ h_Q t s₁ s₂ h_guar' rfl

theorem mono {p : KernelCode T S α} {R : α → IntrStatus → Prop} (h : Runs f p Q)
    (h_post : ∀ a f', Q a f' → R a f') : Runs f p R := by
  intro t s₀ s h_guar h_flag
  apply Env.wp_mono (h t s₀ s h_guar h_flag)
  rintro a s₁ s₂ ⟨h_guar', h_Q⟩
  exact ⟨h_guar', h_post a _ h_Q⟩

/-- After something that keeps the flag. -/
theorem seq {p : KernelCode T S α} {k : α → KernelCode T S β} {R : β → IntrStatus → Prop}
    (h : Keeps f p) (h_next : ∀ a, Runs f (k a) R) : Runs f (p >>= k) R :=
  h.bind fun a _ h_flag => h_flag ▸ h_next a

theorem ite {c : Prop} [Decidable c] {p q : KernelCode T S α} (h_p : c → Runs f p Q)
    (h_q : ¬ c → Runs f q Q) : Runs f (if c then p else q) Q := by
  split
  · next h => exact h_p h
  · next h => exact h_q h

theorem perform (o : KernelOp T S) (h : o.Allowed f) :
    Runs f (KernelCode.perform o) fun r f' => o.Returns f r ∧ f' = o.after f := by
  intro t s₀ s h_guar h_flag
  refine ⟨h_guar, fun s₁ h_rely h_cur => ?_⟩
  obtain rfl : s₁.kernel.intr = f := by
    rw [← h_flag, ← h_rely, CodeState.flagOf_cur h_cur]
  exact ⟨KernelOp.exec_guar h h_cur, KernelOp.exec_returns o s₁,
    (KernelOp.exec_flagOf h h_cur t).trans (if_pos rfl)⟩

end Runs

namespace KernelCode

variable {α : Type} {f : IntrStatus}

/-- An operation that does not touch the flag. -/
theorem perform_keeps (o : KernelOp T S) (h : o.Allowed f) (h_after : o.after f = f) :
    Keeps f (perform o) :=
  (Runs.perform o h).mono fun _ _ h => h.2.trans h_after

theorem assert_keeps {c : Prop} [Decidable c] {a : Assertion} (h : ¬ c → a ≠ .scheduleIntrOff) :
    Keeps f (assert c a : KernelCode T S Unit) := by
  rw [assert]
  split
  · exact .ret rfl
  · next h_c => exact .stop fun h_eq => h h_c (Stop.assertion.inj h_eq)

/-- A function that keeps the flag, with its call and its return. -/
theorem framed_keeps {g : Func} {body : KernelCode T S α} (h_off : g = .schedule → f = .off)
    (h : Keeps f body) : Keeps f (framed g body) := by
  refine (Runs.perform (.call g) h_off).bind ?_
  rintro _ f ⟨rfl, rfl⟩
  refine .seq h fun result => ?_
  exact .seq (perform_keeps (.ret g f) rfl rfl) fun _ => .ret rfl

/-! ### `interrupt.c` -/

theorem intrGetStatus_runs :
    Runs f (intrGetStatus : KernelCode T S IntrStatus) fun r f' => r = f ∧ f' = f :=
  Runs.perform .getEflags trivial

theorem intrEnable_runs :
    Runs f (intrEnable : KernelCode T S IntrStatus) fun old f' => old = f ∧ f' = .on := by
  refine intrGetStatus_runs.bind ?_
  rintro _ f ⟨rfl, rfl⟩
  split
  · next h_on => exact .ret ⟨h_on, h_on.symm⟩
  · next h_on =>
    refine (Runs.perform .sti trivial).bind ?_
    rintro _ _ ⟨-, rfl⟩
    cases f with
    | off => exact .ret ⟨rfl, rfl⟩
    | on => exact absurd rfl h_on

theorem intrDisable_runs :
    Runs f (intrDisable : KernelCode T S IntrStatus) fun old f' => old = f ∧ f' = .off := by
  refine intrGetStatus_runs.bind ?_
  rintro _ f ⟨rfl, rfl⟩
  split
  · next h_off => exact .ret ⟨h_off, h_off.symm⟩
  · next h_off =>
    refine (Runs.perform .cli trivial).bind ?_
    rintro _ _ ⟨-, rfl⟩
    cases f with
    | off => exact absurd rfl h_off
    | on => exact .ret ⟨rfl, rfl⟩

/-- The status is set, whatever it was. -/
theorem intrSetStatus_runs (status : IntrStatus) :
    Runs f (do let _ ← intrSetStatus status : KernelCode T S Unit) fun _ f' => f' = status := by
  cases status with
  | on => exact intrEnable_runs.bind fun _ _ h => .ret h.2
  | off => exact intrDisable_runs.bind fun _ _ h => .ret h.2

/-- **Disabling and restoring.** What comes in between finds the flag clear and may leave it so. -/
theorem disabled_keeps {body : IntrStatus → KernelCode T S Unit}
    (h : Runs .off (body f) fun _ f' => f' = f) : Keeps f (intrDisable >>= body) := by
  refine intrDisable_runs.bind ?_
  rintro _ _ ⟨rfl, rfl⟩
  exact h

/-! ### `list.c` -/

theorem listInsertBefore_keeps (before elem : Node T S) :
    Keeps f (listInsertBefore before elem) := by
  refine framed_keeps (fun h => by cases h) (disabled_keeps ?_)
  refine .seq (perform_keeps (.prev before) trivial rfl) fun p => ?_
  refine .seq (perform_keeps (.setNext p elem) rfl rfl) fun _ => ?_
  refine .seq (perform_keeps (.prev before) trivial rfl) fun p => ?_
  refine .seq (perform_keeps (.setPrev elem p) rfl rfl) fun _ => ?_
  refine .seq (perform_keeps (.setNext elem before) rfl rfl) fun _ => ?_
  refine .seq (perform_keeps (.setPrev before elem) rfl rfl) fun _ => ?_
  exact intrSetStatus_runs f

theorem listPush_keeps (l : ListId S) (elem : Node T S) : Keeps f (listPush l elem) :=
  .seq (perform_keeps (.next l.head) trivial rfl) fun first => listInsertBefore_keeps first elem

theorem listAppend_keeps (l : ListId S) (elem : Node T S) : Keeps f (listAppend l elem) :=
  listInsertBefore_keeps l.tail elem

theorem listRemove_keeps (elem : Node T S) : Keeps f (listRemove elem) := by
  refine framed_keeps (fun h => by cases h) (disabled_keeps ?_)
  refine .seq (perform_keeps (.prev elem) trivial rfl) fun p => ?_
  refine .seq (perform_keeps (.next elem) trivial rfl) fun n => ?_
  refine .seq (perform_keeps (.setNext p n) rfl rfl) fun _ => ?_
  refine .seq (perform_keeps (.next elem) trivial rfl) fun n => ?_
  refine .seq (perform_keeps (.prev elem) trivial rfl) fun p => ?_
  refine .seq (perform_keeps (.setPrev n p) rfl rfl) fun _ => ?_
  exact intrSetStatus_runs f

theorem listPop_keeps (l : ListId S) : Keeps f (listPop l : KernelCode T S _) := by
  refine .seq (perform_keeps (.next l.head) trivial rfl) fun result => ?_
  exact .seq (listRemove_keeps result) fun _ => .ret rfl

/-- The walk only reads, however far it goes. -/
theorem findLoop_keeps (l : ListId S) (elem : Node T S) (passes : ℕ) (e : Node T S) :
    Keeps f (findLoop l elem passes e) := by
  induction passes generalizing e with
  | zero => exact .stop Stop.noConfusion
  | succ passes ih =>
    rw [findLoop]
    split
    · exact .ret rfl
    · split
      · exact .ret rfl
      · exact .seq (perform_keeps (.next e) trivial rfl) fun e' => ih e'

theorem listFind_keeps (passes : ℕ) (l : ListId S) (elem : Node T S) :
    Keeps f (listFind passes l elem) :=
  .seq (perform_keeps (.next l.head) trivial rfl) fun e => findLoop_keeps l elem passes e

theorem listEmpty_keeps (l : ListId S) : Keeps f (listEmpty l : KernelCode T S Bool) :=
  .seq (perform_keeps (.next l.head) trivial rfl) fun _ => .ret rfl

/-! ### `thread.c` -/

theorem elem2entry_keeps (elem : Node T S) : Keeps f (elem2entry elem) := by
  cases elem with
  | general t => exact .ret rfl
  | _ => exact .stop Stop.noConfusion

theorem assertNotIn_keeps (passes : ℕ) (l : ListId S) (t : T) {a : Assertion}
    (h : a ≠ .scheduleIntrOff) : Keeps f (assertNotIn passes l t a) :=
  .seq (listFind_keeps passes l _) fun _ => assert_keeps fun _ => h

/-- `schedule` is called with the flag clear, and whoever runs next finds it clear. -/
theorem schedule_keeps (passes : ℕ) : Keeps .off (schedule passes : KernelCode T S Unit) := by
  -- `intr_get_status` returns the flag, so the assertion holds; what follows leaves it clear
  refine framed_keeps (fun _ => rfl) (intrGetStatus_runs.bind ?_)
  rintro intr f ⟨rfl, rfl⟩
  refine .seq (assert_keeps fun h => absurd rfl h) fun _ => ?_
  refine .seq (perform_keeps .runningThread trivial rfl) fun curThread => ?_
  refine .seq (perform_keeps (.status curThread) trivial rfl) fun status => ?_
  -- the second half: the next thread is taken, and the switch keeps the flag
  have h_in : Keeps .off (do
      let empty ← listEmpty .ready
      assert (empty = false) .scheduleNonEmpty
      let threadTag ← listPop .ready
      let next ← elem2entry threadTag
      perform (.setStatus next .running)
      perform (.switchTo next) : KernelCode T S Unit) := by
    refine .seq (listEmpty_keeps .ready) fun empty => ?_
    refine .seq (assert_keeps fun _ => Assertion.noConfusion) fun _ => ?_
    refine .seq (listPop_keeps .ready) fun threadTag => ?_
    refine .seq (elem2entry_keeps threadTag) fun next => ?_
    refine .seq (perform_keeps (.setStatus next .running) trivial rfl) fun _ => ?_
    exact perform_keeps (.switchTo next) rfl rfl
  refine .ite (fun _ => ?_) fun _ => ?_
  · refine .seq (assertNotIn_keeps passes .ready curThread Assertion.noConfusion) fun _ => ?_
    refine .seq (listAppend_keeps .ready (.general curThread)) fun _ => ?_
    refine .seq (perform_keeps (.priority curThread) trivial rfl) fun prio => ?_
    refine .seq (perform_keeps (.setTicks curThread prio) trivial rfl) fun _ => ?_
    exact .seq (perform_keeps (.setStatus curThread .ready) trivial rfl) fun _ => h_in
  · exact h_in

/-- The thread sleeps with the flag clear, and restores its own. -/
theorem threadBlock_keeps (passes : ℕ) (status : TaskStatus) :
    Keeps f (threadBlock passes status : KernelCode T S Unit) := by
  refine framed_keeps (fun h => by cases h) ?_
  refine .seq (assert_keeps fun _ => Assertion.noConfusion) fun _ => disabled_keeps ?_
  refine .seq (perform_keeps .runningThread trivial rfl) fun cur => ?_
  refine .seq (perform_keeps (.setStatus cur status) trivial rfl) fun _ => ?_
  exact .seq (schedule_keeps passes) fun _ => intrSetStatus_runs f

theorem threadUnblock_keeps (passes : ℕ) (pthread : T) :
    Keeps f (threadUnblock passes pthread : KernelCode T S Unit) := by
  refine framed_keeps (fun h => by cases h) (disabled_keeps ?_)
  refine .seq (perform_keeps (.status pthread) trivial rfl) fun status => ?_
  refine .seq (assert_keeps fun _ => Assertion.noConfusion) fun _ => ?_
  refine .ite (fun _ => ?_) fun _ => ?_
  · refine .seq (assertNotIn_keeps passes .ready pthread Assertion.noConfusion) fun _ => ?_
    refine .seq (listPush_keeps .ready (.general pthread)) fun _ => ?_
    refine .seq (perform_keeps (.setStatus pthread .ready) trivial rfl) fun _ => ?_
    exact intrSetStatus_runs f
  · exact intrSetStatus_runs f

theorem threadStart_keeps (passes : ℕ) (thread : T) (prio : BitVec 32) :
    Keeps f (threadStart passes thread prio : KernelCode T S Unit) := by
  refine .seq (perform_keeps (.initThread thread prio) trivial rfl) fun _ => ?_
  refine .seq (assertNotIn_keeps passes .ready thread Assertion.noConfusion) fun _ => ?_
  refine .seq (listAppend_keeps .ready (.general thread)) fun _ => ?_
  refine .seq (assertNotIn_keeps passes .all thread Assertion.noConfusion) fun _ => ?_
  exact listAppend_keeps .all (.all thread)

/-! ### `sync.c` -/

/-- However often the thread sleeps in the loop. -/
theorem downLoop_keeps (passes : ℕ) (psem : S) (left : ℕ) :
    Keeps f (downLoop passes psem left : KernelCode T S Unit) := by
  induction left with
  | zero => exact .stop Stop.noConfusion
  | succ left ih =>
    refine .seq (perform_keeps (.value psem) trivial rfl) fun value => ?_
    refine .ite (fun _ => ?_) fun _ => ?_
    · refine .seq (perform_keeps .runningThread trivial rfl) fun cur => ?_
      refine .seq (assertNotIn_keeps passes (.wait psem) cur Assertion.noConfusion) fun _ => ?_
      refine .seq (listAppend_keeps (.wait psem) (.general cur)) fun _ => ?_
      exact .seq (threadBlock_keeps passes .blocked) fun _ => ih
    · exact .ret rfl

theorem semaphoreDown_keeps (passes : ℕ) (psem : S) :
    Keeps f (semaphoreDown passes psem : KernelCode T S Unit) := by
  refine framed_keeps (fun h => by cases h) (disabled_keeps ?_)
  refine .seq (downLoop_keeps passes psem passes) fun _ => ?_
  refine .seq (perform_keeps (.value psem) trivial rfl) fun value => ?_
  refine .seq (perform_keeps (.setValue psem (value - 1)) rfl rfl) fun _ => ?_
  refine .seq (perform_keeps (.value psem) trivial rfl) fun value => ?_
  refine .seq (assert_keeps fun _ => Assertion.noConfusion) fun _ => ?_
  exact intrSetStatus_runs f

theorem semaphoreUp_keeps (passes : ℕ) (psem : S) :
    Keeps f (semaphoreUp passes psem : KernelCode T S Unit) := by
  refine framed_keeps (fun h => by cases h) (disabled_keeps ?_)
  refine .seq (perform_keeps (.value psem) trivial rfl) fun value => ?_
  refine .seq (assert_keeps fun _ => Assertion.noConfusion) fun _ => ?_
  refine .seq (listEmpty_keeps (.wait psem)) fun empty => ?_
  -- the value goes up, and the flag gets back the status it had
  have h_give : Runs .off (do
      let value : BitVec 8 ← perform (.value psem)
      perform (.setValue psem (value + 1))
      let value : BitVec 8 ← perform (.value psem)
      assert (value = 1) .upValueOne
      let _ ← intrSetStatus f : KernelCode T S Unit) fun _ f' => f' = f := by
    refine .seq (perform_keeps (.value psem) trivial rfl) fun value => ?_
    refine .seq (perform_keeps (.setValue psem (value + 1)) rfl rfl) fun _ => ?_
    refine .seq (perform_keeps (.value psem) trivial rfl) fun value => ?_
    refine .seq (assert_keeps fun _ => Assertion.noConfusion) fun _ => ?_
    exact intrSetStatus_runs f
  refine .ite (fun _ => ?_) fun _ => ?_
  · refine .seq (listPop_keeps (.wait psem)) fun elem => ?_
    refine .seq (elem2entry_keeps elem) fun waiter => ?_
    exact .seq (threadUnblock_keeps passes waiter) fun _ => h_give
  · exact h_give

theorem lockAcquire_keeps (passes : ℕ) (plock : S) :
    Keeps f (lockAcquire passes plock : KernelCode T S Unit) := by
  refine framed_keeps (fun h => by cases h) ?_
  refine .seq (perform_keeps .runningThread trivial rfl) fun cur => ?_
  refine .seq (perform_keeps (.holder plock) trivial rfl) fun holder => ?_
  refine .ite (fun _ => ?_) fun _ => ?_
  · refine .seq (semaphoreDown_keeps passes plock) fun _ => ?_
    refine .seq (perform_keeps (.setHolder plock (some cur)) trivial rfl) fun _ => ?_
    refine .seq (perform_keeps (.holderRepeatNum plock) trivial rfl) fun num => ?_
    refine .seq (assert_keeps fun _ => Assertion.noConfusion) fun _ => ?_
    exact perform_keeps (.setHolderRepeatNum plock 1) trivial rfl
  · refine .seq (perform_keeps (.holderRepeatNum plock) trivial rfl) fun num => ?_
    exact perform_keeps (.setHolderRepeatNum plock (num + 1)) trivial rfl

theorem lockRelease_keeps (passes : ℕ) (plock : S) :
    Keeps f (lockRelease passes plock : KernelCode T S Unit) := by
  refine framed_keeps (fun h => by cases h) ?_
  refine .seq (perform_keeps (.holder plock) trivial rfl) fun holder => ?_
  refine .seq (perform_keeps .runningThread trivial rfl) fun cur => ?_
  refine .seq (assert_keeps fun _ => Assertion.noConfusion) fun _ => ?_
  refine .seq (perform_keeps (.holderRepeatNum plock) trivial rfl) fun num => ?_
  refine .ite (fun _ => ?_) fun _ => ?_
  · refine .seq (perform_keeps (.holderRepeatNum plock) trivial rfl) fun num => ?_
    exact perform_keeps (.setHolderRepeatNum plock (num - 1)) trivial rfl
  · refine .seq (perform_keeps (.holderRepeatNum plock) trivial rfl) fun num => ?_
    refine .seq (assert_keeps fun _ => Assertion.noConfusion) fun _ => ?_
    refine .seq (perform_keeps (.setHolder plock none) trivial rfl) fun _ => ?_
    refine .seq (perform_keeps (.setHolderRepeatNum plock 0) trivial rfl) fun _ => ?_
    exact semaphoreUp_keeps passes plock

/-! ### `timer.c` -/

/-- The handler is entered with the flag clear, and may call `schedule`. -/
theorem intrTimerHandler_keeps (passes : ℕ) :
    Keeps .off (intrTimerHandler passes : KernelCode T S Unit) := by
  refine .seq (perform_keeps .runningThread trivial rfl) fun cur => ?_
  refine .seq (perform_keeps (.stackMagic cur) trivial rfl) fun magic => ?_
  refine .seq (assert_keeps fun _ => Assertion.noConfusion) fun _ => ?_
  refine .seq (perform_keeps (.elaspsedTicks cur) trivial rfl) fun n => ?_
  refine .seq (perform_keeps (.setElaspsedTicks cur (n + 1)) trivial rfl) fun _ => ?_
  refine .seq (perform_keeps .totalTicks trivial rfl) fun n => ?_
  refine .seq (perform_keeps (.setTotalTicks (n + 1)) trivial rfl) fun _ => ?_
  refine .seq (perform_keeps (.ticks cur) trivial rfl) fun ticks => ?_
  refine .ite (fun _ => ?_) fun _ => ?_
  · exact schedule_keeps passes
  · exact perform_keeps (.setTicks cur (ticks - 1)) trivial rfl

end KernelCode

/-! ### Handlers and calls -/

theorem KernelCall.code_runs (c : KernelCall T S) (passes : ℕ) (f : IntrStatus) :
    Runs f (c.code passes) fun _ _ => True := by
  cases c with
  | listInsertBefore before elem =>
    exact (KernelCode.listInsertBefore_keeps before elem).mono fun _ _ _ => trivial
  | listRemove elem => exact (KernelCode.listRemove_keeps elem).mono fun _ _ _ => trivial
  | threadBlock status =>
    exact (KernelCode.threadBlock_keeps passes status).mono fun _ _ _ => trivial
  | threadUnblock pthread =>
    exact (KernelCode.threadUnblock_keeps passes pthread).mono fun _ _ _ => trivial
  | semaphoreDown psem =>
    exact (KernelCode.semaphoreDown_keeps passes psem).mono fun _ _ _ => trivial
  | semaphoreUp psem => exact (KernelCode.semaphoreUp_keeps passes psem).mono fun _ _ _ => trivial
  | lockAcquire plock => exact (KernelCode.lockAcquire_keeps passes plock).mono fun _ _ _ => trivial
  | lockRelease plock => exact (KernelCode.lockRelease_keeps passes plock).mono fun _ _ _ => trivial
  | intrEnable => exact KernelCode.intrEnable_runs.bind fun _ _ _ => .ret trivial
  | intrDisable => exact KernelCode.intrDisable_runs.bind fun _ _ _ => .ret trivial

theorem KernelCall.codes_runs (cs : List (KernelCall T S)) (passes : ℕ) (f : IntrStatus) :
    Runs f (codes passes cs) fun _ _ => True := by
  induction cs generalizing f with
  | nil => exact .ret trivial
  | cons c cs ih => exact (c.code_runs passes f).bind fun _ f' _ => ih f'

theorem Handler.code_runs (h : Handler T S) (passes : ℕ) :
    Runs .off (h.code passes) fun _ _ => True := by
  cases h with
  | timer => exact (KernelCode.intrTimerHandler_keeps passes).mono fun _ _ _ => trivial
  | device calls => exact KernelCall.codes_runs calls passes .off

/-! ### All threads -/

section

variable {st st' : CodeRun T S} {t : T} {s s₁ s₂ : CodeState T S}

theorem flagEnv_rely_trans (u : T) (s₁ s₂ s₃ : CodeState T S) (h : (flagEnv u).rely s₁ s₂)
    (h' : (flagEnv u).rely s₂ s₃) : (flagEnv u).rely s₁ s₃ := Eq.trans h' h

theorem flagEnv_rely_of_guar {u : T} (h_u : u ≠ t) (h : (flagEnv t).guar s₁ s₂) :
    (flagEnv u).rely s₁ s₂ := h.2 u h_u

/-- Every thread is between two accesses, or in its own code. -/
structure FlagInv (st : CodeRun T S) : Prop where
  disciplined : st.shared.Disciplined
  rest : ∀ u, (flagEnv u).AtRest (fun _ _ => True) (st.code u) st.shared

/-- A thread that has never run finds the flag clear and sets it. -/
theorem atRest_kernelThread (h : s.flagOf t = .off) :
    (flagEnv t).AtRest (fun _ _ => True) KernelCode.kernelThread s := by
  have h_runs : Runs .off (KernelCode.kernelThread : KernelCode T S Unit) fun _ _ => True :=
    KernelCode.intrEnable_runs.bind fun _ _ _ => .ret trivial
  exact (Env.atRest_settle (h_runs t s s ⟨id, fun _ _ => rfl⟩ h) rfl).2

variable (st) in
/-- The running thread goes on with a program. -/
theorem FlagInv.goOn (h : st.shared.Disciplined)
    (h_others : ∀ u, u ≠ st.shared.kernel.cur →
      (flagEnv u).AtRest (fun _ _ => True) (st.code u) st.shared)
    {p : KernelCode T S Unit}
    (h_wp : (flagEnv st.shared.kernel.cur).wp
      (fun _ s₀ s => (flagEnv st.shared.kernel.cur).guar s₀ s ∧ True) p st.shared s)
    (h_exec : st.goOn p s = .ok st') : FlagInv st' := by
  rw [CodeRun.goOn] at h_exec
  split at h_exec
  · next p' s' h_settle =>
    obtain rfl := Except.ok.inj h_exec
    obtain ⟨h_guar, h_rest⟩ := Env.atRest_start (Q := fun _ _ _ => True) flagEnv_rely_trans
      (fun _ _ _ _ _ _ => trivial) (fun _ h_u => flagEnv_rely_of_guar h_u) h_others h_wp h_settle
    exact ⟨h_guar.1 h, h_rest⟩
  · cases h_exec

variable (st) in
/-- It does not stop in the assertion of `schedule`. -/
theorem error_of_goOn {p : KernelCode T S Unit} {Q : Unit → CodeState T S → CodeState T S → Prop}
    {e : Stop} (h_wp : (flagEnv st.shared.kernel.cur).wp Q p s₁ s)
    (h_exec : st.goOn p s = .error e) : e ≠ .assertion .scheduleIntrOff := by
  rw [CodeRun.goOn] at h_exec
  split at h_exec
  · cases h_exec
  · next e' h_settle =>
    obtain rfl := Except.error.inj h_exec
    obtain ⟨s', h_fails⟩ := Env.fails_of_settle h_wp h_settle
    exact h_fails

/-- A program that is called, in the state in which it is called. -/
theorem Runs.wp_call {p : KernelCode T S Unit} {Q : Unit → IntrStatus → Prop}
    (h : Runs (s.flagOf t) p Q) :
    (flagEnv t).wp (fun _ s₁ s₂ => (flagEnv t).guar s₁ s₂ ∧ True) p s s :=
  Env.wp_mono (h t s s ⟨id, fun _ _ => rfl⟩ rfl) fun _ _ _ h => ⟨h.1, trivial⟩

/-- The gate clears the flag, the handler runs, and `iretd` leaves the flag that the interrupted
code relies on. -/
theorem wp_interrupted (h : FlagInv st) (h_on : st.shared.kernel.intr = .on)
    (handler : Handler T S) (passes : ℕ) :
    (flagEnv st.shared.kernel.cur).wp
      (fun _ s₀ s => (flagEnv st.shared.kernel.cur).guar s₀ s ∧ True) (do
        handler.code passes
        KernelCode.perform (.iretd st.shared.kernel.intr)
        st.code st.shared.kernel.cur)
      st.shared (st.shared.setKernel { st.shared.kernel with intr := .off }) := by
  have h_gate : (flagEnv st.shared.kernel.cur).guar st.shared
      (st.shared.setKernel { st.shared.kernel with intr := .off }) :=
    KernelOp.exec_guar (o := .cli) trivial rfl
  have h_off : (st.shared.setKernel { st.shared.kernel with intr := .off }).flagOf
      st.shared.kernel.cur = .off := ite_self _
  -- the flags that `iretd` restores are those of before the gate
  have h_iretd : Runs .off (do
      handler.code passes
      KernelCode.perform (.iretd st.shared.kernel.intr) : KernelCode T S Unit)
      fun _ f' => f' = .on := by
    refine (handler.code_runs passes).bind fun _ f' _ => ?_
    exact (Runs.perform (.iretd st.shared.kernel.intr) trivial).mono fun _ _ h => h.2.trans h_on
  have h_wp := Env.wp_bind.mp (h_iretd st.shared.kernel.cur _ _ h_gate h_off)
  refine Env.wp_bind.mpr (Env.wp_mono h_wp fun _ s₁ s₂ h_next => ?_)
  refine Env.wp_bind.mpr (Env.wp_mono h_next ?_)
  rintro _ s₃ s₄ ⟨h_guar, h_flag⟩
  -- then the interrupted code goes on where it was
  refine (h.rest st.shared.kernel.cur).wp (flagEnv_rely_trans _) (fun _ _ _ _ _ => trivial)
    (fun o s e h_exec => by cases h_exec) ?_ h_guar
  exact h_flag.trans ((CodeState.flagOf_cur rfl).trans h_on).symm

/-- **Every step** keeps all threads in order. -/
theorem FlagInv.step {a : CodeAct T S} (h : FlagInv st) (h_step : flagSys.Step st a st') :
    FlagInv st' := by
  obtain ⟨h_enabled, h_exec⟩ := h_step
  cases a with
  | call c passes =>
    exact .goOn st h.disciplined (fun u _ => h.rest u)
      (Runs.wp_call (c.code_runs passes _)) h_exec
  | start thread prio passes =>
    refine .goOn { st with code := Function.update st.code thread .kernelThread }
      h.disciplined (fun u _ => ?_)
      (Runs.wp_call (KernelCode.threadStart_keeps passes thread prio)) h_exec
    change (flagEnv u).AtRest _ (Function.update st.code thread KernelCode.kernelThread u) _
    -- the new thread will start in `kernel_thread`, which expects the flag clear
    by_cases h_u : u = thread
    · subst h_u
      rw [Function.update_self]
      exact atRest_kernelThread (CodeState.flagOf_of_ne h_enabled.2.symm)
    · rw [Function.update_of_ne h_u]
      exact h.rest u
  | interrupt handler passes =>
    exact .goOn st h.disciplined (fun u _ => h.rest u)
      (wp_interrupted h h_enabled handler passes) h_exec
  | step =>
    simp only [flagSys] at h_exec h_enabled
    split at h_exec
    · next p' s' h_next =>
      obtain rfl := Except.ok.inj h_exec
      cases h_code : st.code st.shared.kernel.cur with
      | op o k =>
        -- one operation of the running thread; the others rely on what it guarantees
        obtain ⟨h_guar, h_rest⟩ := Env.atRest_step (Q := fun _ _ _ => True) flagEnv_rely_trans
          (fun _ _ _ _ _ _ => trivial) (fun _ h_u => flagEnv_rely_of_guar h_u) h.rest rfl h_code
          rfl h_next
        exact ⟨h_guar.1 h.disciplined, h_rest⟩
      | ret a => rw [h_code] at h_enabled; exact h_enabled.elim
      | mark m p => rw [h_code] at h_enabled; exact h_enabled.elim
      | stop e => rw [h_code] at h_enabled; exact h_enabled.elim
    · cases h_exec

/-- No step fails the assertion of `schedule`. -/
theorem FlagInv.not_faults {a : CodeAct T S} (h : FlagInv st) :
    ¬ flagSys.Faults st a (.assertion .scheduleIntrOff) := by
  rintro ⟨h_enabled, h_exec⟩
  cases a with
  | call c passes => exact error_of_goOn st (Runs.wp_call (c.code_runs passes _)) h_exec rfl
  | start thread prio passes =>
    exact error_of_goOn { st with code := Function.update st.code thread .kernelThread }
      (Runs.wp_call (KernelCode.threadStart_keeps passes thread prio)) h_exec rfl
  | interrupt handler passes =>
    exact error_of_goOn st (wp_interrupted h h_enabled handler passes) h_exec rfl
  | step =>
    simp only [flagSys] at h_exec h_enabled
    split at h_exec
    · cases h_exec
    · next e h_next =>
      obtain rfl := Except.error.inj h_exec
      cases h_code : st.code st.shared.kernel.cur with
      | op o k =>
        have h_rest := h.rest st.shared.kernel.cur
        rw [h_code] at h_rest h_next
        obtain ⟨s', h_fails⟩ := Env.fails_of_settle (h_rest st.shared rfl rfl) h_next
        exact h_fails rfl
      | ret a => rw [h_code] at h_enabled; exact h_enabled.elim
      | mark m p => rw [h_code] at h_enabled; exact h_enabled.elim
      | stop e => rw [h_code] at h_enabled; exact h_enabled.elim

theorem flagInv_of_reachable (h : flagSys.Reachable st) : FlagInv st := by
  refine h.invariant (fun st h_init => ?_) fun st a st' h_inv h_step => h_inv.step h_step
  obtain ⟨h_code, h_events, -⟩ := h_init
  refine ⟨?_, fun u => ?_⟩
  · intro e h_e
    rw [h_events] at h_e
    cases h_e
  · rw [h_code]
    trivial

/-- **The interrupt flag.** However the threads and the interrupts interleave, every call that has
returned did so with the flag that it had found, every call of `schedule` and every write to a
list or to the value of a semaphore was made with the flag clear, and the assertion of `schedule`
does not fail. -/
theorem flag_discipline (st : CodeRun T S) (h : flagSys.Reachable st) :
    (∀ e ∈ st.shared.events, e.Disciplined) ∧
      ∀ a, ¬ flagSys.Faults st a (.assertion .scheduleIntrOff) :=
  ⟨(flagInv_of_reachable h).disciplined, fun _ => (flagInv_of_reachable h).not_faults⟩

end

/-- The state that `thread_init` leaves, with all locks free. -/
def bootCode (cur : T) (value : S → BitVec 8) : CodeRun T S where
  shared := ⟨(bootState cur value).kernel, fun _ => none, fun _ => 0, []⟩
  code _ := .ret ()

theorem bootCode_init (cur : T) (value : S → BitVec 8) :
    flagSys.init (bootCode cur value : CodeRun T S) := by
  obtain ⟨-, -, -, k, h_threads, -, -, h_wait, h_ok⟩ := bootState_init (W := Empty) cur value
  exact ⟨rfl, rfl, k, h_threads, h_wait, h_ok⟩

end

/-- The main thread starts another one, with a timer interrupt in between, and sleeps in
`semaphore_down`. The other thread wakes it and sleeps itself, and `semaphore_down` returns with
interrupts enabled, as it was called. -/
theorem flag_discipline_two : ∃ st : CodeRun Bool Unit,
    .returned .semaphoreDown .on .on ∈ st.shared.events ∧
      (∀ e ∈ st.shared.events, e.Disciplined) ∧
      ∀ a, ¬ flagSys.Faults st a (.assertion .scheduleIntrOff) := by
  have h_play : ((flagSys.play (bootCode false fun _ => 0 : CodeRun Bool Unit)
      ([.call .intrEnable 3] ++ List.replicate 2 .step
        ++ [.start true 31 3] ++ List.replicate 2 .step ++ [.interrupt .timer 3]
        ++ List.replicate 35 .step ++ [.call (.semaphoreDown ()) 3] ++ List.replicate 40 .step
        ++ [.call (.semaphoreUp ()) 3] ++ List.replicate 40 .step
        ++ [.call (.threadBlock .blocked) 3] ++ List.replicate 33 .step)).any fun st =>
      decide (.returned .semaphoreDown .on .on ∈ st.shared.events)) = true := by
    decide +kernel
  obtain ⟨st, h_st, h_mem⟩ := (Option.any_eq_true _ _).mp h_play
  have h_reach := (Machine.Reachable.init (bootCode_init false fun _ : Unit => 0)).play _ h_st
  exact ⟨st, of_decide_eq_true h_mem, flag_discipline st h_reach⟩

end ToiletOS
