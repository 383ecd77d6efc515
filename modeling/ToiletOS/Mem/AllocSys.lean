import Mathlib.Data.Fintype.Basic
import ToiletOS.Mem.NoAliasing

/-!
# Threads that allocate pages among each other

Any number of threads call `malloc_page(PF_KERNEL, n)` with interrupts enabled, and the timer may
hand the processor to another thread between any two accesses to memory. `allocSys` is this
machine: its steps are that a thread which is in no call makes one, and that a thread does
the next access of its call.

The code takes no lock, so the scan of a bitmap and the store that takes what it has found
can be apart. The marks keep a record of it. `window` is the bitmap in which a scan of
the thread has found a byte that is not full, until the thread has stored its last bit
there or given up, and `ranges` and `frames` list what the calls have reserved and taken.

A call is named by its thread and its number. A call during which no other thread takes
a step does what it does alone (`malloc_alone`).
-/

namespace ToiletOS

/-- The `k`-th call of a thread. -/
abbrev CallId (T : Type) : Type := T × ℕ

/-- What the threads share, and the record of their calls. -/
structure AllocState (T : Type) where
  mem : ByteMemory
  calls : T → ℕ
  window : T → Option Bitmap
  ranges : List (CallId T × BitVec 32 × BitVec 32)
  frames : List (CallId T × BitVec 32)

/-- The memory, the calls in progress, and the ranges that calls have returned. -/
structure AllocRun (T : Type) where
  shared : AllocState T
  prog : T → Kern (BitVec 32)
  pages : T → BitVec 32
  returned : List (CallId T × BitVec 32 × BitVec 32)

/-- A thread calls `malloc_page`, or does its next access. -/
inductive AllocAct (T : Type)
  | call (t : T) (n : BitVec 32)
  | step (t : T)
  deriving DecidableEq, Repr

section

variable {T : Type} [DecidableEq T]

/-- Write to memory. -/
def AllocState.setMem (s : AllocState T) (m : ByteMemory) : AllocState T := { s with mem := m }

/-- Make a mark of thread `t`. -/
def AllocState.note (t : T) : AllocMark → AllocState T → AllocState T
  | .found btmp, s => { s with window := Function.update s.window t (some btmp) }
  | .lost, s => { s with window := Function.update s.window t none }
  | .range vaddr n, s =>
    { s with
      window := Function.update s.window t none
      ranges := s.ranges ++ [((t, s.calls t), vaddr, n)] }
  | .frame a, s =>
    { s with
      window := Function.update s.window t none
      frames := s.frames ++ [((t, s.calls t), a)] }

/-- Kernel code of thread `t`. -/
def allocSem (t : T) : Semantics kernelSig (AllocState T) where
  exec o s := (o.exec s.mem).map fun r => (r.1, s.setMem r.2)
  note := AllocState.note t

/-- The result of a call that has come to its end and succeeded. -/
def finished (t : T) (s : AllocState T) (n : BitVec 32) :
    Kern (BitVec 32) → List (CallId T × BitVec 32 × BitVec 32)
  | .ret vaddr => if vaddr = null then [] else [((t, s.calls t), vaddr, n)]
  | _ => []

/-- Concurrent calls of `malloc_page(PF_KERNEL, n)`. -/
def allocSys (allMemory : BitVec 32) : Machine (AllocRun T) (AllocAct T) Halt where
  init st := Started allMemory st.shared.mem ∧ st.shared.window = (fun _ => none) ∧
    st.shared.ranges = [] ∧ st.shared.frames = [] ∧ st.returned = [] ∧
    st.prog = fun _ => .ret null
  enabled st a := match a with
    | .call t _ => ¬ (st.prog t).IsRunning
    | .step t => (st.prog t).IsRunning
  exec st a := match a with
    | .call t n =>
      let shared := { st.shared with
        calls := Function.update st.shared.calls t (st.shared.calls t + 1) }
      match (mallocPage (memPools allMemory) .pfKernel n).settle (allocSem t) shared with
      | .ok (p, shared) => .ok
          { shared := shared
            prog := Function.update st.prog t p
            pages := Function.update st.pages t n
            returned := st.returned }
      | .error e => .error e
    | .step t =>
      match (st.prog t).step (allocSem t) st.shared with
      | .ok (p, shared) => .ok
          { shared := shared
            prog := Function.update st.prog t p
            pages := st.pages
            returned := st.returned ++ finished t shared (st.pages t) p }
      | .error e => .error e

instance (allMemory : BitVec 32) (st : AllocRun T) (a : AllocAct T) :
    Decidable ((allocSys allMemory).enabled st a) :=
  match a with
  | .call t _ => inferInstanceAs (Decidable (¬ (st.prog t).IsRunning))
  | .step t => inferInstanceAs (Decidable (st.prog t).IsRunning)

/-- No page is handed out twice: the ranges that different calls have returned are disjoint,
and no frame is taken by two calls. -/
structure HandsOutOnce (st : AllocRun T) : Prop where
  ranges : ∀ c a c' b, (c, a) ∈ st.returned → (c', b) ∈ st.returned → c ≠ c' → RangesDisjoint a b
  frames : ∀ c a c' b, (c, a) ∈ st.shared.frames → (c', b) ∈ st.shared.frames → c ≠ c' → a ≠ b

/-- The address is that of a byte of the bitmap. -/
def Bitmap.Covers (btmp : Bitmap) (a : BitVec 32) : Prop := a - btmp.bits < btmp.btmpBytesLen

/-- A store to the byte at `a` by thread `t` is within a bitmap, and no other thread is
between finding a byte of this bitmap and its own last store there. -/
def MayStore (pools : MemPools) (t : T) (s : AllocState T) (a : BitVec 32) : Prop :=
  ∃ btmp ∈ [pools.kernelPool.poolBitmap, pools.kernelAddr.vaddrBitmap],
    btmp.Covers a ∧ ∀ u, u ≠ t → s.window u ≠ some btmp

/-- Where an access may be done. -/
def MayAccess (pools : MemPools) (t : T) (s : AllocState T) : Access → Prop
  | .store8 a _ => MayStore pools t s a
  | _ => True

/-- No step stores a bit into a bitmap while another thread has found a byte there and not
yet stored its last bit. -/
def Undisturbed (pools : MemPools) (st : AllocRun T) : AllocAct T → Prop
  | .call _ _ => True
  | .step t => match st.prog t with
    | .op o _ => MayAccess pools t st.shared o
    | _ => True

instance [Fintype T] (pools : MemPools) (t : T) (s : AllocState T) (a : BitVec 32) :
    Decidable (MayStore pools t s a) := by
  unfold MayStore Bitmap.Covers
  infer_instance

instance [Fintype T] (pools : MemPools) (t : T) (s : AllocState T) (o : Access) :
    Decidable (MayAccess pools t s o) := by
  unfold MayAccess
  split <;> infer_instance

instance [Fintype T] (pools : MemPools) (st : AllocRun T) (a : AllocAct T) :
    Decidable (Undisturbed pools st a) := by
  unfold Undisturbed
  split
  · infer_instance
  · split <;> infer_instance

/-! ### A call that nobody disturbs -/

/-- The record of the calls aside, code does to memory what it does alone. -/
theorem sees_allocSem (t : T) : kernelSem.Sees (allocSem t) AllocState.mem where
  exec o s r x h_exec := by
    have h_mem : o.exec s.mem = .ok (r, x) := h_exec
    refine ⟨s.setMem x, ?_, rfl⟩
    simp only [allocSem, h_mem]
    rfl
  note m s := by cases m <;> rfl

/-- The accesses of a thread, one after another, are a run. -/
theorem run_of_steps (allMemory : BitVec 32) {t : T} {p p' : Kern (BitVec 32)}
    {s s' : AllocState T} (h : Prog.Steps (allocSem t) p s p' s') (st : AllocRun T)
    (h_prog : st.prog t = p) (h_shared : st.shared = s) :
    ∃ tr st', (allocSys allMemory).Run st tr st' ∧ (∀ a ∈ tr, a.1 = .step t) ∧
      st'.prog t = p' ∧ st'.shared = s' := by
  induction h generalizing st with
  | refl p s => exact ⟨[], st, .nil st, by simp, h_prog, h_shared⟩
  | @cons p p₁ p' s s₁ s' h_running h_step _ ih =>
    subst h_prog h_shared
    let st₁ : AllocRun T :=
      { shared := s₁
        prog := Function.update st.prog t p₁
        pages := st.pages
        returned := st.returned ++ finished t s₁ (st.pages t) p₁ }
    have h_access : (allocSys allMemory).Step st (.step t) st₁ := by
      refine ⟨h_running, ?_⟩
      simp only [allocSys, h_step, st₁]
    obtain ⟨tr, st', h_run, h_steps, h_end⟩ :=
      ih st₁ (Function.update_self t p₁ st.prog) rfl
    exact ⟨_, st', .cons h_access h_run, List.forall_mem_cons.mpr ⟨rfl, h_steps⟩, h_end⟩

/-- **A call runs alone if nobody disturbs it.** What `malloc_page` does to memory
when it runs alone, a call does in the machine when no other thread takes a step before
it has come to its end. -/
theorem malloc_alone (allMemory : BitVec 32) {st : AllocRun T} {t : T} {n vaddr : BitVec 32}
    {m : ByteMemory} (h_idle : ¬ (st.prog t).IsRunning)
    (h_run : (mallocPage (memPools allMemory) .pfKernel n).run kernelSem st.shared.mem
      = .ok (vaddr, m)) :
    ∃ tr st', (allocSys allMemory).Run st tr st' ∧
      (∀ a ∈ tr, a.1 = .call t n ∨ a.1 = .step t) ∧
      st'.prog t = .ret vaddr ∧ st'.shared.mem = m := by
  -- the call is counted before its first access
  let s : AllocState T := { st.shared with
    calls := Function.update st.shared.calls t (st.shared.calls t + 1) }
  obtain ⟨s', h_alone, h_mem⟩ := Prog.run_of_sees (s := s) (sees_allocSem t) h_run
  obtain ⟨p, s₁, h_settle⟩ := Prog.exists_settle_of_run h_alone
  let st₁ : AllocRun T :=
    { shared := s₁
      prog := Function.update st.prog t p
      pages := Function.update st.pages t n
      returned := st.returned }
  have h_call : (allocSys allMemory).Step st (.call t n) st₁ := by
    refine ⟨h_idle, ?_⟩
    simp only [allocSys]
    rw [h_settle]
  obtain ⟨tr, st', h_tr, h_steps, h_prog, h_shared⟩ :=
    run_of_steps allMemory (Prog.steps_of_run h_settle h_alone) st₁
      (Function.update_self t p st.prog) rfl
  refine ⟨_, st', .cons h_call h_tr, ?_, h_prog, ?_⟩
  · exact List.forall_mem_cons.mpr ⟨.inl rfl, fun a h_a => .inr (h_steps a h_a)⟩
  · rw [h_shared, h_mem]

end

end ToiletOS
