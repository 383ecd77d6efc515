import Mathlib.Data.List.Basic
import Mathlib.Tactic.TypeStar

/-!
# Programs as trees of operations

A **program** is what a thread still has to do: return, do an operation and go on
with its result, or stop in an error. Code with loops and branches is written in
`do` notation and becomes such a tree, on which two readings agree:

* `Prog.run` — the program runs alone, from a state to its result and a state;
* `Prog.step` — one operation is done and the rest of the program is left, so that
  other threads may take their steps between any two operations.

A **mark** records something in a ghost part of the state. It is no step of its
own: the marks that follow an operation take effect together with it
(`Prog.settle`).

The operations, their results, the marks and the errors are parameters
(`Signature`), and so is what they mean (`Semantics`). A semantics may see a part of the
state of another one (`Semantics.Sees`).
-/

namespace ToiletOS

/-- The operations a program is built from, with the type of their results, its
marks and its errors. -/
structure Signature where
  Op : Type
  Res : Op → Type
  Mark : Type
  Err : Type

/-- A program that returns an `α`. -/
inductive Prog (S : Signature) (α : Type) : Type
  | ret (a : α)
  | op (o : S.Op) (k : S.Res o → Prog S α)
  | mark (m : S.Mark) (p : Prog S α)
  | stop (e : S.Err)

/-- What operations and marks do to a state. -/
structure Semantics (S : Signature) (σ : Type) where
  exec : (o : S.Op) → σ → Except S.Err (S.Res o × σ)
  note : S.Mark → σ → σ

namespace Prog

variable {S : Signature} {σ α β γ : Type}

/-- Sequential composition. -/
def bind : Prog S α → (α → Prog S β) → Prog S β
  | ret a, f => f a
  | op o k, f => op o fun r => (k r).bind f
  | mark m p, f => mark m (p.bind f)
  | stop e, _ => stop e

instance : Monad (Prog S) where
  pure := ret
  bind := bind

/-- Do an operation and return its result. -/
def perform (o : S.Op) : Prog S (S.Res o) := op o ret

/-- Make a mark. -/
def record (m : S.Mark) : Prog S Unit := mark m (ret ())

@[simp] theorem pure_eq (a : α) : (pure a : Prog S α) = ret a := rfl

@[simp] theorem ret_bind (a : α) (f : α → Prog S β) : (ret a >>= f) = f a := rfl

@[simp] theorem op_bind (o : S.Op) (k : S.Res o → Prog S α) (f : α → Prog S β) :
    (op o k >>= f) = op o fun r => k r >>= f := rfl

@[simp] theorem mark_bind (m : S.Mark) (p : Prog S α) (f : α → Prog S β) :
    (mark m p >>= f) = mark m (p >>= f) := rfl

@[simp] theorem stop_bind (e : S.Err) (f : α → Prog S β) : (stop e >>= f) = stop e := rfl

theorem bind_assoc (p : Prog S α) (f : α → Prog S β) (g : β → Prog S γ) :
    (p >>= f) >>= g = p >>= fun a => f a >>= g := by
  induction p with
  | ret a => rfl
  | op o k ih => simp only [op_bind, ih]
  | mark m p ih => simp only [mark_bind, ih]
  | stop e => rfl

/-! ### Running alone -/

variable (M : Semantics S σ)

/-- The program runs with nobody else around. -/
def run : Prog S α → σ → Except S.Err (α × σ)
  | ret a, s => .ok (a, s)
  | op o k, s =>
    match M.exec o s with
    | .ok (r, s') => (k r).run s'
    | .error e => .error e
  | mark m p, s => p.run (M.note m s)
  | stop e, _ => .error e

variable {M} in
theorem run_op {o : S.Op} {k : S.Res o → Prog S α} {s s' : σ} {r : S.Res o}
    (h : M.exec o s = .ok (r, s')) : (op o k).run M s = (k r).run M s' := by
  simp only [run, h]

theorem run_bind (p : Prog S α) (f : α → Prog S β) (s : σ) :
    (p >>= f).run M s = (p.run M s).bind fun r => (f r.1).run M r.2 := by
  induction p generalizing s with
  | ret a => rfl
  | op o k ih =>
    simp only [op_bind, run]
    cases M.exec o s with
    | error e => rfl
    | ok r => exact ih r.1 r.2
  | mark m p ih => exact ih (M.note m s)
  | stop e => rfl

theorem run_bind_of_ok {p : Prog S α} {s s' : σ} {a : α} (h : p.run M s = .ok (a, s'))
    (f : α → Prog S β) : (p >>= f).run M s = (f a).run M s' := by
  rw [run_bind, h]
  rfl

/-! ### Taking steps -/

/-- The marks up to the next operation take effect. A program that is left with an
error stops here. -/
def settle : Prog S α → σ → Except S.Err (Prog S α × σ)
  | mark m p, s => p.settle (M.note m s)
  | stop e, _ => .error e
  | ret a, s => .ok (ret a, s)
  | op o k, s => .ok (op o k, s)

/-- One operation, with the marks that follow it. -/
def step : Prog S α → σ → Except S.Err (Prog S α × σ)
  | op o k, s =>
    match M.exec o s with
    | .ok (r, s') => (k r).settle M s'
    | .error e => .error e
  | p, s => p.settle M s

/-- The program has an operation left to do. -/
def IsRunning : Prog S α → Prop
  | op _ _ => True
  | _ => False

instance : DecidablePred (IsRunning (S := S) (α := α))
  | ret _ => inferInstanceAs (Decidable False)
  | op _ _ => inferInstanceAs (Decidable True)
  | mark _ _ => inferInstanceAs (Decidable False)
  | stop _ => inferInstanceAs (Decidable False)

/-- Steps taken one after another, up to the end. -/
inductive Steps : Prog S α → σ → Prog S α → σ → Prop
  | refl (p : Prog S α) (s : σ) : Steps p s p s
  | cons {p p' p'' : Prog S α} {s s' s'' : σ} :
      p.IsRunning → p.step M s = .ok (p', s') → Steps p' s' p'' s'' → Steps p s p'' s''

variable {M}

/-- What every mark respects, the marks up to the next operation respect. -/
theorem settle_rel {R : σ → σ → Prop} (h_refl : ∀ s, R s s)
    (h_trans : ∀ s₁ s₂ s₃, R s₁ s₂ → R s₂ s₃ → R s₁ s₃) (h_note : ∀ m s, R s (M.note m s))
    {p p' : Prog S α} {s s' : σ} (h : p.settle M s = .ok (p', s')) : R s s' := by
  induction p generalizing s with
  | mark m p ih => exact h_trans _ _ _ (h_note m s) (ih h)
  | stop e => cases h
  | ret a =>
    obtain ⟨-, rfl⟩ : ret a = p' ∧ s = s' := by simpa [settle] using h
    exact h_refl s
  | op o k =>
    obtain ⟨-, rfl⟩ : op o k = p' ∧ s = s' := by simpa [settle] using h
    exact h_refl s

/-- What every operation and every mark respects, a step respects. -/
theorem step_rel {R : σ → σ → Prop} (h_refl : ∀ s, R s s)
    (h_trans : ∀ s₁ s₂ s₃, R s₁ s₂ → R s₂ s₃ → R s₁ s₃) (h_note : ∀ m s, R s (M.note m s))
    (h_exec : ∀ o s r s', M.exec o s = .ok (r, s') → R s s')
    {p p' : Prog S α} {s s' : σ} (h : p.step M s = .ok (p', s')) : R s s' := by
  cases p with
  | op o k =>
    simp only [step] at h
    cases h_op : M.exec o s with
    | error e => rw [h_op] at h; cases h
    | ok r =>
      rw [h_op] at h
      exact h_trans _ _ _ (h_exec o s r.1 r.2 h_op) (settle_rel h_refl h_trans h_note h)
  | mark m p => exact settle_rel h_refl h_trans h_note h
  | stop e => exact settle_rel h_refl h_trans h_note h
  | ret a => exact settle_rel h_refl h_trans h_note h

/-- A program that runs through has no error before its first operation. -/
theorem exists_settle_of_run {p : Prog S α} {s s' : σ} {a : α} (h : p.run M s = .ok (a, s')) :
    ∃ p' s₁, p.settle M s = .ok (p', s₁) := by
  induction p generalizing s with
  | ret b => exact ⟨_, _, rfl⟩
  | op o k => exact ⟨_, _, rfl⟩
  | mark m p ih => exact ih h
  | stop e => cases h

/-- **Both readings agree.** A program that runs alone from `s` to a result can be
taken there in steps. -/
theorem steps_of_run {p p' : Prog S α} {s s₁ s' : σ} {a : α}
    (h_settle : p.settle M s = .ok (p', s₁)) (h : p.run M s = .ok (a, s')) :
    Steps M p' s₁ (ret a) s' := by
  induction p generalizing s s₁ p' with
  | ret b =>
    obtain ⟨rfl, rfl⟩ : ret b = p' ∧ s = s₁ := by simpa [settle] using h_settle
    obtain ⟨rfl, rfl⟩ : b = a ∧ s = s' := by simpa [run] using h
    exact .refl _ _
  | op o k ih =>
    obtain ⟨rfl, rfl⟩ : op o k = p' ∧ s = s₁ := by simpa [settle] using h_settle
    simp only [run] at h
    cases h_exec : M.exec o s with
    | error e => rw [h_exec] at h; cases h
    | ok r =>
      rw [h_exec] at h
      -- what is left after the operation runs to a result too, so it settles
      obtain ⟨p₁, s₁, h_next⟩ := exists_settle_of_run h
      have h_step : (op o k).step M s = .ok (p₁, s₁) := by simp only [step, h_exec, h_next]
      exact .cons trivial h_step (ih r.1 h_next h)
  | mark m p ih => exact ih h_settle h
  | stop e => cases h

end Prog

/-! ### Part of a state -/

/-- `M` is `N` on the part of the state that `view` shows. -/
structure Semantics.Sees {S : Signature} {σ τ : Type} (M : Semantics S σ) (N : Semantics S τ)
    (view : τ → σ) : Prop where
  exec : ∀ o s r x, M.exec o (view s) = .ok (r, x) →
    ∃ s', N.exec o s = .ok (r, s') ∧ view s' = x
  note : ∀ m s, view (N.note m s) = M.note m (view s)

/-- A program that runs through on the part of the state that is seen runs through on the
whole state, to the same result. -/
theorem Prog.run_of_sees {S : Signature} {σ τ α : Type} {M : Semantics S σ} {N : Semantics S τ}
    {view : τ → σ} (h : M.Sees N view) {p : Prog S α} {s : τ} {a : α} {x : σ}
    (h_run : p.run M (view s) = .ok (a, x)) : ∃ s', p.run N s = .ok (a, s') ∧ view s' = x := by
  induction p generalizing s with
  | ret b =>
    obtain ⟨rfl, rfl⟩ : b = a ∧ view s = x := by simpa [run] using h_run
    exact ⟨s, rfl, rfl⟩
  | op o k ih =>
    simp only [run] at h_run
    cases h_exec : M.exec o (view s) with
    | error e => rw [h_exec] at h_run; cases h_run
    | ok r =>
      rw [h_exec] at h_run
      obtain ⟨s₁, h_op, h_view⟩ := h.exec o s r.1 r.2 h_exec
      have h_rest : (k r.1).run M (view s₁) = .ok (a, x) := by rw [h_view]; exact h_run
      rw [run_op h_op]
      exact ih r.1 h_rest
  | mark m p ih =>
    -- a mark is one of the part that is seen too
    simp only [run, ← h.note] at h_run
    exact ih h_run
  | stop e => cases h_run

end ToiletOS
