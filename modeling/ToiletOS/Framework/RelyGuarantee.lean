import Mathlib.Logic.Function.Basic
import ToiletOS.Framework.Program

/-!
# Rely and guarantee

What a program does among other threads is judged under an **environment**
(`Env`): the others take the state along `rely` before each operation, the program
itself takes it along `guar`, and an operation is done only where it is `allowed`.

`Env.wp E Q p s₀ s` is the weakest condition under which `p` ends in `Q` or stops in
an error that `fails` admits. It has two states because marks take effect together
with the operation before them: `s₀` is the state before the last operation, `s`
the present one, and the guarantee is about the pair, when the next operation is
reached. The rules are `wp_bind` and `wp_mono`.

* `atRest_step` — threads whose guarantees imply the relies of the others can take
  steps in any order, and each of them stays in its condition;
* `ofAlone` — the environment without others, where `wp` is about `Prog.run`
  (`run_of_wp`). A specification proved for every environment holds for both.
-/

namespace ToiletOS

variable {S : Signature} {σ T α β : Type}

/-- What a thread may count on and has to keep. -/
structure Env (S : Signature) (σ : Type) extends Semantics S σ where
  /-- What the other threads may do between two operations. -/
  rely : σ → σ → Prop
  /-- What the thread itself may do in one. -/
  guar : σ → σ → Prop
  /-- Where an operation may be done. -/
  allowed : S.Op → σ → Prop
  /-- The errors the thread may stop in. -/
  fails : S.Err → σ → Prop

namespace Env

variable (E : Env S σ)

/-- The weakest precondition. -/
def wp (Q : α → σ → σ → Prop) : Prog S α → σ → σ → Prop
  | .ret a, s₀, s => Q a s₀ s
  | .mark m p, s₀, s => wp Q p s₀ (E.note m s)
  | .stop e, _, s => E.fails e s
  | .op o k, s₀, s => E.guar s₀ s ∧ ∀ s₁, E.rely s s₁ → E.allowed o s₁ →
      match E.exec o s₁ with
      | .ok (r, s₂) => wp Q (k r) s₁ s₂
      | .error e => E.fails e s₁

variable {E} {Q : α → σ → σ → Prop} {s₀ s : σ}

@[simp] theorem wp_ret (a : α) : E.wp Q (.ret a) s₀ s ↔ Q a s₀ s := Iff.rfl

@[simp] theorem wp_mark (m : S.Mark) (p : Prog S α) :
    E.wp Q (.mark m p) s₀ s ↔ E.wp Q p s₀ (E.note m s) := Iff.rfl

@[simp] theorem wp_stop (e : S.Err) : E.wp Q (.stop e) s₀ s ↔ E.fails e s := Iff.rfl

theorem wp_bind {p : Prog S α} {f : α → Prog S β} {R : β → σ → σ → Prop} :
    E.wp R (p >>= f) s₀ s ↔ E.wp (fun a s₁ s₂ => E.wp R (f a) s₁ s₂) p s₀ s := by
  induction p generalizing s₀ s with
  | ret a => rfl
  | op o k ih =>
    simp only [Prog.op_bind, wp]
    refine and_congr_right fun _ => forall_congr' fun s₁ => imp_congr_right fun _ =>
      imp_congr_right fun _ => ?_
    cases E.exec o s₁ with
    | error e => rfl
    | ok r => exact ih r.1
  | mark m p ih => exact ih
  | stop e => rfl

theorem wp_mono {Q' : α → σ → σ → Prop} {p : Prog S α} (h : E.wp Q p s₀ s)
    (h_post : ∀ a s₁ s₂, Q a s₁ s₂ → Q' a s₁ s₂) : E.wp Q' p s₀ s := by
  induction p generalizing s₀ s with
  | ret a => exact h_post a s₀ s h
  | op o k ih =>
    refine ⟨h.1, fun s₁ h_rely h_allowed => ?_⟩
    have h_step := h.2 s₁ h_rely h_allowed
    cases h_exec : E.exec o s₁ with
    | error e => rw [h_exec] at h_step; exact h_step
    | ok r => rw [h_exec] at h_step; exact ih r.1 h_step
  | mark m p ih => exact ih h
  | stop e => exact h

/-! ### Running alone -/

/-- Nobody else is there. -/
def ofAlone (M : Semantics S σ) (fails : S.Err → σ → Prop) : Env S σ where
  toSemantics := M
  rely := Eq
  guar _ _ := True
  allowed _ _ := True
  fails := fails

/-- In an environment without others, `wp` is about the run of the program. -/
theorem run_of_wp {M : Semantics S σ} {fails : S.Err → σ → Prop} {p : Prog S α}
    {Q : α → σ → Prop} (h : (ofAlone M fails).wp (fun a _ s => Q a s) p s₀ s) :
    (∃ a s', p.run M s = .ok (a, s') ∧ Q a s') ∨
      ∃ e s', p.run M s = .error e ∧ fails e s' := by
  induction p generalizing s₀ s with
  | ret a => exact .inl ⟨a, s, rfl, h⟩
  | op o k ih =>
    have h_step := h.2 s rfl trivial
    change match M.exec o s with | .ok (r, s₂) => _ | .error e => _ at h_step
    simp only [Prog.run]
    cases h_exec : M.exec o s with
    | error e => rw [h_exec] at h_step; exact .inr ⟨e, s, rfl, h_step⟩
    | ok r => rw [h_exec] at h_step; exact ih r.1 h_step
  | mark m p ih => exact ih h
  | stop e => exact .inr ⟨e, s, rfl, h⟩

/-! ### Threads among each other -/

/-- The condition of a thread between two of its steps: it is about to do an
operation, or it has returned with a result in `Q`. -/
def AtRest (E : Env S σ) (Q : α → σ → Prop) : Prog S α → σ → Prop
  | .ret a, s => Q a s
  | .op o k, s => ∀ s₁, E.rely s s₁ → E.allowed o s₁ →
      match E.exec o s₁ with
      | .ok (r, s₂) => E.wp (fun a s₀ s => E.guar s₀ s ∧ Q a s) (k r) s₁ s₂
      | .error _ => True
  | .mark _ _, _ => False
  | .stop _, _ => False

/-- When the marks have taken effect, the guarantee is met and the thread is at
rest. -/
theorem atRest_settle {Q : α → σ → Prop} {p p' : Prog S α} {s' : σ}
    (h : E.wp (fun a s₀ s => E.guar s₀ s ∧ Q a s) p s₀ s)
    (h_settle : p.settle E.toSemantics s = .ok (p', s')) :
    E.guar s₀ s' ∧ AtRest E Q p' s' := by
  induction p generalizing s with
  | ret a =>
    obtain ⟨rfl, rfl⟩ : .ret a = p' ∧ s = s' := by simpa [Prog.settle] using h_settle
    exact h
  | op o k =>
    obtain ⟨rfl, rfl⟩ : .op o k = p' ∧ s = s' := by simpa [Prog.settle] using h_settle
    refine ⟨h.1, fun s₁ h_rely h_allowed => ?_⟩
    have h_step := h.2 s₁ h_rely h_allowed
    split <;> simp_all
  | mark m p ih => exact ih h h_settle
  | stop e => cases h_settle

/-- A program that stops before its next operation stops in an error that is admitted. -/
theorem fails_of_settle {Q : α → σ → σ → Prop} {p : Prog S α} {e : S.Err} (h : E.wp Q p s₀ s)
    (h_settle : p.settle E.toSemantics s = .error e) : ∃ s', E.fails e s' := by
  induction p generalizing s with
  | ret a => cases h_settle
  | op o k => cases h_settle
  | mark m p ih => exact ih h h_settle
  | stop e' =>
    obtain rfl : e' = e := Except.error.inj h_settle
    exact ⟨s, h⟩

/-- A thread at rest stays so while the others move. -/
theorem AtRest.of_rely {Q : α → σ → Prop} {p : Prog S α} {s s' : σ}
    (h_trans : ∀ s₁ s₂ s₃, E.rely s₁ s₂ → E.rely s₂ s₃ → E.rely s₁ s₃)
    (h_stable : ∀ a s₁ s₂, E.rely s₁ s₂ → Q a s₁ → Q a s₂)
    (h : AtRest E Q p s) (h_rely : E.rely s s') : AtRest E Q p s' := by
  cases p with
  | ret a => exact h_stable a s s' h_rely h
  | op o k => exact fun s₁ h₁ => h s₁ (h_trans _ _ _ h_rely h₁)
  | mark m p => exact h
  | stop e => exact h

/-- A step of a thread at rest meets its guarantee and leaves it at rest. -/
theorem AtRest.step {Q : α → σ → Prop} {o : S.Op} {k : S.Res o → Prog S α} {p' : Prog S α}
    {s' : σ} (h : AtRest E Q (.op o k) s) (h_refl : E.rely s s) (h_allowed : E.allowed o s)
    (h_step : (Prog.op o k).step E.toSemantics s = .ok (p', s')) :
    E.guar s s' ∧ AtRest E Q p' s' := by
  have h_next := h s h_refl h_allowed
  simp only [Prog.step] at h_step
  cases h_exec : E.exec o s with
  | error e => rw [h_exec] at h_step; cases h_step
  | ok r =>
    rw [h_exec] at h_step h_next
    exact atRest_settle h_next h_step

/-- A thread at rest goes on after something that it may rely on. -/
theorem AtRest.wp {Q : α → σ → Prop} {p : Prog S α} {s' : σ}
    (h_trans : ∀ s₁ s₂ s₃, E.rely s₁ s₂ → E.rely s₂ s₃ → E.rely s₁ s₃)
    (h_stable : ∀ a s₁ s₂, E.rely s₁ s₂ → Q a s₁ → Q a s₂)
    (h_fails : ∀ o s e, E.exec o s = .error e → E.fails e s)
    (h : AtRest E Q p s) (h_rely : E.rely s s') (h_guar : E.guar s₀ s') :
    E.wp (fun a s₀ s => E.guar s₀ s ∧ Q a s) p s₀ s' := by
  cases p with
  | ret a => exact ⟨h_guar, h_stable a s s' h_rely h⟩
  | op o k =>
    refine ⟨h_guar, fun s₁ h_rely₁ h_allowed => ?_⟩
    -- the steps of the others before the operation add up to one
    have h_step := h s₁ (h_trans _ _ _ h_rely h_rely₁) h_allowed
    cases h_exec : E.exec o s₁ with
    | error e => exact h_fails o s₁ e h_exec
    | ok r =>
      rw [h_exec] at h_step
      exact h_step
  | mark m p => exact h.elim
  | stop e => exact h.elim

section Parallel

variable [DecidableEq T] {E : T → Env S σ} {Q : T → α → σ → Prop} {prog : T → Prog S α} {t : T}
  {p p' : Prog S α} {s₁ s' : σ}

/-- When the guarantee of each thread implies the relies of the others, what one of them
does leaves the others at rest. -/
theorem atRest_update
    (h_trans : ∀ u s₁ s₂ s₃, (E u).rely s₁ s₂ → (E u).rely s₂ s₃ → (E u).rely s₁ s₃)
    (h_stable : ∀ u a s₁ s₂, (E u).rely s₁ s₂ → Q u a s₁ → Q u a s₂)
    (h_guar : ∀ u, u ≠ t → (E t).guar s s' → (E u).rely s s')
    (h : ∀ u, u ≠ t → AtRest (E u) (Q u) (prog u) s)
    (h_t : (E t).guar s s' ∧ AtRest (E t) (Q t) p' s') (u : T) :
    AtRest (E u) (Q u) (Function.update prog t p' u) s' := by
  by_cases h_u : u = t
  · subst h_u
    rw [Function.update_self]
    exact h_t.2
  · rw [Function.update_of_ne h_u]
    exact (h u h_u).of_rely (h_trans u) (h_stable u) (h_guar u h_u h_t.1)

/-- **Parallel composition.** A step of one thread leaves all of them at rest. -/
theorem atRest_step {o : S.Op} {k : S.Res o → Prog S α}
    (h_trans : ∀ u s₁ s₂ s₃, (E u).rely s₁ s₂ → (E u).rely s₂ s₃ → (E u).rely s₁ s₃)
    (h_stable : ∀ u a s₁ s₂, (E u).rely s₁ s₂ → Q u a s₁ → Q u a s₂)
    (h_guar : ∀ u, u ≠ t → (E t).guar s s' → (E u).rely s s')
    (h : ∀ u, AtRest (E u) (Q u) (prog u) s) (h_refl : (E t).rely s s)
    (h_prog : prog t = .op o k) (h_allowed : (E t).allowed o s)
    (h_step : (prog t).step (E t).toSemantics s = .ok (p', s')) :
    (E t).guar s s' ∧ ∀ u, AtRest (E u) (Q u) (Function.update prog t p' u) s' := by
  have h_t := h t
  rw [h_prog] at h_t h_step
  have h_next := h_t.step h_refl h_allowed h_step
  exact ⟨h_next.1, atRest_update h_trans h_stable h_guar (fun u _ => h u) h_next⟩

/-- A thread that starts a program, in a state `s₁` that it has prepared, leaves all
of them at rest. -/
theorem atRest_start
    (h_trans : ∀ u s₁ s₂ s₃, (E u).rely s₁ s₂ → (E u).rely s₂ s₃ → (E u).rely s₁ s₃)
    (h_stable : ∀ u a s₁ s₂, (E u).rely s₁ s₂ → Q u a s₁ → Q u a s₂)
    (h_guar : ∀ u, u ≠ t → (E t).guar s s' → (E u).rely s s')
    (h : ∀ u, u ≠ t → AtRest (E u) (Q u) (prog u) s)
    (h_wp : (E t).wp (fun a s₀ s => (E t).guar s₀ s ∧ Q t a s) p s s₁)
    (h_settle : p.settle (E t).toSemantics s₁ = .ok (p', s')) :
    (E t).guar s s' ∧ ∀ u, AtRest (E u) (Q u) (Function.update prog t p' u) s' := by
  have h_next := atRest_settle h_wp h_settle
  exact ⟨h_next.1, atRest_update h_trans h_stable h_guar h h_next⟩

end Parallel

end Env
end ToiletOS
