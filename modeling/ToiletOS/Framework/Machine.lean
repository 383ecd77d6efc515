import Mathlib.Data.List.Basic
import Mathlib.Tactic.TypeStar

/-!
# Machines, runs and guarded runs

A **machine** is the shape every concurrent model of this development takes: a
set of initial states, an enabling relation between states and actions, and an
executable effect which either produces the next state or stops in an error (a
failed assertion). Keeping the effect a function and the enabling a relation
lets the same definition be proved about and be run on a concrete schedule.

* `Machine.Reachable` — the states of some finite run, with its induction rule
  `Reachable.invariant`;
* `Machine.Faults` — an enabled action whose effect is an error; a machine
  "raises no assertion" when no reachable state faults;
* `Machine.Run` — a run together with the actions and states it passes through;
* `Machine.guard` — the same machine restricted to the steps that meet a
  condition. A claim about "every run whose steps all meet the condition" is a
  claim about the reachable states of the guarded machine;
* `Machine.play` — the run of a given schedule, used to exhibit states.

`safe_iff_guarded` is the rule for exact conditions: if the condition keeps an
invariant that implies the property, and every step that leaves the property
intact meets the condition, then a run is safe throughout exactly when all its
steps meet the condition.
-/

namespace ToiletOS

/-- A machine over states `σ`, actions `α` and errors `ε`. -/
structure Machine (σ α ε : Type) where
  /-- The states a run may start from. -/
  init : σ → Prop
  /-- The actions the environment may choose in a state. -/
  enabled : σ → α → Prop
  /-- The effect of an action. -/
  exec : σ → α → Except ε σ

namespace Machine

variable {σ α ε : Type}

/-- One step of a machine: an enabled action that runs through. -/
def Step (M : Machine σ α ε) (s : σ) (a : α) (s' : σ) : Prop :=
  M.enabled s a ∧ M.exec s a = .ok s'

/-- An enabled action ends in the error `e`. -/
def Faults (M : Machine σ α ε) (s : σ) (a : α) (e : ε) : Prop :=
  M.enabled s a ∧ M.exec s a = .error e

/-- The states of the finite runs of a machine. -/
inductive Reachable (M : Machine σ α ε) : σ → Prop
  | init {s : σ} : M.init s → Reachable M s
  | step {s s' : σ} {a : α} : Reachable M s → M.Step s a s' → Reachable M s'

/-- **Invariant rule.** What holds initially and is preserved by every step
holds in every reachable state. -/
theorem Reachable.invariant {M : Machine σ α ε} {P : σ → Prop}
    (h_init : ∀ s, M.init s → P s)
    (h_step : ∀ s a s', P s → M.Step s a s' → P s')
    {s : σ} (h : M.Reachable s) : P s := by
  induction h with
  | init h0 => exact h_init _ h0
  | step _ hs ih => exact h_step _ _ _ ih hs

/-! ### Runs -/

/-- A run from a state to a state, with the actions taken and the states they
lead to. -/
inductive Run (M : Machine σ α ε) : σ → List (α × σ) → σ → Prop
  | nil (s : σ) : Run M s [] s
  | cons {s s' s'' : σ} {a : α} {tr : List (α × σ)} :
      M.Step s a s' → Run M s' tr s'' → Run M s ((a, s') :: tr) s''

theorem Run.reachable {M : Machine σ α ε} {s s' : σ} {tr : List (α × σ)}
    (h : M.Run s tr s') (hs : M.Reachable s) : M.Reachable s' := by
  induction h with
  | nil => exact hs
  | cons h1 _ ih => exact ih (hs.step h1)

/-- A run may be continued. -/
theorem Run.trans {M : Machine σ α ε} {s s' s'' : σ} {tr tr' : List (α × σ)}
    (h : M.Run s tr s') (h' : M.Run s' tr' s'') : M.Run s (tr ++ tr') s'' := by
  induction h with
  | nil => exact h'
  | cons h1 _ ih => exact .cons h1 (ih h')

/-! ### Guarded machines -/

/-- The machine restricted to the steps that meet a condition `G` on the state
before the step and the action. -/
def guard (M : Machine σ α ε) (G : σ → α → Prop) : Machine σ α ε where
  init := M.init
  enabled s a := M.enabled s a ∧ G s a
  exec := M.exec

variable {M : Machine σ α ε} {G : σ → α → Prop}

instance [∀ s a, Decidable (M.enabled s a)] [∀ s a, Decidable (G s a)] (s : σ) (a : α) :
    Decidable ((M.guard G).enabled s a) :=
  inferInstanceAs (Decidable (M.enabled s a ∧ G s a))

theorem guard_step_iff {s s' : σ} {a : α} :
    (M.guard G).Step s a s' ↔ M.Step s a s' ∧ G s a := by
  unfold Step guard
  tauto

theorem Step.of_guard {s s' : σ} {a : α} (h : (M.guard G).Step s a s') : M.Step s a s' :=
  (guard_step_iff.mp h).1

/-- A guarded run is a run. -/
theorem Reachable.of_guard {s : σ} (h : (M.guard G).Reachable s) : M.Reachable s := by
  induction h with
  | init h0 => exact .init h0
  | step _ hs ih => exact ih.step hs.of_guard

theorem Run.of_guard {s s' : σ} {tr : List (α × σ)} (h : (M.guard G).Run s tr s') :
    M.Run s tr s' := by
  induction h with
  | nil => exact .nil _
  | cons h1 _ ih => exact .cons h1.of_guard ih

/-- **Exact conditions.** Let `I` hold initially, be preserved by the steps that
meet `G`, and imply the property `P`; and let every step from an `I`-state into
a `P`-state meet `G`. Then along a run `P` holds in every state exactly when
every step meets `G`. -/
theorem safe_iff_guarded {I P : σ → Prop}
    (h_prop : ∀ s, I s → P s)
    (h_step : ∀ s a s', I s → M.Step s a s' → G s a → I s')
    (h_exact : ∀ s a s', I s → M.Step s a s' → P s' → G s a)
    {s s' : σ} {tr : List (α × σ)} (hI : I s) (h : M.Run s tr s') :
    (∀ x ∈ tr, P x.2) ↔ (M.guard G).Run s tr s' := by
  induction h with
  | nil s => exact ⟨fun _ => .nil s, fun _ x hx => absurd hx List.not_mem_nil⟩
  | @cons s s₁ s₂ a tr h1 _ ih =>
    constructor
    · intro hP
      -- the step reached a `P`-state, so it met `G`
      have hG : G s a := h_exact _ _ _ hI h1 (hP (a, s₁) List.mem_cons_self)
      have hI' := h_step _ _ _ hI h1 hG
      exact .cons (guard_step_iff.mpr ⟨h1, hG⟩)
        ((ih hI').mp fun x hx => hP x (List.mem_cons_of_mem _ hx))
    · intro hrun
      cases hrun with
      | cons hg hrest =>
        have hI' := h_step _ _ _ hI h1 (guard_step_iff.mp hg).2
        intro x hx
        rcases List.mem_cons.mp hx with rfl | hx
        · exact h_prop _ hI'
        · exact (ih hI').mpr hrest x hx

/-! ### Playing a schedule -/

/-- The state a schedule leads to, if each of its actions is enabled in turn and
none of them faults. -/
def play (M : Machine σ α ε) [∀ s a, Decidable (M.enabled s a)] : σ → List α → Option σ
  | s, [] => some s
  | s, a :: as =>
    if M.enabled s a then
      match M.exec s a with
      | .ok s' => play M s' as
      | .error _ => none
    else none

/-- A state that a schedule leads to is reachable. -/
theorem Reachable.play [∀ s a, Decidable (M.enabled s a)] {s s' : σ}
    (hs : M.Reachable s) (as : List α) (h : M.play s as = some s') : M.Reachable s' := by
  induction as generalizing s with
  | nil => exact Option.some.inj h ▸ hs
  | cons a as ih =>
    unfold Machine.play at h
    split at h
    · next he =>
      split at h
      · next s₁ hx => exact ih (hs.step ⟨he, hx⟩) h
      · exact absurd h (by simp)
    · exact absurd h (by simp)

/-- A schedule is played by a run. -/
theorem Run.of_play [∀ s a, Decidable (M.enabled s a)] {s s' : σ} (as : List α)
    (h : M.play s as = some s') : ∃ tr, M.Run s tr s' ∧ tr.map Prod.fst = as := by
  induction as generalizing s with
  | nil => exact ⟨[], Option.some.inj h ▸ .nil s, rfl⟩
  | cons a as ih =>
    unfold Machine.play at h
    split at h
    · next he =>
      split at h
      · next s₁ hx =>
        obtain ⟨tr, h_run, h_as⟩ := ih h
        exact ⟨(a, s₁) :: tr, .cons ⟨he, hx⟩ h_run, by rw [List.map_cons, h_as]⟩
      · exact absurd h (by simp)
    · exact absurd h (by simp)

end Machine
end ToiletOS
