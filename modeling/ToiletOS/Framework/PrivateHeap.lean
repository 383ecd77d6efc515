import Mathlib.Data.List.Induction
import Mathlib.Data.Set.Basic
import Mathlib.Logic.Function.Basic

/-!
# Heaps

What a heap promises to those who use it: a block that is handed out is nobody else's and holds
zeros, and a place of it keeps what was stored there last. `HeapRun` says so one event at a time,
over any addresses and values. What a load returns in the middle of a long history then does not
depend on anything but the stores to the same place (`HeapRun.load_eq`).
-/

namespace ToiletOS

/-- What happens to a heap. -/
inductive HeapEvent (A V : Type*)
  | alloc (block : Set A)
  | store (a : A) (v : V)
  | load (a : A) (v : V)

variable {A V : Type*} [DecidableEq A]

/-- The value that was stored last, or `zero` if none was. -/
def lastStored (zero : V) (a : A) (evs : List (HeapEvent A V)) : V :=
  evs.foldl (fun v ev => match ev with
    | .store b w => if b = a then w else v
    | .alloc _ | .load _ _ => v) zero

/-- The events so far, and what the places that have been handed out hold. -/
inductive HeapRun (zero : V) : List (HeapEvent A V) → (A → Option V) → Prop
  | nil : HeapRun zero [] fun _ => none
  | alloc {evs : List (HeapEvent A V)} {h h' : A → Option V} {block : Set A} :
      HeapRun zero evs h → (∀ a ∈ block, h a = none ∧ h' a = some zero) →
      (∀ a ∉ block, h' a = h a) → HeapRun zero (evs ++ [.alloc block]) h'
  | store {evs : List (HeapEvent A V)} {h : A → Option V} {a : A} (v : V) :
      HeapRun zero evs h → (h a).isSome →
      HeapRun zero (evs ++ [.store a v]) (Function.update h a (some v))
  | load {evs : List (HeapEvent A V)} {h : A → Option V} {a : A} {v : V} :
      HeapRun zero evs h → h a = some v → HeapRun zero (evs ++ [.load a v]) h

variable {zero : V} {evs pre post : List (HeapEvent A V)} {h : A → Option V} {a : A} {v : V}

section LastStored

variable {b : A} {w : V} {block : Set A}

@[simp] theorem lastStored_alloc :
    lastStored zero a (evs ++ [.alloc block]) = lastStored zero a evs := by
  simp [lastStored]

@[simp] theorem lastStored_load :
    lastStored zero a (evs ++ [.load b w]) = lastStored zero a evs := by
  simp [lastStored]

@[simp] theorem lastStored_store_self : lastStored zero a (evs ++ [.store a w]) = w := by
  simp [lastStored]

theorem lastStored_store_of_ne (h_ne : b ≠ a) :
    lastStored zero a (evs ++ [.store b w]) = lastStored zero a evs := by
  simp [lastStored, h_ne]

end LastStored

namespace HeapRun

/-- A place has been handed out and holds what was stored there last, or nothing has been stored
there. -/
theorem value (h_run : HeapRun zero evs h) (a : A) :
    h a = some (lastStored zero a evs) ∨ h a = none ∧ lastStored zero a evs = zero := by
  induction h_run with
  | nil => exact Or.inr ⟨rfl, rfl⟩
  | @alloc evs h h' block _ h_new h_old ih =>
    rw [lastStored_alloc]
    by_cases h_a : a ∈ block
    · -- nothing has been stored there, because nobody had it
      obtain ⟨h_none, h_zero⟩ := h_new a h_a
      rcases ih with h_some | ⟨-, h_last⟩
      · rw [h_none] at h_some
        cases h_some
      · exact Or.inl (h_zero.trans (congrArg some h_last.symm))
    · rwa [h_old a h_a]
  | @store evs h b v _ h_own ih =>
    by_cases h_b : b = a
    · subst h_b
      exact Or.inl (by simp)
    · rw [Function.update_of_ne (Ne.symm h_b), lastStored_store_of_ne h_b]
      exact ih
  | load _ _ ih =>
    rw [lastStored_load]
    exact ih

/-- What comes before an event is a run too. -/
theorem of_append (h_run : HeapRun zero (pre ++ post) h) : ∃ h', HeapRun zero pre h' := by
  induction post using List.reverseRecOn generalizing h with
  | nil => exact ⟨h, by simpa using h_run⟩
  | append_singleton post ev ih =>
    rw [← List.append_assoc] at h_run
    generalize h_evs : pre ++ post ++ [ev] = evs at h_run
    cases h_run with
    | nil => simp at h_evs
    | alloc h_before | store _ h_before | load h_before =>
      obtain ⟨rfl, -⟩ := List.append_inj' h_evs rfl
      exact ih h_before

/-- **Memory keeps what is stored.** A load returns what was stored last at the same place, and zero
if nothing was. -/
theorem load_eq (h_run : HeapRun zero (pre ++ .load a v :: post) h) :
    v = lastStored zero a pre := by
  rw [← List.singleton_append, ← List.append_assoc] at h_run
  obtain ⟨h', h_load⟩ := h_run.of_append
  generalize h_evs : pre ++ [HeapEvent.load a v] = evs at h_load
  cases h_load with
  | nil => simp at h_evs
  | alloc h_before | store _ h_before =>
    obtain ⟨-, h_ev⟩ := List.append_inj' h_evs rfl
    simp at h_ev
  | load h_before h_some =>
    obtain ⟨rfl, h_ev⟩ := List.append_inj' h_evs rfl
    obtain ⟨rfl, rfl⟩ : a = _ ∧ v = _ := by simpa using h_ev
    rcases h_before.value a with h_value | ⟨h_none, -⟩
    · exact Option.some.inj (h_some.symm.trans h_value)
    · rw [h_none] at h_some
      cases h_some

end HeapRun
end ToiletOS
