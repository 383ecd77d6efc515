import Mathlib.Data.Finset.Card
import Mathlib.Data.Finset.Range
import Mathlib.Data.PEquiv
import Mathlib.Logic.Function.Basic

/-!
# Growing a partial bijection

A resource that is handed out in units of one kind, each backed by a unit of another, is
a partial bijection: no two units share a backing. `PEquiv.extend` adds a
pair whose two sides are both new, and `PEquiv.card_domain` says that the two kinds
are always handed out in the same number.
-/

namespace PEquiv

variable {α β : Type} [DecidableEq α] [DecidableEq β]

/-- The partial bijection with one more pair. -/
def extend (e : α ≃. β) (a : α) (b : β) (ha : e a = none) (hb : e.symm b = none) : α ≃. β where
  toFun := Function.update e a (some b)
  invFun := Function.update e.symm b (some a)
  inv x y := by
    by_cases hx : x = a <;> by_cases hy : y = b
    · subst hx hy
      simp
    · subst hx
      have h_ne : e.symm y ≠ some x := fun h => by
        rw [eq_some_iff] at h
        cases (ha.symm.trans h)
      simpa [Function.update_of_ne hy, Ne.symm hy] using h_ne
    · subst hy
      have h_ne : e x ≠ some y := fun h => by
        rw [← eq_some_iff] at h
        cases (hb.symm.trans h)
      simpa [Function.update_of_ne hx, Ne.symm hx] using h_ne
    · rw [Function.update_of_ne hx, Function.update_of_ne hy]
      exact e.eq_some_iff

variable {e : α ≃. β} {a : α} {b : β} (ha : e a = none) (hb : e.symm b = none)

theorem extend_apply (x : α) : e.extend a b ha hb x = if x = a then some b else e x :=
  Function.update_apply ..

theorem extend_symm_apply (y : β) :
    (e.extend a b ha hb).symm y = if y = b then some a else e.symm y :=
  Function.update_apply ..

/-- A partial bijection has as many first as second sides. -/
theorem card_domain (e : ℕ ≃. ℕ) {n : ℕ} (h_first : ∀ i f, e i = some f → i < n)
    (h_second : ∀ i f, e i = some f → f < n) :
    ((Finset.range n).filter fun i => (e i).isSome).card
      = ((Finset.range n).filter fun f => (e.symm f).isSome).card := by
  apply Finset.card_bij fun i hi => (e i).get (Finset.mem_filter.mp hi).2
  · intro i hi
    have h_some : e i = some ((e i).get (Finset.mem_filter.mp hi).2) := (Option.some_get _).symm
    rw [Finset.mem_filter, Finset.mem_range, (e.eq_some_iff).mpr h_some]
    exact ⟨h_second _ _ h_some, rfl⟩
  · intro i hi j hj h_eq
    have h_i : e i = some ((e i).get (Finset.mem_filter.mp hi).2) := (Option.some_get _).symm
    have h_j : e j = some ((e j).get (Finset.mem_filter.mp hj).2) := (Option.some_get _).symm
    exact e.inj h_i (h_eq ▸ h_j)
  · intro f hf
    -- every `f` that is taken is the image of some `i`
    obtain ⟨i, h_i⟩ := Option.isSome_iff_exists.mp (Finset.mem_filter.mp hf).2
    have h_f : e i = some f := e.eq_some_iff.mp h_i
    refine ⟨i, Finset.mem_filter.mpr ⟨Finset.mem_range.mpr (h_first _ _ h_f), by rw [h_f]; rfl⟩, ?_⟩
    simp [h_f]

end PEquiv
