import Mathlib.Data.List.Basic
import Mathlib.Tactic.TypeStar

/-!
# Waiting lines

The first one in the line is served next. Who joins it joins at the end, or overtakes everybody and
joins at the front.

Being overtaken is the only thing that can hold somebody up: whoever is not served yet is ahead by
one place for each one served since, and behind by one for each one who joined at the front
(`Line.place`).
-/

namespace ToiletOS

/-- What happens to a line. -/
inductive LineOp (α : Type*)
  | front (a : α)
  | back (a : α)
  | serve

variable {α : Type*}

/-- Those who are waiting, and those who have been served, the last one first. -/
structure Line (α : Type*) where
  waiting : List α
  served : List α

namespace Line

/-- One event. Nobody is served from an empty line. -/
def step (l : Line α) : LineOp α → Option (Line α)
  | .front a => some ⟨a :: l.waiting, l.served⟩
  | .back a => some ⟨l.waiting ++ [a], l.served⟩
  | .serve =>
    match l.waiting with
    | [] => none
    | a :: rest => some ⟨rest, a :: l.served⟩

/-- Some events, one after another. -/
def run (l : Line α) : List (LineOp α) → Option (Line α)
  | [] => some l
  | op :: ops => (l.step op).bind fun m => m.run ops

/-- How many join at the front. -/
def fronts (ops : List (LineOp α)) : ℕ := ops.countP fun op => match op with
  | .front _ => true
  | _ => false

@[simp] theorem fronts_nil : fronts ([] : List (LineOp α)) = 0 := rfl

@[simp] theorem fronts_front (a : α) (ops : List (LineOp α)) :
    fronts (.front a :: ops) = fronts ops + 1 := List.countP_cons_of_pos rfl

@[simp] theorem fronts_back (a : α) (ops : List (LineOp α)) :
    fronts (.back a :: ops) = fronts ops := List.countP_cons_of_neg (by simp)

@[simp] theorem fronts_serve (ops : List (LineOp α)) : fronts (.serve :: ops) = fronts ops :=
  List.countP_cons_of_neg (by simp)

variable {l l' : Line α} {ops : List (LineOp α)} {i : ℕ} {x : α}

/-- Whoever has been served stays so. -/
theorem served_mono (h : l.run ops = some l') (hx : x ∈ l.served) : x ∈ l'.served := by
  induction ops generalizing l with
  | nil => exact Option.some.inj h ▸ hx
  | cons op ops ih =>
    obtain ⟨m, h_step, h_run⟩ := Option.bind_eq_some_iff.mp h
    refine ih h_run ?_
    cases op with
    | front a | back a => exact Option.some.inj h_step ▸ hx
    | serve =>
      obtain ⟨_ | ⟨a, rest⟩, served⟩ := l
      · cases h_step
      · exact Option.some.inj h_step ▸ List.mem_cons_of_mem a hx

/-- **Places in a line.** Whoever is at place `i` has been served, or is at a place ahead of which
there is one less for each one served since, and one more for each one who joined at the front. -/
theorem place (h : l.run ops = some l') (hx : l.waiting[i]? = some x) :
    x ∈ l'.served ∨
      ∃ j, l'.waiting[j]? = some x ∧ j + l'.served.length = i + l.served.length + fronts ops := by
  induction ops generalizing l i with
  | nil =>
    obtain rfl : l = l' := Option.some.inj h
    exact Or.inr ⟨i, hx, rfl⟩
  | cons op ops ih =>
    obtain ⟨m, h_step, h_run⟩ := Option.bind_eq_some_iff.mp h
    cases op with
    | front a =>
      obtain rfl : ⟨a :: l.waiting, l.served⟩ = m := Option.some.inj h_step
      refine (ih h_run (i := i + 1) hx).imp_right fun ⟨j, h_j, h_eq⟩ => ⟨j, h_j, ?_⟩
      rw [fronts_front]
      dsimp only at h_eq
      omega
    | back a =>
      obtain rfl : ⟨l.waiting ++ [a], l.served⟩ = m := Option.some.inj h_step
      have h_lt : i < l.waiting.length := (List.getElem?_eq_some_iff.mp hx).1
      have h_at : (l.waiting ++ [a])[i]? = some x := by rw [List.getElem?_append_left h_lt, hx]
      rw [fronts_back]
      exact ih (l := ⟨l.waiting ++ [a], l.served⟩) h_run h_at
    | serve =>
      obtain ⟨_ | ⟨a, rest⟩, served⟩ := l
      · cases h_step
      obtain rfl : ⟨rest, a :: served⟩ = m := Option.some.inj h_step
      cases i with
      | zero =>
        -- he is the one who is served
        obtain rfl : a = x := by simpa using hx
        exact Or.inl (served_mono h_run List.mem_cons_self)
      | succ i =>
        refine (ih h_run (i := i) hx).imp_right fun ⟨j, h_j, h_eq⟩ => ⟨j, h_j, ?_⟩
        rw [fronts_serve]
        simp only [List.length_cons] at h_eq ⊢
        omega

end Line
end ToiletOS
