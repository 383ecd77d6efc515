import Mathlib.Data.List.Rotate
import Mathlib.Data.Nat.Count

/-!
# Round robin

The members of a queue take turns. The first one is the **holder**; unit after unit is charged to
it, and when it has used the length of its turn it goes to the end of the queue (`Turns.step`).

The units of a whole round stand in the word in which each member is repeated as often as its turn
is long (`turnWord`), and the run goes around this word for ever: each unit rotates what is ahead
(`Turns.ahead_step`). So the holder after `j` units is the letter at the place `j` modulo the length
of the word (`Turns.holder_iterate`), after a whole round everything is as before (`Turns.round`),
and every member has been charged for exactly its turn (`count_word`, `count_rounds`).
-/

namespace ToiletOS

variable {α : Type*}

/-- The queue, with the holder first, and how many units of its turn the holder has used. -/
@[ext]
structure Turns (α : Type*) where
  queue : List α
  used : ℕ

/-- The units of a round, in order. -/
def turnWord (len : α → ℕ) (queue : List α) : List α :=
  queue.flatMap fun a => List.replicate (len a) a

theorem turnWord_cons {len : α → ℕ} {a : α} {rest : List α} :
    turnWord len (a :: rest) = List.replicate (len a) a ++ turnWord len rest := List.flatMap_cons

theorem turnWord_append {len : α → ℕ} (q q' : List α) :
    turnWord len (q ++ q') = turnWord len q ++ turnWord len q' := List.flatMap_append

theorem mem_of_mem_turnWord {len : α → ℕ} {queue : List α} {a : α} (h : a ∈ turnWord len queue) :
    a ∈ queue := by
  obtain ⟨b, h_b, h_a⟩ := List.mem_flatMap.mp h
  rw [List.eq_of_mem_replicate h_a]
  exact h_b

namespace Turns

variable (len : α → ℕ)

/-- One unit is charged to the holder. -/
def step (s : Turns α) : Turns α :=
  match s.queue with
  | [] => s
  | a :: rest => if s.used + 1 = len a then ⟨rest ++ [a], 0⟩ else ⟨a :: rest, s.used + 1⟩

/-- The units that are ahead: the rest of the turn, those of the others, and the turn once more
up to where it is. -/
def ahead (s : Turns α) : List α :=
  match s.queue with
  | [] => []
  | a :: rest => List.replicate (len a - s.used) a ++ turnWord len rest ++ List.replicate s.used a

/-- The holder has not used up its turn. -/
def InTurn (s : Turns α) : Prop := ∃ a rest, s.queue = a :: rest ∧ s.used < len a

variable {len} {a : α} {rest queue : List α} {s : Turns α} {u n : ℕ}

theorem step_inside (h : u + 1 < len a) : step len ⟨a :: rest, u⟩ = ⟨a :: rest, u + 1⟩ :=
  if_neg (Nat.ne_of_lt h)

theorem step_last (h : u + 1 = len a) : step len ⟨a :: rest, u⟩ = ⟨rest ++ [a], 0⟩ := if_pos h

theorem ahead_mk : ahead len ⟨a :: rest, u⟩ =
    List.replicate (len a - u) a ++ turnWord len rest ++ List.replicate u a := rfl

theorem ahead_start : ahead len ⟨queue, 0⟩ = turnWord len queue := by
  cases queue with
  | nil => rfl
  | cons a rest =>
    rw [turnWord_cons, ahead_mk, Nat.sub_zero, List.replicate_zero, List.append_nil]

/-- The next unit is one of the holder. -/
theorem ahead_cons (h : u < len a) :
    ahead len ⟨a :: rest, u⟩ =
      a :: (List.replicate (len a - (u + 1)) a ++ turnWord len rest ++ List.replicate u a) := by
  have h_left : len a - u = (len a - (u + 1)) + 1 := by omega
  rw [ahead_mk, h_left, List.replicate_succ, List.cons_append, List.cons_append]

theorem InTurn.step (h_len : ∀ a, 0 < len a) (h : s.InTurn len) : (s.step len).InTurn len := by
  obtain ⟨a, rest, h_queue, h_used⟩ := h
  obtain ⟨queue, u⟩ := s
  obtain rfl : queue = a :: rest := h_queue
  rcases Nat.lt_or_eq_of_le (Nat.succ_le_of_lt h_used) with h_lt | h_eq
  · rw [step_inside h_lt]
    exact ⟨a, rest, rfl, h_lt⟩
  · rw [step_last h_eq]
    cases rest with
    | nil => exact ⟨a, [], rfl, h_len a⟩
    | cons b rest => exact ⟨b, rest ++ [a], rfl, h_len b⟩

/-- **One unit rotates what is ahead.** -/
theorem ahead_step (h : s.InTurn len) : ahead len (s.step len) = (ahead len s).rotate 1 := by
  obtain ⟨a, rest, h_queue, h_used⟩ := h
  obtain ⟨queue, u⟩ := s
  obtain rfl : queue = a :: rest := h_queue
  rw [ahead_cons h_used, List.rotate_cons_succ, List.rotate_zero, List.append_assoc,
    ← List.replicate_succ']
  rcases Nat.lt_or_eq_of_le (Nat.succ_le_of_lt h_used) with h_lt | h_eq
  · rw [step_inside h_lt]
    rfl
  · rw [step_last h_eq, ahead_start, turnWord_append, turnWord_cons,
      show u + 1 = len a from h_eq, Nat.sub_self, List.replicate_zero, List.nil_append]
    exact congrArg (turnWord len rest ++ ·) (List.append_nil _)

theorem ahead_iterate (h_len : ∀ a, 0 < len a) (h : s.InTurn len) (j : ℕ) :
    ((step len)^[j] s).InTurn len ∧ ahead len ((step len)^[j] s) = (ahead len s).rotate j := by
  induction j with
  | zero => exact ⟨h, (List.rotate_zero _).symm⟩
  | succ j ih =>
    obtain ⟨h_turn, h_ahead⟩ := ih
    rw [Function.iterate_succ_apply']
    refine ⟨h_turn.step h_len, ?_⟩
    rw [ahead_step h_turn, h_ahead, List.rotate_rotate]

/-- **The holder** after some units. -/
theorem holder_iterate (h_len : ∀ a, 0 < len a) (h_queue : queue ≠ []) (j : ℕ) :
    ((step len)^[j] ⟨queue, 0⟩).queue.head? =
      (turnWord len queue)[j % (turnWord len queue).length]? := by
  -- the first of the queue starts its turn
  have h_start : InTurn len ⟨queue, 0⟩ := by
    obtain ⟨a, rest, rfl⟩ := List.exists_cons_of_ne_nil h_queue
    exact ⟨a, rest, rfl, h_len a⟩
  obtain ⟨⟨a, rest, h_q, h_used⟩, h_ahead⟩ := ahead_iterate h_len h_start j
  rw [ahead_start] at h_ahead
  -- after `j` units the turns ahead are the first ones, rotated by `j`
  generalize (step len)^[j] ⟨queue, 0⟩ = s at *
  obtain ⟨q, u⟩ := s
  obtain rfl : q = a :: rest := h_q
  rw [ahead_cons h_used] at h_ahead
  have h_pos : 0 < (turnWord len queue).length := by
    rw [← List.length_rotate (turnWord len queue) j, ← h_ahead]
    exact Nat.succ_pos _
  calc (a :: rest).head?
      = ((turnWord len queue).rotate j).head? := by rw [← h_ahead]; rfl
    _ = ((turnWord len queue).rotate (j % (turnWord len queue).length)).head? := by
        rw [List.rotate_mod]
    _ = (turnWord len queue)[j % (turnWord len queue).length]? :=
        List.head?_rotate (Nat.mod_lt j h_pos)

/-- The order of the queue stays, as a cycle. -/
theorem queue_step (s : Turns α) : (s.step len).queue.IsRotated s.queue := by
  obtain ⟨queue, u⟩ := s
  cases queue with
  | nil => exact List.IsRotated.refl _
  | cons a rest =>
    unfold step
    dsimp only
    split
    · exact List.isRotated_append.trans (List.IsRotated.refl _)
    · exact List.IsRotated.refl _

theorem queue_iterate (s : Turns α) (j : ℕ) :
    ((step len)^[j] s).queue.IsRotated s.queue := by
  induction j with
  | zero => exact List.IsRotated.refl _
  | succ j ih =>
    rw [Function.iterate_succ_apply']
    exact (queue_step _).trans ih

/-! ### Whole turns and rounds -/

theorem iterate_inside (h : u + n < len a) :
    (step len)^[n] ⟨a :: rest, u⟩ = ⟨a :: rest, u + n⟩ := by
  induction n with
  | zero => rfl
  | succ n ih =>
    rw [Function.iterate_succ_apply', ih (by omega), step_inside (by omega), Nat.add_assoc]

/-- A whole turn. -/
theorem iterate_turn (h : 0 < len a) : (step len)^[len a] ⟨a :: rest, 0⟩ = ⟨rest ++ [a], 0⟩ := by
  obtain ⟨n, h_n⟩ := Nat.exists_eq_succ_of_ne_zero (Nat.ne_of_gt h)
  rw [h_n, Function.iterate_succ_apply', iterate_inside (by omega), Nat.zero_add,
    step_last h_n.symm]

/-- The turns of some members. -/
theorem iterate_turns (h_len : ∀ a, 0 < len a) (q q' : List α) :
    (step len)^[(turnWord len q).length] ⟨q ++ q', 0⟩ = ⟨q' ++ q, 0⟩ := by
  induction q generalizing q' with
  | nil => rw [List.append_nil]; rfl
  | cons a q ih =>
    have h_word : (turnWord len (a :: q)).length = (turnWord len q).length + len a := by
      rw [turnWord_cons, List.length_append, List.length_replicate, Nat.add_comm]
    rw [h_word, Function.iterate_add_apply, List.cons_append, iterate_turn (h_len a),
      List.append_assoc, ih, List.append_assoc]
    rfl

/-- **Whole rounds** lead back. -/
theorem round (h_len : ∀ a, 0 < len a) (queue : List α) (n : ℕ) :
    (step len)^[n * (turnWord len queue).length] ⟨queue, 0⟩ = ⟨queue, 0⟩ := by
  have h_one : (step len)^[(turnWord len queue).length] ⟨queue, 0⟩ = ⟨queue, 0⟩ := by
    have h_turns := iterate_turns h_len queue []
    rwa [List.append_nil, List.nil_append] at h_turns
  rw [Nat.mul_comm, Function.iterate_mul]
  exact Function.iterate_fixed h_one n

end Turns

/-! ### What is charged -/

section Charges

variable [DecidableEq α] {word : List α}

theorem count_take (word : List α) (a : α) {n : ℕ} (h : n ≤ word.length) :
    Nat.count (fun i => word[i % word.length]? = some a) n = (word.take n).count a := by
  induction n with
  | zero => rfl
  | succ n ih =>
    rw [Nat.count_succ, ih (by omega), Nat.mod_eq_of_lt h, List.take_add_one, List.count_append]
    congr 1
    rw [List.getElem?_eq_getElem h, Option.toList_some, List.count_singleton]
    simp

/-- In whole rounds, every letter is charged as often as it stands in the word. -/
theorem count_rounds (word : List α) (a : α) (n : ℕ) :
    Nat.count (fun i => word[i % word.length]? = some a) (n * word.length) = n * word.count a := by
  induction n with
  | zero => rw [Nat.zero_mul, Nat.zero_mul]; rfl
  | succ n ih =>
    have h_shift (i : ℕ) : (word[(n * word.length + i) % word.length]? = some a) =
        (word[i % word.length]? = some a) := by
      rw [Nat.mul_comm, Nat.mul_add_mod]
    rw [Nat.succ_mul, Nat.count_add, ih]
    simp only [h_shift]
    rw [count_take word a le_rfl, List.take_length, Nat.succ_mul]

/-- A member stands in the word as often as its turn is long. -/
theorem count_word {len : α → ℕ} {queue : List α} (h_nodup : queue.Nodup) {a : α}
    (h_a : a ∈ queue) :
    (turnWord len queue).count a = len a := by
  induction queue with
  | nil => cases h_a
  | cons b rest ih =>
    obtain ⟨h_b, h_rest⟩ := List.nodup_cons.mp h_nodup
    rw [turnWord_cons, List.count_append, List.count_replicate]
    rcases List.mem_cons.mp h_a with rfl | h_a
    · -- the others have no unit of `a`
      rw [if_pos (beq_self_eq_true a),
        List.count_eq_zero.mpr (fun h => h_b (mem_of_mem_turnWord h)), Nat.add_zero]
    · have h_ne : ¬ (b == a) = true := fun h => h_b (eq_of_beq h ▸ h_a)
      rw [if_neg h_ne, ih h_rest h_a, Nat.zero_add]

end Charges
end ToiletOS
