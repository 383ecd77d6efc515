import Mathlib.Data.List.Range
import Mathlib.Data.Fin.Basic
import Mathlib.Logic.Function.Basic
import Mathlib.Tactic.SplitIfs

/-!
# Ring buffers

A ring of `n` cells holds a queue between the position `tail`, of the next
element to be taken out, and the position `head`, of the next cell to be filled.
One cell is always kept free, so that `head = tail` means empty: the ring is full
when `head` is one position behind `tail`.

`Ring.contents` is the queue a ring holds. The two operations are the queue
operations on it (`contents_put`, `contents_get`), the two tests are what they say
(`isEmpty_iff`, `isFull_iff`), and there are at most `n - 1` elements
(`length_lt`). The positions are `Fin n`, so they cannot leave the ring.
-/

namespace ToiletOS

/-- A ring of `n` cells. -/
structure Ring (α : Type) (n : ℕ) where
  buf : Fin n → α
  head : Fin n
  tail : Fin n

namespace Ring

variable {α : Type} {n : ℕ}

/-- The position after `pos`. -/
def next (pos : Fin n) : Fin n := ⟨(pos + 1) % n, Nat.mod_lt _ pos.pos⟩

/-- The ring holds nothing. -/
def IsEmpty (r : Ring α n) : Prop := r.head = r.tail

/-- The ring has no cell left. -/
def IsFull (r : Ring α n) : Prop := next r.head = r.tail

instance (r : Ring α n) : Decidable r.IsEmpty := inferInstanceAs (Decidable (_ = _))

instance (r : Ring α n) : Decidable r.IsFull := inferInstanceAs (Decidable (_ = _))

/-- Fill the cell at `head`. -/
def put (r : Ring α n) (a : α) : Ring α n :=
  { r with buf := Function.update r.buf r.head a, head := next r.head }

/-- Take out the cell at `tail`. -/
def get (r : Ring α n) : α × Ring α n :=
  (r.buf r.tail, { r with tail := next r.tail })

/-- The number of elements. -/
def length (r : Ring α n) : ℕ :=
  if r.tail.val ≤ r.head.val then r.head - r.tail else n + r.head - r.tail

/-- The position `i` places after `pos`. -/
def shift (pos : Fin n) (i : ℕ) : Fin n := ⟨(pos + i) % n, Nat.mod_lt _ pos.pos⟩

/-- The queue the ring holds, from `tail` up to `head`. -/
def contents (r : Ring α n) : List α :=
  (List.range r.length).map fun i => r.buf (shift r.tail i)

/-! ### Positions -/

theorem next_val (pos : Fin n) :
    (next pos).val = if pos.val + 1 = n then 0 else pos.val + 1 := by
  have h_pos := pos.isLt
  unfold next
  split
  · next h => simp [h]
  · next h => exact Nat.mod_eq_of_lt (by omega)

theorem shift_val (pos : Fin n) {i : ℕ} (hi : i < n) :
    (shift pos i).val = if pos.val + i < n then pos.val + i else pos.val + i - n := by
  have h_pos := pos.isLt
  unfold shift
  split
  · next h => exact Nat.mod_eq_of_lt h
  · next h =>
    rw [Fin.val_mk, Nat.mod_eq_sub_mod (by omega)]
    exact Nat.mod_eq_of_lt (by omega)

theorem shift_zero (pos : Fin n) : shift pos 0 = pos := by
  ext
  have h_pos := pos.isLt
  simp [shift_val pos (pos.pos)]

theorem shift_next (pos : Fin n) (i : ℕ) : shift (next pos) i = shift pos (i + 1) := by
  ext
  simp [shift, next, Nat.add_comm, Nat.add_left_comm]

/-! ### The queue in the ring -/

variable (r : Ring α n)

@[simp] theorem contents_length : r.contents.length = r.length := by simp [contents]

/-- One cell is kept free. -/
theorem length_lt : r.length < n := by
  have h_head := r.head.isLt
  unfold length
  split <;> omega

theorem isEmpty_iff : r.IsEmpty ↔ r.length = 0 := by
  have h_head := r.head.isLt
  have h_tail := r.tail.isLt
  unfold IsEmpty length
  rw [Fin.ext_iff]
  split <;> omega

theorem isFull_iff : r.IsFull ↔ r.length = n - 1 := by
  have h_head := r.head.isLt
  have h_tail := r.tail.isLt
  unfold IsFull length
  rw [Fin.ext_iff, next_val]
  split <;> split <;> omega

/-- `head` is where the elements end. -/
theorem shift_length : shift r.tail r.length = r.head := by
  ext
  have h_head := r.head.isLt
  rw [shift_val _ r.length_lt]
  unfold length
  split <;> split <;> omega

theorem put_length (a : α) (h : ¬ r.IsFull) : (r.put a).length = r.length + 1 := by
  have h_head := r.head.isLt
  have h_tail := r.tail.isLt
  rw [IsFull, Fin.ext_iff, next_val] at h
  simp only [length, put, next_val]
  split_ifs at h ⊢ <;> omega

theorem get_length (h : ¬ r.IsEmpty) : r.length = r.get.2.length + 1 := by
  have h_head := r.head.isLt
  have h_tail := r.tail.isLt
  rw [IsEmpty, Fin.ext_iff] at h
  simp only [length, get, next_val]
  split_ifs <;> omega

/-- **Filling a cell appends to the queue.** -/
theorem contents_put (a : α) (h : ¬ r.IsFull) : (r.put a).contents = r.contents ++ [a] := by
  have h_length := r.put_length a h
  have h_lt := (r.put a).length_lt
  have h_head : shift r.tail r.length = r.head := r.shift_length
  rw [contents, h_length, List.range_succ, List.map_append]
  congr 1
  · -- the cells of the queue are not the one that is filled
    refine List.map_congr_left fun i hi => ?_
    have h_ne : shift r.tail i ≠ r.head := by
      have h_i : i < r.length := List.mem_range.mp hi
      have h_pos := r.tail.isLt
      rw [← h_head, Ne, Fin.ext_iff, shift_val _ (by omega), shift_val _ (by omega)]
      split <;> split <;> omega
    exact Function.update_of_ne h_ne ..
  · simp [put, h_head]

/-- **Taking out a cell removes the first element of the queue.** -/
theorem contents_get (h : ¬ r.IsEmpty) : r.contents = r.get.1 :: r.get.2.contents := by
  have h_length := r.get_length h
  rw [contents, h_length, List.range_succ_eq_map, List.map_cons, List.map_map, shift_zero]
  congr 1
  refine List.map_congr_left fun i _ => ?_
  show r.buf (shift r.tail (i + 1)) = r.buf (shift (next r.tail) i)
  rw [shift_next]

end Ring
end ToiletOS
