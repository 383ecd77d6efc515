import Mathlib.Data.Fintype.List
import Mathlib.Data.Fintype.Sets
import ToiletOS.Framework.Machine
import ToiletOS.Lists.List

/-!
# The lists refine sequences

What a list is for is a finite sequence of elements. `listSys` runs the operations of
`list.c` on any finite family of lists, from `list_init` of each, and next to the memory it
keeps the sequences that they stand for: `ListOp.exec` is what the code does to memory, and
`ListOp.spec` what is meant. An operation is enabled when its caller keeps to the rules, which are
about the sequences.

`ListsRefine` says that memory holds the sequences, and that the functions which look at a
list without changing it return what the sequence says. It holds in every state of a run
(`lists_refine_sequences`), since each operation takes one representation to the next
(`rep_exec`).
-/

namespace ToiletOS

variable {lists : List (BitVec 32)}

/-- The sentinels of different lists, and the two of one list, are different elements. -/
def SentinelsApart (lists : List (BitVec 32)) : Prop := (lists.map headOf ++ lists.map tailOf).Nodup

/-- A list of the family. -/
abbrev ListOf (lists : List (BitVec 32)) : Type := {l : BitVec 32 // l ∈ lists}

/-- The sequences that the lists stand for. -/
abbrev Seqs (lists : List (BitVec 32)) : Type := ListOf lists → List ElemAddr

/-- An operation on one of the lists. -/
inductive ListOp (lists : List (BitVec 32))
  | push (list : ListOf lists) (elem : ElemAddr)
  | append (list : ListOf lists) (elem : ElemAddr)
  | insertBefore (before elem : ElemAddr)
  | remove (elem : ElemAddr)
  | pop (list : ListOf lists)

/-- The memory and the sequences. -/
structure ListState (lists : List (BitVec 32)) where
  mem : ListMem
  seqs : Seqs lists

/-- The element is in none of the lists, and no sentinel. -/
def Unlisted (F : Seqs lists) (elem : ElemAddr) : Prop :=
  ∀ l : ListOf lists, elem ≠ headOf l ∧ elem ∉ F l ∧ elem ≠ tailOf l

/-- A sequence with `elem` put before `before`, or at the end if that is not in it. -/
def seqInsertBefore (before elem : ElemAddr) : List ElemAddr → List ElemAddr
  | [] => [elem]
  | x :: xs => if x = before then elem :: x :: xs else x :: seqInsertBefore before elem xs

namespace ListOp

/-- What the code does. -/
def exec (m : ListMem) : ListOp lists → ListMem
  | .push l elem => m.listPush l elem
  | .append l elem => m.listAppend l elem
  | .insertBefore before elem => m.listInsertBefore before elem
  | .remove elem => m.listRemove elem
  | .pop l => (m.listPop l).2

/-- What is meant. -/
def spec (F : Seqs lists) : ListOp lists → Seqs lists
  | .push l elem => Function.update F l (elem :: F l)
  | .append l elem => Function.update F l (F l ++ [elem])
  | .insertBefore before elem => fun l =>
    if before ∈ F l ∨ before = tailOf l then seqInsertBefore before elem (F l) else F l
  | .remove elem => fun l => (F l).erase elem
  | .pop l => Function.update F l (F l).tail

/-- The rules for callers. -/
def Allowed (F : Seqs lists) : ListOp lists → Prop
  | .push _ elem => Unlisted F elem
  | .append _ elem => Unlisted F elem
  | .insertBefore before elem =>
    Unlisted F elem ∧ ∃ l : ListOf lists, before ∈ F l ∨ before = tailOf l
  | .remove elem => ∃ l : ListOf lists, elem ∈ F l
  | .pop l => F l ≠ []

end ListOp

instance (F : Seqs lists) (elem : ElemAddr) : Decidable (Unlisted F elem) := by
  unfold Unlisted
  infer_instance

instance (F : Seqs lists) (op : ListOp lists) : Decidable (op.Allowed F) := by
  cases op <;> unfold ListOp.Allowed <;> infer_instance

/-- Operations on a family of lists one after another, from `list_init` of each. -/
def listSys (lists : List (BitVec 32)) : Machine (ListState lists) (ListOp lists) Empty where
  init st := (∃ m : ListMem, st.mem = lists.foldl ListMem.listInit m) ∧ st.seqs = fun _ => []
  enabled st op := op.Allowed st.seqs
  exec st op := .ok ⟨op.exec st.mem, op.spec st.seqs⟩

instance (st : ListState lists) (op : ListOp lists) : Decidable ((listSys lists).enabled st op) :=
  inferInstanceAs (Decidable (op.Allowed st.seqs))

/-- Memory holds the sequences. Each list is a path from its head to its tail whose
backward pointers mirror the forward ones, without repetition, and shares no element
with another list. -/
abbrev ListRep (m : ListMem) (F : Seqs lists) : Prop :=
  LinkHeap.Rep m.links (fun l : ListOf lists => headOf l) (fun l => tailOf l) F

/-- The lists are the sequences, also to the functions that look at them. -/
structure ListsRefine (st : ListState lists) : Prop where
  rep : ListRep st.mem st.seqs
  find : ∀ (l : ListOf lists) elem rounds, (st.seqs l).length < rounds →
    st.mem.listFind rounds l elem = some (decide (elem ∈ st.seqs l))
  empty : ∀ l : ListOf lists, st.mem.listEmpty l = decide (st.seqs l = [])
  length : ∀ (l : ListOf lists) rounds, (st.seqs l).length < rounds →
    (st.mem.listLength rounds l).map BitVec.toNat = some (st.seqs l).length
  traversal : ∀ (l : ListOf lists) rounds func arg, (st.seqs l).length < rounds →
    st.mem.listTraversal rounds l func arg
      = some (((st.seqs l).find? fun e => func e arg ≠ 0#32).getD nullElem)
  /-- `list_pop` returns the element that it takes out. -/
  pop : ∀ (l : ListOf lists) e es, st.seqs l = e :: es → (st.mem.listPop l).1 = e

/-! ### The start -/

theorem headOf_ne_tailOf (l : BitVec 32) : headOf l ≠ tailOf l := by
  intro h_eq
  have h_zero : l + 0#32 = l + 8#32 := by
    rw [BitVec.add_zero]
    exact h_eq
  exact absurd (add_left_cancel h_zero) (by decide)

/-- `list_init` links the two sentinels, and writes to nothing else. -/
theorem listInit_linked (m : ListMem) (l : BitVec 32) :
    (m.listInit l).links.Linked (headOf l) (tailOf l) := by
  have h_ne := headOf_ne_tailOf l
  constructor
  · simp [ListMem.listInit, ListMem.setPrev, ListMem.setNext, LinkHeap.setNext_next_of_ne, h_ne]
  · simp [ListMem.listInit, ListMem.setPrev, ListMem.setNext]

theorem listInit_of_ne (m : ListMem) {l : BitVec 32} {x : ElemAddr} (h_head : x ≠ headOf l)
    (h_tail : x ≠ tailOf l) : (m.listInit l).links x = m.links x := by
  simp only [ListMem.listInit, ListMem.setPrev, ListMem.setNext]
  rw [LinkHeap.setPrev_of_ne _ _ _ h_tail, LinkHeap.setNext_of_ne _ _ _ h_tail,
    LinkHeap.setNext_of_ne _ _ _ h_head, LinkHeap.setPrev_of_ne _ _ _ h_head]

/-- The sentinels of a list stay as they are while other lists are set up. -/
theorem foldl_listInit_of_notMem (m : ListMem) {ls : List (BitVec 32)} {x : ElemAddr}
    (h_x : ∀ l ∈ ls, x ≠ headOf l ∧ x ≠ tailOf l) :
    (ls.foldl ListMem.listInit m).links x = m.links x := by
  induction ls generalizing m with
  | nil => rfl
  | cons l ls ih =>
    obtain ⟨h_head, h_tail⟩ := h_x l List.mem_cons_self
    rw [List.foldl_cons, ih (m.listInit l) fun l' hl' => h_x l' (List.mem_cons_of_mem l hl')]
    exact listInit_of_ne m h_head h_tail

theorem SentinelsApart.of_cons {l : BitVec 32} {ls : List (BitVec 32)}
    (h : SentinelsApart (l :: ls)) : SentinelsApart ls := by
  refine h.sublist ?_
  exact ((List.sublist_cons_self _ _).map headOf).append ((List.sublist_cons_self _ _).map tailOf)

theorem SentinelsApart.apart (h : SentinelsApart lists) {l l' : BitVec 32} (hl : l ∈ lists)
    (hl' : l' ∈ lists) :
    headOf l ≠ tailOf l' ∧ (l ≠ l' → headOf l ≠ headOf l' ∧ tailOf l ≠ tailOf l') := by
  have h_apart :=
    (List.nodup_append.mp h).2.2 _ (List.mem_map_of_mem hl) _ (List.mem_map_of_mem hl')
  refine ⟨h_apart, fun h_ne => ⟨h_ne, fun h_eq => h_ne ?_⟩⟩
  exact add_right_cancel (b := 8#32) h_eq

/-- Every list of the family is linked when all have been set up. -/
theorem foldl_listInit_linked (m : ListMem) (h : SentinelsApart lists) {l : BitVec 32}
    (hl : l ∈ lists) : (lists.foldl ListMem.listInit m).links.Linked (headOf l) (tailOf l) := by
  induction lists generalizing m with
  | nil => exact absurd hl List.not_mem_nil
  | cons l₀ ls ih =>
    by_cases h_in : l ∈ ls
    · exact ih (m.listInit l₀) h.of_cons h_in
    · obtain rfl : l = l₀ := (List.mem_cons.mp hl).resolve_right h_in
      -- none of the later lists has a sentinel of this one
      have h_later (l' : BitVec 32) (hl' : l' ∈ ls) : l ≠ l' := fun h_eq => h_in (h_eq ▸ hl')
      have h_head := foldl_listInit_of_notMem (m.listInit l) (x := headOf l) fun l' hl' =>
        ⟨h_later l' hl', (h.apart hl (List.mem_cons_of_mem l hl')).1⟩
      have h_tail := foldl_listInit_of_notMem (m.listInit l) (x := tailOf l) fun l' hl' =>
        ⟨fun h_eq => (h.apart (List.mem_cons_of_mem l hl') hl).1 h_eq.symm,
          ((h.apart hl (List.mem_cons_of_mem l hl')).2 (h_later l' hl')).2⟩
      obtain ⟨h_next, h_prev⟩ := listInit_linked m l
      rw [List.foldl_cons]
      exact ⟨by rw [h_head]; exact h_next, by rw [h_tail]; exact h_prev⟩

/-- **Set up, all lists are empty.** -/
theorem rep_init (h : SentinelsApart lists) (m : ListMem) :
    ListRep (lists.foldl ListMem.listInit m) (fun _ : ListOf lists => []) := by
  refine LinkHeap.Rep.of_sentinels (fun l => foldl_listInit_linked m h l.2)
    (fun l => headOf_ne_tailOf l) fun l l' h_ne => ?_
  have h_ne' : l.1 ≠ l'.1 := fun h_eq => h_ne (Subtype.ext h_eq)
  obtain ⟨h_ht, h_same⟩ := h.apart l.2 l'.2
  obtain ⟨h_th, -⟩ := h.apart l'.2 l.2
  exact ⟨(h_same h_ne').1, h_ht, fun h_eq => h_th h_eq.symm, (h_same h_ne').2⟩

/-! ### The operations -/

section Operations

variable {m : ListMem} {F : Seqs lists}

theorem Unlisted.notMem_nodes {elem : ElemAddr} (h : Unlisted F elem) (l : ListOf lists) :
    elem ∉ LinkHeap.nodes (fun l : ListOf lists => headOf l) (fun l => tailOf l) F l := by
  obtain ⟨h_head, h_elem, h_tail⟩ := h l
  rw [LinkHeap.mem_nodes]
  rintro (h | h | h)
  · exact h_head h
  · exact h_elem h
  · exact h_tail h

/-- Inserting before an element that the sequence has. -/
theorem seqInsertBefore_of_split {before elem : ElemAddr} {xs ys : List ElemAddr}
    (h : before ∉ xs) :
    seqInsertBefore before elem (xs ++ before :: ys) = xs ++ elem :: before :: ys := by
  induction xs with
  | nil => simp [seqInsertBefore]
  | cons x xs ih =>
    rw [List.mem_cons, not_or] at h
    rw [List.cons_append, seqInsertBefore, if_neg (Ne.symm h.1), ih h.2, List.cons_append]

/-- Inserting before something that the sequence does not have. -/
theorem seqInsertBefore_of_notMem {before elem : ElemAddr} {xs : List ElemAddr}
    (h : before ∉ xs) : seqInsertBefore before elem xs = xs ++ [elem] := by
  induction xs with
  | nil => rfl
  | cons x xs ih =>
    rw [List.mem_cons, not_or] at h
    rw [seqInsertBefore, if_neg (Ne.symm h.1), ih h.2, List.cons_append]

/-- A place of insertion is in one list only. -/
theorem place_unique (hR : ListRep m F) {x : ElemAddr} {l l' : ListOf lists}
    (h : x ∈ F l ∨ x = tailOf l) (h' : x ∈ F l' ∨ x = tailOf l') : l' = l := by
  by_contra h_ne
  exact hR.disjoint l' l h_ne x (LinkHeap.mem_nodes.mpr (.inr h')) (LinkHeap.mem_nodes.mpr (.inr h))

/-- The part of a list before a place of insertion, and the part from there on. -/
theorem exists_split (hR : ListRep m F) {before : ElemAddr} {l : ListOf lists}
    (h : before ∈ F l ∨ before = tailOf l) (elem : ElemAddr) :
    ∃ xs ys zs, F l = xs ++ ys ∧ ys ++ [tailOf l] = before :: zs ∧
      seqInsertBefore before elem (F l) = xs ++ elem :: ys := by
  obtain ⟨-, -, h_tail⟩ := hR.walk l
  rcases h with h | rfl
  · obtain ⟨xs, ys, h_F, h_xs⟩ := List.eq_append_cons_of_mem h
    refine ⟨xs, before :: ys, ys ++ [tailOf l], h_F, rfl, ?_⟩
    rw [h_F]
    exact seqInsertBefore_of_split h_xs
  · exact ⟨F l, [], [], by rw [List.append_nil], rfl, seqInsertBefore_of_notMem h_tail⟩

theorem rep_insertBefore (hR : ListRep m F) {before elem : ElemAddr} (h_elem : Unlisted F elem)
    {l : ListOf lists} (h : before ∈ F l ∨ before = tailOf l) :
    ListRep (m.listInsertBefore before elem)
      (Function.update F l (seqInsertBefore before elem (F l))) := by
  obtain ⟨xs, ys, zs, h_F, h_split, h_new⟩ := exists_split hR h elem
  rw [h_new]
  exact hR.insertBefore h_F h_split h_elem.notMem_nodes

/-- Removing is removing from the one list that has the element. -/
theorem rep_remove (hR : ListRep m F) {elem : ElemAddr} {l : ListOf lists} (h : elem ∈ F l) :
    ListRep (m.listRemove elem) (fun l => (F l).erase elem) := by
  obtain ⟨xs, ys, h_F, h_xs⟩ := List.eq_append_cons_of_mem h
  have h_eq : (fun l => (F l).erase elem) = Function.update F l (xs ++ ys) := by
    funext l'
    by_cases h_l : l' = l
    · subst h_l
      rw [Function.update_self, h_F, List.erase_append_right _ h_xs, List.erase_cons_head]
    · rw [Function.update_of_ne h_l, List.erase_of_not_mem fun h' =>
        h_l (place_unique hR (.inl h) (.inl h'))]
  rw [h_eq]
  exact hR.unlink h_F

/-- **Each operation does what is meant.** -/
theorem rep_exec (hR : ListRep m F) {op : ListOp lists} (h_op : op.Allowed F) :
    ListRep (op.exec m) (op.spec F) := by
  cases op with
  | push l elem =>
    -- the element before which it is put is the first one, or the tail
    obtain ⟨⟨zs, h_split⟩, -, -⟩ := hR.walk l
    exact hR.insertBefore (List.nil_append (F l)).symm h_split h_op.notMem_nodes
  | append l elem =>
    exact hR.insertBefore (List.append_nil (F l)).symm rfl h_op.notMem_nodes
  | insertBefore before elem =>
    obtain ⟨h_elem, l, h_place⟩ := h_op
    -- the element is in one list only, so only this list changes
    have h_eq : ListOp.spec F (.insertBefore before elem)
        = Function.update F l (seqInsertBefore before elem (F l)) := by
      funext l'
      by_cases h_l : l' = l
      · subst h_l
        rw [Function.update_self]
        exact if_pos h_place
      · rw [Function.update_of_ne h_l]
        exact if_neg fun h' => h_l (place_unique hR h_place h')
    rw [h_eq]
    exact rep_insertBefore hR h_elem h_place
  | remove elem =>
    obtain ⟨l, h_l⟩ := h_op
    exact rep_remove hR h_l
  | pop l =>
    -- a list that is not empty: the first element is removed
    obtain ⟨e, es, h_F⟩ := List.exists_cons_of_ne_nil h_op
    have h_first : (m.links (headOf l)).next = e := hR.head_next (by rw [h_F]; rfl)
    have h_spec : ListOp.spec F (.pop l) = Function.update F l es := by
      rw [ListOp.spec, h_F, List.tail_cons]
    have h_exec : ListOp.exec m (.pop l) = m.listRemove e := by
      simp only [ListOp.exec, ListMem.listPop, h_first]
    rw [h_spec, h_exec]
    have h_split : F l = [] ++ e :: es := h_F
    exact hR.unlink h_split

end Operations

/-! ### The functions that only look -/

section Look

variable {m : ListMem} {F : Seqs lists}

/-- The loop of `list_length` counts the elements of the path before it. -/
theorem lengthLoop_eq {l : BitVec 32} {xs ys : List ElemAddr} {cur : ElemAddr} {length : BitVec 32}
    {rounds : ℕ} (h_split : xs ++ [tailOf l] = cur :: ys)
    (h_path : (xs ++ [tailOf l]).IsChain m.links.Linked) (h_tail : tailOf l ∉ xs)
    (h_rounds : xs.length < rounds) :
    m.lengthLoop l rounds cur length = some (length + BitVec.ofNat 32 xs.length) := by
  induction rounds generalizing xs cur ys length with
  | zero => exact absurd h_rounds (Nat.not_lt_zero _)
  | succ rounds ih =>
    unfold ListMem.lengthLoop
    rcases LinkHeap.path_cases h_split h_path h_tail with
      ⟨rfl, rfl⟩ | ⟨xs', rfl, h_ne, h_tail', h_path', ys', h_split'⟩
    · simp
    · rw [if_pos h_ne, ih h_split' h_path' h_tail' (Nat.lt_of_succ_lt_succ h_rounds),
        List.length_cons, Nat.add_comm, BitVec.ofNat_add, BitVec.add_assoc]

/-- The loop of `list_traversal` finds the first element of the path that the callback
accepts. -/
theorem traversalLoop_eq {l : BitVec 32} {xs ys : List ElemAddr} {cur : ElemAddr}
    {func : ElemAddr → BitVec 32 → BitVec 32} {arg : BitVec 32} {rounds : ℕ}
    (h_split : xs ++ [tailOf l] = cur :: ys)
    (h_path : (xs ++ [tailOf l]).IsChain m.links.Linked) (h_tail : tailOf l ∉ xs)
    (h_rounds : xs.length < rounds) :
    m.traversalLoop l func arg rounds cur
      = some ((xs.find? fun e => func e arg ≠ 0#32).getD nullElem) := by
  induction rounds generalizing xs cur ys with
  | zero => exact absurd h_rounds (Nat.not_lt_zero _)
  | succ rounds ih =>
    unfold ListMem.traversalLoop
    rcases LinkHeap.path_cases h_split h_path h_tail with
      ⟨rfl, rfl⟩ | ⟨xs', rfl, h_ne, h_tail', h_path', ys', h_split'⟩
    · simp
    · rw [if_pos h_ne]
      -- the loop stops at the first element for which `func` is not zero
      by_cases h_func : func cur arg ≠ 0#32
      · simp [h_func]
      · rw [if_neg h_func, ih h_split' h_path' h_tail' (Nat.lt_of_succ_lt_succ h_rounds)]
        simp [h_func]

/-- There are fewer elements in a list than addresses. -/
theorem length_lt (hR : ListRep m F) (l : ListOf lists) : (F l).length < 2 ^ 32 := by
  have h_nodup := (hR.nodup l).map (fun _ _ h_eq => BitVec.eq_of_toNat_eq h_eq : Function.Injective
    (BitVec.toNat : ElemAddr → ℕ))
  have h_sub := List.Nodup.subperm h_nodup (show _ ⊆ List.range (2 ^ 32) from fun x hx => by
    obtain ⟨a, -, rfl⟩ := List.mem_map.mp hx
    exact List.mem_range.mpr a.isLt)
  have h_card := h_sub.length_le
  rw [List.length_map, List.length_range, LinkHeap.nodes, List.length_cons,
    List.length_append] at h_card
  omega

theorem listsRefine_of_rep {st : ListState lists} (hR : ListRep st.mem st.seqs) :
    ListsRefine st := by
  have h_empty (l : ListOf lists) : st.mem.listEmpty l = decide (st.seqs l = []) :=
    decide_eq_decide.mpr (hR.empty_iff l)
  refine ⟨hR, fun l elem rounds h_rounds => hR.find l elem h_rounds, h_empty,
    fun l rounds h_rounds => ?_, fun l rounds func arg h_rounds => ?_, fun l e es h_F => ?_⟩
  · -- the length is counted in 32 bits, and a list has fewer elements than that
    obtain ⟨⟨ys, h_split⟩, h_path, h_tail⟩ := hR.walk l
    have h_lt := length_lt hR l
    rw [ListMem.listLength, lengthLoop_eq h_split h_path h_tail h_rounds, Option.map_some,
      BitVec.zero_add, BitVec.toNat_ofNat, Nat.mod_eq_of_lt h_lt]
  · obtain ⟨⟨ys, h_split⟩, h_path, h_tail⟩ := hR.walk l
    unfold ListMem.listTraversal
    rw [h_empty]
    by_cases h_nil : st.seqs l = []
    · simp [h_nil]
    · rw [decide_eq_false h_nil, if_neg (by simp)]
      exact traversalLoop_eq h_split h_path h_tail h_rounds
  · exact hR.head_next (by rw [h_F]; rfl)

end Look

/-- **The pointer lists refine sequences**, in every state of a run. -/
theorem lists_refine_sequences (h_apart : SentinelsApart lists) {st : ListState lists}
    (h : (listSys lists).Reachable st) : ListsRefine st := by
  apply listsRefine_of_rep
  refine h.invariant (P := fun st => ListRep st.mem st.seqs) (fun st h_init => ?_)
    fun st op st' h_rep h_step => ?_
  · obtain ⟨⟨m, h_mem⟩, h_seqs⟩ := h_init
    rw [h_mem, h_seqs]
    exact rep_init h_apart m
  · obtain ⟨h_op, h_exec⟩ := h_step
    obtain rfl := Except.ok.inj h_exec
    exact rep_exec h_rep h_op

/-- Two lists. -/
def twoLists : List (BitVec 32) := [0x1000#32, 0x2000#32]

/-- Elements move between two lists, one of which becomes empty. -/
theorem lists_refine_sequences_two :
    ∃ st : ListState twoLists, (listSys twoLists).Reachable st ∧
      st.seqs ⟨0x1000#32, by decide⟩ = [0x30#32, 0x20#32] ∧ ListsRefine st := by
  let m : ListMem := ⟨fun _ => ⟨0#32, 0#32⟩, .on⟩
  let l₁ : ListOf twoLists := ⟨0x1000#32, by decide⟩
  let l₂ : ListOf twoLists := ⟨0x2000#32, by decide⟩
  have h_play : ((listSys twoLists).play ⟨twoLists.foldl ListMem.listInit m, fun _ => []⟩
      [.push l₁ 0x10#32, .append l₁ 0x20#32, .push l₂ 0x30#32, .pop l₂,
        .insertBefore 0x20#32 0x30#32, .remove 0x10#32]).any
      (fun st => decide (st.seqs ⟨0x1000#32, by decide⟩ = [0x30#32, 0x20#32])) = true := by
    decide +kernel
  obtain ⟨st, h_st, h_seqs⟩ := (Option.any_eq_true _ _).mp h_play
  have h_init : (listSys twoLists).Reachable ⟨twoLists.foldl ListMem.listInit m, fun _ => []⟩ :=
    .init ⟨⟨m, rfl⟩, rfl⟩
  have h_reach := h_init.play _ h_st
  exact ⟨st, h_reach, of_decide_eq_true h_seqs,
    lists_refine_sequences (by unfold SentinelsApart twoLists; decide) h_reach⟩

end ToiletOS
