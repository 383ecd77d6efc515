import Mathlib.Data.List.Chain
import Mathlib.Data.List.Nodup
import Mathlib.Logic.Function.Basic

/-!
# Intrusive doubly linked lists

A heap of link cells over an arbitrary type of nodes, and families of lists that
live in it. Every list has two sentinel nodes of its own; its elements are nodes
that carry the links themselves, so a node can be in one list at a time only.

`Rep h head tail F` says that for each index `i` the heap holds the list of the
nodes `F i`: following `next` from `head i` passes through `F i` to `tail i`, the
`prev` links mirror this, and no node occurs twice in the whole family. Under
`Rep` the pointer operations act as operations on sequences:

* `Rep.insertBefore` — the four stores that insert a node before another one;
* `Rep.unlink` — the two stores that take a node out;
* `find_eq` — the walk that looks for a node ends at the tail and decides
  membership.

The stores are given in the order a program would make them, each reading the
heap the previous ones left.
-/

namespace ToiletOS

/-- The two pointers of a node. -/
structure Link (N : Type) where
  prev : N
  next : N

/-- The link cells of all nodes. -/
abbrev LinkHeap (N : Type) : Type := N → Link N

namespace LinkHeap

variable {N : Type} [DecidableEq N]

/-- `a->next = v`. -/
def setNext (h : LinkHeap N) (a v : N) : LinkHeap N := Function.update h a ⟨(h a).prev, v⟩

/-- `a->prev = v`. -/
def setPrev (h : LinkHeap N) (a v : N) : LinkHeap N := Function.update h a ⟨v, (h a).next⟩

/-- Insert `elem` before the node `before`. -/
def insertBefore (h : LinkHeap N) (before elem : N) : LinkHeap N :=
  let h := h.setNext (h before).prev elem
  let h := h.setPrev elem (h before).prev
  let h := h.setNext elem before
  h.setPrev before elem

/-- Take `elem` out of the list it is in. -/
def unlink (h : LinkHeap N) (elem : N) : LinkHeap N :=
  let h := h.setNext (h elem).prev (h elem).next
  h.setPrev (h elem).next (h elem).prev

/-- Walk from `cur` to `tail` in search of `elem`, over `fuel` nodes at most. -/
def find (h : LinkHeap N) (tail elem : N) : ℕ → N → Option Bool
  | 0, _ => none
  | fuel + 1, cur =>
    if cur = tail then some false
    else if cur = elem then some true
    else find h tail elem fuel (h cur).next

/-! ### Single stores -/

section Stores

variable (h : LinkHeap N) (a v : N)

theorem setNext_of_ne {x : N} (hx : x ≠ a) : h.setNext a v x = h x :=
  Function.update_of_ne hx ..

theorem setPrev_of_ne {x : N} (hx : x ≠ a) : h.setPrev a v x = h x :=
  Function.update_of_ne hx ..

@[simp] theorem setNext_next_self : (h.setNext a v a).next = v := by simp [setNext]

@[simp] theorem setPrev_prev_self : (h.setPrev a v a).prev = v := by simp [setPrev]

@[simp] theorem setNext_prev (x : N) : (h.setNext a v x).prev = (h x).prev := by
  by_cases hx : x = a
  · subst hx; simp [setNext]
  · rw [setNext_of_ne h a v hx]

@[simp] theorem setPrev_next (x : N) : (h.setPrev a v x).next = (h x).next := by
  by_cases hx : x = a
  · subst hx; simp [setPrev]
  · rw [setPrev_of_ne h a v hx]

theorem setNext_next_of_ne {x : N} (hx : x ≠ a) : (h.setNext a v x).next = (h x).next := by
  rw [setNext_of_ne h a v hx]

theorem setPrev_prev_of_ne {x : N} (hx : x ≠ a) : (h.setPrev a v x).prev = (h x).prev := by
  rw [setPrev_of_ne h a v hx]

end Stores

/-! ### The effect of the two operations, pointer by pointer -/

section Effect

variable {h : LinkHeap N} {b e : N}

theorem insertBefore_next_of_ne {x : N} (hp : x ≠ (h b).prev) (he : x ≠ e) :
    (h.insertBefore b e x).next = (h x).next := by
  simp [insertBefore, setNext_next_of_ne, hp, he]

theorem insertBefore_prev_of_ne {x : N} (hb : x ≠ b) (he : x ≠ e) :
    (h.insertBefore b e x).prev = (h x).prev := by
  simp [insertBefore, setPrev_prev_of_ne, hb, he]

theorem insertBefore_next_pred (he : (h b).prev ≠ e) :
    (h.insertBefore b e (h b).prev).next = e := by
  simp [insertBefore, setNext_next_of_ne, he]

theorem insertBefore_prev_elem (he : e ≠ b) : (h.insertBefore b e e).prev = (h b).prev := by
  simp [insertBefore, setPrev_prev_of_ne, he]

theorem insertBefore_next_elem : (h.insertBefore b e e).next = b := by
  simp [insertBefore]

theorem insertBefore_prev_succ : (h.insertBefore b e b).prev = e := by
  simp [insertBefore]

theorem unlink_next_of_ne {x : N} (hp : x ≠ (h e).prev) :
    (h.unlink e x).next = (h x).next := by
  simp [unlink, setNext_next_of_ne, hp]

theorem unlink_next_pred : (h.unlink e (h e).prev).next = (h e).next := by
  simp [unlink]

theorem unlink_prev_succ (he : e ≠ (h e).prev) : (h.unlink e (h e).next).prev = (h e).prev := by
  simp [unlink, setNext_next_of_ne, he]

theorem unlink_prev_of_ne {x : N} (he : e ≠ (h e).prev) (hn : x ≠ (h e).next) :
    (h.unlink e x).prev = (h x).prev := by
  simp [unlink, setNext_next_of_ne, setPrev_prev_of_ne, he, hn]

end Effect

/-! ### Paths -/

/-- `b` comes right after `a`, in both directions. -/
def Linked (h : LinkHeap N) (a b : N) : Prop := (h a).next = b ∧ (h b).prev = a

omit [DecidableEq N] in
/-- A path is kept if the `next` pointers of all its nodes but the last, and the
`prev` pointers of all its nodes but the first, are. -/
theorem path_congr {h h' : LinkHeap N} {l : List N} (hl : l.IsChain h.Linked)
    (h_next : ∀ x ∈ l.dropLast, (h' x).next = (h x).next)
    (h_prev : ∀ x ∈ l.tail, (h' x).prev = (h x).prev) : l.IsChain h'.Linked := by
  induction l with
  | nil => exact .nil
  | cons a l ih =>
    cases l with
    | nil => exact .singleton a
    | cons b l =>
      rw [List.isChain_cons_cons] at hl ⊢
      refine ⟨⟨?_, ?_⟩, ih hl.2 (fun x hx => h_next x ?_) fun x hx => h_prev x ?_⟩
      · rw [h_next a (by simp)]
        exact hl.1.1
      · rw [h_prev b (by simp)]
        exact hl.1.2
      · rw [List.dropLast_cons_cons]
        exact List.mem_cons_of_mem a hx
      · exact List.mem_cons_of_mem b hx

/-- Insertion splices the new node into the path. -/
theorem path_insertBefore {h : LinkHeap N} {xs ys : List N} {p b e : N}
    (hl : (xs ++ p :: b :: ys).IsChain h.Linked) (h_nodup : (xs ++ p :: b :: ys).Nodup)
    (he : e ∉ xs ++ p :: b :: ys) :
    (xs ++ p :: e :: b :: ys).IsChain (h.insertBefore b e).Linked := by
  obtain ⟨h_left, h_pb, h_right⟩ := List.isChain_append_cons_cons.mp hl
  have h_pred : (h b).prev = p := h_pb.2
  -- no node occurs twice, so the writes to `p`, `e` and `b` touch no other node
  have h_left_nodup : p ∉ xs ∧ b ∉ xs := by
    have h := (List.nodup_append.mp h_nodup).2.2
    exact ⟨fun hm => h p hm p (by simp) rfl, fun hm => h b hm b (by simp) rfl⟩
  have h_right_nodup : p ∉ b :: ys ∧ b ∉ ys := by
    obtain ⟨h1, h2⟩ := List.nodup_cons.mp (List.nodup_append.mp h_nodup).2.1
    exact ⟨h1, (List.nodup_cons.mp h2).1⟩
  simp only [List.mem_append, List.mem_cons, not_or] at he
  obtain ⟨he_xs, he_p, he_b, he_ys⟩ := he
  have h_pb_ne : b ≠ p := fun e => h_right_nodup.1 (by simp [e])
  refine List.isChain_append_cons_cons.mpr ⟨?_, ⟨?_, ?_⟩,
    List.isChain_cons_cons.mpr ⟨⟨?_, ?_⟩, ?_⟩⟩
  · -- the part up to `p` loses only the `next` pointer of its last node
    refine path_congr h_left (fun x hx => ?_) fun x hx => ?_
    · rw [List.dropLast_concat] at hx
      refine insertBefore_next_of_ne ?_ fun e => he_xs (e ▸ hx)
      rw [h_pred]
      exact fun e => h_left_nodup.1 (e ▸ hx)
    · have hx' := List.mem_of_mem_tail hx
      rw [List.mem_append, List.mem_singleton] at hx'
      refine insertBefore_prev_of_ne ?_ ?_
      · rintro rfl
        exact hx'.elim h_left_nodup.2 h_pb_ne
      · rintro rfl
        exact hx'.elim he_xs he_p
  · rw [← h_pred]
    exact insertBefore_next_pred (by rw [h_pred]; exact fun e => he_p e.symm)
  · rw [insertBefore_prev_elem he_b, h_pred]
  · exact insertBefore_next_elem
  · exact insertBefore_prev_succ
  · -- the part from `b` on loses only the `prev` pointer of its first node
    refine path_congr h_right (fun x hx => ?_) fun x hx => ?_
    · have hx' := List.dropLast_subset _ hx
      refine insertBefore_next_of_ne ?_ ?_
      · rw [h_pred]
        rintro rfl
        exact h_right_nodup.1 hx'
      · rintro rfl
        rcases List.mem_cons.mp hx' with h | h
        · exact he_b h
        · exact he_ys h
    · refine insertBefore_prev_of_ne ?_ ?_
      · rintro rfl
        exact h_right_nodup.2 hx
      · rintro rfl
        exact he_ys hx

/-- Removal closes the path over the removed node. -/
theorem path_unlink {h : LinkHeap N} {xs ys : List N} {p e b : N}
    (hl : (xs ++ p :: e :: b :: ys).IsChain h.Linked)
    (h_nodup : (xs ++ p :: e :: b :: ys).Nodup) :
    (xs ++ p :: b :: ys).IsChain (h.unlink e).Linked := by
  obtain ⟨h_left, h_pe, h_rest⟩ := List.isChain_append_cons_cons.mp hl
  obtain ⟨h_eb, h_right⟩ := List.isChain_cons_cons.mp h_rest
  have h_pred : (h e).prev = p := h_pe.2
  have h_succ : (h e).next = b := h_eb.1
  obtain ⟨-, h_tail, h_disj⟩ := List.nodup_append.mp h_nodup
  obtain ⟨hp, h_tail⟩ := List.nodup_cons.mp h_tail
  obtain ⟨he, h_tail⟩ := List.nodup_cons.mp h_tail
  obtain ⟨hb, -⟩ := List.nodup_cons.mp h_tail
  have h_pe_ne : e ≠ (h e).prev := by
    rw [h_pred]
    exact fun e => hp (by simp [e])
  refine List.isChain_append_cons_cons.mpr ⟨?_, ⟨?_, ?_⟩, ?_⟩
  · -- the part up to `p` keeps every pointer but the last `next`
    refine path_congr h_left (fun x hx => ?_) fun x hx => ?_
    · rw [List.dropLast_concat] at hx
      refine unlink_next_of_ne ?_
      rw [h_pred]
      exact fun e => h_disj x hx p (by simp) e
    · have hx' := List.mem_of_mem_tail hx
      rw [List.mem_append, List.mem_singleton] at hx'
      refine unlink_prev_of_ne h_pe_ne ?_
      rw [h_succ]
      rintro rfl
      rcases hx' with hx' | hx'
      · exact h_disj _ hx' _ (by simp) rfl
      · exact hp (by simp [hx'])
  · rw [← h_pred, unlink_next_pred, h_succ]
  · rw [← h_succ, unlink_prev_succ h_pe_ne, h_pred]
  · -- the part from `b` on keeps every pointer but the first `prev`
    refine path_congr h_right (fun x hx => ?_) fun x hx => ?_
    · have hx' := List.dropLast_subset _ hx
      refine unlink_next_of_ne ?_
      rw [h_pred]
      rintro rfl
      exact hp (List.mem_cons_of_mem e hx')
    · refine unlink_prev_of_ne h_pe_ne ?_
      rw [h_succ]
      rintro rfl
      exact hb hx

omit [DecidableEq N] in
/-- The first node of a path that ends at `tail`: it is `tail`, or an inner node that the
rest of the path follows. -/
theorem path_cases {h : LinkHeap N} {tail : N} {xs : List N} {cur : N} {ys : List N}
    (h_split : xs ++ [tail] = cur :: ys) (hl : (xs ++ [tail]).IsChain h.Linked)
    (h_tail : tail ∉ xs) :
    (xs = [] ∧ cur = tail) ∨ ∃ xs', xs = cur :: xs' ∧ cur ≠ tail ∧ tail ∉ xs' ∧
      (xs' ++ [tail]).IsChain h.Linked ∧ ∃ ys', xs' ++ [tail] = (h cur).next :: ys' := by
  cases xs with
  | nil =>
    obtain ⟨rfl, -⟩ := List.cons.inj h_split
    exact .inl ⟨rfl, rfl⟩
  | cons x xs =>
    obtain ⟨rfl, -⟩ := List.cons.inj h_split
    rw [List.mem_cons, not_or] at h_tail
    -- behind `cur` there is another element or the tail
    obtain ⟨y, zs, h_next⟩ : ∃ y zs, xs ++ [tail] = y :: zs := by
      cases xs with
      | nil => exact ⟨tail, [], rfl⟩
      | cons y xs => exact ⟨y, xs ++ [tail], rfl⟩
    rw [List.cons_append, h_next, List.isChain_cons_cons] at hl
    exact .inr ⟨xs, rfl, Ne.symm h_tail.1, h_tail.2, by rw [h_next]; exact hl.2, zs,
      by rw [h_next, hl.1.1]⟩

/-- A walk along a path that ends at `tail` decides membership, if it is given
one step more than the path has inner nodes. -/
theorem find_eq {h : LinkHeap N} {tail e : N} {xs : List N} {cur : N} {ys : List N}
    (h_split : xs ++ [tail] = cur :: ys) (hl : (xs ++ [tail]).IsChain h.Linked)
    (h_tail : tail ∉ xs) {fuel : ℕ} (h_fuel : xs.length < fuel) :
    h.find tail e fuel cur = some (decide (e ∈ xs)) := by
  induction fuel generalizing xs cur ys with
  | zero => exact absurd h_fuel (Nat.not_lt_zero _)
  | succ fuel ih =>
    unfold find
    rcases path_cases h_split hl h_tail with
      ⟨rfl, rfl⟩ | ⟨xs', rfl, h_ne, h_tail', hl', ys', h_split'⟩
    · -- the tail: the element is not in the list
      rw [if_pos rfl]
      simp
    · rw [if_neg h_ne]
      -- the node is the element, or the search goes on behind it
      by_cases h_eq : cur = e
      · simp [h_eq]
      · rw [if_neg h_eq, ih h_split' hl' h_tail' (Nat.lt_of_succ_lt_succ h_fuel)]
        simp [Ne.symm h_eq]

/-! ### Families of lists -/

variable {ι : Type}

/-- The nodes of list `i` from its head to its tail sentinel. -/
def nodes (head tail : ι → N) (F : ι → List N) (i : ι) : List N :=
  head i :: (F i ++ [tail i])

/-- The heap holds the lists `F`, no two of which share a node. -/
structure Rep (h : LinkHeap N) (head tail : ι → N) (F : ι → List N) : Prop where
  path : ∀ i, (nodes head tail F i).IsChain h.Linked
  nodup : ∀ i, (nodes head tail F i).Nodup
  disjoint : ∀ i j, i ≠ j → ∀ x ∈ nodes head tail F i, x ∉ nodes head tail F j

variable {h : LinkHeap N} {head tail : ι → N} {F : ι → List N}

omit [DecidableEq N] in
theorem mem_nodes {i : ι} {x : N} :
    x ∈ nodes head tail F i ↔ x = head i ∨ x ∈ F i ∨ x = tail i := by
  simp [nodes]

omit [DecidableEq N] in
/-- Cells of no list may be written freely. -/
theorem Rep.congr (hR : Rep h head tail F) {h' : LinkHeap N}
    (h_eq : ∀ i, ∀ x ∈ nodes head tail F i, h' x = h x) : Rep h' head tail F where
  path i := path_congr (hR.path i)
    (fun x hx => by rw [h_eq i x (List.dropLast_subset _ hx)])
    (fun x hx => by rw [h_eq i x (List.mem_of_mem_tail hx)])
  nodup := hR.nodup
  disjoint := hR.disjoint

omit [DecidableEq N] in
/-- Sentinels that point to each other hold empty lists. -/
theorem Rep.of_sentinels (h_path : ∀ i, h.Linked (head i) (tail i))
    (h_ne : ∀ i, head i ≠ tail i)
    (h_disj : ∀ i j, i ≠ j → head i ≠ head j ∧ head i ≠ tail j ∧ tail i ≠ head j ∧
      tail i ≠ tail j) :
    Rep h head tail (fun _ : ι => []) where
  path i := by
    show [head i, tail i].IsChain h.Linked
    exact List.isChain_cons_cons.mpr ⟨h_path i, .singleton _⟩
  nodup i := by
    show [head i, tail i].Nodup
    simp [h_ne i]
  disjoint i j h_ij x hx := by
    obtain ⟨h1, h2, h3, h4⟩ := h_disj i j h_ij
    rw [mem_nodes] at hx
    rcases hx with rfl | hx | rfl
    · simp [nodes, h1, h2]
    · exact absurd hx List.not_mem_nil
    · simp [nodes, h3, h4]

omit [DecidableEq N] in
/-- The node after the head sentinel is the first element, or the tail. -/
theorem Rep.head_next (hR : Rep h head tail F) {i : ι} {b : N} {zs : List N}
    (hb : F i ++ [tail i] = b :: zs) : (h (head i)).next = b := by
  have h_path := hR.path i
  rw [nodes, hb, List.isChain_cons_cons] at h_path
  exact h_path.1.1

omit [DecidableEq N] in
/-- Neighbours in the sequence are neighbours in the heap. -/
theorem Rep.linked (hR : Rep h head tail F) {i : ι} {xs ys : List N} {a b : N}
    (h_split : nodes head tail F i = xs ++ a :: b :: ys) : h.Linked a b := by
  have h_path := hR.path i
  rw [h_split] at h_path
  exact (List.isChain_append_cons_cons.mp h_path).2.1

omit [DecidableEq N] in
/-- Every node of a list but the tail is followed by another one. -/
theorem Rep.linked_next (hR : Rep h head tail F) {i : ι} {x : N} (hx : x ∈ head i :: F i) :
    h.Linked x (h x).next ∧ (h x).next ∈ F i ++ [tail i] := by
  obtain ⟨xs, ys, h_split⟩ := List.append_of_mem hx
  obtain ⟨b, zs, hb⟩ : ∃ b zs, ys ++ [tail i] = b :: zs := by
    cases ys with
    | nil => exact ⟨tail i, [], rfl⟩
    | cons y ys => exact ⟨y, ys ++ [tail i], rfl⟩
  have h_nodes : nodes head tail F i = xs ++ x :: b :: zs := by
    rw [nodes, ← List.cons_append, h_split, List.append_assoc, List.cons_append, hb]
  have h_link := hR.linked h_nodes
  obtain rfl : (h x).next = b := h_link.1
  refine ⟨h_link, ?_⟩
  -- without the head the path is the list and its tail
  have h_tail := congrArg List.tail h_nodes
  rw [nodes, List.tail_cons] at h_tail
  rw [h_tail]
  cases xs with
  | nil => exact List.mem_cons_self
  | cons a xs => exact List.mem_append_right xs (List.mem_cons_of_mem x List.mem_cons_self)

omit [DecidableEq N] in
/-- Every node of a list but the head follows another one. -/
theorem Rep.linked_prev (hR : Rep h head tail F) {i : ι} {b : N} (hb : b ∈ F i ++ [tail i]) :
    h.Linked (h b).prev b ∧ (h b).prev ∈ head i :: F i := by
  obtain ⟨xs, ys, h_split⟩ := List.append_of_mem hb
  obtain ⟨ws, p, h_last⟩ : ∃ ws p, head i :: xs = ws ++ [p] :=
    ⟨_, _, (List.dropLast_concat_getLast (List.cons_ne_nil (head i) xs)).symm⟩
  have h_nodes : nodes head tail F i = ws ++ p :: b :: ys := by
    rw [nodes, h_split, ← List.cons_append, h_last, List.append_assoc, List.singleton_append]
  have h_link := hR.linked h_nodes
  obtain rfl : (h b).prev = p := h_link.2
  refine ⟨h_link, ?_⟩
  -- without the tail the path is the head and the list
  have h_init := congrArg List.dropLast h_nodes
  rw [nodes, ← List.cons_append, List.dropLast_concat,
    show ws ++ (h b).prev :: b :: ys = (ws ++ [(h b).prev]) ++ b :: ys by simp,
    List.dropLast_append_of_ne_nil (List.cons_ne_nil b ys)] at h_init
  rw [h_init]
  simp

omit [DecidableEq N] in
/-- The last node before the tail is the one the tail points back to. -/
theorem Rep.next_eq_tail_iff (hR : Rep h head tail F) {i : ι} {x : N} (hx : x ∈ head i :: F i) :
    (h x).next = tail i ↔ (h (tail i)).prev = x := by
  constructor
  · intro h_next
    rw [← h_next]
    exact (hR.linked_next hx).1.2
  · rintro rfl
    exact (hR.linked_prev (by simp : tail i ∈ F i ++ [tail i])).1.1

omit [DecidableEq N] in
/-- A list is empty exactly when its two sentinels are neighbours. -/
theorem Rep.empty_iff (hR : Rep h head tail F) (i : ι) :
    (h (head i)).next = tail i ↔ F i = [] := by
  cases hF : F i with
  | nil => simpa using hR.head_next (by rw [hF]; rfl : F i ++ [tail i] = tail i :: [])
  | cons x xs =>
    have h_next := hR.head_next (i := i) (by rw [hF]; exact List.cons_append)
    have h_nodup := hR.nodup i
    rw [nodes, hF] at h_nodup
    have h_ne : x ≠ tail i := by
      rintro rfl
      simp at h_nodup
    simp [h_next, h_ne]

omit [DecidableEq N] in
/-- A walk over list `i` starts on a path that ends at the tail. -/
theorem Rep.walk (hR : Rep h head tail F) (i : ι) :
    (∃ ys, F i ++ [tail i] = (h (head i)).next :: ys) ∧
      (F i ++ [tail i]).IsChain h.Linked ∧ tail i ∉ F i := by
  obtain ⟨y, zs, h_split⟩ : ∃ y zs, F i ++ [tail i] = y :: zs := by
    cases F i with
    | nil => exact ⟨tail i, [], rfl⟩
    | cons y xs => exact ⟨y, xs ++ [tail i], rfl⟩
  have h_nodup := (List.nodup_cons.mp (hR.nodup i)).2
  refine ⟨⟨zs, ?_⟩, (hR.path i).tail, fun hm => ?_⟩
  · rw [hR.head_next h_split, h_split]
  · exact (List.nodup_append.mp h_nodup).2.2 _ hm _ (by simp) rfl

/-- The walk from the first element decides membership. -/
theorem Rep.find (hR : Rep h head tail F) (i : ι) (e : N) {fuel : ℕ}
    (h_fuel : (F i).length < fuel) :
    h.find (tail i) e fuel (h (head i)).next = some (decide (e ∈ F i)) := by
  obtain ⟨⟨ys, h_split⟩, h_path, h_tail⟩ := hR.walk i
  exact find_eq h_split h_path h_tail h_fuel

/-- An insertion into list `i` leaves the nodes of no list, and those of other lists, as they
were. -/
theorem Rep.insertBefore_next (hR : Rep h head tail F) {i : ι} {b e x : N}
    (hb : b ∈ F i ++ [tail i]) (hx : x ∉ nodes head tail F i) (he : x ≠ e) :
    (h.insertBefore b e x).next = (h x).next := by
  refine insertBefore_next_of_ne ?_ he
  rintro rfl
  exact hx (List.mem_append_left [tail i] (hR.linked_prev hb).2)

variable [DecidableEq ι]

/-- **Insertion.** Inserting a node that is in no list before an element or the
tail of list `i` inserts it in the sequence of that list. -/
theorem Rep.insertBefore (hR : Rep h head tail F) {i : ι} {xs ys zs : List N} {b e : N}
    (hF : F i = xs ++ ys) (hb : ys ++ [tail i] = b :: zs)
    (he : ∀ j, e ∉ nodes head tail F j) :
    Rep (h.insertBefore b e) head tail (Function.update F i (xs ++ e :: ys)) := by
  -- the last node before the place of insertion
  obtain ⟨ws, p, h_last⟩ : ∃ ws p, head i :: xs = ws ++ [p] :=
    ⟨_, _, (List.dropLast_concat_getLast (List.cons_ne_nil (head i) xs)).symm⟩
  have h_old : nodes head tail F i = ws ++ p :: b :: zs := by
    rw [nodes, hF, List.append_assoc, hb, ← List.cons_append, h_last]
    simp
  have h_new : nodes head tail (Function.update F i (xs ++ e :: ys)) i
      = ws ++ p :: e :: b :: zs := by
    rw [nodes, Function.update_self, List.append_assoc, List.cons_append, hb,
      ← List.cons_append, h_last]
    simp
  have h_path := hR.path i
  have h_nodup := hR.nodup i
  have he_i := he i
  rw [h_old] at h_path h_nodup he_i
  have h_pred : (h b).prev = p := (List.isChain_append_cons_cons.mp h_path).2.1.2
  have h_mem : ∀ x, x ∈ nodes head tail (Function.update F i (xs ++ e :: ys)) i →
      x = e ∨ x ∈ nodes head tail F i := by
    intro x hx
    rw [h_new] at hx
    rw [h_old]
    simp only [List.mem_append, List.mem_cons] at hx ⊢
    tauto
  refine ⟨fun j => ?_, fun j => ?_, fun j k hjk x hxj hxk => ?_⟩
  · by_cases hij : j = i
    · subst hij
      rw [h_new]
      exact path_insertBefore h_path h_nodup he_i
    · have h_b : b ∈ nodes head tail F i := by rw [h_old]; simp
      have h_p : p ∈ nodes head tail F i := by rw [h_old]; simp
      -- the three nodes that are written lie in list `i` or in no list
      rw [show nodes head tail (Function.update F i (xs ++ e :: ys)) j = nodes head tail F j by
        rw [nodes, nodes, Function.update_of_ne hij]]
      refine path_congr (hR.path j) (fun x hx => insertBefore_next_of_ne ?_ ?_)
        fun x hx => insertBefore_prev_of_ne ?_ ?_
      · rw [h_pred]
        rintro rfl
        exact hR.disjoint i j (Ne.symm hij) _ h_p (List.dropLast_subset _ hx)
      · rintro rfl
        exact he j (List.dropLast_subset _ hx)
      · rintro rfl
        exact hR.disjoint i j (Ne.symm hij) _ h_b (List.mem_of_mem_tail hx)
      · rintro rfl
        exact he j (List.mem_of_mem_tail hx)
  · by_cases hij : j = i
    · subst hij
      rw [h_new]
      rw [show ws ++ p :: e :: b :: zs = (ws ++ [p]) ++ e :: (b :: zs) by simp]
      refine List.nodup_middle.mpr (List.nodup_cons.mpr ⟨?_, ?_⟩)
      · simpa using he_i
      · simpa using h_nodup
    · have h_j := hR.nodup j
      rwa [nodes, Function.update_of_ne hij]
  · -- a node of the new list `i` is `e` or one of the old ones
    have h_of_ne : ∀ {l}, l ≠ i → x ∈ nodes head tail (Function.update F i (xs ++ e :: ys)) l →
        x ∈ nodes head tail F l := by
      intro l hl hx
      rwa [nodes, Function.update_of_ne hl] at hx
    by_cases hji : j = i
    · subst hji
      have hxk' := h_of_ne (Ne.symm hjk) hxk
      rcases h_mem x hxj with rfl | hxj
      · exact he k hxk'
      · exact hR.disjoint j k hjk x hxj hxk'
    · have hxj' := h_of_ne hji hxj
      by_cases hki : k = i
      · subst hki
        rcases h_mem x hxk with rfl | hxk
        · exact he j hxj'
        · exact hR.disjoint j k hjk x hxj' hxk
      · exact hR.disjoint j k hjk x hxj' (h_of_ne hki hxk)

/-- **Removal.** Taking an element of list `i` out removes it from the sequence
of that list. -/
theorem Rep.unlink (hR : Rep h head tail F) {i : ι} {xs ys : List N} {e : N}
    (hF : F i = xs ++ e :: ys) :
    Rep (h.unlink e) head tail (Function.update F i (xs ++ ys)) := by
  -- the neighbours of `e`, which may be the head and the tail
  obtain ⟨ws, p, h_last⟩ : ∃ ws p, head i :: xs = ws ++ [p] :=
    ⟨_, _, (List.dropLast_concat_getLast (List.cons_ne_nil (head i) xs)).symm⟩
  obtain ⟨b, zs, hb⟩ : ∃ b zs, ys ++ [tail i] = b :: zs := by
    cases ys with
    | nil => exact ⟨tail i, [], rfl⟩
    | cons y ys => exact ⟨y, ys ++ [tail i], rfl⟩
  have h_old : nodes head tail F i = ws ++ p :: e :: b :: zs := by
    rw [nodes, hF, List.append_assoc, List.cons_append, hb, ← List.cons_append, h_last]
    simp
  have h_new : nodes head tail (Function.update F i (xs ++ ys)) i = ws ++ p :: b :: zs := by
    rw [nodes, Function.update_self, List.append_assoc, hb, ← List.cons_append, h_last]
    simp
  have h_path := hR.path i
  have h_nodup := hR.nodup i
  rw [h_old] at h_path h_nodup
  have h_chain := (List.isChain_append_cons_cons.mp h_path).2
  have h_pred : (h e).prev = p := h_chain.1.2
  have h_succ : (h e).next = b := (List.isChain_cons_cons.mp h_chain.2).1.1
  have h_sub : (ws ++ p :: b :: zs).Sublist (ws ++ p :: e :: b :: zs) :=
    (List.Sublist.refl ws).append ((List.sublist_cons_self e (b :: zs)).cons_cons p)
  -- no list gains a node, so the lists stay disjoint
  have h_mem : ∀ j, ∀ x ∈ nodes head tail (Function.update F i (xs ++ ys)) j,
      x ∈ nodes head tail F j := by
    intro j x hx
    by_cases hji : j = i
    · subst hji
      rw [h_new] at hx
      rw [h_old]
      exact h_sub.subset hx
    · rwa [nodes, Function.update_of_ne hji] at hx
  refine ⟨fun j => ?_, fun j => ?_,
    fun j k hjk x hxj hxk => hR.disjoint j k hjk x (h_mem j x hxj) (h_mem k x hxk)⟩
  · by_cases hij : j = i
    · subst hij
      rw [h_new]
      exact path_unlink h_path h_nodup
    · rw [show nodes head tail (Function.update F i (xs ++ ys)) j = nodes head tail F j by
        rw [nodes, nodes, Function.update_of_ne hij]]
      -- another list has none of these nodes, so the two writes do not reach it
      have h_in : ∀ x, x ∈ ws ++ p :: e :: b :: zs → x ∉ nodes head tail F j := by
        intro x hx
        exact hR.disjoint i j (Ne.symm hij) x (by rw [h_old]; exact hx)
      have h_pe : e ≠ (h e).prev := by
        rw [h_pred]
        have h_p := (List.nodup_cons.mp (List.nodup_append.mp h_nodup).2.1).1
        exact fun h_eq => h_p (by simp [h_eq])
      refine path_congr (hR.path j) (fun x hx => unlink_next_of_ne ?_)
        fun x hx => unlink_prev_of_ne h_pe ?_
      · rw [h_pred]
        rintro rfl
        exact h_in _ (by simp) (List.dropLast_subset _ hx)
      · rw [h_succ]
        rintro rfl
        exact h_in _ (by simp) (List.mem_of_mem_tail hx)
  · by_cases hij : j = i
    · subst hij
      rw [h_new]
      exact h_nodup.sublist h_sub
    · have h_j := hR.nodup j
      rwa [nodes, Function.update_of_ne hij]

end LinkHeap
end ToiletOS
