import ToiletOS.Sched.Kernel

/-!
# The functions of `include/kernel/list.c`

A `struct list_elem*` is an address, and a `struct list` its two sentinels, the head at
its own address and the tail behind it. `ListMem` is the memory as far as
elements are concerned, one cell for each address, and the interrupt flag; different elements
are different objects of C and do not overlap.

The loops take the number of rounds they may make and return `none` when it is used up, so
that a loop ends if it returns something for some number. The callback of
`list_traversal` looks at the element it is given and changes nothing.
-/

namespace ToiletOS

/-- The address of a `struct list_elem`. -/
abbrev ElemAddr : Type := BitVec 32

/-- The elements in memory, and the interrupt flag. -/
structure ListMem where
  links : LinkHeap ElemAddr
  intr : IntrStatus

/-- `&list->head`. -/
def headOf (list : BitVec 32) : ElemAddr := list

/-- `&list->tail`. -/
def tailOf (list : BitVec 32) : ElemAddr := list + 8#32

/-- `NULL`, as a `struct list_elem*`. -/
def nullElem : ElemAddr := 0#32

namespace ListMem

/-- `intr_disable`. -/
def intrDisable (m : ListMem) : IntrStatus × ListMem := (m.intr, { m with intr := .off })

/-- `intr_set_status`. -/
def intrSetStatus (m : ListMem) (status : IntrStatus) : ListMem := { m with intr := status }

/-- `elem->prev = v`. -/
def setPrev (m : ListMem) (elem v : ElemAddr) : ListMem :=
  { m with links := m.links.setPrev elem v }

/-- `elem->next = v`. -/
def setNext (m : ListMem) (elem v : ElemAddr) : ListMem :=
  { m with links := m.links.setNext elem v }

/-- `list_init`. -/
def listInit (m : ListMem) (list : BitVec 32) : ListMem :=
  let m := m.setPrev (headOf list) nullElem
  let m := m.setNext (headOf list) (tailOf list)
  let m := m.setNext (tailOf list) nullElem
  m.setPrev (tailOf list) (headOf list)

/-- `list_insert_before`. -/
def listInsertBefore (m : ListMem) (before elem : ElemAddr) : ListMem :=
  let (oldStatus, m) := m.intrDisable
  let m := m.setNext (m.links before).prev elem
  let m := m.setPrev elem (m.links before).prev
  let m := m.setNext elem before
  let m := m.setPrev before elem
  m.intrSetStatus oldStatus

/-- `list_push`. -/
def listPush (m : ListMem) (list : BitVec 32) (elem : ElemAddr) : ListMem :=
  m.listInsertBefore (m.links (headOf list)).next elem

/-- `list_append`. -/
def listAppend (m : ListMem) (list : BitVec 32) (elem : ElemAddr) : ListMem :=
  m.listInsertBefore (tailOf list) elem

/-- `list_remove`. -/
def listRemove (m : ListMem) (elem : ElemAddr) : ListMem :=
  let (oldStatus, m) := m.intrDisable
  let m := m.setNext (m.links elem).prev (m.links elem).next
  let m := m.setPrev (m.links elem).next (m.links elem).prev
  m.intrSetStatus oldStatus

/-- `list_pop`. -/
def listPop (m : ListMem) (list : BitVec 32) : ElemAddr × ListMem :=
  let result := (m.links (headOf list)).next
  (result, m.listRemove result)

/-- `list_find`. -/
def listFind (m : ListMem) (rounds : ℕ) (list : BitVec 32) (elem : ElemAddr) : Option Bool :=
  m.links.find (tailOf list) elem rounds (m.links (headOf list)).next

/-- `list_empty`. -/
def listEmpty (m : ListMem) (list : BitVec 32) : Bool :=
  decide ((m.links (headOf list)).next = tailOf list)

/-- The loop of `list_length`. -/
def lengthLoop (m : ListMem) (list : BitVec 32) : ℕ → ElemAddr → BitVec 32 → Option (BitVec 32)
  | 0, _, _ => none
  | rounds + 1, e, length =>
    if e ≠ tailOf list then lengthLoop m list rounds (m.links e).next (length + 1#32)
    else some length

/-- `list_length`. -/
def listLength (m : ListMem) (rounds : ℕ) (list : BitVec 32) : Option (BitVec 32) :=
  m.lengthLoop list rounds (m.links (headOf list)).next 0#32

/-- The loop of `list_traversal`. -/
def traversalLoop (m : ListMem) (list : BitVec 32) (func : ElemAddr → BitVec 32 → BitVec 32)
    (arg : BitVec 32) : ℕ → ElemAddr → Option ElemAddr
  | 0, _ => none
  | rounds + 1, e =>
    if e ≠ tailOf list then
      if func e arg ≠ 0#32 then some e
      else traversalLoop m list func arg rounds (m.links e).next
    else some nullElem

/-- `list_traversal`. -/
def listTraversal (m : ListMem) (rounds : ℕ) (list : BitVec 32)
    (func : ElemAddr → BitVec 32 → BitVec 32) (arg : BitVec 32) : Option ElemAddr :=
  if m.listEmpty list then some nullElem
  else m.traversalLoop list func arg rounds (m.links (headOf list)).next

/-! ### Without the flag -/

@[simp] theorem listInsertBefore_links (m : ListMem) (before elem : ElemAddr) :
    (m.listInsertBefore before elem).links = m.links.insertBefore before elem := rfl

@[simp] theorem listInsertBefore_intr (m : ListMem) (before elem : ElemAddr) :
    (m.listInsertBefore before elem).intr = m.intr := rfl

@[simp] theorem listRemove_intr (m : ListMem) (elem : ElemAddr) :
    (m.listRemove elem).intr = m.intr := rfl

@[simp] theorem listRemove_links (m : ListMem) (elem : ElemAddr) :
    (m.listRemove elem).links = m.links.unlink elem := rfl

end ListMem
end ToiletOS
