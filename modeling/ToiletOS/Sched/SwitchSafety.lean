import ToiletOS.Sched.SwitchTo

/-!
# Context switches are transparent

A thread that has been switched to goes on where it called `switch_to`, or enters
`kernel_thread` if it runs for the first time (`context_switch_transparent`).

The invariant says what a thread that does not run has in its page (`Suspended`): the first word
of the PCB points at a frame, and in this frame lie the words that `switch_to` is going to pop.
`switch_to` consists of two halves. `park` leaves the running thread suspended, `resume` needs
a thread to be suspended. In between, every thread is suspended, so that it does not matter
which one comes next. All else that happens writes to the page of one thread only
(`OnlyPage`), and the pages are apart.
-/

namespace ToiletOS

/-! ### Pages -/

variable {p : BitVec 32} {m m' m'' : ByteMemory}

theorem inPage_addr {i : ℕ} (h : i < Pcb.pageSize) : InPage p (addr p i) := by
  unfold InPage
  rw [addr_sub_toNat p (h.trans (by decide))]
  exact h

/-- The addresses of a page are those at the offsets below `Pcb.pageSize`. -/
theorem InPage.exists_offset {a : BitVec 32} (h : InPage p a) :
    ∃ i < Pcb.pageSize, a = addr p i :=
  ⟨(a - p).toNat, h, (addr_toNat_sub p a).symm⟩

/-- No address lies in the pages of two threads. -/
theorem PagesApart.not_inPage {T : Type} {page : T → BitVec 32} (h : PagesApart page) {t u : T}
    (h_ne : t ≠ u) {a : BitVec 32} (h_in : InPage (page t) a) : ¬ InPage (page u) a := by
  intro h_in'
  obtain ⟨i, hi, rfl⟩ := h_in.exists_offset
  obtain ⟨j, hj, h_eq⟩ := h_in'.exists_offset
  have h_t := h.aligned t
  have h_u := h.aligned u
  have h_nat := congrArg BitVec.toNat h_eq
  simp only [addr, BitVec.toNat_add, BitVec.toNat_ofNat] at h_nat
  unfold Pcb.pageSize at *
  apply h_ne
  apply h.injective
  apply BitVec.eq_of_toNat_eq
  -- neither page wraps around, so the offsets are the remainders
  omega

/-! ### Writing to one page -/

/-- At most the bytes of the page have changed. -/
def OnlyPage (p : BitVec 32) (m m' : ByteMemory) : Prop := ∀ a, ¬ InPage p a → m' a = m a

namespace OnlyPage

theorem refl (p : BitVec 32) (m : ByteMemory) : OnlyPage p m m := fun _ _ => rfl

theorem trans (h : OnlyPage p m m') (h' : OnlyPage p m' m'') : OnlyPage p m m'' :=
  fun a ha => (h' a ha).trans (h a ha)

theorem store8 (h : OnlyPage p m m') {a : BitVec 32} (ha : InPage p a) (v : BitVec 8) :
    OnlyPage p m (m'.store8 a v) := by
  intro b hb
  have h_ne : b ≠ a := fun h_eq => hb (h_eq ▸ ha)
  rw [m'.store8_of_ne v h_ne]
  exact h b hb

theorem store32 (h : OnlyPage p m m') {i : ℕ} (hi : i + 4 ≤ Pcb.pageSize) (v : BitVec 32) :
    OnlyPage p m (m'.store32 (addr p i) v) := by
  intro b hb
  have h_ne : ∀ x < 4, b ≠ addr (addr p i) x := by
    intro x hx h_eq
    rw [addr_addr] at h_eq
    exact hb (h_eq ▸ inPage_addr (by omega))
  rw [m'.store32_of_ne v h_ne]
  exact h b hb

theorem memset (h : OnlyPage p m m') {i : ℕ} (val : BitVec 8) (len : ℕ)
    (hi : i + len ≤ Pcb.pageSize) : OnlyPage p m (Pcb.memset m' (addr p i) val len) := by
  induction len generalizing i m' with
  | zero => exact h
  | succ len ih =>
    unfold Pcb.memset
    rw [addr_addr]
    exact ih (h.store8 (inPage_addr (by omega)) val) (by omega)

theorem strcpy (h : OnlyPage p m m') {i : ℕ} (cs : List (BitVec 8))
    (hi : i + cs.length + 1 ≤ Pcb.pageSize) : OnlyPage p m (Pcb.strcpy m' (addr p i) cs) := by
  induction cs generalizing i m' with
  | nil => exact h.store8 (inPage_addr hi) 0#8
  | cons c cs ih =>
    rw [List.length_cons] at hi
    unfold Pcb.strcpy
    rw [addr_addr]
    exact ih (h.store8 (inPage_addr (by omega)) c) (by omega)

end OnlyPage

/-! ### Threads that do not run -/

/-- The PCB points at the offset `k` of the page, above itself, and the words of a frame lie there.
-/
structure Parked (p : BitVec 32) (m : ByteMemory) (k : ℕ) (frame : List (BitVec 32)) : Prop where
  kstack : m.load32 p = addr p k
  above : (CType.struct Pcb.taskStruct).size ≤ k
  frame : Stacked m (addr p k) frame

/-- What a thread that does not run has in its page. -/
def Suspended (p kernelThread : BitVec 32) (entry : BitVec 32 × BitVec 32)
    (call : Option (Cpu × BitVec 32)) (m : ByteMemory) : Prop :=
  match call with
  | some (c, ret) => ∃ k, k + 28 ≤ Pcb.pageSize ∧ c.esp = addr p (k + 20) ∧
      Parked p m k [c.gpr .ebp, c.gpr .ebx, c.gpr .edi, c.gpr .esi, ret] ∧
      ∀ i, k + 20 ≤ i → i < Pcb.pageSize → m (addr p i) = c.mem (addr p i)
  | none => ∃ k, k + 32 ≤ Pcb.pageSize ∧ Parked p m k [0#32, 0#32, 0#32, 0#32, kernelThread] ∧
      m.load32 (addr p (k + 24)) = entry.1 ∧ m.load32 (addr p (k + 28)) = entry.2

/-- Two memories that agree on a page. -/
theorem Parked.congr {k : ℕ} {frame : List (BitVec 32)} (h : Parked p m k frame)
    (h_fits : k + 4 * frame.length ≤ Pcb.pageSize)
    (h_same : ∀ i < Pcb.pageSize, m' (addr p i) = m (addr p i)) : Parked p m' k frame where
  kstack := by
    rw [m.load32_congr fun i hi => h_same i (hi.trans (by decide))]
    exact h.kstack
  above := h.above
  frame := by
    refine h.frame.congr fun i hi => ?_
    rw [addr_addr]
    exact h_same (k + i) (by omega)

theorem load32_congr_page {i : ℕ} (hi : i + 4 ≤ Pcb.pageSize)
    (h_same : ∀ i < Pcb.pageSize, m' (addr p i) = m (addr p i)) :
    m'.load32 (addr p i) = m.load32 (addr p i) := by
  refine m.load32_congr fun x hx => ?_
  rw [addr_addr]
  exact h_same (i + x) (by omega)

/-- A thread stays suspended while its page is left alone. -/
theorem Suspended.congr {kernelThread : BitVec 32} {entry : BitVec 32 × BitVec 32}
    {call : Option (Cpu × BitVec 32)} (h : Suspended p kernelThread entry call m)
    (h_same : ∀ i < Pcb.pageSize, m' (addr p i) = m (addr p i)) :
    Suspended p kernelThread entry call m' := by
  cases call with
  | some call =>
    -- what is read of a suspended thread lies in its page
    obtain ⟨k, h_fits, h_esp, h_parked, h_stack⟩ := h
    refine ⟨k, h_fits, h_esp, h_parked.congr (le_trans (by simp) h_fits) h_same, ?_⟩
    intro i hi h_page
    rw [h_same i h_page]
    exact h_stack i hi h_page
  | none =>
    obtain ⟨k, h_fits, h_parked, h_function, h_args⟩ := h
    refine ⟨k, h_fits, h_parked.congr (le_trans (by simp) h_fits) h_same, ?_, ?_⟩
    · rw [load32_congr_page (by omega) h_same]
      exact h_function
    · rw [load32_congr_page (by omega) h_same]
      exact h_args

/-! ### A new thread -/

theorem initThread_onlyPage (m : ByteMemory) (mainThread p : BitVec 32) (name : List (BitVec 8))
    (prio : BitVec 32)
    (h : CType.offset Pcb.taskStruct 2 + name.length + 1 ≤ Pcb.pageSize) :
    OnlyPage p m (Pcb.initThread m mainThread p name prio) := by
  have h_memset : OnlyPage p m (Pcb.memset m p 0#8 (CType.struct Pcb.taskStruct).size) := by
    have h_zero := (OnlyPage.refl p m).memset (i := 0) 0#8 (CType.struct Pcb.taskStruct).size
      (by decide)
    rw [addr_zero] at h_zero
    exact h_zero
  unfold Pcb.initThread Pcb.memberAt
  -- the members, the last one that is stored first
  refine OnlyPage.store32 ?_ (by decide) _
  refine OnlyPage.store32 ?_ (by decide) _
  refine OnlyPage.store32 ?_ (by decide) _
  refine OnlyPage.store32 ?_ (by decide) _
  refine OnlyPage.store8 ?_ (inPage_addr (by decide)) _
  refine OnlyPage.store8 ?_ (inPage_addr (by decide)) _
  refine OnlyPage.store32 ?_ (by decide) _
  exact h_memset.strcpy name h

/-- The stack of a new thread is empty. -/
theorem initThread_kstack (m : ByteMemory) (mainThread p : BitVec 32) (name : List (BitVec 8))
    (prio : BitVec 32) :
    (Pcb.initThread m mainThread p name prio).load32 p = addr p Pcb.pageSize := by
  have h_kstack : Pcb.memberAt p 0 = p := addr_zero p
  unfold Pcb.initThread
  rw [h_kstack]
  exact (ByteMemory.load32_store32_above _ p _ (by decide) (by decide)).trans
    (ByteMemory.load32_store32 _ p _)

/-- What `thread_create` stores. -/
theorem threadCreate_eq (kernelThread function funcArgs : BitVec 32)
    (h : m.load32 p = addr p Pcb.pageSize) :
    Pcb.threadCreate kernelThread m p function funcArgs =
      (((((((((m.store32 p (addr p 3792)).store32 p (addr p 3664)).store32 (addr p 3680)
        kernelThread).store32 (addr p 3688) function).store32 (addr p 3692) funcArgs).store32
        (addr p 3676) 0#32).store32 (addr p 3672) 0#32).store32 (addr p 3668) 0#32).store32
        (addr p 3664) 0#32) := by
  have h_kstack : Pcb.memberAt p 0 = p := addr_zero p
  have h_intr : addr p Pcb.pageSize - BitVec.ofNat 32 (4 * (CType.struct Pcb.intrStack).size) =
      addr p 3792 := by
    rw [addr, addr, add_sub_assoc]
    rfl
  have h_frame : addr p 3792 - BitVec.ofNat 32 (4 * (CType.struct Pcb.threadStack).size) =
      addr p 3664 := by
    rw [addr, addr, add_sub_assoc]
    rfl
  unfold Pcb.threadCreate
  simp only [h_kstack, h, h_intr, h_frame, ByteMemory.load32_store32, Pcb.frameAt, addr_addr]
  rfl

theorem threadCreate_onlyPage (kernelThread function funcArgs : BitVec 32)
    (h : m'.load32 p = addr p Pcb.pageSize) (h_page : OnlyPage p m m') :
    OnlyPage p m (Pcb.threadCreate kernelThread m' p function funcArgs) := by
  -- the first two stores are to the PCB itself, and the others to the stack of the page
  have h_store (v : BitVec 32) {m₁ : ByteMemory} (h₁ : OnlyPage p m m₁) :
      OnlyPage p m (m₁.store32 p v) := by
    have h_zero := h₁.store32 (i := 0) (by decide) v
    rw [addr_zero] at h_zero
    exact h_zero
  rw [threadCreate_eq kernelThread function funcArgs h]
  refine OnlyPage.store32 ?_ (by decide) _
  refine OnlyPage.store32 ?_ (by decide) _
  refine OnlyPage.store32 ?_ (by decide) _
  refine OnlyPage.store32 ?_ (by decide) _
  refine OnlyPage.store32 ?_ (by decide) _
  refine OnlyPage.store32 ?_ (by decide) _
  refine OnlyPage.store32 ?_ (by decide) _
  exact h_store _ (h_store _ h_page)

/-- A new thread is suspended. -/
theorem threadCreate_suspended (kernelThread function funcArgs : BitVec 32)
    (h : m.load32 p = addr p Pcb.pageSize) :
    Suspended p kernelThread (function, funcArgs) none
      (Pcb.threadCreate kernelThread m p function funcArgs) := by
  rw [threadCreate_eq kernelThread function funcArgs h]
  refine ⟨3664, by decide, ⟨?_, by decide, ?_⟩, ?_, ?_⟩
  · simp (disch := decide) only [ByteMemory.load32_store32_above, ByteMemory.load32_store32]
  · simp only [Stacked, addr_addr]
    simp (disch := decide) only [ByteMemory.load32_store32_of_disjoint,
      ByteMemory.load32_store32, and_self]
  · simp (disch := decide) only [ByteMemory.load32_store32_of_disjoint,
      ByteMemory.load32_store32]
  · simp (disch := decide) only [ByteMemory.load32_store32_of_disjoint,
      ByteMemory.load32_store32]

/-! ### The two halves of `switch_to` -/

/-- The registers that `switch_to` pushes. -/
def calleeSaved (s : Cpu) : List (BitVec 32) := [s.gpr .ebp, s.gpr .ebx, s.gpr .edi, s.gpr .esi]

/-- Up to `mov [eax], esp`. -/
def park (s : Cpu) : Cpu :=
  let s := (calleeSaved s).reverse.foldl Cpu.push s
  let s := s.setGpr .eax (s.load (addr s.esp 20))
  s.store (s.gpr .eax) s.esp

/-- From there on. -/
def resume (s : Cpu) : Cpu :=
  let s := s.setGpr .eax (s.load (addr s.esp 24))
  let s := s.setEsp (s.load (s.gpr .eax))
  let s := s.pop .ebp
  let s := s.pop .ebx
  let s := s.pop .edi
  let s := s.pop .esi
  s.ret

theorem switchTo_eq (s : Cpu) : Pcb.switchTo s = resume (park s) := rfl

section Halves

variable {c : Cpu} {k : ℕ} {ret next : BitVec 32}

/-- What a call of `switch_to` pushes, from the top of the page down. -/
def callFrame (c : Cpu) (ret : BitVec 32) : List (BitVec 32) := calleeSaved c ++ [ret]

/-- The processor when everything has been pushed. -/
def pushed (c : Cpu) (ret : BitVec 32) : Cpu := (callFrame c ret).reverse.foldl Cpu.push c

variable (ret) in
theorem pushed_esp (h_esp : c.esp = addr p (k + 20)) : (pushed c ret).esp = addr p k := by
  have h_pushes : addr (pushed c ret).esp 20 = c.esp := c.pushes_esp (callFrame c ret).reverse
  rw [h_esp, ← addr_addr] at h_pushes
  exact add_right_cancel h_pushes

variable (ret) in
theorem pushed_holds (h_cur : c.load c.esp = p) (h_next : c.load (addr c.esp 4) = next) :
    (pushed c ret).Holds (callFrame c ret ++ [p, next]) := by
  have h_args : c.Holds [p, next] := ⟨h_cur, h_next, trivial⟩
  have h_all := h_args.pushes (callFrame c ret).reverse (by simp [callFrame, calleeSaved])
  rw [List.reverse_reverse] at h_all
  exact h_all

variable (ret) in
/-- Only the page of the thread is written to. -/
theorem pushed_onlyPage (h_esp : c.esp = addr p (k + 20)) (h_fits : k + 20 ≤ Pcb.pageSize) :
    OnlyPage p c.mem (pushed c ret).mem := by
  intro a ha
  have h_a : addr c.esp (a - c.esp).toNat = a := addr_toNat_sub c.esp a
  have h_lt : (a - c.esp).toNat < 2 ^ 32 := (a - c.esp).isLt
  -- the bytes that are written to are those just below the stack pointer
  have h_outside : (a - c.esp).toNat + 20 < 2 ^ 32 := by
    by_contra h_below
    apply ha
    obtain ⟨j, hj⟩ : ∃ j, (a - c.esp).toNat + 20 = j + 2 ^ 32 :=
      ⟨_, (Nat.sub_add_cancel (by omega)).symm⟩
    rw [← h_a, h_esp, addr_addr, ← h_esp, show k + 20 + (a - c.esp).toNat = k + j + 2 ^ 32 by omega,
      addr_wrap]
    exact inPage_addr (by omega)
  rw [← h_a]
  exact c.pushes_mem (callFrame c ret).reverse h_outside

theorem park_mem (h_cur : c.load c.esp = p) (h_next : c.load (addr c.esp 4) = next) :
    (park (c.push ret)).mem = (pushed c ret).mem.store32 p (pushed c ret).esp := by
  have h_holds := pushed_holds ret h_cur h_next
  have h_arg : (pushed c ret).load (addr (pushed c ret).esp 20) = p := by
    simp only [Cpu.Holds, callFrame, calleeSaved, List.cons_append, List.nil_append, Stacked,
      addr_addr] at h_holds
    exact h_holds.2.2.2.2.2.1
  rw [← h_arg]
  rfl

theorem park_esp : (park (c.push ret)).esp = (pushed c ret).esp := rfl

variable (ret) in
/-- **The first half of `switch_to` suspends the running thread**, and writes to its page only. -/
theorem park_suspended (kernelThread : BitVec 32) (entry : BitVec 32 × BitVec 32)
    (h_esp : c.esp = addr p (k + 20)) (h_above : (CType.struct Pcb.taskStruct).size ≤ k)
    (h_fits : k + 28 ≤ Pcb.pageSize) (h_cur : c.load c.esp = p)
    (h_next : c.load (addr c.esp 4) = next) :
    Suspended p kernelThread entry (some (c, ret)) (park (c.push ret)).mem ∧
      OnlyPage p c.mem (park (c.push ret)).mem := by
  have h_pushed := pushed_esp ret h_esp
  have h_holds := pushed_holds ret h_cur h_next
  have h_size : 4 ≤ (CType.struct Pcb.taskStruct).size := by decide
  -- the store to the PCB leaves the stack alone
  have h_stack : ∀ i, k ≤ i → i < Pcb.pageSize →
      (park (c.push ret)).mem (addr p i) = (pushed c ret).mem (addr p i) := by
    intro i hi h_page
    have h_byte := (pushed c ret).mem.store32_of_disjoint p (i := i) (j := 0)
      (pushed c ret).esp (h_page.trans (by decide)) (by decide) (.inr (by omega))
    rw [addr_zero] at h_byte
    rw [park_mem h_cur h_next]
    exact h_byte
  refine ⟨⟨k, h_fits, h_esp, ⟨?_, h_above, ?_⟩, ?_⟩, ?_⟩
  · rw [park_mem h_cur h_next, ByteMemory.load32_store32]
    exact h_pushed
  · -- the registers and the return address are where `resume` will look for them
    have h_frame : Stacked (pushed c ret).mem (addr p k) (callFrame c ret) := by
      rw [← h_pushed]
      exact h_holds.of_append
    refine h_frame.congr fun i hi => ?_
    have h_len : (callFrame c ret).length = 5 := rfl
    rw [addr_addr]
    exact h_stack (k + i) (by omega) (by omega)
  · intro i hi h_page
    rw [h_stack i (by omega) h_page]
    have h_len : (callFrame c ret).reverse.length = 5 := rfl
    have h_size : Pcb.pageSize = 4096 := rfl
    -- what lies above the pushed words is as before
    have h_byte := c.pushes_mem (callFrame c ret).reverse (i := i - (k + 20)) (by omega)
    rw [h_esp, addr_addr, Nat.add_sub_cancel' hi] at h_byte
    exact h_byte
  · have h_store := (pushed_onlyPage ret h_esp (by omega)).store32 (i := 0) (by decide)
      (pushed c ret).esp
    rw [addr_zero] at h_store
    rw [park_mem h_cur h_next]
    exact h_store

/-- The argument for the second half is still on the stack. -/
theorem park_load_next (h_esp : c.esp = addr p (k + 20))
    (h_above : (CType.struct Pcb.taskStruct).size ≤ k) (h_fits : k + 28 ≤ Pcb.pageSize)
    (h_cur : c.load c.esp = p) (h_next : c.load (addr c.esp 4) = next) :
    (park (c.push ret)).load (addr (park (c.push ret)).esp 24) = next := by
  have h_holds := pushed_holds ret h_cur h_next
  have h_four : 4 ≤ k := le_trans (by decide) h_above
  have h_arg : (pushed c ret).mem.load32 (addr (pushed c ret).esp 24) = next := by
    simp only [Cpu.Holds, callFrame, calleeSaved, List.cons_append, List.nil_append, Stacked,
      addr_addr] at h_holds
    exact h_holds.2.2.2.2.2.2.1
  -- the store of `esp` to the PCB is below the argument
  have h_store := (pushed c ret).mem.load32_store32_of_disjoint p (i := k + 24) (j := 0)
    (pushed c ret).esp (by unfold Pcb.pageSize at h_fits; omega) (by decide) (.inr (by omega))
  rw [addr_zero] at h_store
  rw [pushed_esp ret h_esp, addr_addr] at h_arg
  rw [Cpu.load, park_mem h_cur h_next, park_esp, pushed_esp ret h_esp, addr_addr,
    ← pushed_esp ret h_esp, h_store]
  exact h_arg

end Halves

/-- What the second half does with a frame. -/
structure Popped (s s' : Cpu) (p : BitVec 32) (k : ℕ) (ebp ebx edi esi eip : BitVec 32) : Prop where
  gpr : s'.gpr .ebp = ebp ∧ s'.gpr .ebx = ebx ∧ s'.gpr .edi = edi ∧ s'.gpr .esi = esi
  eip : s'.eip = eip
  esp : s'.esp = addr p (k + 20)
  mem : s'.mem = s.mem

theorem resume_popped {s : Cpu} {k : ℕ} {ebp ebx edi esi eip : BitVec 32}
    (h : Parked p s.mem k [ebp, ebx, edi, esi, eip]) (h_next : s.load (addr s.esp 24) = p) :
    Popped s (resume s) p k ebp ebx edi esi eip := by
  have h_kstack : s.load p = addr p k := h.kstack
  have h_frame := h.frame
  simp only [Stacked, addr_addr] at h_frame
  obtain ⟨h_ebp, h_ebx, h_edi, h_esi, h_eip, -⟩ := h_frame
  refine ⟨⟨?_, ?_, ?_, ?_⟩, ?_, ?_, rfl⟩
  -- after the pops each register holds the word of its place
  all_goals
    unfold resume
    simp only [Cpu.ret_gpr, Cpu.ret_eip, Cpu.ret_esp, Cpu.pop_gpr, Cpu.pop_esp, Cpu.pop_load,
      Cpu.setEsp_gpr, Cpu.setEsp_esp, Cpu.setEsp_load, Cpu.setGpr_gpr, Cpu.setGpr_load,
      Function.update_self, h_next, h_kstack, addr_addr]
  all_goals
    simp only [Cpu.load, Function.update_self, ne_eq, reduceCtorEq, not_false_eq_true,
      Function.update_of_ne]
  · exact h_ebp
  · exact h_ebx
  · exact h_edi
  · exact h_esi
  · exact h_eip

/-- **The second half of `switch_to` lets a suspended thread go on.** -/
theorem resume_switchedTo {T : Type} [DecidableEq T] {page : T → BitVec 32}
    {kernelThread : BitVec 32} {st : SwitchState T} {t : T} {s : Cpu} (h_cpu : st.cpu = resume s)
    (h : Suspended (page t) kernelThread (st.entry t) (st.call t) s.mem)
    (h_next : s.load (addr s.esp 24) = page t) : SwitchedTo page kernelThread st t := by
  unfold SwitchedTo
  cases h_call : st.call t with
  | some call =>
    rw [h_call] at h
    -- a thread that was switched out goes on in its caller
    obtain ⟨k, h_fits, h_esp, h_parked, h_stack⟩ := h
    obtain ⟨⟨h_ebp, h_ebx, h_edi, h_esi⟩, h_eip, h_esp', h_mem⟩ := resume_popped h_parked h_next
    rw [← h_cpu] at h_ebp h_ebx h_edi h_esi h_eip h_esp' h_mem
    refine ⟨h_eip, h_esp'.trans h_esp.symm, ?_, ?_⟩
    · intro r hr
      simp only [List.mem_cons, List.not_mem_nil, or_false] at hr
      rcases hr with rfl | rfl | rfl | rfl
      · exact h_ebp
      · exact h_ebx
      · exact h_esi
      · exact h_edi
    · intro a ha h_above
      obtain ⟨i, hi, rfl⟩ := ha.exists_offset
      have h_lt : Pcb.pageSize < 2 ^ 32 := by decide
      rw [h_esp, addr_sub_toNat _ (by omega), addr_sub_toNat _ (by omega)] at h_above
      rw [h_mem]
      exact h_stack i h_above hi
  | none =>
    rw [h_call] at h
    -- a new thread starts in `kernel_thread`, with its two arguments
    obtain ⟨k, h_fits, h_parked, h_function, h_args⟩ := h
    obtain ⟨-, h_eip, h_esp, h_mem⟩ := resume_popped h_parked h_next
    rw [← h_cpu] at h_eip h_esp h_mem
    have h_above := h_parked.above
    have h_offset : (st.cpu.esp - page t).toNat = k + 20 := by
      have h_lt : Pcb.pageSize < 2 ^ 32 := by decide
      rw [h_esp, addr_sub_toNat _ (by omega)]
    refine ⟨h_eip, ?_, ?_, ?_, ?_⟩
    · rw [h_offset]
      exact h_above.trans (Nat.le_add_right k 20)
    · rw [h_offset]
      exact h_fits
    · rw [Cpu.load, h_mem, h_esp, addr_addr]
      exact h_function
    · rw [Cpu.load, h_mem, h_esp, addr_addr]
      exact h_args

/-! ### The invariant -/

section Runs

variable {T : Type} [DecidableEq T] {page : T → BitVec 32} {kernelThread : BitVec 32} {main : T}
  {st st' : SwitchState T}

/-- All threads but the running one are suspended. -/
structure SwitchInv (page : T → BitVec 32) (kernelThread : BitVec 32) (st : SwitchState T) :
    Prop where
  cur_mem : st.cur ∈ st.threads
  not_called : ∀ t, t ∉ st.threads → st.call t = none
  suspended : ∀ t ∈ st.threads, t ≠ st.cur →
    Suspended (page t) kernelThread (st.entry t) (st.call t) st.cpu.mem

omit [DecidableEq T] in
/-- A thread stays suspended while another one writes to its own page. -/
theorem Suspended.of_onlyPage (h_pages : PagesApart page) {t u : T} (h_ne : t ≠ u)
    {entry : BitVec 32 × BitVec 32} {call : Option (Cpu × BitVec 32)}
    (h : Suspended (page t) kernelThread entry call m) (h_page : OnlyPage (page u) m m') :
    Suspended (page t) kernelThread entry call m' :=
  h.congr fun _ hi => h_page _ (h_pages.not_inPage h_ne (inPage_addr hi))

theorem switchInv_init (h : (switchSys page kernelThread main).init st) :
    SwitchInv page kernelThread st := by
  obtain ⟨h_cur, h_threads, h_call, -⟩ := h
  refine ⟨?_, ?_, ?_⟩
  · rw [h_threads, h_cur]
    exact List.mem_singleton_self main
  · intro t _
    rw [h_call]
  · intro t ht h_ne
    rw [h_threads, List.mem_singleton] at ht
    exact absurd (ht.trans h_cur.symm) h_ne

omit [DecidableEq T] in
/-- The registers are not part of the invariant, and a write to the own page keeps it. -/
theorem SwitchInv.of_onlyPage (h_pages : PagesApart page) (h : SwitchInv page kernelThread st)
    {cpu : Cpu} (h_page : OnlyPage (page st.cur) st.cpu.mem cpu.mem) :
    SwitchInv page kernelThread { st with cpu := cpu } where
  cur_mem := h.cur_mem
  not_called := h.not_called
  suspended t ht h_ne := (h.suspended t ht h_ne).of_onlyPage h_pages h_ne h_page

theorem switchInv_create (h_pages : PagesApart page) (h : SwitchInv page kernelThread st) {t : T}
    {name : List (BitVec 8)} {prio function funcArgs : BitVec 32}
    (h_step :
      (switchSys page kernelThread main).Step st (.create t name prio function funcArgs) st') :
    SwitchInv page kernelThread st' := by
  obtain ⟨⟨h_new, -, h_name⟩, h_exec⟩ := h_step
  have h_init := initThread_onlyPage st.cpu.mem (page main) (page t) name prio h_name
  have h_kstack := initThread_kstack st.cpu.mem (page main) (page t) name prio
  have h_page := threadCreate_onlyPage kernelThread function funcArgs h_kstack h_init
  have h_suspended := threadCreate_suspended kernelThread function funcArgs h_kstack
  cases h_exec
  refine ⟨List.mem_append_left _ h.cur_mem, ?_, ?_⟩
  · intro u hu
    exact h.not_called u fun hu' => hu (List.mem_append_left _ hu')
  · intro u hu h_ne
    rcases List.mem_append.mp hu with hu | hu
    · -- the pages of the others are apart from the one that is written
      have h_ne' : u ≠ t := fun h_eq => h_new (h_eq ▸ hu)
      simp only [Function.update_of_ne h_ne']
      exact (h.suspended u hu h_ne).of_onlyPage h_pages h_ne' h_page
    · rw [List.mem_singleton] at hu
      subst hu
      simp only [Function.update_self, h.not_called u h_new]
      exact h_suspended

/-- In the middle of `switch_to`, all threads are suspended. -/
theorem switch_allSuspended (h_pages : PagesApart page) (h : SwitchInv page kernelThread st)
    {next : T} (ret : BitVec 32) (h_ready : ReadyToSwitch page st next) :
    (park (st.cpu.push ret)).load (addr (park (st.cpu.push ret)).esp 24) = page next ∧
    ∀ t ∈ st.threads, Suspended (page t) kernelThread (st.entry t)
      (Function.update st.call st.cur (some (st.cpu, ret)) t) (park (st.cpu.push ret)).mem := by
  obtain ⟨h_room, h_inside, h_cur, h_next⟩ := h_ready
  obtain ⟨k, hk⟩ : ∃ k, (st.cpu.esp - page st.cur).toNat = k + 20 :=
    ⟨_, (Nat.sub_add_cancel (le_trans (Nat.le_add_left 20 _) h_room)).symm⟩
  have h_esp : st.cpu.esp = addr (page st.cur) (k + 20) := by
    rw [← hk]
    exact (addr_toNat_sub _ _).symm
  rw [hk] at h_room h_inside
  have h_above := Nat.le_of_add_le_add_right h_room
  refine ⟨park_load_next h_esp h_above h_inside h_cur h_next, ?_⟩
  intro t ht
  obtain ⟨h_suspended, h_page⟩ :=
    park_suspended ret kernelThread (st.entry st.cur) h_esp h_above h_inside
    h_cur h_next
  -- the running thread is suspended now, and the others are as they were
  by_cases h_eq : t = st.cur
  · subst h_eq
    rw [Function.update_self]
    exact h_suspended
  · rw [Function.update_of_ne h_eq]
    exact (h.suspended t ht h_eq).of_onlyPage h_pages h_eq h_page

theorem switchInv_step (h_pages : PagesApart page) {a : SwitchAct T}
    (h : SwitchInv page kernelThread st)
    (h_step : (switchSys page kernelThread main).Step st a st') :
    SwitchInv page kernelThread st' := by
  cases a with
  | compute regs =>
    cases h_step.2
    exact h.of_onlyPage h_pages (OnlyPage.refl _ _)
  | write a v =>
    cases h_step.2
    exact h.of_onlyPage h_pages ((OnlyPage.refl _ _).store8 h_step.1 v)
  | create t name prio function funcArgs => exact switchInv_create h_pages h h_step
  | switch next ret =>
    obtain ⟨⟨h_mem, h_ready⟩, h_exec⟩ := h_step
    obtain ⟨-, h_all⟩ := switch_allSuspended h_pages h ret h_ready
    cases h_exec
    refine ⟨h_mem, ?_, ?_⟩
    · intro t ht
      -- a thread that has not been created is not the one that calls
      have h_ne : t ≠ st.cur := fun h_eq => ht (h_eq ▸ h.cur_mem)
      simp only [Function.update_of_ne h_ne]
      exact h.not_called t ht
    · intro t ht _
      exact h_all t ht

/-- **Context switches are transparent.** A thread that is switched to goes on where it called
`switch_to`, with its registers and its stack as they were, or it enters `kernel_thread` with
the arguments it was created with. -/
theorem context_switch_transparent (h_pages : PagesApart page)
    (h_reachable : (switchSys page kernelThread main).Reachable st) {next : T} {ret : BitVec 32}
    (h_step : (switchSys page kernelThread main).Step st (.switch next ret) st') :
    SwitchedTo page kernelThread st' next := by
  have h_inv : SwitchInv page kernelThread st :=
    h_reachable.invariant (fun _ => switchInv_init) fun _ _ _ => switchInv_step h_pages
  obtain ⟨⟨h_mem, h_ready⟩, h_exec⟩ := h_step
  obtain ⟨h_next, h_all⟩ := switch_allSuspended h_pages h_inv ret h_ready
  cases h_exec
  exact resume_switchedTo (switchTo_eq _) (h_all next h_mem) h_next

end Runs

/-! ### Two threads -/

/-- The page of `main` and that of a thread. -/
def twoPages : Bool → BitVec 32
  | false => 0xc009e000#32
  | true => 0xc0100000#32

/-- A processor with the arguments of `switch_to` on its stack. -/
def switching (esp cur next : BitVec 32) (m : ByteMemory) : Cpu where
  gpr r := match r with
    | .eax => 1 | .ecx => 2 | .edx => 3 | .ebx => 4 | .ebp => 5 | .esi => 6 | .edi => 7
  esp := esp
  eip := 0xc0001500
  eflags := 2
  cs := 8
  seg _ := 16
  mem := (m.store32 esp cur).store32 (addr esp 4) next

/-- `main` is about to switch. -/
def mainSwitching : SwitchState Bool where
  cpu :=
    let cpu := switching 0xc009e800 0xc009e000 0xc0100000 fun _ => 0
    { cpu with mem := Pcb.initThread cpu.mem 0xc009e000 0xc009e000 [109, 97, 105, 110] 31 }
  cur := false
  threads := [false]
  entry _ := (0, 0)
  call _ := none

/-- `main` creates a thread and switches to it. The thread puts the arguments for a switch back on
its stack. -/
def createAndSwitch : List (SwitchAct Bool) :=
  [.create true [107] 31 0xc0002000 7, .switch true 0xc0001600,
    .compute (switching 0xc0100e00 0 0 fun _ => 0),
    .write 0xc0100e02 0x10, .write 0xc0100e03 0xc0,
    .write 0xc0100e05 0xe0, .write 0xc0100e06 0x09, .write 0xc0100e07 0xc0]

theorem twoPages_apart : PagesApart twoPages where
  aligned t := by cases t <;> decide
  injective t u h := by
    cases t <;> cases u
    · rfl
    · exact absurd h (by decide)
    · exact absurd h (by decide)
    · rfl

/-- `main` goes on after the call of `switch_to` that it made. -/
theorem context_switch_transparent_two : ∃ st st' : SwitchState Bool,
    (switchSys twoPages 0xc0001234 false).Step st (.switch false 0xc0002100) st' ∧
    st'.cpu.eip = 0xc0001600 ∧ SwitchedTo twoPages 0xc0001234 st' false := by
  have h_init : (switchSys twoPages 0xc0001234 false).Reachable mainSwitching :=
    .init ⟨rfl, rfl, rfl, _, rfl⟩
  have h_play : ((switchSys twoPages 0xc0001234 false).play mainSwitching createAndSwitch).any
      (fun st => decide ((switchSys twoPages 0xc0001234 false).enabled st (.switch false 0xc0002100)
        ∧ (Pcb.switchTo (st.cpu.push 0xc0002100)).eip = 0xc0001600)) = true := by
    decide +kernel
  obtain ⟨st, h_st, h_any⟩ := (Option.any_eq_true _ _).mp h_play
  obtain ⟨h_enabled, h_eip⟩ := of_decide_eq_true h_any
  have h_step : (switchSys twoPages 0xc0001234 false).Step st (.switch false 0xc0002100) _ :=
    ⟨h_enabled, rfl⟩
  exact ⟨st, _, h_step, h_eip,
    context_switch_transparent twoPages_apart (h_init.play createAndSwitch h_st) h_step⟩

end ToiletOS
