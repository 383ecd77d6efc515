import Mathlib.Logic.Function.Basic
import ToiletOS.Framework.X86

/-!
# Entry and exit of interrupts

The stubs of `kernel/kernel.S`. When an interrupt comes in, the processor pushes `eflags`, `cs` and
`eip`, and for some vectors an error code. The stub of the vector pushes a zero where
the processor has pushed no error code, saves the registers, and calls the handler that
`idt_table` has for the vector; `intr_exit` takes all of this off again and returns to the
code that was interrupted.

The table of the stubs says `ZERO` for all vectors but `0x1e`, also for those below at which the
processor has pushed an error code. Then one word too many is on the stack, and `iretd`
takes the error code for `eip`. `interrupt_transparent_iff` says that these are exactly the
vectors from which the code does not come back.
-/

namespace ToiletOS

/-- The numbers of the vectors, of which there are `IDT_DESC_CNT`. -/
abbrev VecNo : Type := Fin 0x30

/-- The processor pushes an error code. -/
def PushesErrorCode (v : VecNo) : Prop := v ∈ ([8, 10, 11, 12, 13, 14, 17, 30] : List VecNo)

instance : DecidablePred PushesErrorCode := fun v =>
  inferInstanceAs (Decidable (v ∈ ([8, 10, 11, 12, 13, 14, 17, 30] : List VecNo)))

/-- What the processor does at an interrupt, through an interrupt gate of the same privilege: it
also clears the flags `TF`, `IF`, `NT`, `RF` and `VM`. -/
def interrupt (v : VecNo) (errorCode : BitVec 32) (s : Cpu) : Cpu :=
  let eflags := s.eflags
  let s := s.push eflags
  let s := s.push (s.cs.setWidth 32)
  let s := s.push s.eip
  let s := s.setEflags (eflags &&& ~~~0x34300#32)
  if PushesErrorCode v then s.push errorCode else s

/-! ### `kernel.S` -/

/-- The second argument of the macro `VECTOR`. -/
inductive VectorMacro
  -- `nop`
  | errorCode
  -- `push 0`
  | zero
  deriving DecidableEq, Repr

/-- The uses of the macro `VECTOR`, from `0x00` to `0x2f`. -/
def vectorMacro : VecNo → VectorMacro
  | 0x1e => .errorCode
  | _ => .zero

/-- What the argument stands for. -/
def VectorMacro.exec : VectorMacro → Cpu → Cpu
  | .errorCode, s => s
  | .zero, s => s.push 0#32

/-- The stub of a vector, up to its `call`. -/
def intrEntry (v : VecNo) (s : Cpu) : Cpu :=
  let s := (vectorMacro v).exec s
  let s := s.push ((s.seg .ds).setWidth 32)
  let s := s.push ((s.seg .es).setWidth 32)
  let s := s.push ((s.seg .fs).setWidth 32)
  let s := s.push ((s.seg .gs).setWidth 32)
  let s := s.pushad
  -- mov al, 0x20, and two outputs of it that end the interrupt
  let s := s.setGpr .eax ((s.gpr .eax &&& 0xffffff00#32) ||| 0x20#32)
  s.push (BitVec.ofNat 32 v)

/-- `intr_exit`. -/
def intrExit (s : Cpu) : Cpu :=
  let s := s.drop
  let s := s.popad
  let s := s.popSeg .gs
  let s := s.popSeg .fs
  let s := s.popSeg .es
  let s := s.popSeg .ds
  let s := s.drop
  s.iretd

/-- What a handler does, from its first instruction to the one it returns to. -/
abbrev IntrHandler : Type := Cpu → Cpu

/-- `register_handler`. -/
def registerHandler (idtTable : VecNo → IntrHandler) (vecNo : VecNo) (handler : IntrHandler) :
    VecNo → IntrHandler :=
  Function.update idtTable vecNo handler

/-- The processor at the first instruction of the handler, which is going to return to `ret`. -/
def atHandler (ret : BitVec 32) (v : VecNo) (errorCode : BitVec 32) (s : Cpu) : Cpu :=
  (intrEntry v (interrupt v errorCode s)).push ret

/-- An interrupt, from the state `s` of the code that is interrupted to the state in
which it goes on. -/
def serve (idtTable : VecNo → IntrHandler) (ret : BitVec 32) (v : VecNo) (errorCode : BitVec 32)
    (s : Cpu) : Cpu :=
  intrExit (idtTable v (atHandler ret v errorCode s))

/-- A function that is entered in `s` and has returned in `s'` keeps to the calling
convention: it takes its return address off the stack and goes there, and what lies above
it and its argument is as it was, here the seventeen words of the frame of an interrupt. -/
structure Cdecl (s s' : Cpu) : Prop where
  eip : s'.eip = s.top
  esp : s'.esp = addr s.esp 4
  frame : ∀ i < 68, s'.mem (addr s.esp (8 + i)) = s.mem (addr s.esp (8 + i))
  saved : ∀ r ∈ [Gpr.ebx, .ebp, .esi, .edi], s'.gpr r = s.gpr r

/-- The code that was interrupted in `s` does not see it in `s'`. -/
structure Resumes (s s' : Cpu) : Prop where
  eip : s'.eip = s.eip
  cs : s'.cs = s.cs
  eflags : s'.eflags = s.eflags
  esp : s'.esp = s.esp
  gpr : ∀ r, s'.gpr r = s.gpr r
  seg : ∀ r, s'.seg r = s.seg r

/-! ### The frame of an interrupt -/

section Frame

variable {s : Cpu} {v : VecNo}

/-- The vectors whose stub pushes a zero although the processor has pushed an error code. -/
def PushedTwice (v : VecNo) : Prop := v ∈ ([8, 10, 11, 12, 13, 14, 17] : List VecNo)

instance : DecidablePred PushedTwice := fun v =>
  inferInstanceAs (Decidable (v ∈ ([8, 10, 11, 12, 13, 14, 17] : List VecNo)))

theorem pushedTwice_iff : ∀ v, PushedTwice v ↔ PushesErrorCode v ∧ vectorMacro v = .zero := by
  decide

theorem vectorMacro_of_not : ∀ v, ¬ PushesErrorCode v → vectorMacro v = .zero := by decide

/-- A stub that matches its vector leaves one word for the error code. -/
theorem exists_errorWord (h : ¬ PushedTwice v) :
    (PushesErrorCode v ∧ vectorMacro v = .errorCode) ∨
      (¬ PushesErrorCode v ∧ vectorMacro v = .zero) := by
  rw [pushedTwice_iff] at h
  by_cases h_push : PushesErrorCode v
  · left
    refine ⟨h_push, ?_⟩
    cases h_vector : vectorMacro v with
    | errorCode => rfl
    | zero => exact absurd ⟨h_push, h_vector⟩ h
  · exact .inr ⟨h_push, vectorMacro_of_not v h_push⟩

/-- What the processor pushes, without the error code. -/
def pushedByCpu (s : Cpu) : List (BitVec 32) := [s.eip, s.cs.setWidth 32, s.eflags]

/-- What the stub saves, below the word for the error code. -/
def savedRegs (s : Cpu) (esp : BitVec 32) : List (BitVec 32) :=
  [s.gpr .edi, s.gpr .esi, s.gpr .ebp, esp, s.gpr .ebx, s.gpr .edx, s.gpr .ecx, s.gpr .eax,
    (s.seg .gs).setWidth 32, (s.seg .fs).setWidth 32, (s.seg .es).setWidth 32,
    (s.seg .ds).setWidth 32]

/-- The stack when the word for the error code has been pushed, once. -/
theorem errorWord_holds (errorCode : BitVec 32) (h : ¬ PushedTwice v) : ∃ e,
    ((vectorMacro v).exec (interrupt v errorCode s)).Holds (e :: pushedByCpu s) ∧
      addr ((vectorMacro v).exec (interrupt v errorCode s)).esp 16 = s.esp := by
  have h_nil : s.Holds [] := trivial
  have h_holds (e : BitVec 32) := h_nil.pushes [s.eflags, s.cs.setWidth 32, s.eip, e] (by simp)
  have h_esp (e : BitVec 32) := s.pushes_esp [s.eflags, s.cs.setWidth 32, s.eip, e]
  rcases exists_errorWord h with ⟨h_push, h_vector⟩ | ⟨h_push, h_vector⟩
  · rw [h_vector, VectorMacro.exec, interrupt, if_pos h_push]
    exact ⟨errorCode, h_holds errorCode, h_esp errorCode⟩
  · rw [h_vector, VectorMacro.exec, interrupt, if_neg h_push]
    exact ⟨0#32, h_holds 0#32, h_esp 0#32⟩

/-- Up to here, the registers are those of the code that is interrupted. -/
theorem errorWord_regs (v : VecNo) (errorCode esp : BitVec 32) (s : Cpu) :
    savedRegs ((vectorMacro v).exec (interrupt v errorCode s)) esp = savedRegs s esp := by
  unfold interrupt
  cases vectorMacro v <;> split <;> rfl

/-- What the stub does from there on. -/
theorem atHandler_eq (v : VecNo) (errorCode ret : BitVec 32) (s : Cpu) :
    let s₁ := (vectorMacro v).exec (interrupt v errorCode s)
    ∃ esp, let s₂ := ((savedRegs s₁ esp).reverse ++ [BitVec.ofNat 32 v, ret]).foldl Cpu.push s₁
      (atHandler ret v errorCode s).mem = s₂.mem ∧ (atHandler ret v errorCode s).esp = s₂.esp := by
  intro s₁
  unfold atHandler intrEntry
  refine ⟨s₁.esp - 4#32 - 4#32 - 4#32 - 4#32, ?_⟩
  simp only [savedRegs, List.reverse_cons, List.reverse_nil, List.nil_append, List.cons_append,
    List.foldl_cons, List.foldl_nil, Cpu.pushad_eq, Cpu.push_gpr, Cpu.push_seg, Cpu.push_esp]
  obtain ⟨h_mem, h_esp⟩ := Cpu.push_congr (BitVec.ofNat 32 v) (Cpu.setGpr_mem _ _ _)
    (Cpu.setGpr_esp _ _ _)
  exact Cpu.push_congr ret h_mem h_esp

/-- The stack at the first instruction of the handler. -/
theorem atHandler_holds (errorCode ret : BitVec 32) (h : ¬ PushedTwice v) : ∃ e esp,
    (atHandler ret v errorCode s).Holds
      (ret :: BitVec.ofNat 32 v :: (savedRegs s esp ++ e :: pushedByCpu s)) ∧
    addr (atHandler ret v errorCode s).esp 72 = s.esp := by
  obtain ⟨e, h_holds, h_esp⟩ := errorWord_holds (s := s) errorCode h
  obtain ⟨esp, h_mem', h_esp'⟩ := atHandler_eq v errorCode ret s
  rw [errorWord_regs] at h_mem' h_esp'
  refine ⟨e, esp, ?_, ?_⟩
  · rw [Cpu.Holds, h_mem', h_esp']
    -- the stub pushes the registers, the vector and the return address on what the CPU has pushed
    have h_all := h_holds.pushes ((savedRegs s esp).reverse ++ [BitVec.ofNat 32 v, ret])
      (by simp [savedRegs, pushedByCpu])
    rw [List.reverse_append, List.reverse_reverse] at h_all
    exact h_all
  · have h_pushes := Cpu.pushes_esp ((vectorMacro v).exec (interrupt v errorCode s))
      ((savedRegs s esp).reverse ++ [BitVec.ofNat 32 v, ret])
    rw [← h_esp'] at h_pushes
    rw [← h_esp, ← h_pushes, addr_addr]
    rfl

/-- Where the error code is pushed twice, the stack pointer is one word lower. -/
theorem atHandler_esp_of_twice (errorCode ret : BitVec 32) (h : PushedTwice v) :
    addr (atHandler ret v errorCode s).esp 76 = s.esp := by
  obtain ⟨h_push, h_vector⟩ := (pushedTwice_iff v).mp h
  obtain ⟨esp, -, h_esp'⟩ := atHandler_eq v errorCode ret s
  have h_esp : addr ((vectorMacro v).exec (interrupt v errorCode s)).esp 20 = s.esp := by
    rw [h_vector, VectorMacro.exec, interrupt, if_pos h_push]
    exact s.pushes_esp [s.eflags, s.cs.setWidth 32, s.eip, errorCode, 0#32]
  have h_pushes := Cpu.pushes_esp ((vectorMacro v).exec (interrupt v errorCode s))
    ((savedRegs ((vectorMacro v).exec (interrupt v errorCode s)) esp).reverse
      ++ [BitVec.ofNat 32 v, ret])
  rw [← h_esp'] at h_pushes
  rw [← h_esp, ← h_pushes, addr_addr]
  rfl

/-! ### The way back -/

/-- `intr_exit` takes seventeen words off. -/
theorem intrExit_esp (s' : Cpu) : (intrExit s').esp = addr s'.esp 68 := by
  simp only [intrExit, Cpu.iretd, Cpu.popad, Cpu.drop_esp, Cpu.popSeg_esp, Cpu.pop_esp, addr_addr]

/-- It finds the registers where the stub has put them. -/
theorem resumes_intrExit {s' : Cpu} {e esp : BitVec 32}
    (h : Stacked s'.mem (addr s'.esp 4) (savedRegs s esp ++ e :: pushedByCpu s))
    (h_esp : addr s'.esp 68 = s.esp) : Resumes s (intrExit s') := by
  have h_width (r : BitVec 16) : (r.setWidth 32).setWidth 16 = r := by
    rw [BitVec.setWidth_setWidth_of_le _ (by decide), BitVec.setWidth_eq]
  simp only [savedRegs, pushedByCpu, List.cons_append, List.nil_append, Stacked, addr_addr] at h
  obtain ⟨h_edi, h_esi, h_ebp, -, h_ebx, h_edx, h_ecx, h_eax, h_gs, h_fs, h_es, h_ds, -, h_eip,
    h_cs, h_eflags, -⟩ := h
  -- memory stays the same, so each register is loaded from its place in `s'`
  have h_gpr (r : Gpr) : (intrExit s').gpr r = s.gpr r := by
    simp only [intrExit, Cpu.iretd, Cpu.popad, Cpu.drop_gpr, Cpu.popSeg_gpr, Cpu.pop_gpr,
      Cpu.drop_esp, Cpu.pop_esp, Cpu.drop_load, Cpu.pop_load, addr_addr]
    simp only [Cpu.load, h_edi, h_esi, h_ebp, h_ebx, h_edx, h_ecx, h_eax]
    cases r <;> rfl
  -- a segment register is pushed as a word of 32 bits and popped as one of 16
  have h_seg (r : SegReg) : (intrExit s').seg r = s.seg r := by
    simp only [intrExit, Cpu.iretd, Cpu.popad, Cpu.drop_seg, Cpu.popSeg_seg, Cpu.pop_seg,
      Cpu.drop_esp, Cpu.pop_esp, Cpu.popSeg_esp, Cpu.drop_load, Cpu.pop_load, Cpu.popSeg_load,
      addr_addr]
    simp only [Cpu.load, h_gs, h_fs, h_es, h_ds, h_width]
    cases r <;> rfl
  refine ⟨?_, ?_, ?_, (intrExit_esp s').trans h_esp, h_gpr, h_seg⟩
  · simp only [intrExit, Cpu.iretd, Cpu.popad, Cpu.drop_esp, Cpu.pop_esp, Cpu.popSeg_esp,
      Cpu.drop_load, Cpu.pop_load, Cpu.popSeg_load, addr_addr]
    exact h_eip
  · simp only [intrExit, Cpu.iretd, Cpu.popad, Cpu.drop_esp, Cpu.pop_esp, Cpu.popSeg_esp,
      Cpu.drop_load, Cpu.pop_load, Cpu.popSeg_load, addr_addr]
    rw [Cpu.load, h_cs, h_width]
  · simp only [intrExit, Cpu.iretd, Cpu.popad, Cpu.drop_esp, Cpu.pop_esp, Cpu.popSeg_esp,
      Cpu.drop_load, Cpu.pop_load, Cpu.popSeg_load, addr_addr]
    exact h_eflags

end Frame

/-- **When interrupts are transparent.** The code that was interrupted goes on as it was
if and only if the vector is none of those at which the error code is pushed twice. -/
theorem interrupt_transparent_iff (idtTable : VecNo → IntrHandler) (v : VecNo)
    (handler : IntrHandler) (errorCode ret : BitVec 32) (s : Cpu)
    (h_cdecl : Cdecl (atHandler ret v errorCode s) (handler (atHandler ret v errorCode s))) :
    Resumes s (serve (registerHandler idtTable v handler) ret v errorCode s) ↔ ¬ PushedTwice v := by
  rw [serve, registerHandler, Function.update_self]
  generalize h_s' : handler (atHandler ret v errorCode s) = s' at h_cdecl
  have h_exit : addr s'.esp 68 = addr (atHandler ret v errorCode s).esp 72 := by
    rw [h_cdecl.esp, addr_addr]
  constructor
  · intro h_resumes h_twice
    -- the error code that is pushed twice leaves one word too many below the frame
    have h_lower := atHandler_esp_of_twice (s := s) errorCode ret h_twice
    have h_esp := h_resumes.esp
    rw [intrExit_esp, h_exit, ← h_lower] at h_esp
    exact addr_ne _ (i := 72) (j := 76) (by decide) (by decide) (by decide) h_esp
  · intro h
    obtain ⟨e, esp, h_holds, h_esp⟩ := atHandler_holds (s := s) errorCode ret h
    -- the frame lies above the argument of the handler
    have h_above := h_holds.tail.tail
    rw [addr_addr] at h_above
    have h_frame : Stacked s'.mem (addr s'.esp 4) (savedRegs s esp ++ e :: pushedByCpu s) := by
      rw [h_cdecl.esp, addr_addr]
      refine h_above.congr fun i hi => ?_
      rw [addr_addr]
      refine h_cdecl.frame i ?_
      simp only [savedRegs, pushedByCpu, List.length_append, List.length_cons,
        List.length_nil] at hi
      omega
    exact resumes_intrExit h_frame (h_exit.trans h_esp)

/-- A processor, somewhere in the kernel with interrupts enabled. -/
def someCpu : Cpu where
  gpr r := match r with
    | .eax => 1 | .ecx => 2 | .edx => 3 | .ebx => 4 | .ebp => 0xc009e900 | .esi => 5 | .edi => 6
  esp := 0xc009e800
  eip := 0xc0001500
  eflags := 0x202
  cs := 8
  seg r := if r = .gs then 24 else 16
  mem _ := 0

/-- A handler that does nothing keeps to the calling convention. -/
theorem cdecl_ret (s : Cpu) : Cdecl s s.ret where
  eip := rfl
  esp := rfl
  frame _ _ := rfl
  saved _ _ := rfl

/-- The timer. -/
theorem interrupt_transparent_timer :
    Resumes someCpu (serve (registerHandler (fun _ => Cpu.ret) 0x20 Cpu.ret) 0 0x20 0 someCpu) :=
  (interrupt_transparent_iff _ 0x20 Cpu.ret 0 0 someCpu (cdecl_ret _)).mpr (by decide)

/-- A page fault does not come back, although its handler does: `eip` is its error code. -/
theorem page_fault_not_transparent :
    Cdecl (atHandler 0 14 2 someCpu) (Cpu.ret (atHandler 0 14 2 someCpu)) ∧
    (serve (registerHandler (fun _ => Cpu.ret) 14 Cpu.ret) 0 14 2 someCpu).eip = 2 ∧
    ¬ Resumes someCpu (serve (registerHandler (fun _ => Cpu.ret) 14 Cpu.ret) 0 14 2 someCpu) := by
  have h_eip : (serve (registerHandler (fun _ => Cpu.ret) 14 Cpu.ret) 0 14 2 someCpu).eip = 2 := by
    decide +kernel
  refine ⟨cdecl_ret _, h_eip, fun h => ?_⟩
  rw [h.eip] at h_eip
  exact absurd h_eip (by decide)

end ToiletOS
