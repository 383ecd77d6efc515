import ToiletOS.Framework.Machine
import ToiletOS.Framework.X86

/-!
# Context switches

`switch_to` of `kernel/switch.S` on the registers of the processor, and `init_thread` and
`thread_create` of `kernel/thread/thread.c` on the bytes of the page that holds the PCB
and the stack of a thread. The offsets are those that follow from the declarations in
`thread/thread.h`.

`switchSys` is the machine: the running thread computes, writes to its own page, sets up
another thread, or calls `switch_to`. Two ghosts record what a switch has to restore: the
arguments that a thread was created with, and the processor at its last call of
`switch_to`.
-/

namespace ToiletOS
namespace Pcb

/-! ### Declarations -/

/-- `struct list_elem`: `prev`, `next`. -/
def listElem : List CType := [.pointer, .pointer]

/-- `struct intr_stack`, nineteen words. -/
def intrStack : List CType := List.replicate 19 .int

/-- `struct thread_stack`: `ebp`, `ebx`, `edi`, `esi`, `eip`, `unused_retaddr`, `function`,
`func_args`. -/
def threadStack : List CType :=
  [.int, .int, .int, .int, .pointer, .pointer, .pointer, .pointer]

/-- `struct task_struct`: `self_kstack`, `status`, `name`, `priority`, `ticks`, `elaspsed_ticks`,
`general_tag`, `all_list_tag`, `pgdir`, `stack_magic`. -/
def taskStruct : List CType :=
  [.pointer, .int, .array 16 .char, .char, .char, .int, .struct listElem, .struct listElem,
    .pointer, .int]

/-- Member `i` of a thread's PCB. -/
def memberAt (pthread : BitVec 32) (i : ℕ) : BitVec 32 := addr pthread (CType.offset taskStruct i)

/-- Member `i` of a `struct thread_stack`. -/
def frameAt (kstack : BitVec 32) (i : ℕ) : BitVec 32 := addr kstack (CType.offset threadStack i)

/-- `PAGE_SIZE`. -/
def pageSize : ℕ := 4096

/-! ### `string.c` -/

/-- `memset`. -/
def memset (m : ByteMemory) (dest : BitVec 32) (val : BitVec 8) : ℕ → ByteMemory
  | 0 => m
  | len + 1 => memset (m.store8 dest val) (addr dest 1) val len

/-- `strcpy` of a string with these characters. -/
def strcpy (m : ByteMemory) (dest : BitVec 32) : List (BitVec 8) → ByteMemory
  | [] => m.store8 dest 0#8
  | c :: cs => strcpy (m.store8 dest c) (addr dest 1) cs

/-! ### `thread.c` -/

/-- `init_thread`. A pointer to `uint32_t` counts words, and `prio` is cut to a byte. -/
def initThread (m : ByteMemory) (mainThread pthread : BitVec 32) (name : List (BitVec 8))
    (prio : BitVec 32) : ByteMemory :=
  let m := memset m pthread 0#8 (CType.struct taskStruct).size
  let m := strcpy m (memberAt pthread 2) name
  -- `TASK_RUNNING` is 0 and `TASK_READY` is 1
  let m := m.store32 (memberAt pthread 1) (if pthread = mainThread then 0#32 else 1#32)
  let m := m.store8 (memberAt pthread 3) (prio.setWidth 8)
  let m := m.store8 (memberAt pthread 4) (prio.setWidth 8)
  let m := m.store32 (memberAt pthread 5) 0#32
  let m := m.store32 (memberAt pthread 8) 0#32
  let m := m.store32 (memberAt pthread 0) (addr pthread pageSize)
  m.store32 (memberAt pthread 9) 0x77777777#32

/-- `thread_create`. The sizes are subtracted from a pointer to words. -/
def threadCreate (kernelThread : BitVec 32) (m : ByteMemory)
    (pthread function funcArgs : BitVec 32) : ByteMemory :=
  let m := m.store32 (memberAt pthread 0)
    (m.load32 (memberAt pthread 0) - BitVec.ofNat 32 (4 * (CType.struct intrStack).size))
  let m := m.store32 (memberAt pthread 0)
    (m.load32 (memberAt pthread 0) - BitVec.ofNat 32 (4 * (CType.struct threadStack).size))
  let kthreadStack := m.load32 (memberAt pthread 0)
  let m := m.store32 (frameAt kthreadStack 4) kernelThread
  let m := m.store32 (frameAt kthreadStack 6) function
  let m := m.store32 (frameAt kthreadStack 7) funcArgs
  let m := m.store32 (frameAt kthreadStack 3) 0#32
  let m := m.store32 (frameAt kthreadStack 2) 0#32
  let m := m.store32 (frameAt kthreadStack 1) 0#32
  m.store32 (frameAt kthreadStack 0) 0#32

/-! ### `switch.S` -/

/-- `switch_to`. -/
def switchTo (s : Cpu) : Cpu :=
  let s := s.push (s.gpr .esi)
  let s := s.push (s.gpr .edi)
  let s := s.push (s.gpr .ebx)
  let s := s.push (s.gpr .ebp)
  let s := s.setGpr .eax (s.load (addr s.esp 20))
  let s := s.store (s.gpr .eax) s.esp
  let s := s.setGpr .eax (s.load (addr s.esp 24))
  let s := s.setEsp (s.load (s.gpr .eax))
  let s := s.pop .ebp
  let s := s.pop .ebx
  let s := s.pop .edi
  let s := s.pop .esi
  s.ret

end Pcb

/-! ### The machine -/

/-- The address lies in the page at `page`. -/
def InPage (page a : BitVec 32) : Prop := (a - page).toNat < Pcb.pageSize

instance (page a : BitVec 32) : Decidable (InPage page a) :=
  inferInstanceAs (Decidable ((a - page).toNat < Pcb.pageSize))

/-- Each thread has a page of its own. -/
structure PagesApart {T : Type} (page : T → BitVec 32) : Prop where
  aligned : ∀ t, (page t).toNat % Pcb.pageSize = 0
  injective : Function.Injective page

/-- The processor, the running thread and the threads that have been set up, with the arguments
they were created with and, for each, the processor and the return address at its last
call of `switch_to`. -/
structure SwitchState (T : Type) where
  cpu : Cpu
  cur : T
  threads : List T
  entry : T → BitVec 32 × BitVec 32
  call : T → Option (Cpu × BitVec 32)

/-- What the running thread does next. -/
inductive SwitchAct (T : Type)
  -- It computes, and its registers change.
  | compute (regs : Cpu)
  -- It writes a byte.
  | write (a : BitVec 32) (v : BitVec 8)
  -- It calls `init_thread` and `thread_create`.
  | create (t : T) (name : List (BitVec 8)) (prio function funcArgs : BitVec 32)
  -- It calls `switch_to`, which is going to return to `ret`.
  | switch (next : T) (ret : BitVec 32)

section

variable {T : Type} [DecidableEq T]

/-- The arguments of `switch_to` are on the stack, and the stack has room for the call above the
PCB of the running thread. -/
structure ReadyToSwitch (page : T → BitVec 32) (st : SwitchState T) (next : T) : Prop where
  room : (CType.struct Pcb.taskStruct).size + 20 ≤ (st.cpu.esp - page st.cur).toNat
  inside : (st.cpu.esp - page st.cur).toNat + 8 ≤ Pcb.pageSize
  cur : st.cpu.load st.cpu.esp = page st.cur
  next : st.cpu.load (addr st.cpu.esp 4) = page next

instance (page : T → BitVec 32) (st : SwitchState T) (next : T) :
    Decidable (ReadyToSwitch page st next) :=
  decidable_of_iff
    ((CType.struct Pcb.taskStruct).size + 20 ≤ (st.cpu.esp - page st.cur).toNat ∧
      (st.cpu.esp - page st.cur).toNat + 8 ≤ Pcb.pageSize ∧
      st.cpu.load st.cpu.esp = page st.cur ∧ st.cpu.load (addr st.cpu.esp 4) = page next)
    ⟨fun ⟨h_room, h_inside, h_cur, h_next⟩ => ⟨h_room, h_inside, h_cur, h_next⟩,
      fun h => ⟨h.room, h.inside, h.cur, h.next⟩⟩

/-- Threads that switch to each other, each with a page of its own. -/
def switchSys (page : T → BitVec 32) (kernelThread : BitVec 32) (main : T) :
    Machine (SwitchState T) (SwitchAct T) Empty where
  init st := st.cur = main ∧ st.threads = [main] ∧ st.call = (fun _ => none) ∧
    ∃ m, st.cpu.mem = Pcb.initThread m (page main) (page main) [109, 97, 105, 110] 31
  enabled st a := match a with
    | .compute _ => True
    | .write a _ => InPage (page st.cur) a
    | .create t name _ _ _ => t ∉ st.threads ∧ 0#8 ∉ name ∧
        CType.offset Pcb.taskStruct 2 + name.length + 1 ≤ Pcb.pageSize
    | .switch next _ => next ∈ st.threads ∧ ReadyToSwitch page st next
  exec st a := match a with
    | .compute regs => .ok { st with cpu := { regs with mem := st.cpu.mem } }
    | .write a v => .ok { st with cpu := { st.cpu with mem := st.cpu.mem.store8 a v } }
    | .create t name prio function funcArgs =>
      let m := Pcb.initThread st.cpu.mem (page main) (page t) name prio
      let m := Pcb.threadCreate kernelThread m (page t) function funcArgs
      .ok { st with
        cpu := { st.cpu with mem := m }
        threads := st.threads ++ [t]
        entry := Function.update st.entry t (function, funcArgs) }
    | .switch next ret => .ok { st with
        cpu := Pcb.switchTo (st.cpu.push ret)
        cur := next
        call := Function.update st.call st.cur (some (st.cpu, ret)) }

instance (page : T → BitVec 32) (kernelThread : BitVec 32) (main : T) (st : SwitchState T)
    (a : SwitchAct T) : Decidable ((switchSys page kernelThread main).enabled st a) :=
  match a with
  | .compute _ => isTrue trivial
  | .write a _ => inferInstanceAs (Decidable (InPage (page st.cur) a))
  | .create t name _ _ _ => inferInstanceAs (Decidable (t ∉ st.threads ∧ 0#8 ∉ name ∧
      CType.offset Pcb.taskStruct 2 + name.length + 1 ≤ Pcb.pageSize))
  | .switch next _ => inferInstanceAs (Decidable (next ∈ st.threads ∧ ReadyToSwitch page st next))

/-- A thread goes on where it called `switch_to` with the processor in the state `c`. -/
structure Continues (page : BitVec 32) (c : Cpu) (ret : BitVec 32) (s : Cpu) : Prop where
  eip : s.eip = ret
  esp : s.esp = c.esp
  saved : ∀ r ∈ [Gpr.ebp, .ebx, .esi, .edi], s.gpr r = c.gpr r
  /-- Its stack, from the stack pointer to the end of the page. -/
  stack : ∀ a, InPage page a → (c.esp - page).toNat ≤ (a - page).toNat → s.mem a = c.mem a

/-- A thread runs for the first time. -/
structure Enters (page kernelThread : BitVec 32) (entry : BitVec 32 × BitVec 32) (s : Cpu) :
    Prop where
  eip : s.eip = kernelThread
  /-- The frame is in the page, above the PCB. -/
  above : (CType.struct Pcb.taskStruct).size ≤ (s.esp - page).toNat
  inside : (s.esp - page).toNat + 12 ≤ Pcb.pageSize
  function : s.load (addr s.esp 4) = entry.1
  funcArgs : s.load (addr s.esp 8) = entry.2

/-- What has become of the processor when a thread has been switched to. -/
def SwitchedTo (page : T → BitVec 32) (kernelThread : BitVec 32) (st : SwitchState T) (t : T) :
    Prop :=
  match st.call t with
  | some (c, ret) => Continues (page t) c ret st.cpu
  | none => Enters (page t) kernelThread (st.entry t) st.cpu

end
end ToiletOS
