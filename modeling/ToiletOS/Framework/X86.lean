import ToiletOS.Framework.ByteMemory

/-!
# A 32-bit x86 processor and its stack

The registers of a processor with a flat memory (`Cpu`), and what instructions do to
the stack. Assembly code is written as a chain of such states, one line for each
instruction.

`Stacked m a ws` says that the words `ws` lie one above the other from the address `a` up.
A push puts a word in front of them (`Stacked.push`), a pop takes the first one off
(`Stacked.head`, `Stacked.tail`), and they stay where they are while nothing is written to
their bytes (`Stacked.congr`). Addresses wrap at `2 ^ 32`, which is only a limit to the number of
the words.
-/

namespace ToiletOS

/-- The general registers, apart from the stack pointer. -/
inductive Gpr
  | eax | ecx | edx | ebx | ebp | esi | edi
  deriving DecidableEq, Repr

/-- The segment registers for data. -/
inductive SegReg
  | ds | es | fs | gs
  deriving DecidableEq, Repr

/-- The registers and the memory of a processor. -/
structure Cpu where
  gpr : Gpr → BitVec 32
  esp : BitVec 32
  eip : BitVec 32
  eflags : BitVec 32
  cs : BitVec 16
  seg : SegReg → BitVec 16
  mem : ByteMemory

namespace Cpu

variable (s : Cpu)

/-- The word at an address. -/
def load (a : BitVec 32) : BitVec 32 := s.mem.load32 a

/-- The word at the top of the stack. -/
def top : BitVec 32 := s.load s.esp

/-- Write a general register. -/
def setGpr (r : Gpr) (v : BitVec 32) : Cpu := { s with gpr := Function.update s.gpr r v }

/-- Write a segment register. -/
def setSeg (r : SegReg) (v : BitVec 16) : Cpu := { s with seg := Function.update s.seg r v }

/-- Write the stack pointer. -/
def setEsp (v : BitVec 32) : Cpu := { s with esp := v }

/-- Write `eflags`. -/
def setEflags (v : BitVec 32) : Cpu := { s with eflags := v }

/-- Write a word to memory. -/
def store (a v : BitVec 32) : Cpu := { s with mem := s.mem.store32 a v }

/-- `push`. -/
def push (v : BitVec 32) : Cpu := { s with
  esp := s.esp - 4#32
  mem := s.mem.store32 (s.esp - 4#32) v }

/-- `pop` of a general register. -/
def pop (r : Gpr) : Cpu := { s with
  gpr := Function.update s.gpr r s.top
  esp := addr s.esp 4 }

/-- `pop` of a segment register, which takes the lower half of the word. -/
def popSeg (r : SegReg) : Cpu := { s with
  seg := Function.update s.seg r (s.top.setWidth 16)
  esp := addr s.esp 4 }

/-- `add esp, 4`. -/
def drop : Cpu := { s with esp := addr s.esp 4 }

/-- `pushad`. The value pushed for `esp` is that before the instruction. -/
def pushad : Cpu :=
  let esp := s.esp
  let s := s.push (s.gpr .eax)
  let s := s.push (s.gpr .ecx)
  let s := s.push (s.gpr .edx)
  let s := s.push (s.gpr .ebx)
  let s := s.push esp
  let s := s.push (s.gpr .ebp)
  let s := s.push (s.gpr .esi)
  s.push (s.gpr .edi)

/-- `popad`. The word for `esp` is skipped. -/
def popad : Cpu :=
  let s := s.pop .edi
  let s := s.pop .esi
  let s := s.pop .ebp
  let s := s.drop
  let s := s.pop .ebx
  let s := s.pop .edx
  let s := s.pop .ecx
  s.pop .eax

/-- `ret`. -/
def ret : Cpu := { s with
  eip := s.top
  esp := addr s.esp 4 }

/-- `iretd`, to code of the same privilege. -/
def iretd : Cpu := { s with
  eip := s.load s.esp
  cs := (s.load (addr s.esp 4)).setWidth 16
  eflags := s.load (addr s.esp 8)
  esp := addr s.esp 12 }

/-! ### What instructions leave alone -/

section Fields

variable (r : Gpr) (q : SegReg) (v a : BitVec 32)

@[simp] theorem push_gpr : (s.push v).gpr = s.gpr := rfl
@[simp] theorem push_seg : (s.push v).seg = s.seg := rfl
@[simp] theorem push_esp : (s.push v).esp = s.esp - 4#32 := rfl
@[simp] theorem push_mem : (s.push v).mem = s.mem.store32 (s.esp - 4#32) v := rfl

@[simp] theorem pop_gpr : (s.pop r).gpr = Function.update s.gpr r (s.load s.esp) := rfl
@[simp] theorem pop_seg : (s.pop r).seg = s.seg := rfl
@[simp] theorem pop_esp : (s.pop r).esp = addr s.esp 4 := rfl
@[simp] theorem pop_load : (s.pop r).load a = s.load a := rfl

@[simp] theorem popSeg_gpr : (s.popSeg q).gpr = s.gpr := rfl
@[simp] theorem popSeg_seg :
    (s.popSeg q).seg = Function.update s.seg q ((s.load s.esp).setWidth 16) := rfl
@[simp] theorem popSeg_esp : (s.popSeg q).esp = addr s.esp 4 := rfl
@[simp] theorem popSeg_load : (s.popSeg q).load a = s.load a := rfl

@[simp] theorem drop_gpr : s.drop.gpr = s.gpr := rfl
@[simp] theorem drop_seg : s.drop.seg = s.seg := rfl
@[simp] theorem drop_esp : s.drop.esp = addr s.esp 4 := rfl
@[simp] theorem drop_load : s.drop.load a = s.load a := rfl

@[simp] theorem setGpr_gpr : (s.setGpr r v).gpr = Function.update s.gpr r v := rfl
@[simp] theorem setGpr_seg : (s.setGpr r v).seg = s.seg := rfl
@[simp] theorem setGpr_esp : (s.setGpr r v).esp = s.esp := rfl
@[simp] theorem setGpr_mem : (s.setGpr r v).mem = s.mem := rfl
@[simp] theorem setGpr_load : (s.setGpr r v).load a = s.load a := rfl

@[simp] theorem setEsp_gpr : (s.setEsp v).gpr = s.gpr := rfl
@[simp] theorem setEsp_esp : (s.setEsp v).esp = v := rfl
@[simp] theorem setEsp_mem : (s.setEsp v).mem = s.mem := rfl
@[simp] theorem setEsp_load : (s.setEsp v).load a = s.load a := rfl

@[simp] theorem ret_gpr : s.ret.gpr = s.gpr := rfl
@[simp] theorem ret_eip : s.ret.eip = s.load s.esp := rfl
@[simp] theorem ret_esp : s.ret.esp = addr s.esp 4 := rfl

end Fields

/-- `pushad` pushes the registers as they are before it. -/
theorem pushad_eq : s.pushad = [s.gpr .eax, s.gpr .ecx, s.gpr .edx, s.gpr .ebx, s.esp, s.gpr .ebp,
    s.gpr .esi, s.gpr .edi].foldl push s := rfl

/-- What a push does to the stack depends on the stack alone. -/
theorem push_congr {s s' : Cpu} (v : BitVec 32) (h_mem : s.mem = s'.mem) (h_esp : s.esp = s'.esp) :
    (s.push v).mem = (s'.push v).mem ∧ (s.push v).esp = (s'.push v).esp := by
  rw [push_mem, push_mem, push_esp, push_esp, h_mem, h_esp]
  exact ⟨rfl, rfl⟩

end Cpu

/-! ### Words on a stack -/

/-- The words `ws` lie in memory from the address `a` up. -/
def Stacked (m : ByteMemory) (a : BitVec 32) : List (BitVec 32) → Prop
  | [] => True
  | w :: ws => m.load32 a = w ∧ Stacked m (addr a 4) ws

namespace Stacked

variable {m m' : ByteMemory} {a v w : BitVec 32} {ws : List (BitVec 32)}

theorem head (h : Stacked m a (w :: ws)) : m.load32 a = w := h.1

theorem tail (h : Stacked m a (w :: ws)) : Stacked m (addr a 4) ws := h.2

theorem of_append {ws' : List (BitVec 32)} (h : Stacked m a (ws ++ ws')) : Stacked m a ws := by
  induction ws generalizing a with
  | nil => trivial
  | cons w ws ih => exact ⟨h.1, ih h.2⟩

/-- Words whose bytes are left alone stay where they are. -/
theorem congr (h : Stacked m a ws) (h_same : ∀ i < 4 * ws.length, m' (addr a i) = m (addr a i)) :
    Stacked m' a ws := by
  induction ws generalizing a with
  | nil => trivial
  | cons w ws ih =>
    rw [List.length_cons] at h_same
    refine ⟨?_, ih h.2 fun i hi => ?_⟩
    · rw [m.load32_congr fun i hi => h_same i (by omega)]
      exact h.1
    · rw [addr_addr]
      exact h_same (4 + i) (by omega)

/-- Pushing a word. -/
theorem push (h : Stacked m a ws) (h_fits : 4 * (ws.length + 1) ≤ 2 ^ 32) :
    Stacked (m.store32 (a - 4#32) v) (a - 4#32) (v :: ws) := by
  have h_next : addr (a - 4#32) 4 = a := BitVec.sub_add_cancel a 4#32
  refine ⟨m.load32_store32 _ v, ?_⟩
  rw [h_next]
  refine h.congr fun i hi => ?_
  have h_byte := m.store32_of_disjoint (a - 4#32) (i := 4 + i) (j := 0) v (by omega) (by omega)
    (.inr (by omega))
  rw [← addr_addr, h_next, addr_zero] at h_byte
  exact h_byte

end Stacked

namespace Cpu

variable {s : Cpu} {v w : BitVec 32} {ws : List (BitVec 32)}

/-- The words on the stack of the processor. -/
abbrev Holds (s : Cpu) (ws : List (BitVec 32)) : Prop := Stacked s.mem s.esp ws

/-- Pushing several words, the last one of which comes to lie lowest. -/
theorem Holds.pushes (h : s.Holds ws) (vs : List (BitVec 32))
    (h_fits : 4 * (vs.length + ws.length) ≤ 2 ^ 32) :
    (vs.foldl Cpu.push s).Holds (vs.reverse ++ ws) := by
  induction vs generalizing s ws with
  | nil => exact h
  | cons v vs ih =>
    rw [List.length_cons] at h_fits
    rw [List.foldl_cons, List.reverse_cons, List.append_assoc]
    have h_push : (s.push v).Holds (v :: ws) := Stacked.push h (by omega)
    have h_fits' : 4 * (vs.length + (v :: ws).length) ≤ 2 ^ 32 := by
      rw [List.length_cons]
      omega
    exact ih h_push h_fits'

theorem pushes_esp (s : Cpu) (vs : List (BitVec 32)) :
    addr (vs.foldl Cpu.push s).esp (4 * vs.length) = s.esp := by
  induction vs generalizing s with
  | nil => exact addr_zero s.esp
  | cons v vs ih =>
    rw [List.foldl_cons, List.length_cons, Nat.mul_succ, ← addr_addr, ih]
    exact BitVec.sub_add_cancel s.esp 4#32

/-- Pushing writes below the stack pointer only. -/
theorem pushes_mem (s : Cpu) (vs : List (BitVec 32)) {i : ℕ} (h : i + 4 * vs.length < 2 ^ 32) :
    (vs.foldl Cpu.push s).mem (addr s.esp i) = s.mem (addr s.esp i) := by
  induction vs generalizing s i with
  | nil => rfl
  | cons v vs ih =>
    rw [List.length_cons] at h
    have h_next : addr (s.push v).esp (4 + i) = addr s.esp i := by
      rw [← addr_addr]
      exact congrArg (addr · i) (BitVec.sub_add_cancel s.esp 4#32)
    rw [List.foldl_cons, ← h_next, ih (s.push v) (by omega), h_next, Cpu.push_mem]
    have h_byte := s.mem.store32_of_disjoint (s.esp - 4#32) (i := 4 + i) (j := 0) v (by omega)
      (by omega) (.inr (by omega))
    rw [addr_zero] at h_byte
    rw [← h_next]
    exact h_byte

end Cpu
end ToiletOS
