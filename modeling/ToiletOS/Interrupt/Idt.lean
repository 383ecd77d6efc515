import ToiletOS.Framework.ByteMemory
import ToiletOS.Interrupt.Entry

/-!
# The interrupt table

`idt_init` of `kernel/interrupt.c`, up to what the processor reads. The gates are built in the
array `idt`, an address split over two halves of each (`readGate_idtDescInit`), and `lidt` gets the
limit and the address of the array in one operand of 48 bits.

The address is shifted as a number of 32 bits, before it is widened, so that its upper half
is lost: the base that is loaded is the address modulo `2 ^ 16` (`base_idtOperand`), and
`idt_loaded_iff` says that it is the address of the array only in the first 64 KiB.
-/

namespace ToiletOS

/-! ### `struct gate_desc` -/

/-- `uint16_t`. -/
def CType.short : CType := ⟨2, 2⟩

/-- The members of `struct gate_desc`: `func_offset_low_word`, `selector`, `dcount`, `attribute`,
`func_offset_high_word`. -/
def gateDescType : List CType := [.short, .short, .char, .char, .short]

/-- The address of member `i` of the gate at `p`. -/
def gateMember (p : BitVec 32) (i : ℕ) : BitVec 32 := addr p (CType.offset gateDescType i)

/-- `struct gate_desc`. -/
structure GateDesc where
  funcOffsetLowWord : BitVec 16
  selector : BitVec 16
  dcount : BitVec 8
  -- `attribute`
  attr : BitVec 8
  funcOffsetHighWord : BitVec 16
  deriving DecidableEq, Repr

/-- The gate at an address, as the processor reads it. -/
def readGate (m : ByteMemory) (p : BitVec 32) : GateDesc where
  funcOffsetLowWord := m.load16 (gateMember p 0)
  selector := m.load16 (gateMember p 1)
  dcount := m (gateMember p 2)
  attr := m (gateMember p 3)
  funcOffsetHighWord := m.load16 (gateMember p 4)

/-- The address that a gate leads to. -/
def GateDesc.offset (g : GateDesc) : ℕ :=
  g.funcOffsetHighWord.toNat * 65536 + g.funcOffsetLowWord.toNat

/-- `SELECTOR_K_CODE`. -/
def selectorKCode : BitVec 16 := (1 <<< 3) + (0 <<< 2) + 0

/-- `IDT_DESC_ATTR_DPL0`. -/
def idtDescAttrDpl0 : BitVec 8 := (1 <<< 7) + (0 <<< 5) + 0xe

/-- The attribute of a present 32-bit interrupt gate of ring 0: the present bit, the privilege
level, the bit that is zero for system descriptors, and the type. -/
structure IsKernelInterruptGate (attr : BitVec 8) : Prop where
  present : attr.extractLsb' 7 1 = 1#1
  dpl : attr.extractLsb' 5 2 = 0#2
  system : attr.extractLsb' 4 1 = 0#1
  gateType : attr.extractLsb' 0 4 = 0xe#4

/-! ### `interrupt.c` -/

/-- `make_idt_desc`. -/
def makeIdtDesc (pGdesc : BitVec 32) (attr : BitVec 8) (function : BitVec 32) (m : ByteMemory) :
    ByteMemory :=
  let m := m.store16 (gateMember pGdesc 0) ((function &&& 0x0000ffff#32).setWidth 16)
  let m := m.store16 (gateMember pGdesc 1) selectorKCode
  let m := m.store8 (gateMember pGdesc 2) 0#8
  let m := m.store8 (gateMember pGdesc 3) attr
  m.store16 (gateMember pGdesc 4) (((function &&& 0xffff0000#32) >>> 16).setWidth 16)

/-- `&idt[i]`. -/
def idtEntry (idt : BitVec 32) (i : VecNo) : BitVec 32 := addr idt (8 * i)

/-- `sizeof(idt)`. -/
def sizeofIdt : ℕ := 0x30 * (CType.struct gateDescType).size

/-- The machine, as far as the initialisation goes. -/
structure IdtState where
  -- memory, which has the array `idt`
  mem : ByteMemory
  -- `idt_table` and `intr_name`
  idtTable : VecNo → BitVec 32
  intrName : VecNo → String
  -- what has been written to ports, and printed
  ports : List (BitVec 16 × BitVec 8)
  printed : List String
  -- the register that `lidt` loads: the limit in its lower 16 bits, the base above
  idtr : BitVec 48

namespace IdtState

variable (s : IdtState)

/-- `put_str`. -/
def putStr (message : String) : IdtState := { s with printed := s.printed ++ [message] }

/-- `ioutb`. -/
def ioutb (port : BitVec 16) (data : BitVec 8) : IdtState :=
  { s with ports := s.ports ++ [(port, data)] }

/-- `lidt`, which reads the lower 48 bits of its operand. -/
def lidt (operand : BitVec 64) : IdtState := { s with idtr := operand.setWidth 48 }

def limit : BitVec 16 := s.idtr.extractLsb' 0 16

def base : BitVec 32 := s.idtr.extractLsb' 16 32

/-- `idt_desc_init`. -/
def idtDescInit (idt : BitVec 32) (intrEntryTable : VecNo → BitVec 32) : IdtState :=
  let m := (List.finRange 0x30).foldl
    (fun m i => makeIdtDesc (idtEntry idt i) idtDescAttrDpl0 (intrEntryTable i) m) s.mem
  { s with mem := m }.putStr "idt_desc_init done.\n"

local instance : NeZero 0x30 := ⟨by decide⟩

/-- The names in `init_custom_handler_name`. -/
def customNames : List (VecNo × String) :=
  [(0, "#DE Divide Error"), (1, "#DB Debug Exception"), (2, "NMI Interrupt"),
    (3, "#BP Breakpoint Exception"), (4, "#OF Overflow Exception"),
    (5, "#BR BOUND Range Exceeded Exception"), (6, "#UD Invalid Opcode Exception"),
    (7, "#NM Device Not Available Exception"), (8, "#DF Double Fault Exception"),
    (9, "Coprocessor Segment Overrun"), (10, "#TS Invalid TSS Exception"),
    (11, "#NP Segment Not Present"), (12, "#SS Stack Fault Exception"),
    (13, "#GP General Protection Exception"), (14, "#PF Page-Fault Exception"),
    (16, "#MF 0x87 FPU Floating-Point Error"), (17, "#AC Alignment Check Exception"),
    (18, "#MC Machine-Check Exception"), (19, "#XF SIMD Floating-Point Exception")]

/-- `init_custom_handler_name`. -/
def initCustomHandlerName : IdtState :=
  { s with intrName := customNames.foldl (fun names n => Function.update names n.1 n.2) s.intrName }

/-- `exception_handler_init`. -/
def exceptionHandlerInit (generalIntrHandler : BitVec 32) : IdtState :=
  { s with
    idtTable := fun _ => generalIntrHandler
    intrName := fun _ => "unknown" }.initCustomHandlerName

/-- `pic_init`. -/
def picInit : IdtState :=
  -- `PIC_M_CTRL`, `PIC_M_DATA`, `PIC_S_CTRL` and `PIC_S_DATA` are `0x20`, `0x21`, `0xa0` and `0xa1`
  let s := s.ioutb 0x20 0x11
  let s := s.ioutb 0x21 0x20
  let s := s.ioutb 0x21 0x04
  let s := s.ioutb 0x21 0x01
  let s := s.ioutb 0xa0 0x11
  let s := s.ioutb 0xa1 0x28
  let s := s.ioutb 0xa1 0x02
  let s := s.ioutb 0xa1 0x01
  let s := s.ioutb 0x21 0xfd
  let s := s.ioutb 0xa1 0xff
  s.putStr "pic_init done.\n"

/-- `idt_operand`: the cast to 64 bits comes after the shift. -/
def idtOperand (idt : BitVec 32) : BitVec 64 :=
  (BitVec.ofNat 64 (sizeofIdt - 1)) ||| (idt <<< 16).setWidth 64

/-- `idt_init`. -/
def idtInit (idt : BitVec 32) (intrEntryTable : VecNo → BitVec 32)
    (generalIntrHandler : BitVec 32) : IdtState :=
  let s := s.putStr "idt_init start.\n"
  let s := s.idtDescInit idt intrEntryTable
  let s := s.exceptionHandlerInit generalIntrHandler
  let s := s.picInit
  let s := s.lidt (idtOperand idt)
  s.putStr "idt_init done.\n"

end IdtState

/-! ### The gates -/

section Gates

variable {m m' : ByteMemory} {p q function : BitVec 32} {attr : BitVec 8}

/-- The gate that `make_idt_desc` makes. -/
def gateFor (attr : BitVec 8) (function : BitVec 32) : GateDesc where
  funcOffsetLowWord := (function &&& 0x0000ffff#32).setWidth 16
  selector := selectorKCode
  dcount := 0#8
  attr := attr
  funcOffsetHighWord := ((function &&& 0xffff0000#32) >>> 16).setWidth 16

theorem offset_gateFor : (gateFor attr function).offset = function.toNat := by
  have h_lt := function.isLt
  have h_high : (function &&& 0xffff0000#32) >>> 16 = (function >>> 16) &&& 0x0000ffff#32 :=
    BitVec.ushiftRight_and_distrib _ _ _
  have h_mask (n : ℕ) : n &&& (0x0000ffff#32).toNat = n % 2 ^ 16 :=
    Nat.and_two_pow_sub_one_eq_mod n 16
  rw [GateDesc.offset, gateFor]
  dsimp only
  rw [h_high, BitVec.toNat_setWidth, BitVec.toNat_setWidth, BitVec.toNat_and, BitVec.toNat_and,
    BitVec.toNat_ushiftRight, h_mask, h_mask, Nat.shiftRight_eq_div_pow]
  omega

theorem isKernelInterruptGate : IsKernelInterruptGate idtDescAttrDpl0 :=
  ⟨by decide, by decide, by decide, by decide⟩

/-- The places of the members. -/
theorem gateMember_eq (p : BitVec 32) : gateMember p 0 = addr p 0 ∧ gateMember p 1 = addr p 2 ∧
    gateMember p 2 = addr p 4 ∧ gateMember p 3 = addr p 5 ∧ gateMember p 4 = addr p 6 :=
  ⟨rfl, rfl, rfl, rfl, rfl⟩

/-- A gate is what its eight bytes are. -/
theorem readGate_congr (h : ∀ i < 8, m' (addr p i) = m (addr p i)) :
    readGate m' p = readGate m p := by
  obtain ⟨h₀, h₁, h₂, h₃, h₄⟩ := gateMember_eq p
  have h_half (i : ℕ) (hi : i + 1 < 8) : m'.load16 (addr p i) = m.load16 (addr p i) := by
    apply ByteMemory.load16_congr
    intro x hx
    rw [addr_addr]
    exact h (i + x) (by omega)
  rw [readGate, readGate, h₀, h₁, h₂, h₃, h₄, h_half 0 (by decide), h_half 2 (by decide),
    h 4 (by decide), h 5 (by decide), h_half 6 (by decide)]

/-- Only the eight bytes of the gate are written. -/
theorem makeIdtDesc_of_ne {b : BitVec 32} (h : ∀ i < 8, b ≠ addr p i) :
    makeIdtDesc p attr function m b = m b := by
  obtain ⟨h₀, h₁, h₂, h₃, h₄⟩ := gateMember_eq p
  have h_half (m : ByteMemory) (i : ℕ) (v : BitVec 16) (hi : i + 1 < 8) :
      m.store16 (addr p i) v b = m b := by
    apply ByteMemory.store16_of_ne
    intro x hx
    rw [addr_addr]
    exact h (i + x) (by omega)
  rw [makeIdtDesc, h₀, h₁, h₂, h₃, h₄, h_half _ 6 _ (by decide),
    ByteMemory.store8_of_ne _ _ (h 5 (by decide)), ByteMemory.store8_of_ne _ _ (h 4 (by decide)),
    h_half _ 2 _ (by decide), h_half _ 0 _ (by decide)]

/-- What is made at an address is read there. -/
theorem readGate_makeIdtDesc_self :
    readGate (makeIdtDesc p attr function m) p = gateFor attr function := by
  obtain ⟨h₀, h₁, h₂, h₃, h₄⟩ := gateMember_eq p
  -- the member that is read is not touched by the stores after its own
  have h_short (m : ByteMemory) (i j : ℕ) (v : BitVec 16) (h : i + 2 ≤ j) (hj : j < 8) :
      (m.store16 (addr p j) v).load16 (addr p i) = m.load16 (addr p i) :=
    m.load16_store16_of_disjoint p v (by omega) (by omega) (.inl h)
  have h_char (m : ByteMemory) (i j : ℕ) (v : BitVec 8) (h : i + 2 ≤ j) (hj : j < 8) :
      (m.store8 (addr p j) v).load16 (addr p i) = m.load16 (addr p i) :=
    m.load16_store8_of_disjoint p v (by omega) (by omega) (.inl h)
  have h_last (m : ByteMemory) (i : ℕ) (v : BitVec 16) (hi : i < 6) :
      m.store16 (addr p 6) v (addr p i) = m (addr p i) :=
    m.store16_of_disjoint p v (by omega) (by omega) (.inl hi)
  have h_chars : addr p 4 ≠ addr p 5 := addr_ne p (by decide) (by decide) (by decide)
  rw [readGate, makeIdtDesc, gateFor, h₀, h₁, h₂, h₃, h₄]
  congr 1
  · rw [h_short _ 0 6 _ (by decide) (by decide), h_char _ 0 5 _ (by decide) (by decide),
      h_char _ 0 4 _ (by decide) (by decide), h_short _ 0 2 _ (by decide) (by decide),
      ByteMemory.load16_store16]
  · rw [h_short _ 2 6 _ (by decide) (by decide), h_char _ 2 5 _ (by decide) (by decide),
      h_char _ 2 4 _ (by decide) (by decide), ByteMemory.load16_store16]
  · rw [h_last _ 4 _ (by decide), ByteMemory.store8_of_ne _ _ h_chars, ByteMemory.store8_self]
  · rw [h_last _ 5 _ (by decide), ByteMemory.store8_self]
  · rw [ByteMemory.load16_store16]

end Gates

/-! ### The table -/

section Table

variable {m : ByteMemory} {idt : BitVec 32} {attr : BitVec 8} {table : VecNo → BitVec 32}

/-- Another gate of the table stays. -/
theorem readGate_makeIdtDesc_of_ne {i v : VecNo} {function : BitVec 32} (h : i ≠ v) :
    readGate (makeIdtDesc (idtEntry idt i) attr function m) (idtEntry idt v)
      = readGate m (idtEntry idt v) := by
  have h_i := i.isLt
  have h_v := v.isLt
  have h_val : (i : ℕ) ≠ v := fun h_eq => h (Fin.ext h_eq)
  apply readGate_congr
  intro j hj
  apply makeIdtDesc_of_ne
  intro k hk
  rw [idtEntry, idtEntry, addr_addr, addr_addr]
  exact addr_ne idt (by omega) (by omega) (by omega)

/-- The gates after the loop has made those of some vectors. -/
theorem readGate_foldl (vs : List VecNo) (v : VecNo) :
    readGate (vs.foldl (fun m i => makeIdtDesc (idtEntry idt i) attr (table i) m) m)
        (idtEntry idt v)
      = if v ∈ vs then gateFor attr (table v) else readGate m (idtEntry idt v) := by
  induction vs generalizing m with
  | nil => rfl
  | cons i vs ih =>
    rw [List.foldl_cons, ih]
    -- a vector that comes again is written last by the rest of the loop
    by_cases h_later : v ∈ vs
    · rw [if_pos h_later, if_pos (List.mem_cons_of_mem i h_later)]
    · rw [if_neg h_later]
      by_cases h_now : v = i
      · rw [if_pos (List.mem_cons.mpr (.inl h_now)), h_now, readGate_makeIdtDesc_self]
      · have h_not : v ∉ i :: vs := by
          rw [List.mem_cons, not_or]
          exact ⟨h_now, h_later⟩
        rw [if_neg h_not, readGate_makeIdtDesc_of_ne (Ne.symm h_now)]

/-- **The table that is built** has the gate of every vector. -/
theorem readGate_idtDescInit (s : IdtState) (v : VecNo) :
    readGate (s.idtDescInit idt table).mem (idtEntry idt v)
      = gateFor idtDescAttrDpl0 (table v) := by
  change readGate (List.foldl _ _ _) _ = _
  rw [readGate_foldl, if_pos (List.mem_finRange v)]

end Table

/-! ### The operand of `lidt` -/

namespace IdtState

/-- The bits above the limit are those of the address that are left after the shift. -/
theorem base_idtOperand (idt : BitVec 32) :
    ((idtOperand idt).setWidth 48).extractLsb' 16 32 = (idt.setWidth 16).setWidth 32 := by
  have h_limit (i : ℕ) : (BitVec.ofNat 64 (sizeofIdt - 1)).getLsbD (16 + i) = false := by
    rw [BitVec.getLsbD_ofNat]
    have h_bit : (sizeofIdt - 1).testBit (16 + i) = false :=
      Nat.testBit_lt_two_pow (lt_of_lt_of_le (show sizeofIdt - 1 < 2 ^ 16 by decide)
        (Nat.pow_le_pow_right (by decide) (by omega)))
    rw [h_bit, Bool.and_false]
  ext i hi
  rw [BitVec.getElem_extractLsb', BitVec.getLsbD_setWidth, idtOperand, BitVec.getLsbD_or, h_limit,
    Bool.false_or, BitVec.getLsbD_setWidth, BitVec.getLsbD_shiftLeft, BitVec.getElem_setWidth,
    BitVec.getLsbD_setWidth]
  by_cases h : i < 16
  · simp [h, show 16 + i < 32 by omega, show 16 + i < 48 by omega, show 16 + i < 64 by omega]
  · simp [h, show ¬ 16 + i < 32 by omega]

theorem limit_idtOperand (idt : BitVec 32) :
    ((idtOperand idt).setWidth 48).extractLsb' 0 16 = BitVec.ofNat 16 (sizeofIdt - 1) := by
  ext i hi
  rw [BitVec.getElem_extractLsb', BitVec.getLsbD_setWidth, idtOperand, BitVec.getLsbD_or,
    BitVec.getLsbD_setWidth, BitVec.getLsbD_shiftLeft, Nat.zero_add, BitVec.getLsbD_ofNat,
    ← BitVec.getLsbD_eq_getElem, BitVec.getLsbD_ofNat]
  simp [hi, show i < 48 by omega, show i < 64 by omega]

/-- The upper half of an address is zero, or lost. -/
theorem base_idtOperand_iff (idt : BitVec 32) :
    ((idtOperand idt).setWidth 48).extractLsb' 16 32 = idt ↔ idt.toNat < 0x10000 := by
  rw [base_idtOperand, ← BitVec.toNat_inj, BitVec.toNat_setWidth, BitVec.toNat_setWidth]
  omega

/-! ### What the steps leave alone -/

section Frame

variable (s : IdtState) (message : String) (port : BitVec 16) (data : BitVec 8)

@[simp] theorem putStr_mem : (s.putStr message).mem = s.mem := rfl

@[simp] theorem ioutb_mem : (s.ioutb port data).mem = s.mem := rfl

@[simp] theorem exceptionHandlerInit_mem (generalIntrHandler : BitVec 32) :
    (s.exceptionHandlerInit generalIntrHandler).mem = s.mem := rfl

@[simp] theorem picInit_mem : s.picInit.mem = s.mem := by simp [picInit]

@[simp] theorem lidt_mem (operand : BitVec 64) : (s.lidt operand).mem = s.mem := rfl

@[simp] theorem putStr_idtr : (s.putStr message).idtr = s.idtr := rfl

@[simp] theorem lidt_idtr (operand : BitVec 64) : (s.lidt operand).idtr = operand.setWidth 48 := rfl

end Frame

end IdtState

/-! ### The processor -/

/-- The processor has the table that is asked for: its base, its limit, and the gate that it finds
for each vector. -/
structure IdtLoaded (idt : BitVec 32) (table : VecNo → BitVec 32) (s : IdtState) : Prop where
  base : s.base = idt
  limit : s.limit = BitVec.ofNat 16 (sizeofIdt - 1)
  offset : ∀ v : VecNo, (readGate s.mem (addr s.base (8 * v))).offset = (table v).toNat
  selector : ∀ v : VecNo, (readGate s.mem (addr s.base (8 * v))).selector = selectorKCode
  kind : ∀ v : VecNo, IsKernelInterruptGate (readGate s.mem (addr s.base (8 * v))).attr

/-- **The table is found** after `idt_init` if and only if the array is in the first 64 KiB. -/
theorem idt_loaded_iff (idt : BitVec 32) (intrEntryTable : VecNo → BitVec 32)
    (generalIntrHandler : BitVec 32) (s : IdtState) :
    IdtLoaded idt intrEntryTable (s.idtInit idt intrEntryTable generalIntrHandler) ↔
      idt.toNat < 0x10000 := by
  set s' := s.idtInit idt intrEntryTable generalIntrHandler with h_s'
  have h_idtr : s'.idtr = (IdtState.idtOperand idt).setWidth 48 := by
    rw [h_s', IdtState.idtInit]
    simp
  have h_mem : s'.mem = ((s.putStr "idt_init start.\n").idtDescInit idt intrEntryTable).mem := by
    rw [h_s', IdtState.idtInit]
    simp
  constructor
  · intro h
    apply (IdtState.base_idtOperand_iff idt).mp
    rw [← h_idtr]
    exact h.base
  · intro h
    -- the address fits the 16 bits that are left of it, so nothing of it was lost
    have h_base : s'.base = idt := by
      rw [IdtState.base, h_idtr]
      exact (IdtState.base_idtOperand_iff idt).mpr h
    have h_gate (v : VecNo) : readGate s'.mem (addr s'.base (8 * v))
        = gateFor idtDescAttrDpl0 (intrEntryTable v) := by
      rw [h_base, h_mem]
      exact readGate_idtDescInit _ v
    refine ⟨h_base, ?_, fun v => ?_, fun v => ?_, fun v => ?_⟩
    · rw [IdtState.limit, h_idtr]
      exact IdtState.limit_idtOperand idt
    · rw [h_gate, offset_gateFor]
    · rw [h_gate]
      rfl
    · rw [h_gate]
      exact isKernelInterruptGate

/-- A machine on which nothing has been done. -/
def IdtState.blank : IdtState where
  mem _ := 0#8
  idtTable _ := 0#32
  intrName _ := ""
  ports := []
  printed := []
  idtr := 0#48

/-- The kernel is linked above `0xc0000000`. -/
theorem idt_not_loaded :
    ¬ IdtLoaded 0xc0005000#32 (fun _ => 0xc0001700#32)
      (IdtState.blank.idtInit 0xc0005000#32 (fun _ => 0xc0001700#32) 0xc0001600#32) := by
  intro h
  have h_base := h.base
  rw [IdtState.base, IdtState.idtInit] at h_base
  simp only [IdtState.putStr_idtr, IdtState.lidt_idtr] at h_base
  exact absurd h_base (by decide)

end ToiletOS
