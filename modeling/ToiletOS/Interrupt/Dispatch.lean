import ToiletOS.Interrupt.Idt
import ToiletOS.Mbr.KernelBoot
import ToiletOS.Mem.LowMemory

/-!
# The interrupt table through the page tables

`idt_init` builds the gates at an address of the kernel's half, and the processor looks for them at
the base that `lidt` has loaded. Both go through the page tables: the code with each of its stores,
the processor with each byte of a gate.

Of the address of the array, `lidt` gets the lower 16 bits (`base_idtOperand`). That is another
address, but one of the first MiB, which `setup_page` maps to itself as well as to the kernel's
half. So the processor finds the gates after all if and only if the array is in the first 64 KiB
(`gates_found_iff`). It then finds them in every run of the kernel, because both mappings stay and
only the kernel itself could store to the array (`kernel_bytes_kept`).
-/

namespace ToiletOS

/-! ### The code -/

namespace Kern

/-- `*a = v`, for half a word. -/
def store16 (a : BitVec 32) (v : BitVec 16) : Kern Unit := do
  store8 a (v.extractLsb' 0 8)
  store8 (addr a 1) (v.extractLsb' 8 8)

/-- `make_idt_desc`. -/
def makeIdtDesc (pGdesc : BitVec 32) (attr : BitVec 8) (function : BitVec 32) : Kern Unit := do
  store16 (gateMember pGdesc 0) ((function &&& 0x0000ffff#32).setWidth 16)
  store16 (gateMember pGdesc 1) selectorKCode
  store8 (gateMember pGdesc 2) 0#8
  store8 (gateMember pGdesc 3) attr
  store16 (gateMember pGdesc 4) (((function &&& 0xffff0000#32) >>> 16).setWidth 16)

/-- The loop of `idt_desc_init`, with some vectors to go. -/
def idtDescLoop (idt : BitVec 32) (intrEntryTable : VecNo → BitVec 32) : List VecNo → Kern Unit
  | [] => return ()
  | i :: vs => do
    makeIdtDesc (idtEntry idt i) idtDescAttrDpl0 (intrEntryTable i)
    idtDescLoop idt intrEntryTable vs

/-- `idt_desc_init`. -/
def idtDescInit (idt : BitVec 32) (intrEntryTable : VecNo → BitVec 32) : Kern Unit :=
  idtDescLoop idt intrEntryTable (List.finRange 0x30)

end Kern

/-! ### The processor -/

/-- The byte at a linear address. -/
def fetch8 (m : ByteMemory) (a : BitVec 32) : Option (BitVec 8) := (translate m a).map m

/-- The half word at a linear address. -/
def fetch16 (m : ByteMemory) (a : BitVec 32) : Option (BitVec 16) := do
  let low ← fetch8 m a
  let high ← fetch8 m (addr a 1)
  return high ++ low

/-- The gate at a linear address. -/
def fetchGate (m : ByteMemory) (p : BitVec 32) : Option GateDesc := do
  let funcOffsetLowWord ← fetch16 m (gateMember p 0)
  let selector ← fetch16 m (gateMember p 1)
  let dcount ← fetch8 m (gateMember p 2)
  let attr ← fetch8 m (gateMember p 3)
  let funcOffsetHighWord ← fetch16 m (gateMember p 4)
  return ⟨funcOffsetLowWord, selector, dcount, attr, funcOffsetHighWord⟩

/-- The gate that the processor takes for a vector, if it is within the limit and mapped. -/
def gateOf (m : ByteMemory) (idtr : BitVec 48) (v : VecNo) : Option GateDesc :=
  if 8 * (v : ℕ) + 7 ≤ (idtr.extractLsb' 0 16).toNat then
    fetchGate m (addr (idtr.extractLsb' 16 32) (8 * v))
  else none

/-- The processor finds for each vector an interrupt gate that leads to the entry of the vector. -/
def GatesFound (m : ByteMemory) (idtr : BitVec 48) (table : VecNo → BitVec 32) : Prop :=
  ∀ v, ∃ g, gateOf m idtr v = some g ∧ g.offset = (table v).toNat ∧ g.selector = selectorKCode ∧
    IsKernelInterruptGate g.attr

/-! ### Accesses to the first MiB -/

section Low

variable {m : ByteMemory} {p : BitVec 32} {n : ℕ}

theorem store8_low (hm : BootMapped m) (h : Low p n) (v : BitVec 8) :
    (Kern.store8 p v).run kernelSem m = .ok ((), m.store8 (phys n) v) ∧
      BootMapped (m.store8 (phys n) v) :=
  ⟨run_store8 (hm.translate_low h) v, hm.store8 h.1 v⟩

theorem store16_low (hm : BootMapped m) (h : Low p n) (h_fits : n + 1 < 0x100000) (v : BitVec 16) :
    (Kern.store16 p v).run kernelSem m = .ok ((), m.store16 (phys n) v) ∧
      BootMapped (m.store16 (phys n) v) := by
  obtain ⟨h_run, h₁⟩ := store8_low hm h (v.extractLsb' 0 8)
  obtain ⟨h_run', h₂⟩ := store8_low h₁ (h.addr h_fits) (v.extractLsb' 8 8)
  have h_addr : addr (phys n) 1 = phys (n + 1) := phys_add n 1
  rw [Kern.store16, ByteMemory.store16, h_addr, Prog.run_bind_of_ok kernelSem h_run]
  exact ⟨h_run', h₂⟩

/-- `make_idt_desc` makes the gate where the address leads. -/
theorem makeIdtDesc_low (attr : BitVec 8) (function : BitVec 32) (hm : BootMapped m) (h : Low p n)
    (h_fits : n + 8 ≤ 0x100000) :
    (Kern.makeIdtDesc p attr function).run kernelSem m
        = .ok ((), makeIdtDesc (phys n) attr function m) ∧
      BootMapped (makeIdtDesc (phys n) attr function m) := by
  have h_member (i : ℕ) : addr (phys n) i = phys (n + i) := phys_add n i
  obtain ⟨h₀, h₁, h₂, h₃, h₄⟩ := gateMember_eq p
  obtain ⟨h₀', h₁', h₂', h₃', h₄'⟩ := gateMember_eq (phys n)
  rw [Kern.makeIdtDesc, makeIdtDesc, h₀, h₁, h₂, h₃, h₄, h₀', h₁', h₂', h₃', h₄', h_member,
    h_member, h_member, h_member, h_member]
  obtain ⟨h_run₀, hm₀⟩ := store16_low hm (h.addr (k := 0) (by omega)) (by omega) _
  obtain ⟨h_run₁, hm₁⟩ := store16_low hm₀ (h.addr (k := 2) (by omega)) (by omega) selectorKCode
  obtain ⟨h_run₂, hm₂⟩ := store8_low hm₁ (h.addr (k := 4) (by omega)) 0#8
  obtain ⟨h_run₃, hm₃⟩ := store8_low hm₂ (h.addr (k := 5) (by omega)) attr
  obtain ⟨h_run₄, hm₄⟩ := store16_low hm₃ (h.addr (k := 6) (by omega)) (by omega) _
  rw [Prog.run_bind_of_ok kernelSem h_run₀, Prog.run_bind_of_ok kernelSem h_run₁,
    Prog.run_bind_of_ok kernelSem h_run₂, Prog.run_bind_of_ok kernelSem h_run₃]
  exact ⟨h_run₄, hm₄⟩

theorem fetch8_low (hm : BootMapped m) (h : Low p n) : fetch8 m p = some (m (phys n)) := by
  rw [fetch8, hm.translate_low h]
  rfl

theorem fetch16_low (hm : BootMapped m) (h : Low p n) (h_fits : n + 1 < 0x100000) :
    fetch16 m p = some (m.load16 (phys n)) := by
  have h_addr : addr (phys n) 1 = phys (n + 1) := phys_add n 1
  rw [fetch16, bind_of_some (fetch8_low hm h), bind_of_some (fetch8_low hm (h.addr h_fits)),
    ByteMemory.load16, h_addr]
  rfl

/-- The processor sees the gate that is where the address leads. -/
theorem fetchGate_low (hm : BootMapped m) (h : Low p n) (h_fits : n + 8 ≤ 0x100000) :
    fetchGate m p = some (readGate m (phys n)) := by
  have h_member (i : ℕ) : addr (phys n) i = phys (n + i) := phys_add n i
  obtain ⟨h₀, h₁, h₂, h₃, h₄⟩ := gateMember_eq p
  obtain ⟨h₀', h₁', h₂', h₃', h₄'⟩ := gateMember_eq (phys n)
  rw [fetchGate, readGate, h₀, h₁, h₂, h₃, h₄, h₀', h₁', h₂', h₃', h₄', h_member, h_member,
    h_member, h_member, h_member,
    bind_of_some (fetch16_low hm (h.addr (k := 0) (by omega)) (by omega)),
    bind_of_some (fetch16_low hm (h.addr (k := 2) (by omega)) (by omega)),
    bind_of_some (fetch8_low hm (h.addr (k := 4) (by omega))),
    bind_of_some (fetch8_low hm (h.addr (k := 5) (by omega))),
    bind_of_some (fetch16_low hm (h.addr (k := 6) (by omega)) (by omega))]
  rfl

end Low

/-! ### The array -/

/-- The bytes of the array. -/
def InArray (idt : BitVec 32) (n : ℕ) : Prop := lowByte idt ≤ n ∧ n < lowByte idt + 0x180

section Array

variable {m m' : ByteMemory} {idt : BitVec 32} {table : VecNo → BitVec 32} {n : ℕ}

/-- The gates, made one after another at a physical address. -/
def gatesAt (n : ℕ) (table : VecNo → BitVec 32) (vs : List VecNo) (m : ByteMemory) : ByteMemory :=
  vs.foldl (fun m i => makeIdtDesc (idtEntry (phys n) i) idtDescAttrDpl0 (table i) m) m

/-- **The loop of `idt_desc_init`** makes the gates where the address of the array leads. -/
theorem idtDescLoop_low (table : VecNo → BitVec 32) (hm : BootMapped m) (h : Low idt n)
    (h_fits : n + 0x180 ≤ 0x100000) (vs : List VecNo) :
    (Kern.idtDescLoop idt table vs).run kernelSem m = .ok ((), gatesAt n table vs m) ∧
      BootMapped (gatesAt n table vs m) := by
  induction vs generalizing m with
  | nil => exact ⟨rfl, hm⟩
  | cons i vs ih =>
    have h_i := i.isLt
    have h_entry : idtEntry (phys n) i = phys (n + 8 * i) := phys_add n _
    obtain ⟨h_run, hm₁⟩ := makeIdtDesc_low idtDescAttrDpl0 (table i) hm
      (h.addr (k := 8 * i) (by omega)) (by omega)
    rw [← h_entry] at h_run hm₁
    obtain ⟨h_rest, hm'⟩ := ih hm₁
    rw [Kern.idtDescLoop, idtEntry, Prog.run_bind_of_ok kernelSem h_run]
    exact ⟨h_rest, hm'⟩

/-- Nothing else is written. -/
theorem gatesAt_of_not (h_fits : n + 0x180 ≤ 2 ^ 32) (vs : List VecNo) {x : ℕ} (hx : x < 2 ^ 32)
    (h : ¬ (n ≤ x ∧ x < n + 0x180)) : gatesAt n table vs m (phys x) = m (phys x) := by
  induction vs generalizing m with
  | nil => rfl
  | cons i vs ih =>
    refine ih.trans (makeIdtDesc_of_ne fun k hk => ?_)
    have h_i := i.isLt
    have h_addr : addr (phys n) (8 * i + k) = phys (n + (8 * i + k)) := phys_add ..
    rw [idtEntry, addr_addr, h_addr]
    exact phys_ne (by omega) (by omega) (by omega)

/-- The gates that are built stay, as long as nobody stores to the array. -/
theorem readGate_gatesAt (h_same : ∀ x, n ≤ x → x < n + 0x180 →
      m' (phys x) = gatesAt n table (List.finRange 0x30) m (phys x)) (v : VecNo) :
    readGate m' (phys (n + 8 * v)) = gateFor idtDescAttrDpl0 (table v) := by
  have h_v := v.isLt
  have h_entry : idtEntry (phys n) v = phys (n + 8 * v) := phys_add n _
  have h_gate : readGate (gatesAt n table (List.finRange 0x30) m) (idtEntry (phys n) v) = _ :=
    readGate_foldl (List.finRange 0x30) v
  rw [if_pos (List.mem_finRange v), h_entry] at h_gate
  refine (readGate_congr fun k hk => ?_).trans h_gate
  rw [show addr (phys (n + 8 * v)) k = phys (n + 8 * v + k) from phys_add ..]
  exact h_same _ (by omega) (by omega)

end Array

/-! ### The runs -/

/-- A state of the kernel after `idt_init`: the array has been built, through page tables that map
the first MiB twice, and no store of the kernel to it came after that. -/
def TableKept (allMemory idt : BitVec 32) (table : VecNo → BitVec 32) (st' : PageState) : Prop :=
  ∃ m₀ m₁ st tr, BootMapped m₀ ∧ (Kern.idtDescInit idt table).run kernelSem m₀ = .ok ((), m₁) ∧
    (memorySys allMemory).Reachable st ∧ (∀ n, InArray idt n → st.mem (phys n) = m₁ (phys n)) ∧
    (memorySys allMemory).Run st tr st' ∧
    ∀ x ∈ tr, ∀ o, x.1 = .own o → ∀ n, InArray idt n → ¬ o.Stores n

section Runs

variable {allMemory idt : BitVec 32} {table : VecNo → BitVec 32} {st : PageState}

/-- The gates are where the address of the array leads, in every such state. -/
theorem TableKept.gate (h_low : Low idt (lowByte idt)) (h_fits : lowByte idt + 0x180 ≤ 0x9a000)
    (h : TableKept allMemory idt table st) : BootMapped st.mem ∧ ∀ v : VecNo,
      readGate st.mem (phys (lowByte idt + 8 * v)) = gateFor idtDescAttrDpl0 (table v) := by
  obtain ⟨m₀, m₁, st₀, tr, hm₀, h_build, h_reach, h_start, h_run, h_stores⟩ := h
  obtain ⟨nb, ub, hL⟩ := memPools_layout allMemory
  obtain ⟨e, h_inv⟩ := memoryInv_of_reachable hL h_reach
  obtain ⟨⟨e', h_inv'⟩, h_same⟩ := memoryInv_run hL h_inv h_run
  obtain ⟨h_gates, -⟩ := idtDescLoop_low table hm₀ h_low (by omega) (List.finRange 0x30)
  obtain rfl : m₁ = _ := congrArg Prod.snd (Except.ok.inj (h_build.symm.trans h_gates))
  refine ⟨h_inv'.boot, readGate_gatesAt (m := m₀) fun x h_ge h_lt => ?_⟩
  rw [h_same x (by omega) (by unfold AllocByte; omega) fun y hy o h_o => h_stores y hy o h_o x
    ⟨h_ge, h_lt⟩]
  exact h_start x ⟨h_ge, h_lt⟩

/-- There are such states, in which the first MiB is zero up to the array and behind it. -/
theorem exists_tableKept (allMemory idt : BitVec 32) (table : VecNo → BitVec 32)
    (h_low : Low idt (lowByte idt)) (h_fits : lowByte idt + 0x180 ≤ 0x9a000) :
    ∃ st, TableKept allMemory idt table st ∧
      ∀ n < 0x9a000, ¬ InArray idt n → st.mem (phys n) = 0#8 := by
  set m₀ := setupPage fun _ => 0#8 with h_m₀
  have h_blank {x : ℕ} (hx : x < 2 ^ 32) (h : ¬ (0x100000 ≤ x ∧ x < 0x101400)) :
      m₀ (phys x) = 0#8 := setupPage_byte _ hx h
  obtain ⟨h_run, hm₁⟩ := idtDescLoop_low table (bootMapped_setupPage fun _ => 0#8) h_low (by omega)
    (List.finRange 0x30)
  set m₁ := gatesAt (lowByte idt) table (List.finRange 0x30) m₀ with h_m₁
  have h_out {x : ℕ} (hx : x < 2 ^ 32) (h : ¬ InArray idt x) : m₁ (phys x) = m₀ (phys x) :=
    gatesAt_of_not (by omega) _ hx h
  obtain ⟨nb, ub, hL⟩ := memPools_layout allMemory
  obtain ⟨h_nb, h_ub, h_frames, h_pages⟩ := hL.bounds
  -- the memory is that of a boot in which the array is already there
  obtain ⟨m, h_pool, -, h_bytes⟩ := memPoolInit_run hL (mapped_setupPage m₁)
  have h_zero : ∀ p, 256 ≤ p → p < 255 * 1024 → m₁.word (tableAddr p) = 0#32 := by
    intro p h_ge h_lt
    have h_table : tableAddr p = 0x101000 + 4 * p := rfl
    refine ByteMemory.word_eq_zero _ fun k hk => ?_
    have h_not : ¬ InArray idt (tableAddr p + k) := by
      unfold InArray
      omega
    rw [h_out (by omega) h_not, h_blank (by omega) (by omega)]
  have h_byte {x : ℕ} (hx : x < 0x9a000) : m (phys x) = m₁ (phys x) := by
    rw [h_bytes x (by omega), if_neg (by omega), setupPage_byte _ (by omega) (by omega)]
  refine ⟨⟨m, [], []⟩, ⟨m₀, m₁, ⟨m, [], []⟩, [], bootMapped_setupPage _, h_run,
    .init ⟨⟨m₁, h_zero, h_pool⟩, rfl, rfl⟩, fun n hn => h_byte ?_, .nil _, ?_⟩,
    fun n hn h_not => ?_⟩
  · unfold InArray at hn
    omega
  · intro x hx
    cases hx
  · exact (h_byte hn).trans ((h_out (by omega) h_not).trans (h_blank (by omega) (by omega)))

end Runs

/-! ### Where the processor looks -/

section Base

variable {m : ByteMemory} {idt : BitVec 32} {table : VecNo → BitVec 32}

/-- The limit is that of the array, so that it cuts no gate off. -/
theorem gateOf_idtOperand (m : ByteMemory) (idt : BitVec 32) (v : VecNo) :
    gateOf m ((IdtState.idtOperand idt).setWidth 48) v =
      fetchGate m (addr ((idt.setWidth 16).setWidth 32) (8 * v)) := by
  have h_v := v.isLt
  have h_limit : (BitVec.ofNat 16 (sizeofIdt - 1)).toNat = 0x17f := by decide
  rw [gateOf, IdtState.limit_idtOperand, h_limit, if_pos (by omega), IdtState.base_idtOperand]

/-- The base leads to the first 64 KiB, by the mapping of the first MiB to itself. -/
theorem base_low (idt : BitVec 32) (v : VecNo) :
    Low (addr ((idt.setWidth 16).setWidth 32) (8 * v)) (idt.toNat % 65536 + 8 * v) := by
  have h_v := v.isLt
  have h_base : ((idt.setWidth 16).setWidth 32).toNat = idt.toNat % 65536 := by
    rw [BitVec.toNat_setWidth, BitVec.toNat_setWidth]
    omega
  refine Low.addr ⟨by omega, ?_⟩ (by omega)
  rw [h_base]
  omega

/-- What the processor takes for the gate of a vector. -/
theorem gateOf_eq (hm : BootMapped m) (idt : BitVec 32) (v : VecNo) :
    gateOf m ((IdtState.idtOperand idt).setWidth 48) v =
      some (readGate m (phys (idt.toNat % 65536 + 8 * v))) := by
  have h_v := v.isLt
  rw [gateOf_idtOperand, fetchGate_low hm (base_low idt v) (by omega)]

/-- Zeros are no gate. -/
theorem not_gatesFound_of_zero (hm : BootMapped m)
    (h_zero : m (phys (idt.toNat % 65536 + 5)) = 0#8) :
    ¬ GatesFound m ((IdtState.idtOperand idt).setWidth 48) table := by
  intro h
  obtain ⟨g, h_g, -, -, h_kind⟩ := h ⟨0, by decide⟩
  rw [gateOf_eq hm] at h_g
  obtain rfl := Option.some.inj h_g
  have h_attr : (readGate m (phys (idt.toNat % 65536))).attr = 0#8 := by
    have h_member : gateMember (phys (idt.toNat % 65536)) 3 = phys (idt.toNat % 65536 + 5) :=
      phys_add _ 5
    rw [readGate, h_member]
    exact h_zero
  have h_present : (readGate m (phys (idt.toNat % 65536))).attr.extractLsb' 7 1 = 1#1 :=
    h_kind.present
  rw [h_attr] at h_present
  exact absurd h_present (by decide)

end Base

/-- **The processor finds the table** in every state of the kernel if and only if the array is in
the first 64 KiB of the kernel's half. -/
theorem gates_found_iff (allMemory idt : BitVec 32) (table : VecNo → BitVec 32)
    (h_kernel : 0xc0000000 ≤ idt.toNat) (h_fits : idt.toNat + sizeofIdt ≤ 0xc009a000) :
    (∀ st, TableKept allMemory idt table st →
        GatesFound st.mem ((IdtState.idtOperand idt).setWidth 48) table) ↔
      idt.toNat < 0xc0010000 := by
  have h_size : sizeofIdt = 0x180 := by decide
  have h_low : Low idt (lowByte idt) := ⟨by unfold lowByte; omega, rfl⟩
  have h_nat : lowByte idt = idt.toNat - 0xc0000000 := by
    unfold lowByte
    omega
  constructor
  · intro h
    by_contra h_far
    -- in a kernel that has started from zeros, there are zeros where the processor looks
    obtain ⟨st, h_kept, h_blank⟩ := exists_tableKept allMemory idt table h_low (by omega)
    obtain ⟨h_boot, -⟩ := h_kept.gate h_low (by omega)
    refine not_gatesFound_of_zero h_boot (h_blank _ (by omega) ?_) (h st h_kept)
    unfold InArray
    omega
  · intro h_near st h_kept v
    obtain ⟨h_boot, h_gates⟩ := h_kept.gate h_low (by omega)
    have h_place : idt.toNat % 65536 = lowByte idt := by omega
    refine ⟨gateFor idtDescAttrDpl0 (table v), ?_, offset_gateFor, rfl, isKernelInterruptGate⟩
    rw [gateOf_eq h_boot, h_place, h_gates v]

/-- The base that is loaded for an array at `0xc0005000` is `0x5000`, and its gates are found. -/
theorem gates_found_low : ∃ st, TableKept 0x2000000#32 0xc0005000#32 (fun _ => 0xc0001700#32) st ∧
    GatesFound st.mem ((IdtState.idtOperand 0xc0005000#32).setWidth 48) fun _ => 0xc0001700#32 := by
  obtain ⟨st, h_kept, -⟩ := exists_tableKept 0x2000000#32 0xc0005000#32
    (fun _ => 0xc0001700#32) (by decide) (by decide)
  exact ⟨st, h_kept, (gates_found_iff 0x2000000#32 0xc0005000#32 _ (by decide) (by decide)).mpr
    (by decide) st h_kept⟩

end ToiletOS
