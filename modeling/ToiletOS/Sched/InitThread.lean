import ToiletOS.Sched.SwitchTo

/-!
# What `init_thread` records

`init_thread` clears the PCB, copies the name, and fills in the other members. The name has 16
bytes, `strcpy` is not told so, and what it writes behind them is partly written over by what is
filled in later: `priority` and `ticks`, two bytes of padding that stay, and `elaspsed_ticks`,
whose lowest byte is zero.

A longer name is read back only if its characters happen to be those of the members behind it.
`init_thread_records_iff` has the exact condition, whatever was in the page before.
-/

namespace ToiletOS

namespace Pcb

/-- The string at an address, up to the zero that ends it. -/
def ReadsAs (m : ByteMemory) (a : BitVec 32) (s : List (BitVec 8)) : Prop :=
  0#8 ∉ s ∧ ∀ i ≤ s.length, (s ++ [0#8])[i]? = some (m (addr a i))

/-- What `init_thread` is to leave in memory. -/
structure Records (m m' : ByteMemory) (mainThread pthread : BitVec 32) (name : List (BitVec 8))
    (prio : BitVec 32) : Prop where
  name : ReadsAs m' (memberAt pthread 2) name
  priority : (m' (memberAt pthread 3)).toNat = prio.toNat
  ticks : (m' (memberAt pthread 4)).toNat = prio.toNat
  elaspsedTicks : m'.load32 (memberAt pthread 5) = 0#32
  status : m'.load32 (memberAt pthread 1) = if pthread = mainThread then 0#32 else 1#32
  selfKstack : m'.load32 (memberAt pthread 0) = addr pthread pageSize
  pgdir : m'.load32 (memberAt pthread 8) = 0#32
  stackMagic : m'.load32 (memberAt pthread 9) = 0x77777777#32
  others : ∀ a : BitVec 32, (CType.struct taskStruct).size ≤ (a - pthread).toNat → m' a = m a

/-- The name fits its 16 bytes with its zero, or what it has behind them is what is there. -/
def NameFits (name : List (BitVec 8)) (prio : BitVec 8) : Prop :=
  name.length ≤ 15 ∨ name.length = 16 ∧ prio = 0#8 ∨
    18 ≤ name.length ∧ name.length ≤ 20 ∧ name[16]? = some prio ∧ name[17]? = some prio

/-! ### Bytes -/

section Bytes

variable {m : ByteMemory} {p : BitVec 32} {i k : ℕ}

theorem memset_above {n : ℕ} (v : BitVec 8) (hi : i < 2 ^ 32) (h : k + n ≤ i) :
    memset m (addr p k) v n (addr p i) = m (addr p i) := by
  induction n generalizing m k with
  | zero => rfl
  | succ n ih =>
    rw [memset, addr_addr, ih (by omega), m.store8_of_ne v (addr_ne p hi (by omega) (by omega))]

theorem strcpy_outside {cs : List (BitVec 8)} (h_fits : k + cs.length < 2 ^ 32) (hi : i < 2 ^ 32)
    (h : i < k ∨ k + cs.length < i) :
    strcpy m (addr p k) cs (addr p i) = m (addr p i) := by
  induction cs generalizing m k with
  | nil => exact m.store8_of_ne _ (addr_ne p hi h_fits (by rw [List.length_nil] at h; omega))
  | cons c cs ih =>
    rw [List.length_cons] at h_fits h
    rw [strcpy, addr_addr, ih (by omega) (by omega),
      m.store8_of_ne c (addr_ne p hi (by omega) (by omega))]

/-- The characters of a string, and its zero. -/
theorem strcpy_at {cs : List (BitVec 8)} (h_fits : k + cs.length < 2 ^ 32) (hi : i ≤ cs.length) :
    (cs ++ [0#8])[i]? = some (strcpy m (addr p k) cs (addr p (k + i))) := by
  induction cs generalizing m k i with
  | nil =>
    obtain rfl : i = 0 := by simpa using hi
    rw [strcpy, Nat.add_zero, ByteMemory.store8_self]
    rfl
  | cons c cs ih =>
    rw [List.length_cons] at h_fits hi
    rw [strcpy, addr_addr, List.cons_append]
    cases i with
    | zero =>
      -- the bytes that follow do not come back to the one just written
      have h_before := strcpy_outside (m := m.store8 (addr p k) c) (p := p) (k := k + 1) (i := k)
        (show k + 1 + cs.length < 2 ^ 32 by omega) (by omega) (.inl (Nat.lt_succ_self k))
      rw [Nat.add_zero k, h_before, ByteMemory.store8_self]
      rfl
    | succ i =>
      rw [List.getElem?_cons_succ, ih (k := k + 1) (by omega) (by omega), Nat.add_right_comm,
        Nat.add_assoc]

end Bytes

/-! ### `init_thread` -/

section InitThread

variable (m : ByteMemory) (mainThread p : BitVec 32) (name : List (BitVec 8)) (prio : BitVec 32)

/-- The page when the name has been copied. -/
def named : ByteMemory :=
  strcpy (memset m p 0#8 (CType.struct taskStruct).size) (memberAt p 2) name

/-- The stores behind the copy, with their offsets. -/
theorem initThread_eq : initThread m mainThread p name prio =
    (((((((named m p name).store32 (addr p 4) (if p = mainThread then 0#32 else 1#32)).store8
      (addr p 24) (prio.setWidth 8)).store8 (addr p 25) (prio.setWidth 8)).store32
      (addr p 28) 0#32).store32 (addr p 48) 0#32).store32 (addr p 0) (addr p pageSize)).store32
      (addr p 52) 0x77777777#32 := rfl

/-- The bytes that are not filled in after the name. -/
theorem initThread_kept {i : ℕ} (hi : i < 2 ^ 32)
    (h : 8 ≤ i ∧ i < 24 ∨ i = 26 ∨ i = 27 ∨ 56 ≤ i) :
    initThread m mainThread p name prio (addr p i) = named m p name (addr p i) := by
  rw [initThread_eq, ByteMemory.store32_of_disjoint _ p _ hi (by decide) (by omega),
    ByteMemory.store32_of_disjoint _ p _ hi (by decide) (by omega),
    ByteMemory.store32_of_disjoint _ p _ hi (by decide) (by omega),
    ByteMemory.store32_of_disjoint _ p _ hi (by decide) (by omega),
    ByteMemory.store8_of_ne _ _ (addr_ne p hi (by decide) (by omega)),
    ByteMemory.store8_of_ne _ _ (addr_ne p hi (by decide) (by omega)),
    ByteMemory.store32_of_disjoint _ p _ hi (by decide) (by omega)]

/-- The bytes of `priority` and `ticks`. -/
theorem initThread_prio :
    initThread m mainThread p name prio (addr p 24) = prio.setWidth 8 ∧
      initThread m mainThread p name prio (addr p 25) = prio.setWidth 8 := by
  have h_rest (m' : ByteMemory) (i : ℕ) (h : i = 24 ∨ i = 25) :
      (((m'.store32 (addr p 28) 0#32).store32 (addr p 48) 0#32).store32 (addr p 0)
        (addr p pageSize)).store32 (addr p 52) 0x77777777#32 (addr p i) = m' (addr p i) := by
    rw [ByteMemory.store32_of_disjoint _ p _ (by omega) (by decide) (by omega),
      ByteMemory.store32_of_disjoint _ p _ (by omega) (by decide) (by omega),
      ByteMemory.store32_of_disjoint _ p _ (by omega) (by decide) (by omega),
      ByteMemory.store32_of_disjoint _ p _ (by omega) (by decide) (by omega)]
  constructor
  · rw [initThread_eq, h_rest _ 24 (.inl rfl),
      ByteMemory.store8_of_ne _ _ (addr_ne p (by decide) (by decide) (by decide)),
      ByteMemory.store8_self]
  · rw [initThread_eq, h_rest _ 25 (.inr rfl), ByteMemory.store8_self]

/-- The words that are filled in, whatever the name. -/
theorem initThread_words :
    (initThread m mainThread p name prio).load32 (addr p 0) = addr p pageSize ∧
      (initThread m mainThread p name prio).load32 (addr p 4)
        = (if p = mainThread then 0#32 else 1#32) ∧
      (initThread m mainThread p name prio).load32 (addr p 28) = 0#32 ∧
      (initThread m mainThread p name prio).load32 (addr p 48) = 0#32 ∧
      (initThread m mainThread p name prio).load32 (addr p 52) = 0x77777777#32 := by
  -- the members do not overlap, so each is read as it was stored last
  have h_word (m' : ByteMemory) (i j : ℕ) (v : BitVec 32) (hi : i < 56) (hj : j < 56)
      (h : i + 4 ≤ j ∨ j + 4 ≤ i) :
      (m'.store32 (addr p j) v).load32 (addr p i) = m'.load32 (addr p i) :=
    m'.load32_store32_of_disjoint p v (by omega) (by omega) h
  have h_byte (m' : ByteMemory) (j : ℕ) (v : BitVec 8) (h : 8 ≤ j) (hj : j < 56) :
      (m'.store8 (addr p j) v).load32 (addr p 4) = m'.load32 (addr p 4) :=
    m'.load32_store8_of_disjoint p v (by decide) (by omega) (.inl h)
  rw [initThread_eq]
  refine ⟨?_, ?_, ?_, ?_, ?_⟩
  · rw [h_word _ 0 52 _ (by decide) (by decide) (by decide), ByteMemory.load32_store32]
  · rw [h_word _ 4 52 _ (by decide) (by decide) (by decide),
      h_word _ 4 0 _ (by decide) (by decide) (by decide),
      h_word _ 4 48 _ (by decide) (by decide) (by decide),
      h_word _ 4 28 _ (by decide) (by decide) (by decide), h_byte _ 25 _ (by decide) (by decide),
      h_byte _ 24 _ (by decide) (by decide), ByteMemory.load32_store32]
  · rw [h_word _ 28 52 _ (by decide) (by decide) (by decide),
      h_word _ 28 0 _ (by decide) (by decide) (by decide),
      h_word _ 28 48 _ (by decide) (by decide) (by decide), ByteMemory.load32_store32]
  · rw [h_word _ 48 52 _ (by decide) (by decide) (by decide),
      h_word _ 48 0 _ (by decide) (by decide) (by decide), ByteMemory.load32_store32]
  · rw [ByteMemory.load32_store32]

/-- The byte behind the padding. -/
theorem initThread_elapsed : initThread m mainThread p name prio (addr p 28) = 0#8 := by
  rw [initThread_eq, ByteMemory.store32_of_disjoint _ p _ (by decide) (by decide) (by decide),
    ByteMemory.store32_of_disjoint _ p _ (by decide) (by decide) (by decide),
    ByteMemory.store32_of_disjoint _ p _ (by decide) (by decide) (by decide),
    ByteMemory.store32_low]
  rfl

/-- What has been copied. -/
theorem named_at {i : ℕ} (h_fits : name.length < 2 ^ 31) (hi : i ≤ name.length) :
    (name ++ [0#8])[i]? = some (named m p name (addr p (8 + i))) :=
  strcpy_at (k := 8) (by omega) hi

/-- Behind the PCB nothing is touched by a name that ends before. -/
theorem named_above {i : ℕ} (h_fits : 8 + name.length < 56) (hi : i < 2 ^ 32) (h : 56 ≤ i) :
    named m p name (addr p i) = m (addr p i) := by
  have h_clear := memset_above (m := m) (p := p) (k := 0) (n := 56) 0#8 hi (by omega)
  rw [addr_zero] at h_clear
  exact (strcpy_outside (k := 8) (by omega) hi (.inr (by omega))).trans h_clear

end InitThread

/-! ### The condition -/

section Condition

variable {m : ByteMemory} {mainThread p : BitVec 32} {name : List (BitVec 8)} {prio : BitVec 32}

/-- A name that is read back has its places, and what it has behind them is what is there. -/
theorem NameFits.of_readsAs
    (h : ReadsAs (initThread m mainThread p name prio) (memberAt p 2) name) :
    NameFits name (prio.setWidth 8) := by
  obtain ⟨h_nonzero, h_read⟩ := h
  obtain ⟨h_priority, h_ticks⟩ := initThread_prio m mainThread p name prio
  have h_at (i : ℕ) (hi : i ≤ name.length) : (name ++ [0#8])[i]?
      = some (initThread m mainThread p name prio (addr p (8 + i))) := by
    rw [h_read i hi, memberAt, addr_addr]
    rfl
  have h_char {i : ℕ} (hi : i < name.length) : name[i]? = (name ++ [0#8])[i]? :=
    (List.getElem?_append_left hi).symm
  have h_end : (name ++ [0#8])[name.length]? = some 0#8 := by
    rw [List.getElem?_append_right le_rfl, Nat.sub_self]
    rfl
  -- the lowest byte of `elaspsed_ticks` ends what is read
  have h_short : name.length ≤ 20 := by
    by_contra h_long
    have h_20 := h_at 20 (by omega)
    rw [initThread_elapsed, ← h_char (by omega)] at h_20
    exact h_nonzero (List.mem_of_getElem? h_20)
  rcases Nat.lt_or_ge name.length 16 with h_lt | h_ge
  · exact .inl (by omega)
  · have h_16 := h_at 16 h_ge
    rw [show 8 + 16 = 24 from rfl, h_priority] at h_16
    rcases Nat.lt_or_ge 16 name.length with h_gt | h_le
    · rw [← h_char h_gt] at h_16
      have h_17 := h_at 17 h_gt
      rw [show 8 + 17 = 25 from rfl, h_ticks] at h_17
      rcases Nat.lt_or_ge 17 name.length with h_gt' | h_le'
      · rw [← h_char h_gt'] at h_17
        exact .inr (.inr ⟨h_gt', h_short, h_16, h_17⟩)
      · -- the zero would be `ticks`, and the last character `priority`
        rw [show 17 = name.length by omega, h_end, Option.some.injEq] at h_17
        rw [← h_17] at h_16
        exact absurd (List.mem_of_getElem? h_16) h_nonzero
    · rw [show 16 = name.length by omega, h_end, Option.some.injEq] at h_16
      exact .inr (.inl ⟨by omega, h_16.symm⟩)

/-- A name that fits is read back. -/
theorem NameFits.readsAs (h_nonzero : 0#8 ∉ name) (h : NameFits name (prio.setWidth 8)) :
    ReadsAs (initThread m mainThread p name prio) (memberAt p 2) name := by
  obtain ⟨h_priority, h_ticks⟩ := initThread_prio m mainThread p name prio
  have h_length : name.length ≤ 20 := by
    rcases h with h | ⟨h, -⟩ | ⟨-, h, -⟩ <;> omega
  refine ⟨h_nonzero, fun i hi => ?_⟩
  rw [memberAt, addr_addr]
  change _ = some (initThread m mainThread p name prio (addr p (8 + i)))
  -- the terminator of the name
  have h_end : (name ++ [0#8])[name.length]? = some 0#8 := by
    rw [List.getElem?_append_right le_rfl, Nat.sub_self]
    rfl
  by_cases h_kept : i < 16 ∨ i = 18 ∨ i = 19
  · rw [initThread_kept m mainThread p name prio (by omega) (by omega)]
    exact named_at m p name (by omega) hi
  · -- the members behind the name
    have h_cases : i = 16 ∨ i = 17 ∨ i = 20 := by omega
    rcases h_cases with rfl | rfl | rfl
    · rw [show 8 + 16 = 24 from rfl, h_priority]
      rcases h with h | ⟨h, h_prio⟩ | ⟨h, -, h_16, -⟩
      · omega
      · rw [← h, h_end, h_prio]
      · rw [List.getElem?_append_left (by omega), h_16]
    · rw [show 8 + 17 = 25 from rfl, h_ticks]
      rcases h with h | ⟨h, -⟩ | ⟨h, -, -, h_17⟩
      · omega
      · omega
      · rw [List.getElem?_append_left (by omega), h_17]
    · rw [show 8 + 20 = 28 from rfl, initThread_elapsed, show 20 = name.length by omega, h_end]

end Condition

end Pcb

/-- **What `init_thread` is given is recorded** if and only if the name fits, whatever was in
memory. -/
theorem init_thread_records_iff (m : ByteMemory) (mainThread pthread : BitVec 32)
    {name : List (BitVec 8)} {prio : BitVec 32} (h_name : 0#8 ∉ name) (h_prio : prio.toNat ≤ 255) :
    Pcb.Records m (Pcb.initThread m mainThread pthread name prio) mainThread pthread name prio ↔
      Pcb.NameFits name (prio.setWidth 8) := by
  constructor
  · intro h
    exact .of_readsAs h.name
  · intro h
    have h_length : name.length ≤ 20 := by
      rcases h with h | ⟨h, -⟩ | ⟨-, h, -⟩ <;> omega
    obtain ⟨h_priority, h_ticks⟩ := Pcb.initThread_prio m mainThread pthread name prio
    obtain ⟨h_kstack, h_status, h_elapsed, h_pgdir, h_magic⟩ :=
      Pcb.initThread_words m mainThread pthread name prio
    have h_byte : (prio.setWidth 8).toNat = prio.toNat := by
      rw [BitVec.toNat_setWidth]
      exact Nat.mod_eq_of_lt (by omega)
    refine ⟨h.readsAs h_name, ?_, ?_, h_elapsed, h_status, h_kstack, h_pgdir, h_magic, ?_⟩
    · exact (congrArg BitVec.toNat h_priority).trans h_byte
    · exact (congrArg BitVec.toNat h_ticks).trans h_byte
    · intro a h_a
      rw [← addr_toNat_sub pthread a]
      have h_lt := (a - pthread).isLt
      have h_size : 56 ≤ (a - pthread).toNat := h_a
      rw [Pcb.initThread_kept m mainThread pthread name prio h_lt (by omega),
        Pcb.named_above m pthread name (by omega) h_lt h_size]

/-- The main thread, as `make_main_thread` sets it up. -/
theorem init_thread_records_main :
    Pcb.Records (fun _ => 0xff#8) (Pcb.initThread (fun _ => 0xff#8) 0xc009e000#32 0xc009e000#32
      [109, 97, 105, 110] 31#32) 0xc009e000#32 0xc009e000#32 [109, 97, 105, 110] 31#32 :=
  (init_thread_records_iff _ _ _ (by decide) (by decide)).mpr (.inl (by decide))

/-- A name of sixteen characters runs on into `priority`. -/
theorem init_thread_long_name :
    ¬ Pcb.Records (fun _ => 0#8) (Pcb.initThread (fun _ => 0#8) 0xc009e000#32 0xc0100000#32
      (List.replicate 16 0x61#8) 31#32) 0xc009e000#32 0xc0100000#32 (List.replicate 16 0x61#8)
      31#32 := by
  intro h
  have h_fits := Pcb.NameFits.of_readsAs h.name
  rcases h_fits with h_short | ⟨-, h_zero⟩ | ⟨h_long, -⟩
  · exact absurd h_short (by decide)
  · exact absurd h_zero (by decide)
  · exact absurd h_long (by decide)

end ToiletOS
