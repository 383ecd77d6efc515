import ToiletOS.Framework.ByteMemory
import Mathlib.Data.List.Basic

/-!
# Memory detection

The loops of `mbr/loader.S` that ask the BIOS for the memory map, entry by entry, and look for the
end of memory in it. The BIOS is the list of its answers: the entry that a call of `int 0x15`
writes to `es:di`, and the continuation value it leaves in `ebx`, which is 0 only with the last
entry (`IsE820Map`). All segment registers are 0, and `cx` is 20 after each call.

The loop that collects the entries has no bound, and the code of the loader stands right behind
`ards_buf`: a run ends with no result when an entry is written over the loop itself. `DetectState`
keeps a log of the addresses that are written, those of the entries included. What the BIOS does
with its own memory and with the stack is not part of it.

The search ignores the type of an entry and compares with `jge`, which is signed. So the number it
stores is the largest end below `2 ^ 31` of any entry, and it is the end of usable memory exactly
under the conditions of `Detectable` (`memory_detected_iff`).
-/

namespace ToiletOS

/-! ### The layout of `loader.S` -/

/-- `LOADER_BASE_ADDR`. -/
def loaderBaseAddr : BitVec 32 := 0x900

/-- `total_memory_bytes`, behind a near `jmp`, four descriptors and room for 60 more. -/
def totalMemoryBytes : BitVec 32 := loaderBaseAddr + 3 + 4 * 8 + 60 * 8

/-- `ards_buf`, behind `gdt_ptr`. -/
def ardsBuf : BitVec 32 := totalMemoryBytes + 4 + 6

/-- `ards_nr`, behind the 244 bytes of `ards_buf`. -/
def ardsNr : BitVec 32 := ardsBuf + 244

/-- `.e820_mem_get_loop`, behind `ards_nr` and the 18 bytes of code at `loader_start`. -/
def e820MemGetLoopAddr : BitVec 32 := ardsNr + 2 + 18

/-! ### The BIOS -/

/-- An address range descriptor. -/
structure Ards where
  base : BitVec 64
  length : BitVec 64
  type : BitVec 32

namespace Ards

/-- The first address behind the range. -/
def finish (e : Ards) : ℕ := e.base.toNat + e.length.toNat

/-- Usable RAM. -/
def Usable (e : Ards) : Prop := e.type = 1

instance (e : Ards) : Decidable e.Usable := inferInstanceAs (Decidable (_ = _))

end Ards

/-- The answers of the BIOS: an entry and the value of `ebx` for each call, with `ebx = 0` only at
the last one. -/
def IsE820Map : List (Ards × BitVec 32) → Prop
  | [] => False
  | [(_, ebx)] => ebx = 0
  | (_, ebx) :: reply :: replies => ebx ≠ 0 ∧ IsE820Map (reply :: replies)

/-! ### The loops -/

/-- Memory, the register `di`, and the addresses written so far (ghost). -/
structure DetectState where
  mem : ByteMemory
  di : BitVec 16
  written : List (BitVec 32)

/-- Why there is no result. -/
inductive DetectFault
  -- The loop has been overwritten.
  | overwritten
  -- The BIOS has no more entries.
  | noReply
  deriving DecidableEq, Repr

namespace DetectState

/-- Write a half word. -/
def store16 (st : DetectState) (a : BitVec 32) (v : BitVec 16) : DetectState :=
  { st with mem := st.mem.store16 a v, written := st.written ++ [a, addr a 1] }

/-- Write a word. -/
def store32 (st : DetectState) (a v : BitVec 32) : DetectState :=
  { st with
    mem := st.mem.store32 a v, written := st.written ++ [a, addr a 1, addr a 2, addr a 3] }

/-- `int 0x15`: an entry is written to `es:di`. -/
def int15 (st : DetectState) (e : Ards) : DetectState :=
  let p : BitVec 32 := st.di.setWidth 32
  let st := st.store32 p (e.base.extractLsb' 0 32)
  let st := st.store32 (addr p 4) (e.base.extractLsb' 32 32)
  let st := st.store32 (addr p 8) (e.length.extractLsb' 0 32)
  let st := st.store32 (addr p 12) (e.length.extractLsb' 32 32)
  st.store32 (addr p 16) e.type

/-- `inc word [ards_nr]`. -/
def incArdsNr (st : DetectState) : DetectState :=
  st.store16 ardsNr (st.mem.load16 ardsNr + 1)

/-- `.e820_mem_get_loop`. -/
def e820MemGetLoop (st : DetectState) : List (Ards × BitVec 32) → Except DetectFault DetectState
  | [] => .error .noReply
  | (e, ebx) :: replies =>
    if e820MemGetLoopAddr.toNat < st.di.toNat + 20 then .error .overwritten
    else
      let st := st.int15 e
      -- `add di, cx`
      let st := { st with di := st.di + 20 }
      let st := st.incArdsNr
      if ebx = 0 then .ok st else st.e820MemGetLoop replies

end DetectState

/-- `.find_max_mem_area` with the registers `cx`, `ebx` and `edx`, as many times as `loop` runs it.
-/
def findMaxMemArea (m : ByteMemory) : ℕ → BitVec 32 → BitVec 32 → BitVec 32
  | 0, _, edx => edx
  | cx + 1, ebx, edx =>
    let eax := m.load32 ebx + m.load32 (addr ebx 8)
    -- `cmp edx, eax` and `jge`
    findMaxMemArea m cx (addr ebx 20) (if eax.sle edx then edx else eax)

/-- The detection, from `.e820_mem_get_loop` on to `mov [total_memory_bytes], edx`. -/
def detectMemory (m : ByteMemory) (replies : List (Ards × BitVec 32)) :
    Except DetectFault DetectState := do
  let st ← DetectState.e820MemGetLoop ⟨m, ardsBuf.setWidth 16, []⟩ replies
  let cx := st.mem.load16 ardsNr
  -- `loop` decrements `cx` before it tests it
  let edx := findMaxMemArea st.mem (if cx = 0 then 2 ^ 16 else cx.toNat) ardsBuf 0
  return st.store32 totalMemoryBytes edx

/-! ### What is asked of the detection -/

/-- The end of usable memory. -/
def usableEnd (es : List Ards) : ℕ :=
  ((es.filter fun e => e.Usable).map Ards.finish).foldr max 0

/-- `ards_buf`, `ards_nr` and `total_memory_bytes`. -/
def IsDetectData (a : BitVec 32) : Prop :=
  (∃ i < 244, a = addr ardsBuf i) ∨ (∃ i < 2, a = addr ardsNr i) ∨
    ∃ i < 4, a = addr totalMemoryBytes i

/-- The memory maps for which the detection works. -/
structure Detectable (es : List Ards) : Prop where
  /-- `ards_buf` has room for the entries. -/
  few : es.length ≤ 12
  /-- Usable memory ends below `2 ^ 31`. -/
  usable : ∀ e ∈ es, e.Usable → e.finish < 2 ^ 31
  /-- No other range ends between there and `2 ^ 31`. -/
  others : ∀ e ∈ es, ¬ e.Usable → e.finish < 2 ^ 31 → e.finish ≤ usableEnd es

/-! ### One entry -/

section Entry

variable {st : DetectState} {o i : ℕ}

/-- Words outside the entry stay. -/
theorem int15_load32 (h_di : st.di.setWidth 32 = addr loaderBaseAddr o) (h_o : o + 20 ≤ 2 ^ 32)
    (e : Ards) (h_i : i + 4 ≤ 2 ^ 32) (h : i + 4 ≤ o ∨ o + 20 ≤ i) :
    (st.int15 e).mem.load32 (addr loaderBaseAddr i) = st.mem.load32 (addr loaderBaseAddr i) := by
  simp only [DetectState.int15, DetectState.store32, h_di, addr_addr]
  repeat rw [ByteMemory.load32_store32_of_disjoint _ _ _ h_i (by omega) (by omega)]

/-- Half words outside the entry stay. -/
theorem int15_load16 (h_di : st.di.setWidth 32 = addr loaderBaseAddr o) (h_o : o + 20 ≤ 2 ^ 32)
    (e : Ards) (h_i : i + 2 ≤ 2 ^ 32) (h : i + 2 ≤ o ∨ o + 20 ≤ i) :
    (st.int15 e).mem.load16 (addr loaderBaseAddr i) = st.mem.load16 (addr loaderBaseAddr i) := by
  simp only [DetectState.int15, DetectState.store32, h_di, addr_addr]
  repeat rw [ByteMemory.load16_store32_of_disjoint _ _ _ h_i (by omega) (by omega)]

/-- The lower half of the base. -/
theorem int15_base (h_di : st.di.setWidth 32 = addr loaderBaseAddr o) (h_o : o + 20 ≤ 2 ^ 32)
    (e : Ards) :
    (st.int15 e).mem.load32 (addr loaderBaseAddr o) = e.base.extractLsb' 0 32 := by
  simp only [DetectState.int15, DetectState.store32, h_di, addr_addr]
  repeat rw [ByteMemory.load32_store32_of_disjoint _ _ _ (by omega) (by omega) (by omega)]
  exact ByteMemory.load32_store32 _ _ _

/-- The lower half of the length. -/
theorem int15_length (h_di : st.di.setWidth 32 = addr loaderBaseAddr o) (h_o : o + 20 ≤ 2 ^ 32)
    (e : Ards) :
    (st.int15 e).mem.load32 (addr loaderBaseAddr (o + 8)) = e.length.extractLsb' 0 32 := by
  simp only [DetectState.int15, DetectState.store32, h_di, addr_addr]
  repeat rw [ByteMemory.load32_store32_of_disjoint _ _ _ (by omega) (by omega) (by omega)]
  exact ByteMemory.load32_store32 _ _ _

/-- The entry is written to the 20 bytes at `di`. -/
theorem int15_written (h_di : st.di.setWidth 32 = addr loaderBaseAddr o) (e : Ards) :
    (st.int15 e).written
      = st.written ++ (List.range 20).map fun i => addr loaderBaseAddr (o + i) := by
  simp only [DetectState.int15, DetectState.store32, h_di, addr_addr, List.append_assoc]
  rfl

end Entry

/-! ### Collecting the entries -/

/-- The offset of an entry from the start of the loader. -/
def entryOffset (k : ℕ) : ℕ := 0x20d + 20 * k

/-- The entry has been written to its place. -/
def Stored (m : ByteMemory) (k : ℕ) (e : Ards) : Prop :=
  m.load32 (addr loaderBaseAddr (entryOffset k)) = e.base.extractLsb' 0 32 ∧
    m.load32 (addr loaderBaseAddr (entryOffset k + 8)) = e.length.extractLsb' 0 32

/-- The entries `es` have been collected, in a buffer that has room for them. -/
structure Collected (st : DetectState) (es : List Ards) : Prop where
  di : st.di = BitVec.ofNat 16 (0x900 + entryOffset es.length)
  nr : st.mem.load16 ardsNr = BitVec.ofNat 16 es.length
  stored (k : ℕ) (e : Ards) : es[k]? = some e → Stored st.mem k e
  written : ∀ a ∈ st.written, IsDetectData a

/-- The state after a round of the loop. -/
def DetectState.collect (st : DetectState) (e : Ards) : DetectState :=
  ({ st.int15 e with di := st.di + 20 } : DetectState).incArdsNr

theorem DetectState.e820MemGetLoop_cons (st : DetectState) (e : Ards) (ebx : BitVec 32)
    (replies : List (Ards × BitVec 32)) :
    st.e820MemGetLoop ((e, ebx) :: replies) =
      if e820MemGetLoopAddr.toNat < st.di.toNat + 20 then .error .overwritten
      else if ebx = 0 then .ok (st.collect e) else (st.collect e).e820MemGetLoop replies := rfl

section Collect

variable {st : DetectState} {es : List Ards} {e : Ards}

theorem Collected.di_toNat (h : Collected st es) (h_few : es.length ≤ 12) :
    st.di.toNat = 0x900 + entryOffset es.length := by
  rw [h.di, BitVec.toNat_ofNat, Nat.mod_eq_of_lt]
  unfold entryOffset
  omega

/-- The address an entry is written to. -/
theorem Collected.di_eq (h : Collected st es) (h_few : es.length ≤ 12) :
    st.di.setWidth 32 = addr loaderBaseAddr (entryOffset es.length) := by
  apply BitVec.eq_of_toNat_eq
  rw [BitVec.toNat_setWidth, h.di_toNat h_few, addr, BitVec.toNat_add, BitVec.toNat_ofNat]
  unfold entryOffset
  change _ = (0x900 + _) % _
  omega

/-- What a round of the loop writes. -/
theorem collect_written {o : ℕ} (h_di : st.di.setWidth 32 = addr loaderBaseAddr o) (e : Ards) :
    (st.collect e).written =
      st.written ++ ((List.range 20).map fun i => addr loaderBaseAddr (o + i)) ++
        [ardsNr, addr ardsNr 1] := by
  rw [← int15_written h_di e]
  rfl

/-- **A round of the loop**, while there is room. -/
theorem Collected.collect (h : Collected st es) (h_few : es.length < 12) (e : Ards) :
    Collected (st.collect e) (es ++ [e]) := by
  have h_di := h.di_eq h_few.le
  have h_buf : ardsBuf = addr loaderBaseAddr 0x20d := by decide
  have h_nr : ardsNr = addr loaderBaseAddr 0x301 := by decide
  have h_offset : entryOffset es.length = 0x20d + 20 * es.length := rfl
  constructor
  · -- `di`
    change st.di + BitVec.ofNat 16 20 = _
    rw [h.di, ← BitVec.ofNat_add, List.length_append, List.length_singleton]
    unfold entryOffset
    exact congrArg (BitVec.ofNat 16) (by omega)
  · -- `ards_nr`
    change ((st.int15 e).mem.store16 ardsNr ((st.int15 e).mem.load16 ardsNr + 1)).load16 ardsNr = _
    rw [ByteMemory.load16_store16, h_nr, int15_load16 h_di (by omega) e (by omega) (by omega),
      ← h_nr, h.nr, List.length_append, BitVec.ofNat_add]
    rfl
  · -- the entries
    intro k e' h_k
    have h_keep (i : ℕ) (h_i : i + 4 ≤ 0x301) : (st.collect e).mem.load32 (addr loaderBaseAddr i) =
        (st.int15 e).mem.load32 (addr loaderBaseAddr i) := by
      change ((st.int15 e).mem.store16 ardsNr _).load32 _ = _
      rw [h_nr]
      exact ByteMemory.load32_store16_of_disjoint _ _ _ (by omega) (by omega) (by omega)
    rcases Nat.lt_or_ge k es.length with h_lt | h_ge
    · rw [List.getElem?_append_left h_lt] at h_k
      obtain ⟨h_base, h_length⟩ := h.stored k e' h_k
      unfold Stored
      unfold entryOffset at h_base h_length ⊢
      rw [h_keep _ (by omega), h_keep _ (by omega),
        int15_load32 h_di (by omega) e (by omega) (by omega),
        int15_load32 h_di (by omega) e (by omega) (by omega)]
      exact ⟨h_base, h_length⟩
    · obtain rfl : k = es.length := by
        obtain ⟨h_len, -⟩ := List.getElem?_eq_some_iff.mp h_k
        rw [List.length_append, List.length_singleton] at h_len
        omega
      rw [List.getElem?_concat_length] at h_k
      obtain rfl := Option.some.inj h_k
      unfold Stored
      rw [h_keep _ (by omega), h_keep _ (by omega)]
      exact ⟨int15_base h_di (by omega) e, int15_length h_di (by omega) e⟩
  · -- the log
    intro a h_a
    rw [collect_written h_di] at h_a
    rcases List.mem_append.mp h_a with h_a | h_a
    · rcases List.mem_append.mp h_a with h_a | h_a
      · exact h.written a h_a
      · obtain ⟨i, h_i, rfl⟩ := List.mem_map.mp h_a
        have h_less := List.mem_range.mp h_i
        refine Or.inl ⟨20 * es.length + i, by omega, ?_⟩
        rw [h_buf, addr_addr, entryOffset, Nat.add_assoc]
    · refine Or.inr (Or.inl ?_)
      rcases List.mem_pair.mp h_a with rfl | rfl
      · exact ⟨0, by decide, (addr_zero _).symm⟩
      · exact ⟨1, by decide, rfl⟩

/-! ### The loop -/

/-- A map has an entry. -/
theorem IsE820Map.cons {e : Ards} {ebx : BitVec 32} {replies : List (Ards × BitVec 32)}
    (h : IsE820Map ((e, ebx) :: replies)) :
    (ebx = 0 ∧ replies = []) ∨ (ebx ≠ 0 ∧ IsE820Map replies) := by
  cases replies with
  | nil => exact Or.inl ⟨h, rfl⟩
  | cons reply replies => exact Or.inr h

/-- **The loop**, on a map for which there is room. -/
theorem Collected.loop (h : Collected st es) {replies : List (Ards × BitVec 32)}
    (h_map : IsE820Map replies) (h_few : es.length + replies.length ≤ 12) :
    ∃ st', st.e820MemGetLoop replies = .ok st' ∧ Collected st' (es ++ replies.map Prod.fst) := by
  induction replies generalizing st es with
  | nil => cases h_map
  | cons reply replies ih =>
    obtain ⟨e, ebx⟩ := reply
    rw [List.length_cons] at h_few
    have h_next := h.collect (by omega) e
    -- `di` has not come to the code of the loop
    have h_room : ¬ e820MemGetLoopAddr.toNat < st.di.toNat + 20 := by
      rw [h.di_toNat (by omega)]
      unfold entryOffset
      change ¬ 0xc15 < _
      omega
    rw [DetectState.e820MemGetLoop_cons, if_neg h_room, List.map_cons, List.append_cons]
    rcases h_map.cons with ⟨h_zero, rfl⟩ | ⟨h_ne, h_map⟩
    · rw [if_pos h_zero]
      -- `ebx` is zero after the last entry
      refine ⟨st.collect e, rfl, ?_⟩
      rwa [List.map_nil, List.append_nil]
    · rw [if_neg h_ne]
      exact ih h_next h_map (by rw [List.length_append, List.length_singleton]; omega)

omit st es e in
/-- A round of the loop that leads to a result. -/
theorem e820MemGetLoop_ok {st st' : DetectState} {e : Ards} {ebx : BitVec 32}
    {replies : List (Ards × BitVec 32)} (h : st.e820MemGetLoop ((e, ebx) :: replies) = .ok st') :
    (ebx = 0 ∧ st' = st.collect e) ∨
      (ebx ≠ 0 ∧ (st.collect e).e820MemGetLoop replies = .ok st') := by
  rw [DetectState.e820MemGetLoop_cons] at h
  split at h
  · cases h
  · split at h
    · next h_zero => exact Or.inl ⟨h_zero, (Except.ok.inj h).symm⟩
    · next h_ne => exact Or.inr ⟨h_ne, h⟩

/-- The log only grows. -/
theorem e820MemGetLoop_written {replies : List (Ards × BitVec 32)} {st st' : DetectState}
    (h : st.e820MemGetLoop replies = .ok st') : ∀ a ∈ st.written, a ∈ st'.written := by
  induction replies generalizing st with
  | nil => cases h
  | cons reply replies ih =>
    obtain ⟨e, ebx⟩ := reply
    have h_round : ∀ a ∈ st.written, a ∈ (st.collect e).written := by
      intro a h_a
      simp only [DetectState.collect, DetectState.incArdsNr, DetectState.store16, DetectState.int15,
        DetectState.store32, List.mem_append]
      simp only [h_a, true_or]
    rcases e820MemGetLoop_ok h with ⟨-, rfl⟩ | ⟨-, h_rest⟩
    · exact h_round
    · exact fun a h_a => ih h_rest a (h_round a h_a)

/-- **The thirteenth entry** is written behind the buffer. -/
theorem Collected.overrun (h : Collected st es) {replies : List (Ards × BitVec 32)}
    {st' : DetectState} (h_map : IsE820Map replies) (h_few : es.length ≤ 12)
    (h_many : 12 < es.length + replies.length)
    (h_ok : st.e820MemGetLoop replies = .ok st') : addr loaderBaseAddr 0x303 ∈ st'.written := by
  induction replies generalizing st es with
  | nil => cases h_map
  | cons reply replies ih =>
    obtain ⟨e, ebx⟩ := reply
    rw [List.length_cons] at h_many
    rcases Nat.lt_or_eq_of_le h_few with h_lt | h_eq
    · -- there is room for this one
      rcases e820MemGetLoop_ok h_ok with ⟨h_zero, -⟩ | ⟨h_ne, h_rest⟩
      · rcases h_map.cons with ⟨-, rfl⟩ | ⟨h_ne, -⟩
        · rw [List.length_nil] at h_many
          omega
        · exact absurd h_zero h_ne
      · rcases h_map.cons with ⟨h_zero, -⟩ | ⟨-, h_map⟩
        · exact absurd h_zero h_ne
        · refine ih (h.collect h_lt e) h_map ?_ ?_ h_rest
          · rw [List.length_append, List.length_singleton]
            omega
          · rw [List.length_append, List.length_singleton]
            omega
    · -- twelve entries fill the buffer: the next one goes behind it
      have h_here : addr loaderBaseAddr 0x303 ∈ (st.collect e).written := by
        rw [collect_written (h.di_eq h_few) e, h_eq]
        refine List.mem_append_left _ (List.mem_append_right _ (List.mem_map.mpr ⟨6, ?_, rfl⟩))
        exact List.mem_range.mpr (by decide)
      rcases e820MemGetLoop_ok h_ok with ⟨-, rfl⟩ | ⟨-, h_rest⟩
      · exact h_here
      · exact e820MemGetLoop_written h_rest _ h_here

end Collect

/-! ### The search -/

/-- The end of an entry, as `eax` has it. -/
def Ards.eax (e : Ards) : BitVec 32 := e.base.extractLsb' 0 32 + e.length.extractLsb' 0 32

theorem Ards.eax_toNat {e : Ards} (h : e.finish < 2 ^ 32) : e.eax.toNat = e.finish := by
  unfold Ards.finish at h ⊢
  rw [Ards.eax, BitVec.toNat_add, BitVec.extractLsb'_toNat, BitVec.extractLsb'_toNat]
  simp only [Nat.shiftRight_zero]
  omega

/-- One comparison. -/
def furthest (edx : BitVec 32) (e : Ards) : BitVec 32 := if e.eax.sle edx then edx else e.eax

theorem findMaxMemArea_eq {m : ByteMemory} {es : List Ards} {k : ℕ} {edx : BitVec 32}
    (h : ∀ i e, es[i]? = some e → Stored m (k + i) e) :
    findMaxMemArea m es.length (addr loaderBaseAddr (entryOffset k)) edx
      = es.foldl furthest edx := by
  induction es generalizing k edx with
  | nil => rfl
  | cons e es ih =>
    obtain ⟨h_base, h_length⟩ := h 0 e rfl
    simp only [Nat.add_zero] at h_base h_length
    rw [List.length_cons, findMaxMemArea, addr_addr, addr_addr, h_base, h_length, List.foldl_cons]
    refine ih (k := k + 1) fun i e' h_e' => ?_
    have h_i := h (i + 1) e' h_e'
    rwa [Nat.add_comm i, ← Nat.add_assoc] at h_i

/-- The largest end below `2 ^ 31`. -/
def lowEnd (es : List Ards) : ℕ :=
  ((es.filter fun e => e.finish < 2 ^ 31).map Ards.finish).foldr max 0

theorem lowEnd_cons (e : Ards) (es : List Ards) :
    lowEnd (e :: es) = if e.finish < 2 ^ 31 then max e.finish (lowEnd es) else lowEnd es := by
  unfold lowEnd
  rw [List.filter_cons]
  split
  · next h =>
    rw [if_pos (of_decide_eq_true h)]
    rfl
  · next h => rw [if_neg fun h_low => h (decide_eq_true h_low)]

theorem lowEnd_lt (es : List Ards) : lowEnd es < 2 ^ 31 := by
  induction es with
  | nil => exact Nat.two_pow_pos 31
  | cons e es ih =>
    rw [lowEnd_cons]
    split
    · next h => exact max_lt h ih
    · exact ih

/-- The signed comparison passes over the ends from `2 ^ 31` on. -/
theorem furthest_toNat {edx : BitVec 32} (h_edx : edx.toNat < 2 ^ 31) {e : Ards}
    (h_e : e.finish < 2 ^ 32) :
    (furthest edx e).toNat = if e.finish < 2 ^ 31 then max edx.toNat e.finish else edx.toNat := by
  have h_eax := Ards.eax_toNat h_e
  have h_sle : e.eax.sle edx = true ↔ (2 ^ 31 ≤ e.finish ∨ e.finish ≤ edx.toNat) := by
    rw [BitVec.sle_iff_toInt_le, BitVec.toInt_eq_toNat_cond, BitVec.toInt_eq_toNat_cond, h_eax]
    split_ifs <;> omega
  unfold furthest
  simp only [h_sle]
  split_ifs <;> omega

/-- **The search** finds the largest end below `2 ^ 31`. -/
theorem foldl_furthest {edx : BitVec 32} (h_edx : edx.toNat < 2 ^ 31) {es : List Ards}
    (h : ∀ e ∈ es, e.finish < 2 ^ 32) :
    (es.foldl furthest edx).toNat = max edx.toNat (lowEnd es) := by
  induction es generalizing edx with
  | nil => exact (Nat.max_zero _).symm
  | cons e es ih =>
    have h_step := furthest_toNat h_edx (h e List.mem_cons_self)
    -- the maximum stays below `2 ^ 31`, so that `jge` compares it rightly
    have h_less : (furthest edx e).toNat < 2 ^ 31 := by
      rw [h_step]
      split
      · next h_low => exact max_lt h_edx h_low
      · exact h_edx
    rw [List.foldl_cons, ih h_less fun e' h_e' => h e' (List.mem_cons_of_mem e h_e'), h_step,
      lowEnd_cons]
    split
    · rw [max_assoc]
    · rfl

/-! ### The result -/

theorem foldr_max_le {l : List ℕ} {n : ℕ} : l.foldr max 0 ≤ n ↔ ∀ x ∈ l, x ≤ n := by
  induction l with
  | nil => simp
  | cons x l ih => simp [ih]

theorem usableEnd_le {es : List Ards} {n : ℕ} :
    usableEnd es ≤ n ↔ ∀ e ∈ es, e.Usable → e.finish ≤ n := by
  simp only [usableEnd, foldr_max_le, List.mem_map, List.mem_filter, decide_eq_true_eq]
  constructor
  · intro h e h_e h_usable
    exact h e.finish ⟨e, ⟨h_e, h_usable⟩, rfl⟩
  · rintro h x ⟨e, ⟨h_e, h_usable⟩, rfl⟩
    exact h e h_e h_usable

theorem lowEnd_le {es : List Ards} {n : ℕ} :
    lowEnd es ≤ n ↔ ∀ e ∈ es, e.finish < 2 ^ 31 → e.finish ≤ n := by
  simp only [lowEnd, foldr_max_le, List.mem_map, List.mem_filter, decide_eq_true_eq]
  constructor
  · intro h e h_e h_low
    exact h e.finish ⟨e, ⟨h_e, h_low⟩, rfl⟩
  · rintro h x ⟨e, ⟨h_e, h_low⟩, rfl⟩
    exact h e h_e h_low

/-- When the largest end below `2 ^ 31` is the end of usable memory. -/
theorem lowEnd_eq_usableEnd_iff (es : List Ards) :
    lowEnd es = usableEnd es ↔
      (∀ e ∈ es, e.Usable → e.finish < 2 ^ 31) ∧
        ∀ e ∈ es, ¬ e.Usable → e.finish < 2 ^ 31 → e.finish ≤ usableEnd es := by
  constructor
  · intro h
    constructor
    · intro e h_e h_usable
      calc e.finish ≤ usableEnd es := usableEnd_le.mp le_rfl e h_e h_usable
        _ = lowEnd es := h.symm
        _ < 2 ^ 31 := lowEnd_lt es
    · intro e h_e _ h_low
      rw [← h]
      exact lowEnd_le.mp le_rfl e h_e h_low
  · rintro ⟨h_usable, h_others⟩
    apply Nat.le_antisymm
    · refine lowEnd_le.mpr fun e h_e h_low => ?_
      by_cases h : e.Usable
      · exact usableEnd_le.mp le_rfl e h_e h
      · exact h_others e h_e h h_low
    · exact usableEnd_le.mpr fun e h_e h => lowEnd_le.mp le_rfl e h_e (h_usable e h_e h)

/-- Nothing has been collected. -/
theorem collected_start {m : ByteMemory} (h_nr : m.load16 ardsNr = 0) :
    Collected ⟨m, ardsBuf.setWidth 16, []⟩ [] := by
  refine ⟨?_, h_nr, fun k e h_k => ?_, fun a h_a => ?_⟩
  · rfl
  · cases h_k
  · cases h_a

/-- `loader_start` is no data of the detection. -/
theorem not_isDetectData : ¬ IsDetectData (addr loaderBaseAddr 0x303) := by
  have h_buf : ardsBuf = addr loaderBaseAddr 0x20d := by decide
  have h_nr : ardsNr = addr loaderBaseAddr 0x301 := by decide
  have h_total : totalMemoryBytes = addr loaderBaseAddr 0x203 := by decide
  have h_other {n o i : ℕ} (h_i : i < n) (h_end : o + n ≤ 0x303) :
      addr loaderBaseAddr 0x303 ≠ addr (addr loaderBaseAddr o) i := by
    rw [addr_addr]
    exact addr_ne loaderBaseAddr (by omega) (by omega) (by omega)
  rw [IsDetectData, h_buf, h_nr, h_total]
  rintro (⟨i, h_i, h_eq⟩ | ⟨i, h_i, h_eq⟩ | ⟨i, h_i, h_eq⟩)
  · exact h_other h_i (by decide) h_eq
  · exact h_other h_i (by decide) h_eq
  · exact h_other h_i (by decide) h_eq

/-- The detection on a map for which there is room. -/
theorem detectMemory_room {m : ByteMemory} (h_nr : m.load16 ardsNr = 0)
    {replies : List (Ards × BitVec 32)} (h_map : IsE820Map replies)
    (h_ends : ∀ r ∈ replies, r.1.finish < 2 ^ 32) (h_few : replies.length ≤ 12) :
    ∃ st, detectMemory m replies = .ok st ∧
      (st.mem.load32 totalMemoryBytes).toNat = lowEnd (replies.map Prod.fst) ∧
      ∀ a ∈ st.written, IsDetectData a := by
  have h_start := collected_start h_nr
  obtain ⟨st, h_ok, h⟩ := h_start.loop h_map (by rw [List.length_nil]; omega)
  rw [List.nil_append] at h
  have h_pos : 0 < replies.length := by
    cases replies with
    | nil => cases h_map
    | cons reply replies => exact Nat.succ_pos _
  have h_length : (replies.map Prod.fst).length = replies.length := List.length_map _
  -- the number of entries is as it was counted, and not zero
  have h_cx : (st.mem.load16 ardsNr).toNat = replies.length := by
    rw [h.nr, h_length, BitVec.toNat_ofNat, Nat.mod_eq_of_lt (by omega)]
  have h_ne : st.mem.load16 ardsNr ≠ 0 := by
    intro h_zero
    rw [h_zero] at h_cx
    exact absurd h_cx (Nat.ne_of_lt h_pos)
  -- the second loop goes over the entries as the BIOS gave them
  have h_edx : findMaxMemArea st.mem (replies.map Prod.fst).length ardsBuf 0 =
      (replies.map Prod.fst).foldl furthest 0 := by
    have h_buf : ardsBuf = addr loaderBaseAddr (entryOffset 0) := by decide
    rw [h_buf]
    refine findMaxMemArea_eq fun i e h_e => ?_
    rw [Nat.zero_add]
    exact h.stored i e h_e
  refine ⟨st.store32 totalMemoryBytes ((replies.map Prod.fst).foldl furthest 0), ?_, ?_, ?_⟩
  · rw [detectMemory, h_ok, ← h_edx, h_length, ← h_cx]
    change Except.ok (st.store32 totalMemoryBytes (findMaxMemArea st.mem
      (if st.mem.load16 ardsNr = 0 then 2 ^ 16 else (st.mem.load16 ardsNr).toNat) ardsBuf 0)) = _
    rw [if_neg h_ne]
  · have h_all : ∀ e ∈ replies.map Prod.fst, e.finish < 2 ^ 32 := by
      intro e h_e
      obtain ⟨r, h_r, rfl⟩ := List.mem_map.mp h_e
      exact h_ends r h_r
    change ((st.mem.store32 totalMemoryBytes _).load32 totalMemoryBytes).toNat = _
    rw [ByteMemory.load32_store32, foldl_furthest (by decide) h_all]
    exact Nat.zero_max _
  · intro a h_a
    rcases List.mem_append.mp h_a with h_a | h_a
    · exact h.written a h_a
    · have h_word : ∃ i < 4, a = addr totalMemoryBytes i := by
        simp only [List.mem_cons, List.not_mem_nil, or_false] at h_a
        rcases h_a with rfl | rfl | rfl | rfl
        · exact ⟨0, by decide, (addr_zero _).symm⟩
        · exact ⟨1, by decide, rfl⟩
        · exact ⟨2, by decide, rfl⟩
        · exact ⟨3, by decide, rfl⟩
      exact Or.inr (Or.inr h_word)

/-- The detection on a map for which there is no room writes over `loader_start`. -/
theorem detectMemory_overrun {m : ByteMemory} (h_nr : m.load16 ardsNr = 0)
    {replies : List (Ards × BitVec 32)} (h_map : IsE820Map replies) (h_many : 12 < replies.length)
    {st : DetectState} (h_ok : detectMemory m replies = .ok st) :
    ∃ a ∈ st.written, ¬ IsDetectData a := by
  have h_start := collected_start h_nr
  refine ⟨addr loaderBaseAddr 0x303, ?_, not_isDetectData⟩
  unfold detectMemory at h_ok
  cases h_loop : DetectState.e820MemGetLoop ⟨m, ardsBuf.setWidth 16, []⟩ replies with
  | error f =>
    rw [h_loop] at h_ok
    cases h_ok
  | ok st₁ =>
    rw [h_loop] at h_ok
    obtain rfl := Except.ok.inj h_ok
    -- what is done after the loop only adds to what was written
    exact List.mem_append_left _ (h_start.overrun h_map (Nat.zero_le _)
      (by rw [List.length_nil]; omega) h_loop)

/-- **Memory detection.** For every memory map: the loops store the end of usable memory, and write
nothing but their data, if and only if the map has at most twelve entries, usable memory ends below
`2 ^ 31`, and no other range ends between there and `2 ^ 31`. -/
theorem memory_detected_iff {m : ByteMemory} (h_nr : m.load16 ardsNr = 0)
    {replies : List (Ards × BitVec 32)} (h_map : IsE820Map replies)
    (h_ends : ∀ r ∈ replies, r.1.finish < 2 ^ 32) :
    (∃ st, detectMemory m replies = .ok st ∧
      (st.mem.load32 totalMemoryBytes).toNat = usableEnd (replies.map Prod.fst) ∧
      ∀ a ∈ st.written, IsDetectData a) ↔ Detectable (replies.map Prod.fst) := by
  have h_length : (replies.map Prod.fst).length = replies.length := List.length_map _
  rcases Nat.lt_or_ge 12 replies.length with h_many | h_few
  · constructor
    · rintro ⟨st, h_ok, -, h_written⟩
      -- too many entries: the loop has written over other data
      obtain ⟨a, h_a, h_other⟩ := detectMemory_overrun h_nr h_map h_many h_ok
      exact absurd (h_written a h_a) h_other
    · intro h
      have h_few := h.few
      omega
  · obtain ⟨st, h_ok, h_total, h_written⟩ := detectMemory_room h_nr h_map h_ends h_few
    constructor
    · rintro ⟨st', h_ok', h_usable, -⟩
      obtain rfl := Except.ok.inj (h_ok.symm.trans h_ok')
      -- the total is the furthest end that is taken for a small one
      obtain ⟨h_usable, h_others⟩ := (lowEnd_eq_usableEnd_iff _).mp (h_total.symm.trans h_usable)
      exact ⟨h_length.trans_le h_few, h_usable, h_others⟩
    · intro h
      exact ⟨st, h_ok, h_total.trans ((lowEnd_eq_usableEnd_iff _).mpr ⟨h.usable, h.others⟩),
        h_written⟩

/-- The map of a machine with 32 MiB: low memory, the BIOS, and RAM from 1 MiB on. -/
def map32 : List (Ards × BitVec 32) :=
  [(⟨0, 0x9f000, 1⟩, 1), (⟨0xe8000, 0x18000, 2⟩, 2), (⟨0x100000, 0x1f00000, 1⟩, 0)]

theorem memory_detected_32 : ∃ st, detectMemory (fun _ => 0) map32 = .ok st ∧
    (st.mem.load32 totalMemoryBytes).toNat = 0x2000000 := by
  have h_map : IsE820Map map32 := ⟨by decide, by decide, rfl⟩
  have h_detectable : Detectable (map32.map Prod.fst) := by
    refine ⟨by decide, ?_, ?_⟩
    · decide
    · decide
  obtain ⟨st, h_ok, h_total, -⟩ :=
    (memory_detected_iff (m := fun _ => 0) (by decide) h_map (by decide)).mpr h_detectable
  exact ⟨st, h_ok, h_total.trans (by decide)⟩

/-- On a machine with 3 GiB of RAM the end of low memory is stored. -/
theorem memory_not_detected :
    let replies : List (Ards × BitVec 32) :=
      [(⟨0, 0x9f000, 1⟩, 1), (⟨0x100000, 0xbff00000, 1⟩, 0)]
    IsE820Map replies ∧ usableEnd (replies.map Prod.fst) = 0xc0000000 ∧
    ∃ st, detectMemory (fun _ => 0) replies = .ok st ∧
      (st.mem.load32 totalMemoryBytes).toNat = 0x9f000 := by
  intro replies
  have h_map : IsE820Map replies := ⟨by decide, rfl⟩
  obtain ⟨st, h_ok, h_total, -⟩ := detectMemory_room (m := fun _ => 0) (by decide) h_map (by decide)
    (by decide)
  exact ⟨h_map, by decide, st, h_ok, h_total.trans (by decide)⟩

end ToiletOS
