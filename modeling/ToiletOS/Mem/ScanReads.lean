import ToiletOS.Mem.Bitmap
import ToiletOS.Framework.RunSearch

/-!
# What `bitmap_scan` reads and returns

`bitmap_scan` on any memory, with a record of the addresses that it reads. Bits are numbered from
the start of the bitmap on, also those behind its end, and the numbers wrap around as the
32-bit variables of the source do.

The scan comes to the first clear bit and from there on is a search for a run
(`ToiletOS/Framework/RunSearch.lean`) that may look at `bit_left` bits. So everything depends on
`bit_left`, which subtracts the number of a bit from a number of bytes:

* a run is found where the first one is (`scan_first_fit`);
* the scan stays inside the bitmap if and only if it finds a run there, or `bit_left` ends before
  the bitmap does (`scan_inside_iff`);
* the scan is right about whether there is a run if and only if the bits it may look at hold
  one exactly when the bitmap does (`scan_complete_iff`).
-/

namespace ToiletOS

/-! ### Memory with a record of what is read -/

/-- Memory in which every address is mapped, and the addresses that have been read. -/
structure ReadMemory where
  mem : ByteMemory
  reads : List (BitVec 32)

/-- Some more addresses are read. -/
def ReadMemory.read (s : ReadMemory) (l : List (BitVec 32)) : ReadMemory :=
  { s with reads := s.reads ++ l }

@[simp] theorem ReadMemory.read_mem (s : ReadMemory) (l : List (BitVec 32)) :
    (s.read l).mem = s.mem := rfl

@[simp] theorem ReadMemory.read_read (s : ReadMemory) (l l' : List (BitVec 32)) :
    (s.read l).read l' = s.read (l ++ l') := by
  simp only [read, List.append_assoc]

theorem ReadMemory.read_nil (s : ReadMemory) : s.read [] = s := by
  simp only [read, List.append_nil]

theorem ReadMemory.read_start (m : ByteMemory) (l : List (BitVec 32)) :
    (⟨m, []⟩ : ReadMemory).read l = ⟨m, l⟩ := rfl

/-- The effect of an access. -/
def Access.execRead : (o : Access) → ReadMemory → Except Halt (o.Res × ReadMemory)
  | load8 a, s => .ok (s.mem a, s.read [a])
  | store8 a v, s => .ok ((), { s with mem := s.mem.store8 a v })
  | load32 a, s => .ok (s.mem.load32 a, s.read [a, addr a 1, addr a 2, addr a 3])
  | store32 a v, s => .ok ((), { s with mem := s.mem.store32 a v })

/-- Kernel code with a record of the addresses it reads. -/
def readSem : Semantics kernelSig ReadMemory where
  exec := Access.execRead
  note _ s := s

theorem run_read_load8 {β : Type} (s : ReadMemory) (a : BitVec 32) (f : BitVec 8 → Kern β) :
    (Kern.load8 a >>= f).run readSem s = (f (s.mem a)).run readSem (s.read [a]) := rfl

/-! ### The bits -/

namespace Bitmap

variable (btmp : Bitmap) (m : ByteMemory)

/-- The address of the byte that bit `i` lies in, as `bitmap_scan_test` computes it. -/
def byteAddr (i : ℕ) : BitVec 32 := btmp.bits + phys i / 8#32

/-- The addresses for the tests of `n` bits from `e` on. -/
def bytes (e n : ℕ) : List (BitVec 32) := (List.range' e n).map btmp.byteAddr

theorem bytes_succ (e n : ℕ) :
    [btmp.byteAddr e] ++ btmp.bytes (e + 1) n = btmp.bytes e (n + 1) := rfl

/-- Bit `i` is clear. -/
def Clear (i : ℕ) : Prop := (m (btmp.byteAddr i)).getLsbD (i % 8) = false

instance : DecidablePred (btmp.Clear m) := fun _ => inferInstanceAs (Decidable (_ = _))

/-- The number of bits. -/
def size : ℕ := 8 * btmp.btmpBytesLen.toNat

/-- The address is that of a byte of the bitmap. -/
def Inside (a : BitVec 32) : Prop := ∃ k < btmp.btmpBytesLen.toNat, a = btmp.bits + phys k

/-- Bit `b` is the first clear one of the bitmap. -/
structure FirstClear (b : ℕ) : Prop where
  lt : b < btmp.size
  clear : btmp.Clear m b
  first : ∀ i < b, ¬ btmp.Clear m i

/-- There is a run of `cnt` clear bits within the bitmap. -/
def HasRun (cnt : ℕ) : Prop := ∃ i, i + cnt ≤ btmp.size ∧ RunAt (btmp.Clear m) cnt i

/-- The local `bit_left`, with the first clear bit `b`. -/
def bitLeft (b : ℕ) : ℕ := ((btmp.btmpBytesLen - phys b) * 8#32 - phys (b % 8)).toNat

variable {btmp m}

theorem toNat_byteIndex {i : ℕ} (hi : i < 2 ^ 32) : phys i / 8#32 = phys (i / 8) := by
  apply eq_phys
  rw [BitVec.toNat_udiv, toNat_phys hi]
  rfl

theorem byteAddr_eq {i : ℕ} (hi : i < 2 ^ 32) : btmp.byteAddr i = btmp.bits + phys (i / 8) := by
  rw [byteAddr, toNat_byteIndex hi]

theorem inside_byteAddr {i : ℕ} (h_size : btmp.size < 2 ^ 31) (hi : i < btmp.size) :
    btmp.Inside (btmp.byteAddr i) := by
  refine ⟨i / 8, ?_, byteAddr_eq (by omega)⟩
  rw [size] at hi
  omega

/-- The byte behind the bitmap. -/
theorem not_inside_byteAddr (h_size : btmp.size < 2 ^ 31) :
    ¬ btmp.Inside (btmp.byteAddr btmp.size) := by
  rintro ⟨k, hk, h_eq⟩
  rw [byteAddr_eq (by omega), size, Nat.mul_div_cancel_left _ (by decide)] at h_eq
  have h_index := congrArg BitVec.toNat (add_left_cancel h_eq)
  rw [size] at h_size
  rw [toNat_phys (by omega), toNat_phys (by omega)] at h_index
  omega

/-- A run starts with a clear bit, so it does not start before the first one. -/
theorem FirstClear.le_of_runAt {b cnt i : ℕ} (h : btmp.FirstClear m b) (h_cnt : 0 < cnt)
    (h_run : RunAt (btmp.Clear m) cnt i) : b ≤ i := by
  by_contra h_lt
  exact h.first i (by omega) (h_run 0 h_cnt)

end Bitmap

/-! ### The loops -/

section Loops

variable {btmp : Bitmap} {s : ReadMemory} {b : ℕ}

/-- `bitmap_scan_test` reads one byte. -/
theorem bitmapScanTest_read {β : Type} (i : ℕ) (f : Bool → Kern β) :
    (bitmapScanTest btmp (phys i) >>= f).run readSem s =
      (f (decide ¬ btmp.Clear s.mem i)).run readSem (s.read [btmp.byteAddr i]) := by
  have h_bit : (phys i % 8#32).toNat = i % 8 := by
    rw [BitVec.toNat_umod, phys, BitVec.toNat_ofNat]
    exact Nat.mod_mod_of_dvd i (by decide)
  have h_test : decide (bitmapMask (phys i % 8#32) &&& s.mem (btmp.byteAddr i) ≠ 0#8) =
      decide ¬ btmp.Clear s.mem i := by
    rw [decide_eq_decide, Ne, bitmapMask_and, h_bit]
    rfl
  unfold bitmapScanTest
  rw [Prog.bind_assoc, run_read_load8, ← h_test]
  rfl

/-- **The third loop** is a search for a run. -/
theorem scanRun_read (btmp : Bitmap) (s : ReadMemory) {cnt : BitVec 32} (left e : ℕ) {c : ℕ}
    (h_c : c < cnt.toNat) :
    (∀ x, search (btmp.Clear s.mem) cnt.toNat left e c = some x →
      (scanRun btmp cnt left (phys e) (phys c)).run readSem s =
        .ok (phys x - cnt + 1#32, s.read (btmp.bytes e (x + 1 - e)))) ∧
    (search (btmp.Clear s.mem) cnt.toNat left e c = none →
      (scanRun btmp cnt left (phys e) (phys c)).run readSem s =
        .ok (-1#32, s.read (btmp.bytes e left))) := by
  induction left generalizing e c s with
  | zero =>
    refine ⟨fun x h_x => ?_, fun _ => ?_⟩
    · cases h_x
    · exact congrArg (fun r => Except.ok (-1#32, r)) s.read_nil.symm
  | succ left ih =>
    -- the counter, as a number
    have h_count : (if decide (¬ btmp.Clear s.mem e) then 0#32 else phys c + 1#32) =
        phys (if btmp.Clear s.mem e then c + 1 else 0) := by
      by_cases h_clear : btmp.Clear s.mem e
      · rw [if_pos h_clear, decide_eq_false (not_not.mpr h_clear), if_neg (by decide)]
        exact phys_add c 1
      · rw [if_neg h_clear, decide_eq_true h_clear, if_pos rfl]
        rfl
    have h_le : (if btmp.Clear s.mem e then c + 1 else 0) ≤ cnt.toNat := by
      split <;> omega
    rw [scanRun, bitmapScanTest_read, search]
    dsimp only
    rw [h_count]
    generalize (if btmp.Clear s.mem e then c + 1 else 0) = c' at *
    -- the counter has reached `cnt` exactly when the number has
    have h_iff : phys c' = cnt ↔ c' = cnt.toNat := by
      have h_cnt := cnt.isLt
      constructor
      · intro h_eq
        rw [← h_eq, toNat_phys (by omega)]
      · intro h_eq
        exact (eq_phys h_eq.symm).symm
    by_cases h_eq : c' = cnt.toNat
    · rw [if_pos (h_iff.mpr h_eq), if_pos h_eq]
      refine ⟨fun x h_x => ?_, fun h_x => ?_⟩
      · obtain rfl := Option.some.inj h_x
        rw [Nat.add_sub_cancel_left]
        rfl
      · cases h_x
    · rw [if_neg (h_iff.not.mpr h_eq), if_neg h_eq]
      -- the byte of this bit has been read, and the search goes on
      obtain ⟨h_some, h_none⟩ := ih (s.read [btmp.byteAddr e]) (e + 1)
        (Nat.lt_of_le_of_ne h_le h_eq)
      have h_next : phys e + 1#32 = phys (e + 1) := phys_add e 1
      rw [h_next]
      refine ⟨fun x h_x => ?_, fun h_x => ?_⟩
      · have h_ge := le_of_search h_x
        rw [h_some x h_x, ReadMemory.read_read, btmp.bytes_succ,
          show x + 1 - (e + 1) + 1 = x + 1 - e by omega]
      · rw [h_none h_x, ReadMemory.read_read, btmp.bytes_succ]

/-- The bytes before that of the first clear bit are full. -/
theorem Bitmap.FirstClear.full (h : btmp.FirstClear s.mem b) (h_size : btmp.size < 2 ^ 31) {k : ℕ}
    (hk : k < b / 8) : s.mem (btmp.bits + phys k) = 0xff#8 := by
  have h_lt := h.lt
  by_contra h_byte
  obtain ⟨j, hj, h_bit⟩ := exists_clear h_byte
  apply h.first (k * 8 + j) (by omega)
  rw [Bitmap.Clear, Bitmap.byteAddr_eq (by omega), show (k * 8 + j) / 8 = k by omega,
    show (k * 8 + j) % 8 = j by omega]
  exact h_bit

/-- The bits of the byte of the first clear bit. -/
theorem Bitmap.FirstClear.bit_iff (h : btmp.FirstClear s.mem b) (h_size : btmp.size < 2 ^ 31)
    {j : ℕ} (hj : j ≤ b % 8) :
    (s.mem (btmp.bits + phys (b / 8))).getLsbD j = false ↔ j = b % 8 := by
  have h_lt := h.lt
  -- in the byte of the first clear bit, the bits before it are set
  have h_bit : btmp.Clear s.mem (b / 8 * 8 + j) ↔
      (s.mem (btmp.bits + phys (b / 8))).getLsbD j = false := by
    rw [Bitmap.Clear, Bitmap.byteAddr_eq (by omega), show (b / 8 * 8 + j) / 8 = b / 8 by omega,
      show (b / 8 * 8 + j) % 8 = j by omega]
  rw [← h_bit]
  constructor
  · intro h_clear
    by_contra h_ne
    exact h.first _ (by omega) h_clear
  · rintro rfl
    rw [Nat.div_add_mod']
    exact h.clear

/-- The first loop. -/
theorem scanBytes_read (h : btmp.FirstClear s.mem b) (h_size : btmp.size < 2 ^ 31) {k left : ℕ}
    (hk : k ≤ b / 8) (h_left : k + left = btmp.btmpBytesLen.toNat) :
    ∃ l, (scanBytes btmp left (phys k)).run readSem s = .ok (phys (b / 8), s.read l) ∧
      ∀ a ∈ l, btmp.Inside a := by
  have h_lt : b < 8 * btmp.btmpBytesLen.toNat := h.lt
  induction left generalizing k s with
  | zero => omega
  | succ left ih =>
    have h_inside : btmp.Inside (btmp.bits + phys k) := ⟨k, by omega, rfl⟩
    rw [scanBytes, run_read_load8]
    rcases Nat.lt_or_eq_of_le hk with h_before | rfl
    · -- the byte is full, and the loop goes on
      obtain ⟨l, h_run, h_l⟩ := ih (s := s.read [btmp.bits + phys k]) h h_before (by omega)
      have h_next : phys k + 1#32 = phys (k + 1) := phys_add k 1
      rw [if_pos (h.full h_size h_before).symm, h_next, h_run, ReadMemory.read_read]
      refine ⟨_, rfl, fun a h_a => ?_⟩
      rcases List.mem_cons.mp h_a with rfl | h_a
      · exact h_inside
      · exact h_l a h_a
    · -- the byte has the clear bit
      have h_byte : s.mem (btmp.bits + phys (b / 8)) ≠ 0xff#8 := by
        intro h_eq
        have h_bit := (h.bit_iff h_size le_rfl).mpr rfl
        rw [h_eq, show (0xff#8) = BitVec.allOnes 8 from rfl, BitVec.getLsbD_allOnes,
          decide_eq_true (Nat.mod_lt b (by decide))] at h_bit
        cases h_bit
      rw [if_neg h_byte.symm]
      refine ⟨_, rfl, fun a h_a => ?_⟩
      rw [List.mem_singleton.mp h_a]
      exact h_inside

/-- The second loop. -/
theorem scanBits_read (h : btmp.FirstClear s.mem b) (h_size : btmp.size < 2 ^ 31) {j left : ℕ}
    (hj : j ≤ b % 8) (h_left : j + left = 8) :
    ∃ l, (scanBits btmp (phys (b / 8)) left (phys j)).run readSem s = .ok (phys (b % 8), s.read l) ∧
      ∀ a ∈ l, btmp.Inside a := by
  have h_lt : b < 8 * btmp.btmpBytesLen.toNat := h.lt
  have h_inside : btmp.Inside (btmp.bits + phys (b / 8)) := ⟨b / 8, by omega, rfl⟩
  induction left generalizing j s with
  | zero => omega
  | succ left ih =>
    have h_bit := h.bit_iff h_size hj
    have h_j : (phys j).toNat = j := toNat_phys (by omega)
    rw [scanBits, run_read_load8]
    rcases Nat.lt_or_eq_of_le hj with h_before | rfl
    · -- the bit is set, and the loop goes on
      have h_test : bitmapMask (phys j) &&& s.mem (btmp.bits + phys (b / 8)) ≠ 0#8 := by
        rw [Ne, bitmapMask_and, h_j, h_bit]
        exact h_before.ne
      obtain ⟨l, h_run, h_l⟩ := ih (s := s.read [btmp.bits + phys (b / 8)]) h h_before (by omega)
      have h_next : phys j + 1#32 = phys (j + 1) := phys_add j 1
      rw [if_pos h_test, h_next, h_run, ReadMemory.read_read]
      refine ⟨_, rfl, fun a h_a => ?_⟩
      rcases List.mem_cons.mp h_a with rfl | h_a
      · exact h_inside
      · exact h_l a h_a
    · -- this is the clear bit
      have h_test : bitmapMask (phys (b % 8)) &&& s.mem (btmp.bits + phys (b / 8)) = 0#8 := by
        rw [bitmapMask_and, h_j, h_bit]
      rw [if_neg (not_not.mpr h_test)]
      refine ⟨_, rfl, fun a h_a => ?_⟩
      rw [List.mem_singleton.mp h_a]
      exact h_inside

/-- **Up to the first clear bit** the scan reads bytes of the bitmap only. -/
theorem bitmapScan_read (h : btmp.FirstClear s.mem b) (h_size : btmp.size < 2 ^ 31)
    (cnt : BitVec 32) :
    ∃ l, (∀ a ∈ l, btmp.Inside a) ∧ (bitmapScan btmp cnt).run readSem s =
      (if cnt = 1#32 then return phys b
        else scanRun btmp cnt (btmp.bitLeft b) (phys (b + 1)) (phys 1)).run readSem (s.read l) := by
  have h_lt : b < 8 * btmp.btmpBytesLen.toNat := h.lt
  have h_size' : 8 * btmp.btmpBytesLen.toNat < 2 ^ 31 := h_size
  obtain ⟨l, h_bytes, h_l⟩ := scanBytes_read h h_size (Nat.zero_le _) (Nat.zero_add _)
  obtain ⟨l', h_bits, h_l'⟩ :=
    scanBits_read (s := s.read l) h h_size (Nat.zero_le _) (Nat.zero_add 8)
  rw [show phys 0 = 0#32 from rfl] at h_bytes h_bits
  -- the first loop has stopped inside the bitmap
  have h_byte : phys (b / 8) < btmp.btmpBytesLen := by
    rw [BitVec.lt_def, toNat_phys (by omega)]
    omega
  -- the two loops together give the index of the bit
  have h_index : phys (b / 8) * 8#32 + phys (b % 8) = phys b := by
    rw [show phys (b / 8) * 8#32 = phys (b / 8 * 8) from (BitVec.ofNat_mul ..).symm, phys_add,
      Nat.div_add_mod']
  refine ⟨l ++ l', fun a h_a => ?_, ?_⟩
  · rcases List.mem_append.mp h_a with h_a | h_a
    · exact h_l a h_a
    · exact h_l' a h_a
  · rw [bitmapScan, Prog.run_bind_of_ok readSem h_bytes, Kern.assert, if_pos h_byte,
      ← ReadMemory.read_read]
    change (if phys (b / 8) = btmp.btmpBytesLen then _ else _ : Kern _).run readSem (s.read l) = _
    rw [if_neg (BitVec.ne_of_lt h_byte)]
    change ((scanBits btmp (phys (b / 8)) 8 0#32) >>= _).run readSem (s.read l) = _
    rw [Prog.run_bind_of_ok readSem h_bits, h_index]
    have h_next : phys b + 1#32 = phys (b + 1) := phys_add b 1
    rw [← h_next]
    rfl

/-- Bitmaps without a clear bit. -/
theorem scanBytes_read_full (h_full : ∀ i < btmp.size, ¬ btmp.Clear s.mem i)
    (h_size : btmp.size < 2 ^ 31) {k left : ℕ} (h_left : k + left = btmp.btmpBytesLen.toNat) :
    ∃ l, (scanBytes btmp left (phys k)).run readSem s = .ok (btmp.btmpBytesLen, s.read l) := by
  have h_size' : 8 * btmp.btmpBytesLen.toNat < 2 ^ 31 := h_size
  induction left generalizing k s with
  | zero =>
    -- the byte behind the bitmap is read, and then the loop ends
    refine ⟨[btmp.bits + phys k], ?_⟩
    rw [scanBytes, run_read_load8, ← phys_toNat btmp.btmpBytesLen, ← h_left]
    rfl
  | succ left ih =>
    -- every byte of the bitmap is full
    have h_byte : 0xff#8 = s.mem (btmp.bits + phys k) := by
      by_contra h_byte
      obtain ⟨j, hj, h_bit⟩ := exists_clear (Ne.symm h_byte)
      apply h_full (k * 8 + j) (by rw [Bitmap.size]; omega)
      rw [Bitmap.Clear, Bitmap.byteAddr_eq (by omega), show (k * 8 + j) / 8 = k by omega,
        show (k * 8 + j) % 8 = j by omega]
      exact h_bit
    obtain ⟨l, h_run⟩ := ih (s := s.read [btmp.bits + phys k]) (k := k + 1) h_full (by omega)
    have h_next : phys k + 1#32 = phys (k + 1) := phys_add k 1
    rw [scanBytes, run_read_load8, if_pos h_byte, h_next, h_run, ReadMemory.read_read]
    exact ⟨_, rfl⟩

theorem bitmapScan_read_full (h_full : ∀ i < btmp.size, ¬ btmp.Clear s.mem i)
    (h_size : btmp.size < 2 ^ 31) (cnt : BitVec 32) :
    (bitmapScan btmp cnt).run readSem s = .error .assertion := by
  obtain ⟨l, h_bytes⟩ := scanBytes_read_full h_full h_size (Nat.zero_add _)
  rw [show phys 0 = 0#32 from rfl] at h_bytes
  rw [bitmapScan, Prog.run_bind_of_ok readSem h_bytes, Kern.assert, if_neg (BitVec.lt_irrefl _)]
  rfl

end Loops

/-! ### The result -/

section Result

variable {btmp : Bitmap} {m : ByteMemory} {b : ℕ} {cnt : BitVec 32}

/-- The bits that `bit_left` allows to look at hold a run. -/
def Bitmap.WindowHasRun (btmp : Bitmap) (m : ByteMemory) (b cnt : ℕ) : Prop :=
  ∃ i, b ≤ i ∧ i + cnt ≤ b + btmp.bitLeft b + 1 ∧ RunAt (btmp.Clear m) cnt i

/-- The scan finds the first run, or there is none that it may look at. -/
inductive ScanEnds (btmp : Bitmap) (m : ByteMemory) (b : ℕ) (cnt r : BitVec 32)
    (reads : List (BitVec 32)) : Prop
  | single (h_cnt : cnt = 1#32) (h_r : r = phys b) (h_reads : ∀ a ∈ reads, btmp.Inside a)
  | found (i : ℕ) (h_cnt : cnt ≠ 1#32) (h_r : r = phys i)
      (h_first : FirstRun (btmp.Clear m) cnt.toNat b i)
      (h_window : i + cnt.toNat ≤ b + btmp.bitLeft b + 1)
      (h_reads : ∀ a, a ∈ reads → btmp.Inside a ∨ ∃ x, x < i + cnt.toNat ∧ a = btmp.byteAddr x)
      (h_tests : ∀ x, b < x → x < i + cnt.toNat → btmp.byteAddr x ∈ reads)
  | none (h_cnt : cnt ≠ 1#32) (h_r : r = -1#32) (h_none : ¬ btmp.WindowHasRun m b cnt.toNat)
      (h_reads : ∀ a, a ∈ reads → btmp.Inside a ∨ ∃ x, x ≤ b + btmp.bitLeft b ∧ a = btmp.byteAddr x)
      (h_tests : ∀ x, b < x → x ≤ b + btmp.bitLeft b → btmp.byteAddr x ∈ reads)

theorem Bitmap.mem_bytes {e n : ℕ} {a : BitVec 32} :
    a ∈ btmp.bytes e n ↔ ∃ x, e ≤ x ∧ x < e + n ∧ a = btmp.byteAddr x := by
  rw [Bitmap.bytes, List.mem_map]
  constructor
  · rintro ⟨x, h_x, rfl⟩
    obtain ⟨h_ge, h_lt⟩ := List.mem_range'_1.mp h_x
    exact ⟨x, h_ge, h_lt, rfl⟩
  · rintro ⟨x, h_ge, h_lt, rfl⟩
    exact ⟨x, List.mem_range'_1.mpr ⟨h_ge, h_lt⟩, rfl⟩

/-- **What a scan does**, from the first clear bit on. -/
theorem bitmapScan_ends (h : btmp.FirstClear m b) (h_size : btmp.size < 2 ^ 31)
    (h_cnt : 0 < cnt.toNat) :
    ∃ r reads, (bitmapScan btmp cnt).run readSem ⟨m, []⟩ = .ok (r, ⟨m, reads⟩) ∧
      ScanEnds btmp m b cnt r reads := by
  obtain ⟨l, h_l, h_run⟩ := bitmapScan_read (s := ⟨m, []⟩) h h_size cnt
  by_cases h_one : cnt = 1#32
  · rw [if_pos h_one, ReadMemory.read_start] at h_run
    exact ⟨_, _, h_run, .single h_one rfl h_l⟩
  · rw [if_neg h_one] at h_run
    have h_two : 1 < cnt.toNat := by
      rcases Nat.lt_or_eq_of_le h_cnt with h_lt | h_eq
      · exact h_lt
      · exact absurd (BitVec.eq_of_toNat_eq h_eq.symm) h_one
    obtain ⟨h_some, h_none⟩ := scanRun_read btmp (ReadMemory.read ⟨m, []⟩ l) (btmp.bitLeft b)
      (b + 1) h_two
    -- the first clear bit is counted before the loop starts
    have h_start : Counts (btmp.Clear m) b (b + 1) 1 := .start h.clear
    rcases search_spec h_start h_two (fun i _ h_end => by omega) (btmp.bitLeft b) with
      ⟨x, i, h_x, h_ge, h_end, h_first, h_last⟩ | ⟨h_x, h_all⟩
    · -- the loop is behind the run when it stops
      have h_r : phys x - cnt + 1#32 = phys i := by
        have h_sum : phys x + 1#32 = phys i + cnt := by
          rw [show phys x + 1#32 = phys (x + 1) from phys_add x 1, h_last, ← phys_add, phys_toNat]
        rw [sub_add_eq_add_sub, h_sum, add_sub_cancel_right]
      rw [h_some x h_x, h_r, ReadMemory.read_read, ReadMemory.read_start] at h_run
      refine ⟨_, _, h_run, .found i h_one rfl h_first (by omega) (fun a h_a => ?_)
        fun y h_b h_y => ?_⟩
      · rcases List.mem_append.mp h_a with h_a | h_a
        · exact .inl (h_l a h_a)
        · obtain ⟨y, -, h_y, h_eq⟩ := Bitmap.mem_bytes.mp h_a
          exact .inr ⟨y, by omega, h_eq⟩
      · apply List.mem_append_right
        exact Bitmap.mem_bytes.mpr ⟨y, h_b, by omega, rfl⟩
    · rw [h_none h_x, ReadMemory.read_read, ReadMemory.read_start] at h_run
      refine ⟨_, _, h_run, .none h_one rfl ?_ (fun a h_a => ?_) fun y h_b h_y => ?_⟩
      · rintro ⟨i, h_ge, h_end, h_i⟩
        exact h_all i h_ge (by omega) h_i
      · rcases List.mem_append.mp h_a with h_a | h_a
        · exact .inl (h_l a h_a)
        · obtain ⟨y, -, h_y, h_eq⟩ := Bitmap.mem_bytes.mp h_a
          exact .inr ⟨y, by omega, h_eq⟩
      · apply List.mem_append_right
        exact Bitmap.mem_bytes.mpr ⟨y, h_b, by omega, rfl⟩

/-! ### Inside the bitmap -/

/-- The scan reads no byte outside, and the run it returns does not reach outside. -/
def StaysInside (btmp : Bitmap) (cnt r : BitVec 32) (reads : List (BitVec 32)) : Prop :=
  (∀ a ∈ reads, btmp.Inside a) ∧ (0 ≤ r.toInt → r.toInt + cnt.toNat ≤ btmp.size)

theorem toInt_phys {i : ℕ} (hi : i < 2 ^ 31) : (phys i).toInt = i := by
  have h_i : (phys i).toNat = i := toNat_phys (by omega)
  rw [BitVec.toInt_eq_toNat_of_lt (by omega), h_i]

/-- A scan that tests the bit behind the bitmap reads the byte behind it. -/
theorem not_staysInside {r : BitVec 32} {reads : List (BitVec 32)} (h_size : btmp.size < 2 ^ 31)
    (h_read : btmp.byteAddr btmp.size ∈ reads) : ¬ StaysInside btmp cnt r reads := by
  rintro ⟨h_inside, -⟩
  exact Bitmap.not_inside_byteAddr h_size (h_inside _ h_read)

theorem ScanEnds.staysInside_iff {r : BitVec 32} {reads : List (BitVec 32)}
    (h : ScanEnds btmp m b cnt r reads) (h_first : btmp.FirstClear m b)
    (h_size : btmp.size < 2 ^ 31) (h_cnt : 0 < cnt.toNat) :
    StaysInside btmp cnt r reads ↔
      cnt = 1#32 ∨ btmp.HasRun m cnt.toNat ∨ b + btmp.bitLeft b < btmp.size := by
  have h_b := h_first.lt
  cases h with
  | single h_one h_r h_reads =>
    refine ⟨fun _ => .inl h_one, fun _ => ⟨h_reads, fun _ => ?_⟩⟩
    rw [h_r, toInt_phys (by omega), h_one, BitVec.toNat_ofNat]
    omega
  | found i h_one h_r h_run h_window h_reads h_tests =>
    constructor
    · intro h_inside
      -- the run that was found goes over the end, so its last test was outside
      by_contra h_not
      push Not at h_not
      obtain ⟨-, h_none, h_behind⟩ := h_not
      have h_over : btmp.size < i + cnt.toNat := by
        by_contra h_le
        exact h_none ⟨i, by omega, h_run.run⟩
      exact not_staysInside h_size (h_tests _ h_b h_over) h_inside
    · intro h_when
      -- the first run is inside, if there is one
      have h_end : i + cnt.toNat ≤ btmp.size := by
        rcases h_when with h_eq | ⟨j, h_j, h_run'⟩ | h_before
        · exact absurd h_eq h_one
        · obtain ⟨j', h_le, h_first'⟩ :=
            h_run'.exists_first (h_first.le_of_runAt h_cnt h_run')
          rw [h_run.unique h_first']
          omega
        · omega
      refine ⟨fun a h_a => ?_, fun _ => ?_⟩
      · rcases h_reads a h_a with h_a | ⟨x, h_x, rfl⟩
        · exact h_a
        · exact Bitmap.inside_byteAddr h_size (by omega)
      · rw [h_r, toInt_phys (by omega)]
        omega
  | none h_one h_r h_none h_reads h_tests =>
    constructor
    · intro h_inside
      -- nothing was found in a window that goes over the end
      by_contra h_not
      push Not at h_not
      exact not_staysInside h_size (h_tests _ h_b h_not.2.2) h_inside
    · intro h_when
      -- the window ends before the first run does
      have h_end : b + btmp.bitLeft b < btmp.size := by
        rcases h_when with h_eq | ⟨j, h_j, h_run⟩ | h_before
        · exact absurd h_eq h_one
        · by_contra h_ge
          exact h_none ⟨j, h_first.le_of_runAt h_cnt h_run, by omega, h_run⟩
        · exact h_before
      refine ⟨fun a h_a => ?_, fun h_nonneg => ?_⟩
      · rcases h_reads a h_a with h_a | ⟨x, h_x, rfl⟩
        · exact h_a
        · exact Bitmap.inside_byteAddr h_size (by omega)
      · rw [h_r] at h_nonneg
        exact absurd h_nonneg (by decide)

/-- **When a scan stays inside the bitmap.** It is given a clear bit, and returns. If it looks
for more than one bit, the bitmap has to hold the run, or the bits that `bit_left` allows to look
at have to end before the bitmap does. -/
theorem scan_inside_iff (h : btmp.FirstClear m b) (h_size : btmp.size < 2 ^ 31)
    (h_cnt : 0 < cnt.toNat) :
    ∃ r reads, (bitmapScan btmp cnt).run readSem ⟨m, []⟩ = .ok (r, ⟨m, reads⟩) ∧
      (StaysInside btmp cnt r reads ↔
        cnt = 1#32 ∨ btmp.HasRun m cnt.toNat ∨ b + btmp.bitLeft b < btmp.size) := by
  obtain ⟨r, reads, h_run, h_ends⟩ := bitmapScan_ends h h_size h_cnt
  exact ⟨r, reads, h_run, h_ends.staysInside_iff h h_size h_cnt⟩

/-- One byte of a bitmap, and memory that is clear otherwise. -/
def oneByte (byte : BitVec 8) : ByteMemory := fun a => if a = 0xc009a000#32 then byte else 0#8

/-- A clear bitmap. -/
theorem scan_inside_clear :
    ∃ r reads, (bitmapScan ⟨1#32, 0xc009a000#32⟩ 2#32).run readSem ⟨oneByte 0#8, []⟩ =
        .ok (r, ⟨oneByte 0#8, reads⟩) ∧
      (StaysInside ⟨1#32, 0xc009a000#32⟩ 2#32 r reads ↔
        2#32 = 1#32 ∨ Bitmap.HasRun ⟨1#32, 0xc009a000#32⟩ (oneByte 0#8) 2 ∨
          0 + Bitmap.bitLeft ⟨1#32, 0xc009a000#32⟩ 0 < Bitmap.size ⟨1#32, 0xc009a000#32⟩) :=
  scan_inside_iff ⟨by decide, by decide, fun _ hi => absurd hi (Nat.not_lt_zero _)⟩ (by decide)
    (by decide)

/-- **An overrun.** Only the last bit of the bitmap is clear. The scan reads on behind the
bitmap and returns a run of two bits of which the second one lies outside. -/
theorem scan_overruns :
    ∃ r reads, (bitmapScan ⟨1#32, 0xc009a000#32⟩ 2#32).run readSem ⟨oneByte 0x7f#8, []⟩ =
        .ok (r, ⟨oneByte 0x7f#8, reads⟩) ∧
      0xc009a001#32 ∈ reads ∧ r = 7#32 ∧ ¬ StaysInside ⟨1#32, 0xc009a000#32⟩ 2#32 r reads := by
  refine ⟨7#32, List.replicate 9 0xc009a000#32 ++ [0xc009a001#32], rfl, by decide, rfl, ?_⟩
  rintro ⟨-, h_end⟩
  exact absurd (h_end (by decide)) (by decide)

/-! ### Completeness -/

theorem Bitmap.clear_add (i : ℕ) : btmp.Clear m (i + 2 ^ 32) ↔ btmp.Clear m i := by
  have h_phys : phys (i + 2 ^ 32) = phys i := by
    apply BitVec.eq_of_toNat_eq
    rw [phys, phys, BitVec.toNat_ofNat, BitVec.toNat_ofNat, Nat.add_mod_right]
  rw [Bitmap.Clear, Bitmap.Clear, Bitmap.byteAddr, Bitmap.byteAddr, h_phys,
    show (i + 2 ^ 32) % 8 = i % 8 by omega]

/-- If the first bit is clear then all bits of the bitmap are left. -/
theorem Bitmap.bitLeft_zero (h_size : btmp.size < 2 ^ 31) : btmp.bitLeft 0 = btmp.size := by
  rw [Bitmap.size] at h_size
  rw [Bitmap.bitLeft, Bitmap.size, show phys (0 % 8) = 0#32 from rfl, BitVec.sub_zero,
    BitVec.sub_zero, BitVec.toNat_mul, BitVec.toNat_ofNat]
  omega

/-- **The number of the bit does not wrap around** before a run is found. -/
theorem Bitmap.FirstClear.run_end_le (h : btmp.FirstClear m b) (h_size : btmp.size < 2 ^ 31)
    {cnt i : ℕ} (h_cnt : 0 < cnt) (h_ge : b ≤ i) (h_end : i + cnt ≤ b + btmp.bitLeft b + 1)
    (h_run : RunAt (btmp.Clear m) cnt i) : i + cnt ≤ 2 ^ 32 := by
  have h_left : btmp.bitLeft b < 2 ^ 32 := BitVec.isLt _
  by_contra h_over
  by_cases h_i : i ≤ 2 ^ 32
  · -- the run holds the first bit once more, so that this is the first clear one
    have h_zero : btmp.Clear m 0 := by
      rw [← Bitmap.clear_add, Nat.zero_add]
      exact h_run.at h_i (by omega)
    have h_b : b = 0 := by
      by_contra h_ne
      exact h.first 0 (by omega) h_zero
    subst h_b
    rw [Bitmap.bitLeft_zero h_size] at h_end
    omega
  · have h_start : btmp.Clear m (i - 2 ^ 32) := by
      rw [← Bitmap.clear_add, Nat.sub_add_cancel (by omega)]
      exact h_run 0 h_cnt
    exact h.first _ (by omega) h_start

theorem Bitmap.exists_firstClear (h : ∃ i < btmp.size, btmp.Clear m i) :
    ∃ b, btmp.FirstClear m b := by
  refine ⟨Nat.find h, (Nat.find_spec h).1, (Nat.find_spec h).2, fun i hi h_clear => ?_⟩
  exact Nat.find_min h hi ⟨hi.trans (Nat.find_spec h).1, h_clear⟩

/-- The scan returns, and it returns `-1` exactly when the bitmap holds no run. -/
def ScanComplete (btmp : Bitmap) (m : ByteMemory) (cnt : BitVec 32) : Prop :=
  ∃ r reads, (bitmapScan btmp cnt).run readSem ⟨m, []⟩ = .ok (r, ⟨m, reads⟩) ∧
    (r = -1#32 ↔ ¬ btmp.HasRun m cnt.toNat)

theorem ScanEnds.complete_iff {r : BitVec 32} {reads : List (BitVec 32)}
    (h : ScanEnds btmp m b cnt r reads) (h_first : btmp.FirstClear m b)
    (h_size : btmp.size < 2 ^ 31) (h_cnt : 0 < cnt.toNat) :
    (r = -1#32 ↔ ¬ btmp.HasRun m cnt.toNat) ↔
      cnt = 1#32 ∨ (btmp.WindowHasRun m b cnt.toNat ↔ btmp.HasRun m cnt.toNat) := by
  have h_b := h_first.lt
  -- no index of a bit is `-1`
  have h_ne {i : ℕ} (hi : i < 2 ^ 32 - 1) : phys i ≠ -1#32 := by
    intro h_eq
    have h_nat := congrArg BitVec.toNat h_eq
    rw [toNat_phys (by omega), show (-1#32 : BitVec 32).toNat = 2 ^ 32 - 1 from rfl] at h_nat
    omega
  cases h with
  | single h_one h_r h_reads =>
    -- one clear bit is a run of one
    have h_has : btmp.HasRun m cnt.toNat := by
      rw [h_one]
      refine ⟨b, h_b, fun k hk => ?_⟩
      obtain rfl : k = 0 := Nat.lt_one_iff.mp hk
      exact h_first.clear
    rw [h_r]
    exact ⟨fun _ => .inl h_one, fun _ => ⟨fun h_eq => absurd h_eq (h_ne (by omega)),
      fun h_no => absurd h_has h_no⟩⟩
  | found i h_one h_r h_run h_window h_reads h_tests =>
    -- a run in the window is a run of the bitmap
    have h_end := h_first.run_end_le h_size h_cnt h_run.ge h_window h_run.run
    have h_has : btmp.WindowHasRun m b cnt.toNat := ⟨i, h_run.ge, h_window, h_run.run⟩
    have h_two : 1 < cnt.toNat := by
      by_contra h_le
      exact h_one (BitVec.eq_of_toNat_eq (by rw [BitVec.toNat_ofNat]; omega))
    have h_r' : r ≠ -1#32 := h_r ▸ h_ne (by omega)
    simp only [h_r', h_has, h_one, false_or, true_iff, false_iff, not_not]
  | none h_one h_r h_none h_reads h_tests =>
    simp only [h_r, h_none, h_one, false_or, true_iff, false_iff]

/-- **When a scan is right about whether there is a run.** There has to be a clear bit, or the
assertion fails. If the scan looks for more than one bit, those that `bit_left` allows to look at
have to hold a run exactly when the bitmap does. -/
theorem scan_complete_iff (h_size : btmp.size < 2 ^ 31) (h_cnt : 0 < cnt.toNat) :
    ScanComplete btmp m cnt ↔ ∃ b, btmp.FirstClear m b ∧
      (cnt = 1#32 ∨ (btmp.WindowHasRun m b cnt.toNat ↔ btmp.HasRun m cnt.toNat)) := by
  constructor
  · rintro ⟨r, reads, h_run, h_right⟩
    by_cases h_clear : ∃ i < btmp.size, btmp.Clear m i
    · obtain ⟨b, h_first⟩ := Bitmap.exists_firstClear h_clear
      obtain ⟨r', reads', h_run', h_ends⟩ := bitmapScan_ends h_first h_size h_cnt
      obtain ⟨rfl, -⟩ := Prod.mk.inj (Except.ok.inj (h_run.symm.trans h_run'))
      exact ⟨b, h_first, (h_ends.complete_iff h_first h_size h_cnt).mp h_right⟩
    · push Not at h_clear
      -- with no clear bit the assertion stops the scan
      rw [bitmapScan_read_full (s := ⟨m, []⟩) h_clear h_size cnt] at h_run
      cases h_run
  · rintro ⟨b, h_first, h_when⟩
    obtain ⟨r, reads, h_run, h_ends⟩ := bitmapScan_ends h_first h_size h_cnt
    exact ⟨r, reads, h_run, (h_ends.complete_iff h_first h_size h_cnt).mpr h_when⟩

/-- Two bytes with the bits 0, 2 and 4 set: two single clear bits, and then a run. -/
theorem scan_complete_fragmented :
    ScanComplete ⟨2#32, 0xc009a000#32⟩ (oneByte 0x15#8) 3#32 := by
  have h_run : RunAt (Bitmap.Clear ⟨2#32, 0xc009a000#32⟩ (oneByte 0x15#8)) 3 5 := by
    unfold RunAt
    decide
  refine (scan_complete_iff (by decide) (by decide)).mpr ⟨1, ⟨by decide, by decide, by decide⟩, ?_⟩
  exact .inr (iff_of_true ⟨5, by decide, by decide, h_run⟩ ⟨5, by decide, h_run⟩)

/-- A bitmap of 16 bytes with its bit 8 clear, and the last byte. -/
def lateRun : ByteMemory := fun a =>
  if a = 0xc009a001#32 then 0xfe#8 else if a = 0xc009a00f#32 then 0#8 else 0xff#8

/-- **A full bitmap and a run that is missed.** The first scan fails in the assertion. The second
one gives up after bit 72 and misses the eight clear bits from 120 on. -/
theorem scan_incomplete :
    ¬ ScanComplete ⟨1#32, 0xc009a000#32⟩ (oneByte 0xff#8) 1#32 ∧
      ¬ ScanComplete ⟨16#32, 0xc009a000#32⟩ lateRun 2#32 := by
  constructor
  · rintro ⟨r, reads, h_run, -⟩
    cases h_run
  · rintro ⟨r, reads, h_run, h_right⟩
    have h_missed : (bitmapScan ⟨16#32, 0xc009a000#32⟩ 2#32).run readSem ⟨lateRun, []⟩ =
        .ok (-1#32, ⟨lateRun, List.replicate 1 0xc009a000#32 ++ List.replicate 2 0xc009a001#32 ++
          Bitmap.bytes ⟨16#32, 0xc009a000#32⟩ 9 64⟩) := rfl
    obtain ⟨rfl, -⟩ := Prod.mk.inj (Except.ok.inj (h_run.symm.trans h_missed))
    refine h_right.mp rfl ⟨120, by decide, fun k hk => ?_⟩
    change k < 2 at hk
    interval_cases k <;> decide

/-! ### The first fit -/

/-- **A run that is found is the first one.** -/
theorem scan_first_fit (h_clear : ∃ i < btmp.size, btmp.Clear m i) (h_size : btmp.size < 2 ^ 31)
    (h_cnt : 0 < cnt.toNat) {r : BitVec 32} {s : ReadMemory}
    (h_run : (bitmapScan btmp cnt).run readSem ⟨m, []⟩ = .ok (r, s)) (h_r : 0 ≤ r.toInt) :
    r.toNat + cnt.toNat ≤ 2 ^ 32 ∧ RunAt (btmp.Clear m) cnt.toNat r.toNat ∧
      ∀ j < r.toNat, ¬ RunAt (btmp.Clear m) cnt.toNat j := by
  obtain ⟨b, h_first⟩ := Bitmap.exists_firstClear h_clear
  obtain ⟨r', reads, h_run', h_ends⟩ := bitmapScan_ends h_first h_size h_cnt
  obtain ⟨rfl, -⟩ := Prod.mk.inj (Except.ok.inj (h_run.symm.trans h_run'))
  have h_b := h_first.lt
  cases h_ends with
  | single h_one h_eq h_reads =>
    rw [h_eq, h_one, toNat_phys (by omega), show (1#32).toNat = 1 from rfl]
    refine ⟨by omega, fun k hk => ?_, fun j hj h_j => h_first.first j hj (h_j 0 Nat.one_pos)⟩
    obtain rfl : k = 0 := Nat.lt_one_iff.mp hk
    exact h_first.clear
  | found i h_one h_eq h_found h_window h_reads h_tests =>
    have h_end := h_first.run_end_le h_size h_cnt h_found.ge h_window h_found.run
    rw [h_eq, toNat_phys (by omega)]
    refine ⟨h_end, h_found.run, fun j hj h_j => ?_⟩
    -- a run before it would start at the first clear bit or behind it
    exact h_found.first j (h_first.le_of_runAt h_cnt h_j) hj h_j
  | none h_one h_eq h_none h_reads h_tests =>
    rw [h_eq] at h_r
    exact absurd h_r (by decide)

/-- The same bytes: the run of three is the one from bit 5 on. -/
theorem scan_first_fit_fragmented :
    5 + 3 ≤ 2 ^ 32 ∧ RunAt (Bitmap.Clear ⟨2#32, 0xc009a000#32⟩ (oneByte 0x15#8)) 3 5 ∧
      ∀ j < 5, ¬ RunAt (Bitmap.Clear ⟨2#32, 0xc009a000#32⟩ (oneByte 0x15#8)) 3 j :=
  scan_first_fit ⟨1, by decide, by decide⟩ (by decide) (show 0 < (3#32).toNat by decide)
    (show (bitmapScan ⟨2#32, 0xc009a000#32⟩ 3#32).run readSem ⟨oneByte 0x15#8, []⟩ = .ok (5#32, _)
      from rfl) (by decide)

end Result
end ToiletOS
