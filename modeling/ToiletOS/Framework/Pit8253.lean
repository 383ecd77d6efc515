import Mathlib.Data.Fin.Basic
import Mathlib.Logic.Function.Basic

/-!
# The programmable interval timer 8253

The chip has three counters and four registers: one data register for each counter, and the
control register. A byte written to the control register packs four fields (`PitControl`): the
counter it is for, how the bytes of the reload value will be written, the mode, and whether the
counter counts in decimal. What is then written to the data register of the counter is the low
byte of the reload value, its high byte, or the low byte and then the high byte.

Only writes are modelled. `Pit.write_program` says what the three writes that program a counter
in full come to, whatever state the chip was in.
-/

namespace ToiletOS

/-! ### The control byte -/

/-- The fields of a control byte. -/
structure PitControl where
  select : BitVec 2
  access : BitVec 2
  mode : BitVec 3
  bcd : BitVec 1
  deriving DecidableEq, Repr

namespace PitControl

/-- The control byte, from the highest bit down. -/
def encode (c : PitControl) : BitVec 8 := c.select ++ c.access ++ c.mode ++ c.bcd

/-- The fields, as the chip reads them. -/
def decode (data : BitVec 8) : PitControl where
  select := data.extractLsb' 6 2
  access := data.extractLsb' 4 2
  mode := data.extractLsb' 1 3
  bcd := data.extractLsb' 0 1

/-- The fields come back as they were packed. -/
theorem decode_encode (c : PitControl) : decode c.encode = c := by
  obtain ⟨select, access, mode, bcd⟩ := c
  simp only [decode, encode, BitVec.extractLsb'_append_eq_ite]
  simp

end PitControl

/-! ### Counters -/

/-- Which bytes of the reload value are written, and in what order. -/
inductive PitAccess
  | low | high | lowHigh
  deriving DecidableEq, Repr

/-- The access field. With the field `00` a control byte latches the count for reading and
programs nothing. -/
def PitAccess.ofBits : BitVec 2 → Option PitAccess
  | 1#2 => some .low
  | 2#2 => some .high
  | 3#2 => some .lowHigh
  | _ => none

/-- The mode field, whose upper bit is not looked at in the modes 2 and 3. -/
def pitMode (mode : BitVec 3) : Fin 6 :=
  if h : mode.toNat < 6 then ⟨mode.toNat, h⟩ else ⟨mode.toNat - 4, by omega⟩

/-- A counter, as far as it is written to. -/
structure PitCounter where
  access : PitAccess
  mode : Fin 6
  bcd : Bool
  reload : BitVec 16
  -- the low byte of a pair whose high byte is still to come
  pending : Option (BitVec 8)
  deriving DecidableEq, Repr

namespace PitCounter

/-- A control byte for this counter. -/
def program (c : PitCounter) (f : PitControl) : PitCounter :=
  match PitAccess.ofBits f.access with
  | none => c
  | some access =>
    { c with access := access, mode := pitMode f.mode, bcd := f.bcd = 1#1, pending := none }

/-- A byte for the data register of this counter. -/
def write (c : PitCounter) (data : BitVec 8) : PitCounter :=
  match c.access, c.pending with
  | .low, _ => { c with reload := 0#8 ++ data }
  | .high, _ => { c with reload := data ++ 0#8 }
  | .lowHigh, none => { c with pending := some data }
  | .lowHigh, some low => { c with reload := data ++ low, pending := none }

/-- The number of clocks from one reload to the next. The value 0 stands for one more than the
largest count. -/
def period (c : PitCounter) : ℕ :=
  if c.bcd then
    if c.reload = 0 then 10000
    else 1000 * (c.reload.extractLsb' 12 4).toNat + 100 * (c.reload.extractLsb' 8 4).toNat +
      10 * (c.reload.extractLsb' 4 4).toNat + (c.reload.extractLsb' 0 4).toNat
  else if c.reload = 0 then 65536 else c.reload.toNat

/-- Two bytes after a control byte that announces two are the reload value. -/
theorem write_pair (c : PitCounter) {f : PitControl} (h : f.access = 3#2) (low high : BitVec 8) :
    ((c.program f).write low).write high =
      ⟨.lowHigh, pitMode f.mode, f.bcd = 1#1, high ++ low, none⟩ := by
  simp [program, h, PitAccess.ofBits, write]

end PitCounter

/-! ### The chip -/

/-- The three counters. -/
structure Pit where
  counter : Fin 3 → PitCounter

namespace Pit

variable (p : Pit)

/-- Replace one counter. -/
def set (i : Fin 3) (c : PitCounter) : Pit := ⟨Function.update p.counter i c⟩

@[simp] theorem set_counter_self (i : Fin 3) (c : PitCounter) : (p.set i c).counter i = c :=
  Function.update_self ..

@[simp] theorem set_set (i : Fin 3) (c d : PitCounter) : (p.set i c).set i d = p.set i d :=
  congrArg mk (Function.update_idem ..)

/-- A write to the register with the given address: the data registers come first, then the
control register. No counter has the number 3. -/
def write (address : BitVec 2) (data : BitVec 8) : Pit :=
  if h : address.toNat < 3 then
    let i : Fin 3 := ⟨address.toNat, h⟩
    p.set i ((p.counter i).write data)
  else
    let f := PitControl.decode data
    if h : f.select.toNat < 3 then
      let i : Fin 3 := ⟨f.select.toNat, h⟩
      p.set i ((p.counter i).program f)
    else p

theorem write_data (i : Fin 3) (data : BitVec 8) :
    p.write (BitVec.ofNat 2 i) data = p.set i ((p.counter i).write data) := by
  have h_i : (BitVec.ofNat 2 i).toNat = i := by
    rw [BitVec.toNat_ofNat]
    exact Nat.mod_eq_of_lt (by omega)
  have h_lt : (BitVec.ofNat 2 i).toNat < 3 := h_i.trans_lt i.isLt
  rw [write, dif_pos h_lt]
  simp only [h_i]

theorem write_control (i : Fin 3) {f : PitControl} (h : f.select = BitVec.ofNat 2 i) :
    p.write 3#2 f.encode = p.set i ((p.counter i).program f) := by
  have h_i : f.select.toNat = i := by
    rw [h, BitVec.toNat_ofNat]
    exact Nat.mod_eq_of_lt (by omega)
  have h_lt : f.select.toNat < 3 := h_i.trans_lt i.isLt
  rw [write, dif_neg (by decide), PitControl.decode_encode]
  simp only [h_i, i.isLt, ↓reduceDIte]

/-- **Programming a counter in full**: a control byte that announces two bytes, and the two
bytes. Whatever the chip held before, the counter holds exactly this, and the others are as
they were. -/
theorem write_program (i : Fin 3) {f : PitControl} (h_select : f.select = BitVec.ofNat 2 i)
    (h_access : f.access = 3#2) (low high : BitVec 8) :
    ((p.write 3#2 f.encode).write (BitVec.ofNat 2 i) low).write (BitVec.ofNat 2 i) high =
      p.set i ⟨.lowHigh, pitMode f.mode, f.bcd = 1#1, high ++ low, none⟩ := by
  rw [p.write_control i h_select, write_data, write_data]
  simp only [set_counter_self, set_set, PitCounter.write_pair _ h_access]

end Pit
end ToiletOS
