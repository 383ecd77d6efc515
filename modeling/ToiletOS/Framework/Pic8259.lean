import Mathlib.Data.BitVec
import Mathlib.Data.Fin.Basic
import Mathlib.Logic.Function.Basic

/-!
# The interrupt controller 8259A

A controller has eight input lines. A line that rises is latched as a request; the request of
the lowest line that is not masked asks the processor for an interrupt, unless this line or a
lower one is **in service**. The processor acknowledges the interrupt (`Pic.ack`), which puts the
line into service and gives the vector, and the service ends when the end of the interrupt is
written to the control register. A request whose line has fallen before it is acknowledged
is lost, and the processor gets the vector of line 7 instead (a **spurious** interrupt).

The initialisation is a sequence of up to four words, of which the first says which of the
others follow. The modes of the 8086 are modelled, with fixed priorities: commands that
rotate the priorities, select what is read or set the special mask are taken as doing
nothing.

`PicPair` is the pair of a PC, with the output of the second controller at line 2 of the first.
-/

namespace ToiletOS

/-- The word that the data register waits for. -/
inductive PicStage
  | icw2 | icw3 | icw4
  -- the mask
  | ready
  deriving DecidableEq, Repr

/-- A controller. -/
structure Pic where
  stage : PicStage
  -- the first word of the initialisation: `LTIM`, `SNGL` and `IC4`
  level : Bool
  single : Bool
  hasIcw4 : Bool
  -- the vector of line 0
  base : BitVec 8
  -- the lines at which other controllers are, or the number of this one
  cascade : BitVec 8
  icw4 : BitVec 8
  mask : BitVec 8
  lines : Fin 8 → Bool
  requests : Fin 8 → Bool
  inService : Fin 8 → Bool

namespace Pic

variable (c : Pic)

/-- The lowest of some lines. -/
def lowest (lines : Fin 8 → Bool) : Option (Fin 8) := (List.finRange 8).find? lines

/-- `AEOI`: service ends as soon as it begins. -/
def autoEoi : Bool := c.icw4.getLsbD 1

/-- The lines that ask for service. -/
def asking (i : Fin 8) : Bool :=
  (if c.level then c.lines i else c.requests i) && !c.mask.getLsbD i

/-- The line that an interrupt would be for. -/
def winner : Option (Fin 8) :=
  match lowest c.asking with
  | none => none
  | some i => if ∀ j ≤ i, c.inService j = false then some i else none

/-- The output to the processor. -/
def output : Bool := c.winner.isSome

/-- A line rises or falls. -/
def setLine (i : Fin 8) (high : Bool) : Pic :=
  { c with
    lines := Function.update c.lines i high
    requests := Function.update c.requests i (high && (!c.lines i || c.requests i)) }

/-- The processor acknowledges an interrupt. -/
def ack : Fin 8 × Pic :=
  match c.winner with
  | none => (7, c)
  | some i =>
    (i, { c with
      requests := Function.update c.requests i false
      inService := Function.update c.inService i (!c.autoEoi) })

/-- The vector of a line. -/
def vector (i : Fin 8) : BitVec 8 := c.base ||| BitVec.ofNat 8 i

/-- The first word of the initialisation. What is latched, in service and masked is
forgotten, and so is the fourth word of an earlier one. -/
def icw1 (data : BitVec 8) : Pic :=
  { c with
    stage := .icw2
    level := data.getLsbD 3
    single := data.getLsbD 1
    hasIcw4 := data.getLsbD 0
    icw4 := 0
    mask := 0
    requests := fun _ => false
    inService := fun _ => false }

/-- The end of an interrupt: of the one that is served, or of that of a given line. -/
def endOfInterrupt (data : BitVec 8) : Pic :=
  if data.extractLsb' 5 3 = 1#3 then
    match lowest c.inService with
    | none => c
    | some i => { c with inService := Function.update c.inService i false }
  else if data.extractLsb' 5 3 = 3#3 then
    { c with inService := Function.update c.inService (data.extractLsb' 0 3).toFin false }
  else c

/-- A write to the control register. -/
def writeControl (data : BitVec 8) : Pic :=
  if data.getLsbD 4 then c.icw1 data
  else if data.getLsbD 3 then c
  else c.endOfInterrupt data

/-- A write to the data register. -/
def writeData (data : BitVec 8) : Pic :=
  let last := if c.hasIcw4 then .icw4 else .ready
  match c.stage with
  | .icw2 => { c with
      stage := if c.single then last else .icw3
      base := data &&& 0xf8 }
  | .icw3 => { c with stage := last, cascade := data }
  | .icw4 => { c with stage := .ready, icw4 := data }
  | .ready => { c with mask := data }

/-- If nothing is in service and one line alone is not masked, it gets service when it asks. -/
theorem winner_of_single {i : Fin 8} (h_free : ∀ j, c.inService j = false)
    (h_masked : ∀ j, j ≠ i → c.mask.getLsbD j = true) :
    c.winner = if c.asking i then some i else none := by
  have h_other (j : Fin 8) (h : j ≠ i) : c.asking j = false := by
    rw [asking, h_masked j h, Bool.not_true, Bool.and_false]
  have h_lowest : lowest c.asking = if c.asking i then some i else none := by
    by_cases h : c.asking i = true
    · rw [if_pos h]
      obtain ⟨k, h_k⟩ : ∃ k, lowest c.asking = some k := by
        rw [← Option.isSome_iff_exists]
        exact List.find?_isSome.mpr ⟨i, List.mem_finRange i, h⟩
      -- what is found asks, and `i` alone does
      have h_asks : c.asking k = true := List.find?_some h_k
      have h_eq : k = i := by
        by_contra h_ne
        rw [h_other k h_ne] at h_asks
        cases h_asks
      rw [h_k, h_eq]
    · rw [if_neg h]
      apply List.find?_eq_none.mpr
      intro j _ h_j
      by_cases h_eq : j = i
      · exact h (h_eq ▸ h_j)
      · rw [h_other j h_eq] at h_j
        cases h_j
  unfold winner
  rw [h_lowest]
  by_cases h : c.asking i = true
  · simp [h, h_free]
  · simp [h]

/-- The end of the only interrupt in service. -/
theorem endOfInterrupt_of_single {i : Fin 8} (data : BitVec 8)
    (h_command : data.extractLsb' 5 3 = 1#3) (h : ∀ j, c.inService j = true → j = i) (j : Fin 8) :
    (c.endOfInterrupt data).inService j = false := by
  rw [endOfInterrupt, if_pos h_command]
  cases h_lowest : lowest c.inService with
  | none => simpa using List.find?_eq_none.mp h_lowest j (List.mem_finRange j)
  | some k =>
    obtain rfl : k = i := h k (List.find?_some h_lowest)
    by_cases h_j : j = k
    · rw [h_j]
      exact Function.update_self ..
    · have h_free : c.inService j = false := by
        by_contra h_served
        exact h_j (h j (by simpa using h_served))
      simp only [Function.update_of_ne h_j]
      exact h_free

end Pic

/-! ### Two controllers -/

/-- The two controllers of a PC. -/
structure PicPair where
  master : Pic
  slave : Pic

namespace PicPair

variable (p : PicPair)

/-- The output of the second controller is wired to line 2 of the first. -/
def relay : PicPair := { p with master := p.master.setLine 2 p.slave.output }

/-- The output to the processor. -/
def output : Bool := p.master.output

/-- Whether a line is high. -/
def isHigh (irq : Fin 16) : Bool :=
  if h : (irq : ℕ) < 8 then p.master.lines ⟨irq, h⟩ else p.slave.lines ⟨irq - 8, by omega⟩

/-- A line of a device rises or falls. -/
def setIrq (irq : Fin 16) (high : Bool) : PicPair :=
  if h : (irq : ℕ) < 8 then relay { p with master := p.master.setLine ⟨irq, h⟩ high }
  else relay { p with slave := p.slave.setLine ⟨irq - 8, by omega⟩ high }

/-- The processor acknowledges an interrupt and gets a vector: from the first controller, or
from the second one if the line is that of the second one and it has this number. -/
def ack : BitVec 8 × PicPair :=
  let (i, master) := p.master.ack
  if p.master.cascade.getLsbD i then
    if p.slave.cascade = BitVec.ofNat 8 i then
      let (j, slave) := p.slave.ack
      (slave.vector j, relay ⟨master, slave⟩)
    else (0xff, relay ⟨master, p.slave⟩)
  else (master.vector i, relay ⟨master, p.slave⟩)

/-- A write to a port, of the first controller or of the second. -/
def out (port : BitVec 16) (data : BitVec 8) : PicPair :=
  match port with
  | 0x20#16 => relay { p with master := p.master.writeControl data }
  | 0x21#16 => relay { p with master := p.master.writeData data }
  | 0xa0#16 => relay { p with slave := p.slave.writeControl data }
  | 0xa1#16 => relay { p with slave := p.slave.writeData data }
  | _ => p

/-- Writes one after another. -/
def outs (writes : List (BitVec 16 × BitVec 8)) : PicPair :=
  writes.foldl (fun p w => p.out w.1 w.2) p

end PicPair
end ToiletOS
