import ToiletOS.Framework.ByteMemory

/-!
# An ATA drive that is read by the processor

A command goes to the drive through its registers: how many sectors, which one is the first, and the
command itself. The drive then hands the words of a sector out through its data register, one at
each access. Before every sector it may be busy for a while; it says so in its status register, and
its data register has nothing to give until then. Time is counted in accesses to the two registers.

Only the command that reads sectors by their number is modelled, for the first drive of the channel.
`Transfer` says where a command is after some words, and `Transfer.data` that the next word is the
right one exactly if the drive is not busy.
-/

namespace ToiletOS

/-- What is on the disk, for how many accesses the drive is busy before each sector of a command,
and what its data register gives when there is nothing to give. -/
structure AtaMedium where
  sector : ℕ → ℕ → BitVec 16
  delay : ℕ → ℕ
  idle : BitVec 16

/-- The registers of the drive, and where its command is. -/
structure AtaDrive where
  count : BitVec 8
  low : BitVec 8
  mid : BitVec 8
  high : BitVec 8
  device : BitVec 8
  busy : ℕ
  -- the sectors that have been handed out, those that have not, and the words of the next one
  done : ℕ
  left : ℕ
  word : ℕ
  deriving DecidableEq, Repr

namespace AtaDrive

variable (M : AtaMedium) (d : AtaDrive)

/-- The number of the first sector. -/
def lba : ℕ := (d.device.extractLsb' 0 4 ++ d.high ++ d.mid ++ d.low).toNat

/-- The drive is selected, and the sector is given by its number. -/
def Selected : Prop := d.device.getLsbD 6 = true ∧ d.device.getLsbD 4 = false

instance : Decidable d.Selected :=
  inferInstanceAs (Decidable (d.device.getLsbD 6 = true ∧ d.device.getLsbD 4 = false))

/-- A command. The count 0 stands for 256. -/
def command (c : BitVec 8) : AtaDrive :=
  if c = 0x20 ∧ d.Selected then
    { d with
      busy := M.delay 0, done := 0, word := 0
      left := if d.count = 0 then 256 else d.count.toNat }
  else { d with left := 0 }

/-- A write to a register. -/
def write (port : BitVec 16) (v : BitVec 8) : AtaDrive :=
  if port = 0x1f2 then { d with count := v }
  else if port = 0x1f3 then { d with low := v }
  else if port = 0x1f4 then { d with mid := v }
  else if port = 0x1f5 then { d with high := v }
  else if port = 0x1f6 then { d with device := v }
  else if port = 0x1f7 then d.command M v
  else d

/-- A read of the status register: busy, or ready with words or without. -/
def status : BitVec 8 × AtaDrive :=
  if d.busy ≠ 0 then (0x80, { d with busy := d.busy - 1 })
  else (if d.left = 0 then 0x50 else 0x58, d)

/-- A read of the data register. -/
def data : BitVec 16 × AtaDrive :=
  if d.busy ≠ 0 then (M.idle, { d with busy := d.busy - 1 })
  else if d.left = 0 then (M.idle, d)
  else (M.sector (d.lba + d.done) d.word,
    if d.word + 1 < 256 then { d with word := d.word + 1 }
    else { d with
      word := 0, done := d.done + 1, left := d.left - 1
      busy := if d.left = 1 then 0 else M.delay (d.done + 1) })

end AtaDrive

/-- Word `j` of the sectors from `lba` on. -/
def AtaMedium.wordAt (M : AtaMedium) (lba j : ℕ) : BitVec 16 := M.sector (lba + j / 256) (j % 256)

/-- Byte `i` of the sectors from `lba` on. -/
def AtaMedium.byteAt (M : AtaMedium) (lba i : ℕ) : BitVec 8 :=
  (M.wordAt lba (i / 2)).extractLsb' (8 * (i % 2)) 8

/-- The drive is not busy between the first `n` sectors of a command. -/
def AtaMedium.Steady (M : AtaMedium) (n : ℕ) : Prop := ∀ k, 0 < k → k < n → M.delay k = 0

/-- A read of a register of one byte. -/
def AtaDrive.readByte (d : AtaDrive) (port : BitVec 16) : BitVec 8 × AtaDrive :=
  if port = 0x1f2 then (d.count, d)
  else if port = 0x1f3 then (d.low, d)
  else if port = 0x1f4 then (d.mid, d)
  else if port = 0x1f5 then (d.high, d)
  else if port = 0x1f6 then (d.device, d)
  else if port = 0x1f7 then d.status
  else (0xff, d)

/-- A read of a word, which only the data register has. -/
def AtaDrive.readWord (M : AtaMedium) (d : AtaDrive) (port : BitVec 16) : BitVec 16 × AtaDrive :=
  if port = 0x1f0 then d.data M else (0xffff, d)

/-- `j` words of the `n` sectors from `lba` on have been handed out. How long the drive is still
busy before the first one is left open. -/
structure Transfer (M : AtaMedium) (lba n j : ℕ) (d : AtaDrive) : Prop where
  first : d.lba = lba
  done : d.done = j / 256
  left : d.left + j / 256 = n
  word : d.word = j % 256
  busy : 0 < j → d.busy = if j % 256 = 0 ∧ j / 256 < n then M.delay (j / 256) else 0

namespace Transfer

variable {M : AtaMedium} {lba n j : ℕ} {d : AtaDrive}

/-- A drive that is not busy hands out the next word. -/
theorem data (h : Transfer M lba n j d) (hj : j < 256 * n) (h_busy : d.busy = 0) :
    (d.data M).1 = M.wordAt lba j ∧ Transfer M lba n (j + 1) (d.data M).2 := by
  obtain ⟨h_first, h_done, h_left, h_word, -⟩ := h
  have h_some : d.left ≠ 0 := by omega
  rw [AtaDrive.data, if_neg (not_not_intro h_busy), if_neg h_some]
  refine ⟨by rw [AtaMedium.wordAt, h_first, h_done, h_word], ?_⟩
  dsimp only
  split
  · next h_lt =>
    refine ⟨h_first, ?_, ?_, ?_, ?_⟩
    · dsimp only
      omega
    · dsimp only
      omega
    · dsimp only
      omega
    · intro _
      rw [if_neg (by omega)]
      exact h_busy
  · next h_last =>
    have h_div : (j + 1) / 256 = j / 256 + 1 := by omega
    refine ⟨h_first, ?_, ?_, ?_, ?_⟩
    · rw [h_done, h_div]
    · dsimp only
      omega
    · dsimp only
      omega
    · -- the drive is busy again, unless that was the last sector
      intro _
      dsimp only
      by_cases h_one : d.left = 1
      · rw [if_pos h_one, if_neg (by omega)]
      · rw [if_neg h_one, if_pos (by omega), h_done, h_div]

/-- A drive that is busy gives nothing. -/
theorem data_busy (h_busy : d.busy ≠ 0) : (d.data M).1 = M.idle := by
  rw [AtaDrive.data, if_pos h_busy]

end Transfer

namespace AtaDrive

/-- Polling the status register until the drive has words to give. -/
theorem status_busy {d : AtaDrive} (h : d.busy ≠ 0) :
    d.status = (0x80, { d with busy := d.busy - 1 }) := if_pos h

theorem status_ready {d : AtaDrive} (h : d.busy = 0) (h_left : d.left ≠ 0) :
    d.status = (0x58, d) := by
  rw [status, if_neg (not_not_intro h), if_neg h_left]

end AtaDrive
end ToiletOS
