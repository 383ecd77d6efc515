import ToiletOS.Framework.AtaDrive
import ToiletOS.Mbr.ImageLoading

/-!
# Reading sectors

`rd_disk_m_16` of `mbr/mbr.S` and `rd_disk_m_32` of `mbr/loader.S` are the same code for the two
modes of the processor, before paging: it gives the drive a command, polls its status, and then
reads all the words. `mbr.S` reads the loader with it, and the loader the image of the kernel.

The drive is polled once, and not again before each sector as it asks for. `rd_disk_iff` says what
this comes to: whatever is on the disk, the sectors are in memory afterwards if and only if the
drive is not busy between them.
-/

namespace ToiletOS

/-- The processor and the first drive. -/
structure DiskCpu where
  cpu : Cpu
  drive : AtaDrive

namespace DiskCpu

variable (M : AtaMedium) (s : DiskCpu)

/-- A general register. -/
def gpr (r : Gpr) : BitVec 32 := s.cpu.gpr r

/-- The lower half of a register: `ax`, `cx`, `dx`, `di`. -/
def low16 (r : Gpr) : BitVec 16 := (s.gpr r).setWidth 16

/-- Its lowest byte: `al`, `cl`. -/
def low8 (r : Gpr) : BitVec 8 := (s.gpr r).setWidth 8

/-- `mov` to a register. -/
def set (r : Gpr) (v : BitVec 32) : DiskCpu := { s with cpu := s.cpu.setGpr r v }

/-- `mov` to the lower half of a register. -/
def setLow (r : Gpr) (v : BitVec 16) : DiskCpu := { s with cpu := s.cpu.setLow r v }

/-- `mov` to the lowest byte of a register. -/
def setByte (r : Gpr) (v : BitVec 8) : DiskCpu :=
  s.set r ((s.gpr r &&& 0xffffff00#32) ||| v.setWidth 32)

/-- `shr eax, cl`. -/
def shrEax : DiskCpu := s.set .eax (s.gpr .eax >>> ((s.low8 .ecx).toNat % 32))

/-- `out dx, al`. -/
def outAl : DiskCpu := { s with drive := s.drive.write M (s.low16 .edx) (s.low8 .eax) }

/-- `in al, dx`. -/
def inAl : DiskCpu :=
  let (v, drive) := s.drive.readByte (s.low16 .edx)
  { s with drive := drive }.setByte .eax v

/-- `in ax, dx`. -/
def inAx : DiskCpu :=
  let (v, drive) := s.drive.readWord M (s.low16 .edx)
  { s with drive := drive }.setLow .eax v

/-- `mul dx`. -/
def mulDx : DiskCpu :=
  let product := (s.low16 .eax).setWidth 32 * (s.low16 .edx).setWidth 32
  (s.setLow .eax (product.setWidth 16)).setLow .edx (product.extractLsb' 16 16)

end DiskCpu

/-- Whether addresses and the counter of `loop` have 16 bits or 32. -/
inductive CodeSize
  | bits16 | bits32
  deriving DecidableEq, Repr

namespace CodeSize

/-- The number of addresses. -/
def span : CodeSize → ℕ
  | bits16 => 2 ^ 16
  | bits32 => 2 ^ 32

/-- `bx` or `ebx`. -/
def pointer (size : CodeSize) (s : DiskCpu) : BitVec 32 :=
  match size with
  | bits16 => (s.low16 .ebx).setWidth 32
  | bits32 => s.gpr .ebx

/-- `cx` or `ecx`. -/
def counter (size : CodeSize) (s : DiskCpu) : BitVec 32 :=
  match size with
  | bits16 => (s.low16 .ecx).setWidth 32
  | bits32 => s.gpr .ecx

/-- `mov [bx], ax` or `mov [ds:ebx], ax`, in a segment that starts at 0. -/
def storeAx (size : CodeSize) (s : DiskCpu) : DiskCpu :=
  { s with cpu := { s.cpu with mem := s.cpu.mem.store16 (size.pointer s) (s.low16 .eax) } }

/-- `add bx, 2` or `add ebx, 2`. -/
def addPointer (size : CodeSize) (s : DiskCpu) : DiskCpu :=
  match size with
  | bits16 => s.setLow .ebx (s.low16 .ebx + 2)
  | bits32 => s.set .ebx (s.gpr .ebx + 2)

/-- The counter is counted down by `loop`. -/
def countDown (size : CodeSize) (s : DiskCpu) : DiskCpu :=
  match size with
  | bits16 => s.setLow .ecx (s.low16 .ecx - 1)
  | bits32 => s.set .ecx (s.gpr .ecx - 1)

/-- The rounds of a `loop`, which counts down before it tests. -/
def rounds (size : CodeSize) (s : DiskCpu) : ℕ :=
  if size.counter s = 0 then size.span else (size.counter s).toNat

end CodeSize

namespace Loader

variable (M : AtaMedium)

/-- From the start of `rd_disk_m_16` or `rd_disk_m_32` to the command. -/
def sendCommand (s : DiskCpu) : DiskCpu :=
  let s := s.set .esi (s.gpr .eax)
  let s := s.setLow .edi (s.low16 .ecx)
  let s := s.setLow .edx 0x1f2
  let s := s.setByte .eax (s.low8 .ecx)
  let s := s.outAl M
  let s := s.set .eax (s.gpr .esi)
  let s := s.setLow .edx 0x1f3
  let s := s.outAl M
  let s := s.setByte .ecx 8
  let s := s.shrEax
  let s := s.setLow .edx 0x1f4
  let s := s.outAl M
  let s := s.shrEax
  let s := s.setLow .edx 0x1f5
  let s := s.outAl M
  let s := s.shrEax
  let s := s.setByte .eax (s.low8 .eax &&& 0x0f)
  let s := s.setByte .eax (s.low8 .eax ||| 0xe0)
  let s := s.setLow .edx 0x1f6
  let s := s.outAl M
  let s := s.setLow .edx 0x1f7
  let s := s.setByte .eax 0x20
  s.outAl M

/-- `.not_ready`, for at most so many polls. -/
def notReady : ℕ → DiskCpu → Option DiskCpu
  | 0, _ => none
  | polls + 1, s =>
    let s := s.inAl
    let s := s.setByte .eax (s.low8 .eax &&& 0x88)
    if s.low8 .eax = 0x08 then some s else notReady polls s

/-- From there to `.go_on_read`. -/
def countWords (s : DiskCpu) : DiskCpu :=
  let s := s.setLow .eax (s.low16 .edi)
  let s := s.setLow .edx 256
  let s := s.mulDx
  let s := s.setLow .ecx (s.low16 .eax)
  s.setLow .edx 0x1f0

/-- A round of `.go_on_read`. -/
def readRound (size : CodeSize) (s : DiskCpu) : DiskCpu :=
  let s := s.inAx M
  let s := size.storeAx s
  let s := size.addPointer s
  size.countDown s

/-- `.go_on_read`, for so many rounds. -/
def goOnRead (size : CodeSize) : ℕ → DiskCpu → DiskCpu
  | 0, s => s
  | rounds + 1, s => goOnRead size rounds (readRound M size s)

/-- `rd_disk_m_16` and `rd_disk_m_32`, up to `ret`. -/
def rdDisk (size : CodeSize) (polls : ℕ) (s : DiskCpu) : Option DiskCpu := do
  let s ← notReady polls (sendCommand M s)
  let s := countWords s
  return goOnRead M size (size.rounds s) s

/-- `rd_disk_m_16`. -/
def rdDiskM16 (polls : ℕ) (s : DiskCpu) : Option DiskCpu := rdDisk M .bits16 polls s

/-- `rd_disk_m_32`. -/
def rdDiskM32 (polls : ℕ) (s : DiskCpu) : Option DiskCpu := rdDisk M .bits32 polls s

end Loader

/-! ### Registers -/

theorem low16_join (x : BitVec 32) (v : BitVec 16) :
    ((x &&& 0xffff0000#32) ||| v.setWidth 32).setWidth 16 = v := by
  apply BitVec.eq_of_getLsbD_eq
  intro i hi
  have h_mask : (0xffff0000#32).getLsbD i = false := by interval_cases i <;> rfl
  simp [hi]

theorem low8_join (x : BitVec 32) (v : BitVec 8) :
    ((x &&& 0xffffff00#32) ||| v.setWidth 32).setWidth 8 = v := by
  apply BitVec.eq_of_getLsbD_eq
  intro i hi
  have h_mask : (0xffffff00#32).getLsbD i = false := by interval_cases i <;> rfl
  simp [hi]

namespace DiskCpu

variable (M : AtaMedium) (s : DiskCpu) {r q : Gpr} (v : BitVec 32) (w : BitVec 16) (b : BitVec 8)

@[simp] theorem gpr_set_self : (s.set r v).gpr r = v := Function.update_self ..

@[simp] theorem gpr_set_of_ne (h : q ≠ r) : (s.set r v).gpr q = s.gpr q :=
  Function.update_of_ne h ..

@[simp] theorem gpr_setLow_of_ne (h : q ≠ r) : (s.setLow r w).gpr q = s.gpr q :=
  Function.update_of_ne h ..

@[simp] theorem gpr_setByte_of_ne (h : q ≠ r) : (s.setByte r b).gpr q = s.gpr q :=
  Function.update_of_ne h ..

theorem gpr_setLow_self :
    (s.setLow r w).gpr r = (s.gpr r &&& 0xffff0000#32) ||| w.setWidth 32 := Function.update_self ..

theorem gpr_setByte_self :
    (s.setByte r b).gpr r = (s.gpr r &&& 0xffffff00#32) ||| b.setWidth 32 := Function.update_self ..

@[simp] theorem low16_setLow_self : (s.setLow r w).low16 r = w := by
  rw [low16, gpr_setLow_self, low16_join]

@[simp] theorem low8_setByte_self : (s.setByte r b).low8 r = b := by
  rw [low8, gpr_setByte_self, low8_join]

theorem low16_congr {s s' : DiskCpu} (h : s'.gpr r = s.gpr r) : s'.low16 r = s.low16 r := by
  rw [low16, low16, h]

theorem low8_congr {s s' : DiskCpu} (h : s'.gpr r = s.gpr r) : s'.low8 r = s.low8 r := by
  rw [low8, low8, h]

@[simp] theorem low16_set_of_ne (h : q ≠ r) : (s.set r v).low16 q = s.low16 q :=
  low16_congr (gpr_set_of_ne _ _ h)

@[simp] theorem low16_setLow_of_ne (h : q ≠ r) : (s.setLow r w).low16 q = s.low16 q :=
  low16_congr (gpr_setLow_of_ne _ _ h)

@[simp] theorem low16_setByte_of_ne (h : q ≠ r) : (s.setByte r b).low16 q = s.low16 q :=
  low16_congr (gpr_setByte_of_ne _ _ h)

@[simp] theorem low8_set_self : (s.set r v).low8 r = v.setWidth 8 := by rw [low8, gpr_set_self]

@[simp] theorem low8_set_of_ne (h : q ≠ r) : (s.set r v).low8 q = s.low8 q :=
  low8_congr (gpr_set_of_ne _ _ h)

@[simp] theorem low8_setLow_of_ne (h : q ≠ r) : (s.setLow r w).low8 q = s.low8 q :=
  low8_congr (gpr_setLow_of_ne _ _ h)

@[simp] theorem low8_setByte_of_ne (h : q ≠ r) : (s.setByte r b).low8 q = s.low8 q :=
  low8_congr (gpr_setByte_of_ne _ _ h)

@[simp] theorem drive_set : (s.set r v).drive = s.drive := rfl

@[simp] theorem drive_setLow : (s.setLow r w).drive = s.drive := rfl

@[simp] theorem drive_setByte : (s.setByte r b).drive = s.drive := rfl

@[simp] theorem gpr_outAl : (s.outAl M).gpr q = s.gpr q := rfl

@[simp] theorem low16_outAl : (s.outAl M).low16 q = s.low16 q := rfl

@[simp] theorem low8_outAl : (s.outAl M).low8 q = s.low8 q := rfl

@[simp] theorem drive_outAl :
    (s.outAl M).drive = s.drive.write M (s.low16 .edx) (s.low8 .eax) := rfl

end DiskCpu

/-! ### The command -/

section Command

variable (M : AtaMedium) (s : DiskCpu)

/-- The four registers that hold the number of the first sector. -/
theorem lba_bytes (a : BitVec 32) :
    (((a >>> 8 >>> 8 >>> 8).setWidth 8 &&& 0x0f#8 ||| 0xe0#8).extractLsb' 0 4 ++
      (a >>> 8 >>> 8).setWidth 8 ++ (a >>> 8).setWidth 8 ++ a.setWidth 8 : BitVec 28) =
      a.setWidth 28 := by
  apply BitVec.eq_of_getLsbD_eq
  intro i hi
  have h_low (k : ℕ) (hk : k < 4) : (0x0f#8).getLsbD k = true := by interval_cases k <;> rfl
  have h_flag (k : ℕ) (hk : k < 4) : (0xe0#8).getLsbD k = false := by interval_cases k <;> rfl
  simp only [BitVec.getLsbD_append, BitVec.getLsbD_extractLsb', BitVec.getLsbD_or,
    BitVec.getLsbD_and, BitVec.getLsbD_setWidth, BitVec.getLsbD_ushiftRight]
  by_cases h8 : i < 8
  · simp [h8, hi]
  · by_cases h16 : i - 8 < 8
    · simp [h8, h16, hi]
      congr 1
      omega
    · by_cases h24 : i - 8 - 8 < 8
      · simp [h8, h16, h24, hi]
        congr 1
        omega
      · have h4 : i - 8 - 8 - 8 < 4 := by omega
        simp [h8, h16, h24, hi, h_low _ h4, h_flag _ h4, h4]
        have h_byte : i - 8 - 8 - 8 < 8 := by omega
        rw [show 8 + (8 + (8 + (i - 8 - 8 - 8))) = i by omega, decide_eq_true h_byte, Bool.true_and]

/-- What the drive gets. -/
theorem drive_sendCommand : (Loader.sendCommand M s).drive = AtaDrive.command M
    { s.drive with
      count := s.low8 .ecx
      low := (s.gpr .eax).setWidth 8
      mid := (s.gpr .eax >>> 8).setWidth 8
      high := (s.gpr .eax >>> 8 >>> 8).setWidth 8
      device := (s.gpr .eax >>> 8 >>> 8 >>> 8).setWidth 8 &&& 0x0f#8 ||| 0xe0#8 } 0x20 := by
  simp [Loader.sendCommand, AtaDrive.write, DiskCpu.shrEax]

/-- The drive is about to hand out the sectors from the one whose number is in `eax`. -/
theorem sendCommand_transfer {lba n : ℕ} (h_lba : lba < 2 ^ 28) (h_pos : 0 < n) (h_n : n < 256)
    (h_eax : s.gpr .eax = BitVec.ofNat 32 lba) (h_cl : s.low8 .ecx = BitVec.ofNat 8 n) :
    Transfer M lba n 0 (Loader.sendCommand M s).drive := by
  have h_count : (s.low8 .ecx).toNat = n := by
    rw [h_cl, BitVec.toNat_ofNat, Nat.mod_eq_of_lt h_n]
  have h_some : s.low8 .ecx ≠ 0 := by
    intro h_zero
    rw [h_zero] at h_count
    exact h_pos.ne h_count
  rw [drive_sendCommand, AtaDrive.command, if_pos ⟨rfl, by simp [AtaDrive.Selected]⟩]
  refine ⟨?_, rfl, ?_, rfl, ?_⟩
  · rw [AtaDrive.lba, lba_bytes, h_eax, BitVec.toNat_setWidth, BitVec.toNat_ofNat]
    omega
  · dsimp only
    rw [if_neg h_some, h_count]
    omega
  · intro h
    exact absurd h (lt_irrefl 0)

theorem mem_sendCommand : (Loader.sendCommand M s).cpu.mem = s.cpu.mem := rfl

theorem esp_sendCommand : (Loader.sendCommand M s).cpu.esp = s.cpu.esp := rfl

theorem ebx_sendCommand : (Loader.sendCommand M s).gpr .ebx = s.gpr .ebx := rfl

theorem ecx_sendCommand :
    (Loader.sendCommand M s).gpr .ecx = (s.gpr .ecx &&& 0xffffff00#32) ||| 8#32 := rfl

theorem di_sendCommand : (Loader.sendCommand M s).low16 .edi = s.low16 .ecx := by
  have h_edi : (Loader.sendCommand M s).gpr .edi =
      (s.gpr .edi &&& 0xffff0000#32) ||| (s.low16 .ecx).setWidth 32 := rfl
  rw [DiskCpu.low16, h_edi, low16_join]

theorem dx_sendCommand : (Loader.sendCommand M s).low16 .edx = 0x1f7 := by
  -- the last instructions select the port of the command, and send it
  obtain ⟨t, h_last⟩ : ∃ t : DiskCpu, Loader.sendCommand M s =
      ((t.setLow .edx 0x1f7).setByte .eax 0x20).outAl M := ⟨_, rfl⟩
  rw [h_last]
  simp

end Command

/-! ### Polling -/

/-- The drive has been polled until it was not busy. -/
structure Polled (s s' : DiskCpu) : Prop where
  drive : s'.drive = { s.drive with busy := 0 }
  gpr : ∀ r, r ≠ .eax → s'.gpr r = s.gpr r
  mem : s'.cpu.mem = s.cpu.mem
  esp : s'.cpu.esp = s.cpu.esp

section Polling

variable {s s' : DiskCpu}

theorem inAl_status (h_dx : s.low16 .edx = 0x1f7) :
    s.inAl = { s with drive := s.drive.status.2 }.setByte .eax s.drive.status.1 := by
  rw [DiskCpu.inAl, h_dx]
  rfl

/-- A poll of a drive that is busy. -/
theorem notReady_busy (h_dx : s.low16 .edx = 0x1f7) (h_busy : s.drive.busy ≠ 0) :
    ∃ t, (∀ polls, Loader.notReady (polls + 1) s = Loader.notReady polls t) ∧
      t.drive = { s.drive with busy := s.drive.busy - 1 } ∧ (∀ r, r ≠ .eax → t.gpr r = s.gpr r) ∧
      t.cpu.mem = s.cpu.mem ∧ t.cpu.esp = s.cpu.esp := by
  have h_in := inAl_status h_dx
  rw [AtaDrive.status_busy h_busy] at h_in
  refine ⟨s.inAl.setByte .eax (s.inAl.low8 .eax &&& 0x88), fun polls => ?_, ?_, fun r hr => ?_, ?_,
    ?_⟩
  · have h_al : (s.inAl.setByte .eax (s.inAl.low8 .eax &&& 0x88)).low8 .eax ≠ 0x08 := by
      rw [DiskCpu.low8_setByte_self, h_in, DiskCpu.low8_setByte_self]
      exact (by decide : 0x80#8 &&& 0x88#8 ≠ 0x08#8)
    exact if_neg h_al
  · rw [h_in]
    rfl
  · rw [DiskCpu.gpr_setByte_of_ne _ _ hr, h_in, DiskCpu.gpr_setByte_of_ne _ _ hr]
    rfl
  · rw [h_in]
    rfl
  · rw [h_in]
    rfl

/-- The poll of a drive that has words to give. -/
theorem notReady_ready (h_dx : s.low16 .edx = 0x1f7) (h_busy : s.drive.busy = 0)
    (h_left : s.drive.left ≠ 0) :
    ∃ t, (∀ polls, Loader.notReady (polls + 1) s = some t) ∧ Polled s t := by
  have h_in := inAl_status h_dx
  rw [AtaDrive.status_ready h_busy h_left] at h_in
  refine ⟨s.inAl.setByte .eax (s.inAl.low8 .eax &&& 0x88), fun polls => ?_, ?_, fun r hr => ?_, ?_,
    ?_⟩
  · have h_al : (s.inAl.setByte .eax (s.inAl.low8 .eax &&& 0x88)).low8 .eax = 0x08 := by
      rw [DiskCpu.low8_setByte_self, h_in, DiskCpu.low8_setByte_self]
      exact (by decide : 0x58#8 &&& 0x88#8 = 0x08#8)
    exact if_pos h_al
  · rw [h_in, ← h_busy]
    rfl
  · rw [DiskCpu.gpr_setByte_of_ne _ _ hr, h_in, DiskCpu.gpr_setByte_of_ne _ _ hr]
  · rw [h_in]
    rfl
  · rw [h_in]
    rfl

/-- A drive that has sectors to give is found ready in the end. -/
theorem notReady_run (busy : ℕ) (h_dx : s.low16 .edx = 0x1f7) (h_busy : s.drive.busy = busy)
    (h_left : s.drive.left ≠ 0) :
    ∃ t, (∀ polls, busy < polls → Loader.notReady polls s = some t) ∧ Polled s t := by
  induction busy generalizing s with
  | zero =>
    obtain ⟨t, h_eq, h_polled⟩ := notReady_ready h_dx h_busy h_left
    refine ⟨t, fun polls h_polls => ?_, h_polled⟩
    obtain ⟨polls, rfl⟩ := Nat.exists_eq_succ_of_ne_zero h_polls.ne'
    exact h_eq polls
  | succ busy ih =>
    obtain ⟨t, h_eq, h_drive, h_gpr, h_mem, h_esp⟩ :=
      notReady_busy h_dx (by rw [h_busy]; exact Nat.succ_ne_zero busy)
    have h_dx' : t.low16 .edx = 0x1f7 := (DiskCpu.low16_congr (h_gpr .edx (by simp))).trans h_dx
    have h_left' : t.drive.left ≠ 0 := by
      rw [h_drive]
      exact h_left
    obtain ⟨u, h_run, h_polled⟩ := ih h_dx' (by rw [h_drive, h_busy]; rfl) h_left'
    refine ⟨u, fun polls h_polls => ?_, ?_, fun r hr => (h_polled.gpr r hr).trans (h_gpr r hr),
      h_polled.mem.trans h_mem, h_polled.esp.trans h_esp⟩
    · obtain ⟨polls, rfl⟩ := Nat.exists_eq_succ_of_ne_zero (Nat.ne_zero_of_lt h_polls)
      exact (h_eq polls).trans (h_run polls (Nat.lt_of_succ_lt_succ h_polls))
    · rw [h_polled.drive, h_drive]

/-- However often it is polled: if it is found ready, it was polled until then. -/
theorem polled_of_notReady {polls : ℕ} (h_dx : s.low16 .edx = 0x1f7) (h_left : s.drive.left ≠ 0)
    (h : Loader.notReady polls s = some s') : Polled s s' := by
  induction polls generalizing s with
  | zero => exact absurd h (by simp [Loader.notReady])
  | succ polls ih =>
    by_cases h_busy : s.drive.busy = 0
    · obtain ⟨t, h_eq, h_polled⟩ := notReady_ready h_dx h_busy h_left
      rw [Option.some.inj (h.symm.trans (h_eq polls))]
      exact h_polled
    · obtain ⟨t, h_eq, h_drive, h_gpr, h_mem, h_esp⟩ := notReady_busy h_dx h_busy
      have h_left' : t.drive.left ≠ 0 := by
        rw [h_drive]
        exact h_left
      have h_polled := ih ((DiskCpu.low16_congr (h_gpr .edx (by simp))).trans h_dx) h_left'
        ((h_eq polls).symm.trans h)
      refine ⟨?_, fun r hr => (h_polled.gpr r hr).trans (h_gpr r hr), h_polled.mem.trans h_mem,
        h_polled.esp.trans h_esp⟩
      rw [h_polled.drive, h_drive]

end Polling

/-! ### The words -/

namespace CodeSize

variable {size : CodeSize} {s : DiskCpu} {p n : ℕ}

/-- The pointer is at an address, or has just run past the last one. -/
def PointsTo (size : CodeSize) (s : DiskCpu) (p : ℕ) : Prop :=
  match size with
  | bits16 => s.low16 .ebx = BitVec.ofNat 16 p
  | bits32 => s.gpr .ebx = BitVec.ofNat 32 p

theorem span_le : (size : CodeSize) → size.span ≤ 2 ^ 32
  | bits16 => by decide
  | bits32 => le_refl _

theorem PointsTo.pointer_eq (h : size.PointsTo s p) (hp : p < size.span) :
    size.pointer s = phys p := by
  cases size with
  | bits16 =>
    have h_low : s.low16 .ebx = BitVec.ofNat 16 p := h
    have hp' : p < 2 ^ 16 := hp
    rw [pointer, h_low]
    apply BitVec.eq_of_toNat_eq
    rw [BitVec.toNat_setWidth, BitVec.toNat_ofNat, phys, BitVec.toNat_ofNat]
    omega
  | bits32 => exact h

theorem pointsTo_of_pointer (h : size.pointer s = phys p) : size.PointsTo s p := by
  cases size with
  | bits16 =>
    have h_low : ((s.low16 .ebx).setWidth 32 : BitVec 32).setWidth 16 = (phys p).setWidth 16 :=
      congrArg _ h
    rw [BitVec.setWidth_setWidth_of_le _ (by decide), BitVec.setWidth_eq, phys] at h_low
    apply h_low.trans
    apply BitVec.eq_of_toNat_eq
    rw [BitVec.toNat_setWidth, BitVec.toNat_ofNat, BitVec.toNat_ofNat]
    omega
  | bits32 => exact h

theorem PointsTo.add (h : size.PointsTo s p) : size.PointsTo (size.addPointer s) (p + 2) := by
  cases size with
  | bits16 =>
    have h_low : s.low16 .ebx = BitVec.ofNat 16 p := h
    rw [PointsTo, addPointer, DiskCpu.low16_setLow_self, h_low, BitVec.ofNat_add]
    rfl
  | bits32 =>
    have h_ebx : s.gpr .ebx = BitVec.ofNat 32 p := h
    rw [PointsTo, addPointer, DiskCpu.gpr_set_self, h_ebx, BitVec.ofNat_add]
    rfl

theorem cx_of_counter (h : size.counter s = BitVec.ofNat 32 n) :
    s.low16 .ecx = BitVec.ofNat 16 n := by
  have h_low : (size.counter s).setWidth 16 = BitVec.ofNat 16 n := by
    rw [h]
    apply BitVec.eq_of_toNat_eq
    rw [BitVec.toNat_setWidth, BitVec.toNat_ofNat, BitVec.toNat_ofNat]
    omega
  cases size with
  | bits16 =>
    rw [counter, BitVec.setWidth_setWidth_of_le _ (by decide), BitVec.setWidth_eq] at h_low
    exact h_low
  | bits32 => exact h_low

theorem cl_of_counter (h : size.counter s = BitVec.ofNat 32 n) :
    s.low8 .ecx = BitVec.ofNat 8 n := by
  have h_low : (s.low16 .ecx).setWidth 8 = s.low8 .ecx :=
    BitVec.setWidth_setWidth_of_le _ (by decide)
  rw [← h_low, cx_of_counter h]
  apply BitVec.eq_of_toNat_eq
  rw [BitVec.toNat_setWidth, BitVec.toNat_ofNat, BitVec.toNat_ofNat]
  omega

end CodeSize

section Words

variable {size : CodeSize} {s t : DiskCpu} {n : ℕ}

theorem cx_countWords : (Loader.countWords s).low16 .ecx =
    ((s.low16 .edi).setWidth 32 * 256#32).setWidth 16 := by
  simp [Loader.countWords, DiskCpu.mulDx]

theorem ecx_countWords : (Loader.countWords s).gpr .ecx =
    (s.gpr .ecx &&& 0xffff0000#32) ||| ((Loader.countWords s).low16 .ecx).setWidth 32 := by
  rw [cx_countWords]
  simp [Loader.countWords, DiskCpu.mulDx, DiskCpu.gpr_setLow_self]

theorem dx_countWords : (Loader.countWords s).low16 .edx = 0x1f0 := by
  simp [Loader.countWords, DiskCpu.mulDx]

theorem ebx_countWords : (Loader.countWords s).gpr .ebx = s.gpr .ebx := by
  simp [Loader.countWords, DiskCpu.mulDx]

/-- The counter is still below `2 ^ 16` after the shifts by `cl`. -/
theorem ecx_high (hn : n < 256) :
    ((BitVec.ofNat 32 n &&& 0xffffff00#32) ||| 8#32) &&& 0xffff0000#32 = 0#32 := by
  have h_all : ∀ k : Fin 256,
      ((BitVec.ofNat 32 k &&& 0xffffff00#32) ||| 8#32) &&& 0xffff0000#32 = 0#32 := by
    decide +kernel
  exact h_all ⟨n, hn⟩

/-- There is a round for each word. -/
theorem rounds_countWords (M : AtaMedium) (h : size.counter s = BitVec.ofNat 32 n) (h_pos : 0 < n)
    (h_n : n < 256) (h_polled : Polled (Loader.sendCommand M s) t) :
    size.rounds (Loader.countWords t) = 256 * n := by
  have h_di : t.low16 .edi = BitVec.ofNat 16 n := by
    rw [DiskCpu.low16_congr (h_polled.gpr .edi (by simp)), di_sendCommand]
    exact CodeSize.cx_of_counter h
  have h_cx : ((Loader.countWords t).low16 .ecx).toNat = 256 * n := by
    rw [cx_countWords, h_di, BitVec.toNat_setWidth, BitVec.toNat_mul, BitVec.toNat_setWidth,
      BitVec.toNat_ofNat, BitVec.toNat_ofNat]
    omega
  have h_counter : (size.counter (Loader.countWords t)).toNat = 256 * n := by
    cases size with
    | bits16 =>
      rw [CodeSize.counter, BitVec.toNat_setWidth, h_cx]
      omega
    | bits32 =>
      have h_ecx : s.gpr .ecx = BitVec.ofNat 32 n := h
      rw [CodeSize.counter, ecx_countWords, h_polled.gpr .ecx (by simp), ecx_sendCommand, h_ecx,
        ecx_high h_n, BitVec.zero_or, BitVec.toNat_setWidth, h_cx]
      omega
  have h_some : size.counter (Loader.countWords t) ≠ 0 := by
    intro h_zero
    rw [h_zero] at h_counter
    have h_zero' : (0 : BitVec 32).toNat = 0 := rfl
    omega
  rw [CodeSize.rounds, if_neg h_some, h_counter]

end Words

/-! ### The loop -/

/-- The two bytes that a store of `ax` changes. -/
theorem store16_phys (m : ByteMemory) (v : BitVec 16) {p x : ℕ} (hp : p + 2 ≤ 2 ^ 32)
    (hx : x < 2 ^ 32) : m.store16 (phys p) v (phys x) =
      if x = p then v.extractLsb' 0 8 else if x = p + 1 then v.extractLsb' 8 8 else m (phys x) := by
  have h_addr : addr (phys p) 1 = phys (p + 1) := phys_add p 1
  rw [ByteMemory.store16, h_addr]
  by_cases h_high : x = p + 1
  · rw [h_high, ByteMemory.store8_self, if_neg (by omega), if_pos rfl]
  · rw [ByteMemory.store8_of_ne _ _ (phys_ne hx (by omega) h_high), if_neg h_high]
    by_cases h_low : x = p
    · rw [h_low, ByteMemory.store8_self, if_pos rfl]
    · rw [ByteMemory.store8_of_ne _ _ (phys_ne hx (by omega) h_low), if_neg h_low]

/-- The bytes of the sectors from `lba` on that are at `b` once `j` words have been read. -/
def AtaMedium.readTo (M : AtaMedium) (lba b j : ℕ) (m : ByteMemory) (x : ℕ) : BitVec 8 :=
  if b ≤ x ∧ x < b + 2 * j then M.byteAt lba (x - b) else m (phys x)

theorem AtaMedium.readTo_succ (M : AtaMedium) (lba b j : ℕ) (m : ByteMemory) (x : ℕ) :
    M.readTo lba b (j + 1) m x =
      if x = b + 2 * j then (M.wordAt lba j).extractLsb' 0 8
      else if x = b + 2 * j + 1 then (M.wordAt lba j).extractLsb' 8 8
      else M.readTo lba b j m x := by
  by_cases h_low : x = b + 2 * j
  · have h_half : (x - b) / 2 = j := by omega
    have h_rem : 8 * ((x - b) % 2) = 0 := by omega
    rw [if_pos h_low, readTo, if_pos (by omega), byteAt, h_half, h_rem]
  · by_cases h_high : x = b + 2 * j + 1
    · have h_half : (x - b) / 2 = j := by omega
      have h_rem : 8 * ((x - b) % 2) = 8 := by omega
      rw [if_neg h_low, if_pos h_high, readTo, if_pos (by omega), byteAt, h_half, h_rem]
    · have h_iff : (b ≤ x ∧ x < b + 2 * (j + 1)) ↔ (b ≤ x ∧ x < b + 2 * j) := by omega
      rw [if_neg h_low, if_neg h_high, readTo, readTo, if_congr h_iff rfl rfl]

section Loop

variable {M : AtaMedium} {size : CodeSize} {s : DiskCpu} {lba n b j p : ℕ} {m : ByteMemory}

/-- What a round does, whatever the drive gives. -/
structure ReadRound (M : AtaMedium) (size : CodeSize) (s s' : DiskCpu) (p : ℕ) : Prop where
  drive : s'.drive = (s.drive.data M).2
  mem : s'.cpu.mem = s.cpu.mem.store16 (phys p) (s.drive.data M).1
  dx : s'.low16 .edx = 0x1f0
  pointer : size.PointsTo s' (p + 2)
  esp : s'.cpu.esp = s.cpu.esp

theorem inAx_data (h_dx : s.low16 .edx = 0x1f0) :
    s.inAx M = { s with drive := (s.drive.data M).2 }.setLow .eax (s.drive.data M).1 := by
  rw [DiskCpu.inAx, h_dx]
  rfl

theorem readRound_round (h_dx : s.low16 .edx = 0x1f0) (h_pointer : size.PointsTo s p)
    (hp : p < size.span) : ReadRound M size s (Loader.readRound M size s) p := by
  have h_in : size.PointsTo (s.inAx M) p := by
    rw [inAx_data h_dx]
    cases size with
    | bits16 => exact (DiskCpu.low16_setLow_of_ne _ _ (by simp)).trans h_pointer
    | bits32 => exact (DiskCpu.gpr_setLow_of_ne _ _ (by simp)).trans h_pointer
  have h_store : size.PointsTo (size.storeAx (s.inAx M)) p := by
    cases size with
    | bits16 => exact h_in
    | bits32 => exact h_in
  have h_mem : (size.storeAx (s.inAx M)).cpu.mem =
      s.cpu.mem.store16 (phys p) (s.drive.data M).1 := by
    rw [CodeSize.storeAx, h_in.pointer_eq hp, inAx_data h_dx, DiskCpu.low16_setLow_self]
    rfl
  have h_drive : (size.storeAx (s.inAx M)).drive = (s.drive.data M).2 := by
    rw [CodeSize.storeAx, inAx_data h_dx]
    rfl
  have h_edx : (size.storeAx (s.inAx M)).low16 .edx = 0x1f0 := by
    rw [← h_dx, inAx_data h_dx]
    exact DiskCpu.low16_setLow_of_ne _ _ (by simp)
  have h_esp : (size.storeAx (s.inAx M)).cpu.esp = s.cpu.esp := by
    rw [CodeSize.storeAx, inAx_data h_dx]
    rfl
  have h_add := h_store.add
  rw [Loader.readRound]
  cases size with
  | bits16 =>
    refine ⟨h_drive, h_mem, ?_, ?_, h_esp⟩
    · simpa [CodeSize.countDown, CodeSize.addPointer] using h_edx
    · exact (DiskCpu.low16_setLow_of_ne _ _ (by simp)).trans h_add
  | bits32 =>
    refine ⟨h_drive, h_mem, ?_, ?_, h_esp⟩
    · simpa [CodeSize.countDown, CodeSize.addPointer] using h_edx
    · exact (DiskCpu.gpr_set_of_ne _ _ (by simp)).trans h_add

/-- `j` words have been read to `b`. -/
structure ReadSoFar (M : AtaMedium) (size : CodeSize) (lba n b : ℕ) (m : ByteMemory) (j : ℕ)
    (s : DiskCpu) : Prop where
  drive : Transfer M lba n j s.drive
  dx : s.low16 .edx = 0x1f0
  pointer : size.PointsTo s (b + 2 * j)
  mem : ∀ x < 2 ^ 32, s.cpu.mem (phys x) = M.readTo lba b j m x

theorem ReadSoFar.next (h : ReadSoFar M size lba n b m j s) (h_busy : s.drive.busy = 0)
    (hj : j < 256 * n) (hb : b + 512 * n ≤ size.span) :
    ReadSoFar M size lba n b m (j + 1) (Loader.readRound M size s) := by
  have h_span := size.span_le
  have h_round : ReadRound M size s _ (b + 2 * j) :=
    readRound_round h.dx h.pointer (by omega)
  obtain ⟨h_word, h_drive⟩ := h.drive.data hj h_busy
  refine ⟨?_, h_round.dx, ?_, ?_⟩
  · rw [h_round.drive]
    exact h_drive
  · rw [show b + 2 * (j + 1) = b + 2 * j + 2 by omega]
    exact h_round.pointer
  · intro x hx
    rw [h_round.mem, store16_phys _ _ (by omega) hx, h_word, AtaMedium.readTo_succ, h.mem x hx]

/-- The loop, as long as the drive is not busy. -/
theorem goOnRead_run (i : ℕ) (h : ReadSoFar M size lba n b m j s) (h_busy : s.drive.busy = 0)
    (h_steady : ∀ k, j < 256 * k → 256 * k < j + i → M.delay k = 0) (hj : j + i ≤ 256 * n)
    (hb : b + 512 * n ≤ size.span) :
    ReadSoFar M size lba n b m (j + i) (Loader.goOnRead M size i s) := by
  induction i generalizing s j with
  | zero => exact h
  | succ i ih =>
    have h_next := h.next h_busy (by omega) hb
    rw [Loader.goOnRead, show j + (i + 1) = j + 1 + i by omega]
    rcases Nat.eq_zero_or_pos i with h_last | h_more
    · rw [h_last]
      exact h_next
    · refine ih h_next ?_ (fun k hk hk' => h_steady k (by omega) (by omega)) (by omega)
      rw [h_next.drive.busy (Nat.succ_pos j)]
      split
      · next h_sector => exact h_steady _ (by omega) (by omega)
      · rfl

/-- The loop does not go back. -/
theorem goOnRead_below (i : ℕ) {x : ℕ} (h_dx : s.low16 .edx = 0x1f0)
    (h_pointer : size.PointsTo s p) (hp : p + 2 * i ≤ size.span) (hx : x < p) :
    (Loader.goOnRead M size i s).cpu.mem (phys x) = s.cpu.mem (phys x) := by
  have h_span := size.span_le
  induction i generalizing s p with
  | zero => rfl
  | succ i ih =>
    have h_round : ReadRound M size s _ p := readRound_round h_dx h_pointer (by omega)
    rw [Loader.goOnRead, ih h_round.dx h_round.pointer (by omega) (by omega), h_round.mem,
      store16_phys _ _ (by omega) (by omega), if_neg (by omega), if_neg (by omega)]

theorem goOnRead_esp (i : ℕ) : (Loader.goOnRead M size i s).cpu.esp = s.cpu.esp := by
  induction i generalizing s with
  | zero => rfl
  | succ i ih =>
    rw [Loader.goOnRead, ih]
    cases size <;> rfl

theorem goOnRead_add (i k : ℕ) : Loader.goOnRead M size (i + k) s =
    Loader.goOnRead M size k (Loader.goOnRead M size i s) := by
  induction i generalizing s with
  | zero => rw [Nat.zero_add, Loader.goOnRead]
  | succ i ih => rw [Nat.succ_add, Loader.goOnRead, ih, Loader.goOnRead]

end Loop

/-! ### What is read -/

/-- A call for `n` sectors from `lba` on, to `b`. -/
structure DiskRequest (size : CodeSize) (lba n b : ℕ) (s : DiskCpu) : Prop where
  lba_lt : lba < 2 ^ 28
  pos : 0 < n
  count_lt : n < 256
  room : b + 512 * n ≤ size.span
  eax : s.gpr .eax = BitVec.ofNat 32 lba
  counter : size.counter s = BitVec.ofNat 32 n
  pointer : size.pointer s = phys b

/-- If the drive is polled often enough, the call returns with the sectors in memory, and with no
other byte changed. -/
def Loader.GetsSectors (M : AtaMedium) (size : CodeSize) (lba n b : ℕ) (s : DiskCpu) : Prop :=
  ∃ s', (∃ few, ∀ polls, few < polls → Loader.rdDisk M size polls s = some s') ∧
    s'.cpu.esp = s.cpu.esp ∧
    ∀ x < 2 ^ 32, s'.cpu.mem (phys x) = M.readTo lba b (256 * n) s.cpu.mem x

section Request

variable {M : AtaMedium} {size : CodeSize} {s t : DiskCpu} {lba n b : ℕ}

/-- From the polls on, `go_on_read` is about to read the first word. -/
theorem readSoFar_polled (h : DiskRequest size lba n b s)
    (h_polled : Polled (Loader.sendCommand M s) t) :
    ReadSoFar M size lba n b s.cpu.mem 0 (Loader.countWords t) ∧
      (Loader.countWords t).drive.busy = 0 ∧
      size.rounds (Loader.countWords t) = 256 * n := by
  have h_drive : (Loader.countWords t).drive = t.drive := rfl
  have h_transfer : Transfer M lba n 0 (Loader.sendCommand M s).drive :=
    sendCommand_transfer M s h.lba_lt h.pos h.count_lt h.eax (CodeSize.cl_of_counter h.counter)
  have h_ebx : (Loader.countWords t).gpr .ebx = s.gpr .ebx := by
    rw [ebx_countWords, h_polled.gpr .ebx (by simp), ebx_sendCommand]
  refine ⟨⟨?_, dx_countWords, ?_, ?_⟩, ?_, rounds_countWords M h.counter h.pos h.count_lt h_polled⟩
  · rw [h_drive, h_polled.drive]
    exact ⟨h_transfer.first, h_transfer.done, h_transfer.left, h_transfer.word,
      fun h_lt => absurd h_lt (lt_irrefl 0)⟩
  · have h_pointer := CodeSize.pointsTo_of_pointer h.pointer
    cases size with
    | bits16 => exact (DiskCpu.low16_congr h_ebx).trans h_pointer
    | bits32 => exact h_ebx.trans h_pointer
  · intro x hx
    have h_mem : (Loader.countWords t).cpu.mem = s.cpu.mem :=
      h_polled.mem.trans (mem_sendCommand M s)
    rw [AtaMedium.readTo, if_neg (by omega), h_mem]
  · rw [h_drive, h_polled.drive]

theorem rdDisk_eq (h : DiskRequest size lba n b s) {polls : ℕ}
    (h_ready : Loader.notReady polls (Loader.sendCommand M s) = some t)
    (h_polled : Polled (Loader.sendCommand M s) t) :
    Loader.rdDisk M size polls s =
      some (Loader.goOnRead M size (256 * n) (Loader.countWords t)) := by
  rw [Loader.rdDisk, bind_of_some h_ready]
  dsimp only
  rw [(readSoFar_polled h h_polled).2.2]
  rfl

theorem left_sendCommand (h : DiskRequest size lba n b s) :
    (Loader.sendCommand M s).drive.left ≠ 0 := by
  have h_transfer : Transfer M lba n 0 (Loader.sendCommand M s).drive :=
    sendCommand_transfer M s h.lba_lt h.pos h.count_lt h.eax (CodeSize.cl_of_counter h.counter)
  have h_left := h_transfer.left
  have h_pos := h.pos
  omega

/-- A drive that is not busy between the sectors. -/
theorem getsSectors_of_steady (h : DiskRequest size lba n b s) (h_steady : M.Steady n) :
    Loader.GetsSectors M size lba n b s := by
  obtain ⟨t, h_ready, h_polled⟩ := notReady_run _ (dx_sendCommand M s) rfl (left_sendCommand h)
  obtain ⟨h_start, h_busy, -⟩ := readSoFar_polled h h_polled
  have h_run := goOnRead_run (256 * n) h_start h_busy
    (fun k hk hk' => h_steady k (by omega) (by omega)) (by omega) h.room
  rw [Nat.zero_add] at h_run
  have h_esp : (Loader.countWords t).cpu.esp = s.cpu.esp :=
    h_polled.esp.trans (esp_sendCommand M s)
  refine ⟨_, ⟨_, fun polls h_polls => rdDisk_eq h (h_ready polls h_polls) h_polled⟩, ?_, h_run.mem⟩
  rw [goOnRead_esp, h_esp]

/-- The first sector that the drive is busy before is read too soon. -/
theorem early_byte (h : DiskRequest size lba n b s) {k : ℕ} (h_pos : 0 < k) (hk : k < n)
    (h_busy : M.delay k ≠ 0) (h_first : ∀ i, 0 < i → i < k → M.delay i = 0)
    (h_polled : Polled (Loader.sendCommand M s) t) :
    (Loader.goOnRead M size (256 * n) (Loader.countWords t)).cpu.mem (phys (b + 512 * k)) =
      M.idle.extractLsb' 0 8 := by
  have h_span := size.span_le
  have h_room := h.room
  obtain ⟨h_start, h_idle, -⟩ := readSoFar_polled h h_polled
  have h_run := goOnRead_run (256 * k) h_start h_idle
    (fun i hi hi' => h_first i (by omega) (by omega)) (by omega) h.room
  rw [Nat.zero_add] at h_run
  have h_delay : (Loader.goOnRead M size (256 * k) (Loader.countWords t)).drive.busy ≠ 0 := by
    have h_div : 256 * k / 256 = k := by omega
    rw [h_run.drive.busy (by omega), if_pos (by omega), h_div]
    exact h_busy
  have h_round : ReadRound M size _ _ (b + 2 * (256 * k)) :=
    readRound_round (M := M) h_run.dx h_run.pointer (by omega)
  rw [show 256 * n = 256 * k + (1 + (256 * n - 256 * k - 1)) by omega, goOnRead_add,
    goOnRead_add 1, Loader.goOnRead, Loader.goOnRead,
    goOnRead_below _ h_round.dx h_round.pointer (by omega) (by omega), h_round.mem,
    store16_phys _ _ (by omega) (by omega), if_pos (by omega), Transfer.data_busy h_delay]

end Request

/-- Both functions read the sectors they are asked for, whatever is on the disk, if and only if the
drive is not busy between them: `.not_ready` waits for the first one only. -/
theorem rd_disk_iff {size : CodeSize} {lba n b : ℕ} {s : DiskCpu} (delay : ℕ → ℕ)
    (idle : BitVec 16) (h : DiskRequest size lba n b s) :
    (∀ sector, Loader.GetsSectors ⟨sector, delay, idle⟩ size lba n b s) ↔
      ∀ k, 0 < k → k < n → delay k = 0 := by
  constructor
  · intro h_gets
    by_contra h_not
    -- the first sector that the drive is busy before
    have h_ex : ∃ k, 0 < k ∧ k < n ∧ delay k ≠ 0 := by
      by_contra h_none
      exact h_not fun k h_pos hk => by_contra fun h_busy => h_none ⟨k, h_pos, hk, h_busy⟩
    classical
    obtain ⟨h_pos, hk, h_busy⟩ := Nat.find_spec h_ex
    have h_first (i : ℕ) (hi : 0 < i) (hi' : i < Nat.find h_ex) : delay i = 0 :=
      by_contra fun h_busy' => Nat.find_min h_ex hi' ⟨hi, hi'.trans hk, h_busy'⟩
    -- a disk on which the data differs from what the drive gives when there is none
    obtain ⟨s', ⟨few, h_run⟩, -, h_mem⟩ := h_gets fun _ _ => ~~~ idle
    have h_run := h_run _ (Nat.lt_succ_self few)
    have h_room := h.room
    have h_span := size.span_le
    cases h_ready : Loader.notReady (few + 1)
        (Loader.sendCommand ⟨fun _ _ => ~~~ idle, delay, idle⟩ s) with
    | none =>
      rw [Loader.rdDisk, h_ready] at h_run
      exact absurd h_run (by simp)
    | some t =>
      have h_polled := polled_of_notReady (dx_sendCommand _ s) (left_sendCommand h) h_ready
      have h_early := early_byte h h_pos hk h_busy h_first h_polled
      rw [rdDisk_eq h h_ready h_polled] at h_run
      rw [Option.some.inj h_run, h_mem _ (by omega), AtaMedium.readTo, if_pos (by omega),
        AtaMedium.byteAt, AtaMedium.wordAt] at h_early
      have h_rem : 8 * ((b + 512 * Nat.find h_ex - b) % 2) = 0 := by omega
      rw [h_rem] at h_early
      have h_bit := congrArg (fun v : BitVec 8 => v.getLsbD 0) h_early
      simp at h_bit
  · intro h_steady sector
    exact getsSectors_of_steady h h_steady

/-- The processor when `mbr.S` calls `rd_disk_m_16` for the loader. -/
def readingLoader : DiskCpu where
  cpu :=
    { gpr := fun r => match r with
        | .eax => 2
        | .ebx => 0x900
        | .ecx => 4
        | _ => 0
      esp := 0x7c00
      eip := 0
      eflags := 2
      cs := 0
      seg := fun _ => 0
      mem := fun _ => 0 }
  drive := ⟨0, 0, 0, 0, 0, 0, 0, 0, 0⟩

/-- The loader is read from a drive that is ready at once, and not from one that needs a while
before each sector. -/
theorem rd_disk_iff_loader :
    (∀ sector, Loader.GetsSectors ⟨sector, fun _ => 0, 0⟩ .bits16 2 4 0x900 readingLoader) ∧
      ¬ ∀ sector, Loader.GetsSectors ⟨sector, fun _ => 3, 0⟩ .bits16 2 4 0x900 readingLoader := by
  have h : DiskRequest .bits16 2 4 0x900 readingLoader := by
    constructor <;> decide
  refine ⟨(rd_disk_iff _ _ h).mpr fun _ _ _ => rfl, fun h_gets => ?_⟩
  exact absurd ((rd_disk_iff _ _ h).mp h_gets 1 (by decide) (by decide)) (by decide)

end ToiletOS
