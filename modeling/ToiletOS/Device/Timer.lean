import ToiletOS.Framework.Pit8253
import ToiletOS.Interrupt.Entry

/-!
# Programming the timer

`frequency_set` and `timer_init` of `device/timer.c`, on the ports of the 8253. The control byte
of `frequency_set` is the one that the chip takes apart again (`controlByte_eq`), and the low byte
of the reload value is sent as it is. The high byte is computed as
`(uint8_t) counter_value >> 8`, where the cast comes before the shift, so that the byte that is
sent is 0 for every value (`highByte_eq`).

`frequency_set_iff` says what this comes to: the counter is programmed as asked exactly if the
value has no high byte. The 1193 of `timer_init` has one, and the timer runs about seven times
as fast as it should.
-/

namespace ToiletOS

/-! ### The functions -/

/-- What `timer_init` writes to: the chip, `idt_table`, and the screen. -/
structure TimerState where
  pit : Pit
  idtTable : VecNo → IntrHandler
  printed : List String

/-- `COUNTER0_PORT`. The data registers of the other counters are at the ports after it. -/
def counter0Port : BitVec 8 := 0x40

/-- `PIT_CONTROL_PORT`. -/
def pitControlPort : BitVec 16 := 0x43

/-- `READ_WRITE_LATCH`. -/
def readWriteLatch : BitVec 8 := 3

/-- `COUNTER0_VALUE`, which is `INPUT_FREQUENCY / IRQ0_FREQUENCY`. -/
def counter0Value : BitVec 16 := BitVec.ofNat 16 (1193180 / 1000)

/-- The control byte of `frequency_set`. -/
def controlByte (counterNo rwl counterMode : BitVec 8) : BitVec 8 :=
  ((counterNo.setWidth 32 <<< 6) ||| (rwl.setWidth 32 <<< 4) |||
    (counterMode.setWidth 32 <<< 1)).setWidth 8

/-- `(uint8_t) counter_value >> 8`: the cast binds tighter than the shift. -/
def highByte (counterValue : BitVec 16) : BitVec 8 :=
  ((counterValue.setWidth 8).setWidth 32 >>> 8).setWidth 8

namespace TimerState

variable (s : TimerState)

/-- `put_str`. -/
def putStr (message : String) : TimerState := { s with printed := s.printed ++ [message] }

/-- `ioutb`. The chip has the four ports from 0x40 on, and takes the lower two bits of the port
for the address of the register. -/
def ioutb (port : BitVec 16) (data : BitVec 8) : TimerState :=
  if port &&& 0xfffc#16 = 0x40#16 then { s with pit := s.pit.write (port.setWidth 2) data } else s

/-- `frequency_set`. -/
def frequencySet (counterPort counterNo rwl counterMode : BitVec 8) (counterValue : BitVec 16) :
    TimerState :=
  let s := s.ioutb pitControlPort (controlByte counterNo rwl counterMode)
  let s := s.ioutb (counterPort.setWidth 16) (counterValue.setWidth 8)
  s.ioutb (counterPort.setWidth 16) (highByte counterValue)

/-- `timer_init`, with the handler that `intr_timer_handler` is. -/
def timerInit (intrTimerHandler : IntrHandler) : TimerState :=
  let s := s.putStr "timer_init start.\n"
  -- `COUNTER0_NO` and `COUNTER_MODE` are 0 and 2
  let s := s.frequencySet counter0Port 0 readWriteLatch 2 counter0Value
  let s := { s with idtTable := registerHandler s.idtTable ⟨0x20, by decide⟩ intrTimerHandler }
  s.putStr "timer_init done.\n"

end TimerState

/-! ### The three bytes -/

/-- Fields that fit into their places are packed as the chip expects them. -/
theorem controlByte_eq (select access : BitVec 2) (mode : BitVec 3) :
    controlByte (select.setWidth 8) (access.setWidth 8) (mode.setWidth 8) =
      PitControl.encode ⟨select, access, mode, 0#1⟩ := by
  revert select access mode
  decide

/-- No high byte is ever sent. -/
theorem highByte_eq (counterValue : BitVec 16) : highByte counterValue = 0#8 := by
  ext i hi
  simp [highByte]

/-- The value that is sent. -/
theorem toNat_sent (counterValue : BitVec 16) :
    (highByte counterValue ++ counterValue.setWidth 8).toNat = counterValue.toNat % 256 := by
  rw [highByte_eq, BitVec.toNat_append]
  simp

/-- The byte that is sent for the high byte is right exactly if the high byte is 0. -/
theorem sent_eq_iff (counterValue : BitVec 16) :
    highByte counterValue ++ counterValue.setWidth 8 = counterValue ↔ counterValue < 256 := by
  rw [← BitVec.toNat_inj, toNat_sent, Nat.mod_eq_iff_lt (by decide), BitVec.lt_def]
  rfl

/-! ### What the chip makes of them -/

/-- The chip is as before, but for the counter `no`, which counts in binary, in the mode and with
the reload value that are given, and waits for no further byte. -/
def Pit.Programs (p p' : Pit) (no : ℕ) (access : PitAccess) (mode : ℕ) (reload : BitVec 16) :
    Prop :=
  ∃ (i : Fin 3) (m : Fin 6), (i : ℕ) = no ∧ (m : ℕ) = mode ∧
    p' = p.set i ⟨access, m, false, reload, none⟩

/-- A chip that has not been programmed yet. -/
def resetTimer : TimerState where
  pit := ⟨fun _ => ⟨.low, 0, false, 0, none⟩⟩
  idtTable _ := Cpu.ret
  printed := []

namespace TimerState

variable (s : TimerState)

/-- The ports of the chip are its registers. -/
theorem ioutb_pit (address : BitVec 2) (data : BitVec 8) :
    s.ioutb (0x40#16 + address.setWidth 16) data =
      { s with pit := s.pit.write address data } := by
  have h_port : (0x40#16 + address.setWidth 16) &&& 0xfffc#16 = 0x40#16 ∧
      (0x40#16 + address.setWidth 16).setWidth 2 = address := by
    revert address
    decide
  rw [ioutb, if_pos h_port.1, h_port.2]

/-- **What `frequency_set` does**, for a counter of the chip and a mode it has: the counter gets
the low byte of the reload value and a high byte of 0. -/
theorem frequencySet_pit (i : Fin 3) (m : Fin 6) (counterValue : BitVec 16) :
    (s.frequencySet (counter0Port + BitVec.ofNat 8 i) (BitVec.ofNat 8 i) readWriteLatch
        (BitVec.ofNat 8 m) counterValue).pit =
      s.pit.set i ⟨.lowHigh, m, false, highByte counterValue ++ counterValue.setWidth 8, none⟩ := by
  have h_no : ∀ i : Fin 3, BitVec.ofNat 8 i = (BitVec.ofNat 2 i).setWidth 8 := by decide
  have h_mode : ∀ m : Fin 6, BitVec.ofNat 8 m = (BitVec.ofNat 3 m).setWidth 8 ∧
      pitMode (BitVec.ofNat 3 m) = m := by decide
  have h_control : controlByte (BitVec.ofNat 8 i) readWriteLatch (BitVec.ofNat 8 m) =
      PitControl.encode ⟨BitVec.ofNat 2 i, 3#2, BitVec.ofNat 3 m, 0#1⟩ := by
    rw [h_no, (h_mode m).1]
    exact controlByte_eq _ 3#2 _
  have h_port : ∀ i : Fin 3, (counter0Port + BitVec.ofNat 8 i).setWidth 16 =
      0x40#16 + (BitVec.ofNat 2 i).setWidth 16 := by decide
  -- the control byte and the two stores are a sequence that the chip takes as a count
  have h_program := s.pit.write_program i
    (f := ⟨BitVec.ofNat 2 i, 3#2, BitVec.ofNat 3 m, 0#1⟩) rfl rfl
    (counterValue.setWidth 8) (highByte counterValue)
  rw [(h_mode m).2] at h_program
  rw [frequencySet, h_control, h_port,
    show pitControlPort = 0x40#16 + (3#2).setWidth 16 by decide, ioutb_pit, ioutb_pit, ioutb_pit]
  exact h_program

/-- **Exactly when the timer is programmed as asked.** -/
theorem frequency_set_iff {counterNo counterMode : BitVec 8} (h_no : counterNo ≤ 2)
    (h_mode : counterMode ≤ 5) (counterValue : BitVec 16) :
    s.pit.Programs (s.frequencySet (counter0Port + counterNo) counterNo readWriteLatch counterMode
        counterValue).pit counterNo.toNat .lowHigh counterMode.toNat counterValue ↔
      counterValue < 256 := by
  obtain ⟨i, rfl⟩ : ∃ i : Fin 3, BitVec.ofNat 8 i = counterNo :=
    ⟨⟨counterNo.toNat, Nat.lt_succ_of_le h_no⟩, by simp⟩
  obtain ⟨m, rfl⟩ : ∃ m : Fin 6, BitVec.ofNat 8 m = counterMode :=
    ⟨⟨counterMode.toNat, Nat.lt_succ_of_le h_mode⟩, by simp⟩
  have h_i : (BitVec.ofNat 8 i).toNat = i := Nat.mod_eq_of_lt (by omega)
  have h_m : (BitVec.ofNat 8 m).toNat = m := Nat.mod_eq_of_lt (by omega)
  rw [frequencySet_pit, ← sent_eq_iff, h_i, h_m]
  constructor
  · rintro ⟨j, n, h_j, -, h_eq⟩
    -- the count that was sent is read off the counter
    obtain rfl : j = i := Fin.ext h_j
    have h_counter := congrArg (fun p : Pit => (p.counter j).reload) h_eq
    simpa using h_counter
  · intro h_value
    exact ⟨i, m, rfl, rfl, by rw [h_value]⟩

/-- The rate that the counter runs at depends on the low byte only. -/
theorem frequencySet_period (i : Fin 3) (m : Fin 6) (counterValue : BitVec 16) :
    ((s.frequencySet (counter0Port + BitVec.ofNat 8 i) (BitVec.ofNat 8 i) readWriteLatch
        (BitVec.ofNat 8 m) counterValue).pit.counter i).period =
      if counterValue.toNat % 256 = 0 then 65536 else counterValue.toNat % 256 := by
  have h_sent := toNat_sent counterValue
  rw [frequencySet_pit, Pit.set_counter_self, PitCounter.period, if_neg Bool.false_ne_true]
  simp only [← BitVec.toNat_inj, h_sent]
  rfl

/-- Counter 2 in mode 3, with the largest value that is sent as it is. -/
theorem frequency_set_iff_255 :
    resetTimer.pit.Programs (resetTimer.frequencySet (counter0Port + 2) 2 readWriteLatch 3 255).pit
      2 .lowHigh 3 255 :=
  (frequency_set_iff resetTimer (by decide) (by decide) 255).mpr (by decide)

/-- The call in `timer_init` asks for 1193, and the chip gets 169. -/
theorem frequency_set_1193 : ¬ ∀ (s : TimerState) (counterNo counterMode : BitVec 8)
    (counterValue : BitVec 16), counterNo ≤ 2 → counterMode ≤ 5 →
    s.pit.Programs (s.frequencySet (counter0Port + counterNo) counterNo readWriteLatch counterMode
      counterValue).pit counterNo.toNat .lowHigh counterMode.toNat counterValue := by
  intro h
  obtain ⟨i, m, h_i, -, h_eq⟩ := h resetTimer 0 2 counter0Value (by decide) (by decide)
  obtain rfl : i = 0 := Fin.ext h_i
  have h_reload := congrArg (fun p : Pit => (p.counter 0).reload) h_eq
  simp only [Pit.set_counter_self] at h_reload
  exact absurd h_reload (by decide)

/-- The timer that `timer_init` starts interrupts every 169 clocks. -/
example (handler : IntrHandler) : ((resetTimer.timerInit handler).pit.counter 0).period = 169 :=
  rfl

end TimerState
end ToiletOS
