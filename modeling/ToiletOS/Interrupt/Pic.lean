import ToiletOS.Framework.Machine
import ToiletOS.Framework.Pic8259
import ToiletOS.Interrupt.Idt
import ToiletOS.Sched.Kernel

/-!
# Interrupts of devices

What `pic_init` of `kernel/interrupt.c` makes of the two interrupt controllers, and what the
stubs of `kernel/kernel.S` tell them: every stub ends the interrupt at both controllers
before it calls the handler, also when it is entered for an exception.

`picSys` is the machine from then on. Lines rise and fall at any time, the code enables and
disables interrupts as it likes, and the processor takes an interrupt in two steps, between which
the line may fall again.

The masks leave one line open, that of the keyboard (`PicInv`). `only_keyboard_interrupts` says
what this comes to: the timer, which `timer_init` programs and registers a handler for, never
interrupts, and the keyboard is never held up and never served twice for one request.
-/

namespace ToiletOS

/-! ### `pic_init` -/

/-- The writes of `pic_init`. -/
def picWrites : List (BitVec 16 × BitVec 8) :=
  [(0x20, 0x11), (0x21, 0x20), (0x21, 0x04), (0x21, 0x01),
    (0xa0, 0x11), (0xa1, 0x28), (0xa1, 0x02), (0xa1, 0x01), (0x21, 0xfd), (0xa1, 0xff)]

theorem picInit_ports (s : IdtState) : s.picInit.ports = s.ports ++ picWrites := by
  simp [IdtState.picInit, IdtState.ioutb, IdtState.putStr, picWrites]

/-- A controller that is programmed, with its mask. -/
structure Programmed (c : Pic) (base cascade mask : BitVec 8) : Prop where
  stage : c.stage = .ready
  level : c.level = false
  base : c.base = base
  cascade : c.cascade = cascade
  icw4 : c.icw4 = 1
  mask : c.mask = mask

/-- Both controllers as `pic_init` leaves them: vectors from `0x20` and from `0x28` on, and one line
that is not masked. -/
structure PicInv (p : PicPair) : Prop where
  master : Programmed p.master 0x20 4 0xfd
  slave : Programmed p.slave 0x28 2 0xff
  slave_idle : ∀ j, p.slave.inService j = false
  line : ∀ j, p.master.inService j = true → j = 1

/-! ### The machine -/

/-- Where the processor is. -/
inductive PicPhase
  -- in the code of a thread or of a handler
  | code
  -- it has seen the output of the controllers, and is going to acknowledge
  | signalled
  -- in a stub, before its first `out`, and between the two
  | stub
  | slaveEnded
  deriving DecidableEq, Repr

/-- The controllers and the processor, the vectors that the controllers have given so far, and how
often the line of the keyboard has risen. -/
structure PicState where
  pics : PicPair
  phase : PicPhase
  intr : IntrStatus
  delivered : List (BitVec 8)
  edges : ℕ

/-- What can happen next. -/
inductive PicAct
  -- The line of a device rises or falls.
  | line (irq : Fin 16) (high : Bool)
  -- The code changes the interrupt flag: `sti`, `cli`, `iretd`.
  | setIntr (status : IntrStatus)
  -- The processor sees that an interrupt is asked for, and acknowledges it.
  | signal
  | acknowledge
  -- An exception.
  | trap
  -- The two outputs of a stub.
  | out
  deriving DecidableEq, Repr

/-- The line of the keyboard rises. -/
def PicState.rises (st : PicState) (irq : Fin 16) (high : Bool) : Bool :=
  decide ((irq : ℕ) = 1) && high && !st.pics.isHigh irq

/-- The controllers from `pic_init` on. -/
def picSys : Machine PicState PicAct Empty where
  init st := (∃ (p : PicPair) (s : IdtState), s.ports = [] ∧ st.pics = p.outs s.picInit.ports) ∧
    st.phase = .code ∧ st.intr = .off ∧ st.delivered = [] ∧ st.edges = 0
  enabled st a := match a with
    -- line 2 is that of the second controller
    | .line irq _ => irq ≠ 2
    | .setIntr _ | .trap => st.phase = .code
    | .signal => st.phase = .code ∧ st.intr = .on ∧ st.pics.output = true
    | .acknowledge => st.phase = .signalled
    | .out => st.phase = .stub ∨ st.phase = .slaveEnded
  exec st a := match a with
    | .line irq high => .ok { st with
        pics := st.pics.setIrq irq high
        edges := st.edges + if st.rises irq high then 1 else 0 }
    | .setIntr status => .ok { st with intr := status }
    | .signal => .ok { st with phase := .signalled }
    | .acknowledge =>
      let (vector, pics) := st.pics.ack
      .ok { st with
        pics := pics
        phase := .stub
        intr := .off
        delivered := st.delivered ++ [vector] }
    | .trap => .ok { st with phase := .stub, intr := .off }
    | .out =>
      -- mov al, 0x20 / out 0xa0, al / out 0x20, al
      if st.phase = .stub then .ok { st with pics := st.pics.out 0xa0 0x20, phase := .slaveEnded }
      else .ok { st with pics := st.pics.out 0x20 0x20, phase := .code }

instance (st : PicState) (a : PicAct) : Decidable (picSys.enabled st a) :=
  match a with
  | .line irq _ => inferInstanceAs (Decidable (irq ≠ 2))
  | .setIntr _ | .trap => inferInstanceAs (Decidable (st.phase = .code))
  | .signal => inferInstanceAs
      (Decidable (st.phase = .code ∧ st.intr = .on ∧ st.pics.output = true))
  | .acknowledge => inferInstanceAs (Decidable (st.phase = .signalled))
  | .out => inferInstanceAs (Decidable (st.phase = .stub ∨ st.phase = .slaveEnded))

/-- What the kernel gets to see of the devices. -/
structure KeyboardOnly (st : PicState) : Prop where
  /-- The vectors are that of the keyboard and that of a spurious interrupt. -/
  vectors : ∀ v ∈ st.delivered, v = 0x21 ∨ v = 0x27
  /-- A request is served at most once. -/
  once : st.delivered.count 0x21 ≤ st.edges
  /-- Outside the stubs, a request is before the processor at once. -/
  unblocked : st.phase = .code → (st.pics.output = true ↔ st.pics.master.requests 1 = true)

/-! ### What keeps the controllers programmed -/

section Programmed

variable {c : Pic} {base cascade mask : BitVec 8}

theorem Programmed.setLine (h : Programmed c base cascade mask) (i : Fin 8) (high : Bool) :
    Programmed (c.setLine i high) base cascade mask :=
  ⟨h.stage, h.level, h.base, h.cascade, h.icw4, h.mask⟩

theorem Programmed.ack (h : Programmed c base cascade mask) :
    Programmed c.ack.2 base cascade mask := by
  unfold Pic.ack
  split
  · exact h
  · exact ⟨h.stage, h.level, h.base, h.cascade, h.icw4, h.mask⟩

/-- The end of an interrupt takes lines out of service, and does nothing else. -/
theorem Pic.endOfInterrupt_eq (c : Pic) (data : BitVec 8) :
    ∃ inService, c.endOfInterrupt data = { c with inService := inService } := by
  unfold Pic.endOfInterrupt
  split
  · split
    · exact ⟨c.inService, rfl⟩
    · exact ⟨_, rfl⟩
  · split
    · exact ⟨_, rfl⟩
    · exact ⟨c.inService, rfl⟩

/-- What the stubs write. -/
theorem Pic.writeControl_end (c : Pic) : c.writeControl 0x20 = c.endOfInterrupt 0x20 := rfl

theorem Programmed.ends (h : Programmed c base cascade mask) :
    Programmed (c.writeControl 0x20) base cascade mask := by
  obtain ⟨inService, h_end⟩ := c.endOfInterrupt_eq 0x20
  rw [Pic.writeControl_end, h_end]
  exact ⟨h.stage, h.level, h.base, h.cascade, h.icw4, h.mask⟩

theorem Programmed.asking (h : Programmed c base cascade mask) (i : Fin 8) :
    c.asking i = (c.requests i && !mask.getLsbD i) := by
  rw [Pic.asking, h.level, h.mask]
  rfl

end Programmed

namespace PicPair

variable (p : PicPair)

theorem relay_requests {i : Fin 8} (h : i ≠ 2) :
    p.relay.master.requests i = p.master.requests i := Function.update_of_ne h ..

/-- The request of the keyboard after a line has moved. -/
theorem setIrq_requests {irq : Fin 16} (high : Bool) :
    (p.setIrq irq high).master.requests 1 =
      if irq = 1 then high && (!p.master.lines 1 || p.master.requests 1)
      else p.master.requests 1 := by
  unfold setIrq
  by_cases h_master : (irq : ℕ) < 8
  · rw [dif_pos h_master, relay_requests _ (by decide)]
    by_cases h : irq = 1
    · subst h
      rw [if_pos rfl]
      exact Function.update_self (1 : Fin 8) _ p.master.requests
    · have h_ne : (1 : Fin 8) ≠ ⟨irq, h_master⟩ := by
        intro h_eq
        exact h (Fin.ext (congrArg Fin.val h_eq).symm)
      rw [if_neg h]
      exact Function.update_of_ne h_ne ..
  · have h : irq ≠ 1 := by
      rintro rfl
      exact h_master (by decide)
    rw [dif_neg h_master, relay_requests _ (by decide), if_neg h]

end PicPair

namespace PicInv

variable {p : PicPair}

theorem relay (h : PicInv p) : PicInv p.relay :=
  ⟨h.master.setLine _ _, h.slave, h.slave_idle, h.line⟩

theorem setIrq (h : PicInv p) (irq : Fin 16) (high : Bool) :
    PicInv (p.setIrq irq high) ∧
      (p.setIrq irq high).master.inService = p.master.inService := by
  unfold PicPair.setIrq
  split
  · exact ⟨relay ⟨h.master.setLine _ _, h.slave, h.slave_idle, h.line⟩, rfl⟩
  · exact ⟨relay ⟨h.master, h.slave.setLine _ _, h.slave_idle, h.line⟩, rfl⟩

/-- With nothing in service, an interrupt is for the keyboard. -/
theorem winner (h : PicInv p) (h_free : ∀ j, p.master.inService j = false) :
    p.master.winner = if p.master.requests 1 then some 1 else none := by
  have h_masked : ∀ j : Fin 8, j ≠ 1 → (0xfd#8).getLsbD j = true := by decide
  have h_winner := p.master.winner_of_single (i := 1) h_free fun j hj => by
    rw [h.master.mask]
    exact h_masked j hj
  have h_asking : p.master.asking 1 = p.master.requests 1 := by
    rw [h.master.asking]
    exact Bool.and_true _
  rw [h_winner, h_asking]

theorem output_eq (h : PicInv p) (h_free : ∀ j, p.master.inService j = false) :
    p.output = p.master.requests 1 := by
  rw [PicPair.output, Pic.output, h.winner h_free]
  cases p.master.requests 1 <;> rfl

/-- The vector that the processor gets, and what is served from then on. -/
theorem ack (h : PicInv p) (h_free : ∀ j, p.master.inService j = false) :
    PicInv p.ack.2 ∧ p.ack.2.master.requests 1 = false ∧
      p.ack.1 = if p.master.requests 1 then 0x21 else 0x27 := by
  have h_winner := h.winner h_free
  -- neither line 1 nor line 7 is that of the second controller
  have h_ack : p.ack = ((p.master.ack.2).vector p.master.ack.1,
      PicPair.relay ⟨p.master.ack.2, p.slave⟩) := by
    unfold PicPair.ack
    cases h_request : p.master.requests 1 with
    | true => simp [Pic.ack, h_winner, h_request, h.master.cascade]
    | false => simp [Pic.ack, h_winner, h_request, h.master.cascade]
  rw [h_ack]
  refine ⟨relay ⟨h.master.ack, h.slave, h.slave_idle, fun j h_j => ?_⟩, ?_, ?_⟩
  · simp only [Pic.ack, h_winner] at h_j
    split at h_j
    · rw [h_free] at h_j
      cases h_j
    · next i h_i =>
      -- the line that comes into service is that of the keyboard
      by_contra h_ne
      obtain rfl : i = 1 := by
        split at h_i
        · exact (Option.some.inj h_i).symm
        · cases h_i
      have h_other : p.master.inService j = true := by
        rw [← h_j]
        exact (Function.update_of_ne h_ne _ p.master.inService).symm
      rw [h_free] at h_other
      cases h_other
  · rw [PicPair.relay_requests _ (by decide)]
    cases h_request : p.master.requests 1 <;> simp [Pic.ack, h_winner, h_request]
  · rw [Pic.vector, h.master.ack.base]
    cases h_request : p.master.requests 1 <;> simp [Pic.ack, h_winner, h_request]

/-- The end of an interrupt at the second controller, which serves none. -/
theorem out_slave (h : PicInv p) : PicInv (p.out 0xa0 0x20) ∧
    (p.out 0xa0 0x20).master.requests 1 = p.master.requests 1 := by
  refine ⟨relay ⟨h.master, h.slave.ends, fun j => ?_, h.line⟩, PicPair.relay_requests _ (by decide)⟩
  refine p.slave.endOfInterrupt_of_single (i := 0) 0x20 (by decide) (fun k h_k => ?_) j
  rw [h.slave_idle] at h_k
  cases h_k

/-- The end of an interrupt at the first controller: nothing is in service any more. -/
theorem out_master (h : PicInv p) : PicInv (p.out 0x20 0x20) ∧
    (p.out 0x20 0x20).master.requests 1 = p.master.requests 1 ∧
    ∀ j, (p.out 0x20 0x20).master.inService j = false := by
  have h_none (j : Fin 8) : (p.master.writeControl 0x20).inService j = false :=
    p.master.endOfInterrupt_of_single 0x20 (by decide) h.line j
  obtain ⟨inService, h_end⟩ := p.master.endOfInterrupt_eq 0x20
  refine ⟨relay ⟨h.master.ends, h.slave, h.slave_idle, fun j h_j => ?_⟩, ?_, h_none⟩
  · rw [h_none] at h_j
    cases h_j
  · refine (PicPair.relay_requests _ (by decide)).trans ?_
    rw [Pic.writeControl_end, h_end]

end PicInv

/-- What `pic_init` makes of any two controllers. -/
theorem picInv_outs (p : PicPair) : PicInv (p.outs picWrites) ∧
    (∀ j, (p.outs picWrites).master.inService j = false) ∧
    (p.outs picWrites).master.requests 1 = false := by
  refine ⟨⟨⟨rfl, rfl, rfl, rfl, rfl, rfl⟩, ⟨rfl, rfl, rfl, rfl, rfl, rfl⟩, fun _ => rfl, ?_⟩,
    fun _ => rfl, rfl⟩
  intro j h
  cases h

/-! ### Runs -/

/-- What holds in every state. -/
structure DeviceInv (st : PicState) : Prop where
  pics : PicInv st.pics
  /-- Nothing is in service when the processor is not in a stub. -/
  free : st.phase = .code ∨ st.phase = .signalled → ∀ j, st.pics.master.inService j = false
  vectors : ∀ v ∈ st.delivered, v = 0x21 ∨ v = 0x27
  /-- A request that is latched has not been served. -/
  once : st.delivered.count 0x21 + (if st.pics.master.requests 1 then 1 else 0) ≤ st.edges

variable {st st' : PicState}

/-- A line moves. -/
theorem deviceInv_line (h : DeviceInv st) (irq : Fin 16) (high : Bool) :
    DeviceInv { st with
      pics := st.pics.setIrq irq high
      edges := st.edges + if st.rises irq high then 1 else 0 } := by
  obtain ⟨h_pics, h_inService⟩ := h.pics.setIrq irq high
  refine ⟨h_pics, fun h_phase j => ?_, h.vectors, ?_⟩
  · rw [h_inService]
    exact h.free h_phase j
  · have h_once := h.once
    have h_count : st.delivered.count 0x21 ≤ st.edges := (Nat.le_add_right _ _).trans h_once
    simp only [PicPair.setIrq_requests, PicState.rises]
    by_cases h_irq : irq = 1
    · have h_line : st.pics.isHigh 1 = st.pics.master.lines 1 := rfl
      cases high with
      | false => simpa [h_irq] using h_count
      | true =>
        -- a line that has been high already makes no new request
        by_cases h_high : st.pics.master.lines 1 = true
        · simpa [h_irq, h_line, h_high] using h_once
        · simpa [h_irq, h_line, h_high] using h_count
    · have h_nat : (irq : ℕ) ≠ 1 := fun h => h_irq (Fin.ext h)
      simpa [h_irq, h_nat] using h_once

/-- The processor gets a vector. -/
theorem deviceInv_acknowledge (h : DeviceInv st) (h_phase : st.phase = .signalled) :
    DeviceInv { st with
      pics := st.pics.ack.2
      phase := .stub
      intr := .off
      delivered := st.delivered ++ [st.pics.ack.1] } := by
  obtain ⟨h_pics, h_request, h_vector⟩ := h.pics.ack (h.free (.inr h_phase))
  have h_once := h.once
  refine ⟨h_pics, fun h_code => ?_, fun v hv => ?_, ?_⟩
  · rcases h_code with h_code | h_code <;> cases h_code
  · rcases List.mem_append.mp hv with hv | hv
    · exact h.vectors v hv
    · obtain rfl := List.mem_singleton.mp hv
      rw [h_vector]
      split
      · exact .inl rfl
      · exact .inr rfl
  · -- the request is served now
    rw [h_request, List.count_append, h_vector]
    cases h_latched : st.pics.master.requests 1 <;> simp [h_latched] at h_once ⊢ <;> omega

theorem deviceInv_step (h : DeviceInv st) {a : PicAct} (h_step : picSys.Step st a st') :
    DeviceInv st' := by
  obtain ⟨h_enabled, h_exec⟩ := h_step
  cases a with
  | line irq high =>
    obtain rfl := Except.ok.inj h_exec
    exact deviceInv_line h irq high
  | setIntr status =>
    obtain rfl := Except.ok.inj h_exec
    exact ⟨h.pics, h.free, h.vectors, h.once⟩
  | signal =>
    obtain rfl := Except.ok.inj h_exec
    exact ⟨h.pics, fun _ => h.free (.inl h_enabled.1), h.vectors, h.once⟩
  | acknowledge =>
    obtain rfl := Except.ok.inj h_exec
    exact deviceInv_acknowledge h h_enabled
  | trap =>
    obtain rfl := Except.ok.inj h_exec
    refine ⟨h.pics, fun h_code => ?_, h.vectors, h.once⟩
    rcases h_code with h_code | h_code <;> cases h_code
  | out =>
    simp only [picSys] at h_exec
    split at h_exec
    · obtain rfl := Except.ok.inj h_exec
      obtain ⟨h_pics, h_request⟩ := h.pics.out_slave
      refine ⟨h_pics, fun h_code => ?_, h.vectors, ?_⟩
      · rcases h_code with h_code | h_code <;> cases h_code
      · rw [h_request]
        exact h.once
    · -- the stub is left with nothing in service
      obtain rfl := Except.ok.inj h_exec
      obtain ⟨h_pics, h_request, h_free⟩ := h.pics.out_master
      refine ⟨h_pics, fun _ => h_free, h.vectors, ?_⟩
      rw [h_request]
      exact h.once

theorem deviceInv_of_reachable (h : picSys.Reachable st) : DeviceInv st := by
  refine h.invariant (P := DeviceInv) (fun st h_init => ?_)
    fun _ _ _ h h_step => deviceInv_step h h_step
  obtain ⟨⟨p, s, h_ports, h_pics⟩, -, -, h_delivered, h_edges⟩ := h_init
  rw [picInit_ports, h_ports, List.nil_append] at h_pics
  obtain ⟨h_inv, h_free, h_request⟩ := picInv_outs p
  rw [← h_pics] at h_inv h_free h_request
  refine ⟨h_inv, fun _ => h_free, ?_, ?_⟩
  · simp [h_delivered]
  · simp [h_delivered, h_request]

/-- **Only the keyboard interrupts**, whatever state the controllers were in before, and it is
served at once and once. -/
theorem only_keyboard_interrupts (h : picSys.Reachable st) : KeyboardOnly st := by
  have h_inv := deviceInv_of_reachable h
  refine ⟨h_inv.vectors, (Nat.le_add_right _ _).trans h_inv.once, fun h_code => ?_⟩
  rw [h_inv.pics.output_eq (h_inv.free (.inl h_code))]

/-- Two controllers on which nothing has been done. -/
def idlePic : Pic where
  stage := .ready
  level := false
  single := false
  hasIcw4 := false
  base := 0
  cascade := 0
  icw4 := 0
  mask := 0
  lines _ := false
  requests _ := false
  inService _ := false

/-- The controllers after `pic_init`. -/
def picStart : PicState where
  pics := PicPair.outs ⟨idlePic, idlePic⟩ picWrites
  phase := .code
  intr := .off
  delivered := []
  edges := 0

/-- The timer and a key, and then a key that is let go too early. -/
def timerAndKey : List PicAct :=
  [.line 0 true, .setIntr .on, .line 1 true, .signal, .acknowledge, .out, .out, .setIntr .on,
    .line 1 false, .line 1 true, .signal, .line 1 false, .acknowledge, .out, .out]

/-- A run in which both vectors are given. -/
theorem only_keyboard_interrupts_run : ∃ st, picSys.Reachable st ∧
    st.delivered = [0x21, 0x27] ∧ st.edges = 2 ∧ KeyboardOnly st := by
  have h_play : ((picSys.play picStart timerAndKey).any fun st =>
      decide (st.delivered = [0x21, 0x27] ∧ st.edges = 2)) = true := by
    decide +kernel
  obtain ⟨st, h_st, h_run⟩ := (Option.any_eq_true _ _).mp h_play
  obtain ⟨h_delivered, h_edges⟩ := of_decide_eq_true h_run
  have h_init : picSys.Reachable picStart :=
    .init ⟨⟨⟨idlePic, idlePic⟩, IdtState.blank, rfl, rfl⟩, rfl, rfl, rfl, rfl⟩
  have h_reach := h_init.play timerAndKey h_st
  exact ⟨st, h_reach, h_delivered, h_edges, only_keyboard_interrupts h_reach⟩

end ToiletOS
