import ToiletOS.Framework.RelyGuarantee
import ToiletOS.Mem.Paging

/-!
# Kernel code and its accesses to memory

Kernel code is a program (`Kern`) whose operations are the loads and stores of bytes
and words at virtual addresses. An access goes through the page tables that are in
memory at that moment, so that the code works on the very tables that its
own accesses depend on, and one to a page that is not mapped is a page fault.
Besides, code stops where an `ASSERT` fails; `panic_spin` then keeps the processor.

The marks record what an allocation has found and taken. No code reads them.
-/

namespace ToiletOS

/-- `struct bitmap`. -/
structure Bitmap where
  btmpBytesLen : BitVec 32
  bits : BitVec 32
  deriving DecidableEq, Repr

/-- An access to memory. Words are at addresses that 4 divides. -/
inductive Access
  | load8 (a : BitVec 32)
  | store8 (a : BitVec 32) (v : BitVec 8)
  | load32 (a : BitVec 32)
  | store32 (a : BitVec 32) (v : BitVec 32)
  deriving DecidableEq, Repr

/-- What an access returns. -/
def Access.Res : Access → Type
  | load8 _ => BitVec 8
  | store8 _ _ => Unit
  | load32 _ => BitVec 32
  | store32 _ _ => Unit

/-- How the kernel stops. -/
inductive Halt
  | assertion | pageFault
  deriving DecidableEq, Repr

/-- What an allocation records. -/
inductive AllocMark
  -- a scan has come to a byte that is not full
  | found (btmp : Bitmap)
  -- a scan has failed
  | lost
  -- the virtual pages of a call are reserved
  | range (vaddr pageCount : BitVec 32)
  -- a frame is taken
  | frame (pageAddr : BitVec 32)
  deriving DecidableEq, Repr

/-- The operations of kernel code. -/
abbrev kernelSig : Signature where
  Op := Access
  Res := Access.Res
  Mark := AllocMark
  Err := Halt

/-- Kernel code that returns an `α`. -/
abbrev Kern (α : Type) : Type := Prog kernelSig α

/-- The effect of an access. -/
def Access.exec : (o : Access) → ByteMemory → Except Halt (o.Res × ByteMemory)
  | load8 a, m => match translate m a with
    | some p => .ok (m p, m)
    | none => .error .pageFault
  | store8 a v, m => match translate m a with
    | some p => .ok ((), m.store8 p v)
    | none => .error .pageFault
  | load32 a, m => match translate m a with
    | some p => .ok (m.load32 p, m)
    | none => .error .pageFault
  | store32 a v, m => match translate m a with
    | some p => .ok ((), m.store32 p v)
    | none => .error .pageFault

/-- Kernel code that runs alone, without a record. -/
def kernelSem : Semantics kernelSig ByteMemory where
  exec := Access.exec
  note _ m := m

namespace Kern

/-- `*a`, for a byte. -/
def load8 (a : BitVec 32) : Kern (BitVec 8) := Prog.op (S := kernelSig) (.load8 a) .ret

/-- `*a = v`, for a byte. -/
def store8 (a : BitVec 32) (v : BitVec 8) : Kern Unit :=
  Prog.op (S := kernelSig) (.store8 a v) .ret

/-- `*a`, for a word. -/
def load32 (a : BitVec 32) : Kern (BitVec 32) := Prog.op (S := kernelSig) (.load32 a) .ret

/-- `*a = v`, for a word. -/
def store32 (a : BitVec 32) (v : BitVec 32) : Kern Unit :=
  Prog.op (S := kernelSig) (.store32 a v) .ret

/-- `ASSERT`. -/
def assert (c : Prop) [Decidable c] : Kern Unit := if c then .ret () else .stop .assertion

/-- Make a record. -/
def record (m : AllocMark) : Kern Unit := Prog.record (S := kernelSig) m

/-- The loop of `memset`, with `len` bytes to go. -/
def memsetLoop (val : BitVec 8) : ℕ → BitVec 32 → Kern Unit
  | 0, _ => return ()
  | len + 1, dst => do
    store8 dst val
    memsetLoop val len (dst + 1#32)

/-- `memset`. -/
def memset (dest : BitVec 32) (val : BitVec 8) (len : BitVec 32) : Kern Unit := do
  assert (dest ≠ 0#32)
  memsetLoop val len.toNat dest

end Kern

/-! ### Rules -/

/-- An environment whose operations are those of kernel code, on the memory that is
part of its states. -/
structure Accesses {σ : Type} (E : Env kernelSig σ) (mem : σ → ByteMemory) : Prop where
  load8 : ∀ s a, E.exec (.load8 a) s = match translate (mem s) a with
    | some p => .ok (mem s p, s)
    | none => .error .pageFault
  load32 : ∀ s a, E.exec (.load32 a) s = match translate (mem s) a with
    | some p => .ok ((mem s).load32 p, s)
    | none => .error .pageFault

section Rules

variable {σ β : Type} {E : Env kernelSig σ} {mem : σ → ByteMemory} {Q : β → σ → σ → Prop}
  {s₀ s : σ}

open Env

/-- A load from a page that is mapped whenever it is done. -/
theorem Accesses.wp_load8 (h : Accesses E mem) {a p : BitVec 32} {f : BitVec 8 → Kern β}
    (h_guar : E.guar s₀ s) (h_map : ∀ s₁, E.rely s s₁ → translate (mem s₁) a = some p)
    (h_next : ∀ s₁, E.rely s s₁ → E.wp Q (f (mem s₁ p)) s₁ s₁) :
    E.wp Q (Kern.load8 a >>= f) s₀ s := by
  refine ⟨h_guar, fun s₁ h_rely _ => ?_⟩
  rw [h.load8, h_map s₁ h_rely]
  exact h_next s₁ h_rely

/-- A load that may be a page fault. -/
theorem Accesses.wp_load8' (h : Accesses E mem) {a : BitVec 32} {f : BitVec 8 → Kern β}
    (h_guar : E.guar s₀ s) (h_fault : ∀ s₁, E.rely s s₁ → E.fails .pageFault s₁)
    (h_next : ∀ s₁ b, E.rely s s₁ → (∀ p, translate (mem s₁) a = some p → b = mem s₁ p) →
      E.wp Q (f b) s₁ s₁) :
    E.wp Q (Kern.load8 a >>= f) s₀ s := by
  refine ⟨h_guar, fun s₁ h_rely _ => ?_⟩
  rw [h.load8]
  cases h_map : translate (mem s₁) a with
  | none => exact h_fault s₁ h_rely
  | some p => exact h_next s₁ _ h_rely fun q hq => by rw [Option.some.inj (h_map.symm.trans hq)]

theorem Accesses.wp_load32 (h : Accesses E mem) {a p : BitVec 32} {f : BitVec 32 → Kern β}
    (h_guar : E.guar s₀ s) (h_map : ∀ s₁, E.rely s s₁ → translate (mem s₁) a = some p)
    (h_next : ∀ s₁, E.rely s s₁ → E.wp Q (f ((mem s₁).load32 p)) s₁ s₁) :
    E.wp Q (Kern.load32 a >>= f) s₀ s := by
  refine ⟨h_guar, fun s₁ h_rely _ => ?_⟩
  rw [h.load32, h_map s₁ h_rely]
  exact h_next s₁ h_rely

theorem wp_assert {c : Prop} [Decidable c] {f : Unit → Kern β}
    (h_fails : ¬ c → E.fails .assertion s)
    (h_next : c → E.wp Q (f ()) s₀ s) : E.wp Q (Kern.assert c >>= f) s₀ s := by
  unfold Kern.assert
  split
  · next h => exact h_next h
  · next h => exact h_fails h

theorem wp_record {k : AllocMark} {f : Unit → Kern β} (h_next : E.wp Q (f ()) s₀ (E.note k s)) :
    E.wp Q (Kern.record k >>= f) s₀ s := h_next

end Rules

/-! ### Running alone -/

theorem accesses_ofAlone (fails : Halt → ByteMemory → Prop) :
    Accesses (Env.ofAlone kernelSem fails) id where
  load8 _ _ := rfl
  load32 _ _ := rfl

section Run

variable {m : ByteMemory} {a p : BitVec 32} {β : Type}

theorem run_load8 (h : translate m a = some p) (f : BitVec 8 → Kern β) :
    (Kern.load8 a >>= f).run kernelSem m = (f (m p)).run kernelSem m := by
  have h_exec : kernelSem.exec (.load8 a) m = .ok (m p, m) := by
    simp only [kernelSem, Access.exec, h]
  exact Prog.run_op h_exec

theorem run_load32 (h : translate m a = some p) (f : BitVec 32 → Kern β) :
    (Kern.load32 a >>= f).run kernelSem m = (f (m.load32 p)).run kernelSem m := by
  have h_exec : kernelSem.exec (.load32 a) m = .ok (m.load32 p, m) := by
    simp only [kernelSem, Access.exec, h]
  exact Prog.run_op h_exec

theorem run_store8 (h : translate m a = some p) (v : BitVec 8) :
    (Kern.store8 a v).run kernelSem m = .ok ((), m.store8 p v) := by
  have h_exec : kernelSem.exec (.store8 a v) m = .ok ((), m.store8 p v) := by
    simp only [kernelSem, Access.exec, h]
  exact Prog.run_op h_exec

theorem run_store32 (h : translate m a = some p) (v : BitVec 32) :
    (Kern.store32 a v).run kernelSem m = .ok ((), m.store32 p v) := by
  have h_exec : kernelSem.exec (.store32 a v) m = .ok ((), m.store32 p v) := by
    simp only [kernelSem, Access.exec, h]
  exact Prog.run_op h_exec

theorem run_assert {c : Prop} [Decidable c] (h : c) (f : Unit → Kern β) :
    (Kern.assert c >>= f).run kernelSem m = (f ()).run kernelSem m := by
  rw [Kern.assert, if_pos h]
  rfl

end Run
end ToiletOS
