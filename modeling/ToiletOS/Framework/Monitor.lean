import Mathlib.Data.List.Basic
import Mathlib.Tactic.TypeStar

/-!
# Monitors

A thread enters a monitor, carries out some operations inside, one after another, and leaves. An
operation is a list of steps. `MonitorTrace` says in which order these events may occur when one
thread at most is inside at a time: it is the specification that a lock is used to meet.

* `inSections_of_trace` — the events of such a trace come in sections, one for each stay of a
  thread, with nothing of another thread in between;
* `written_of_trace` — the steps are those of whole operations, in the order in which the
  operations were started.
-/

namespace ToiletOS

/-- What happens around a monitor. -/
inductive MonitorEvent (T C F : Type*)
  | enter (t : T)
  /-- An operation starts. -/
  | start (t : T) (c : C)
  /-- A step of the operation. -/
  | write (t : T) (f : F)
  | leave (t : T)

/-- Who is inside, and what is left of the operation. -/
structure Monitor (T F : Type*) where
  inside : Option T
  pending : List F

variable {T C F : Type*} {body : T → C → List F}

/-- One event. -/
inductive MonitorStep (body : T → C → List F) :
    Monitor T F → MonitorEvent T C F → Monitor T F → Prop
  | enter (t : T) : MonitorStep body ⟨none, []⟩ (.enter t) ⟨some t, []⟩
  | start (t : T) (c : C) : MonitorStep body ⟨some t, []⟩ (.start t c) ⟨some t, body t c⟩
  | write (t : T) (f : F) (rest : List F) :
      MonitorStep body ⟨some t, f :: rest⟩ (.write t f) ⟨some t, rest⟩
  | leave (t : T) : MonitorStep body ⟨some t, []⟩ (.leave t) ⟨none, []⟩

/-- The events of a monitor so far, and where it stands. Nobody is inside at first. -/
inductive MonitorTrace (body : T → C → List F) : List (MonitorEvent T C F) → Monitor T F → Prop
  | nil : MonitorTrace body [] ⟨none, []⟩
  | snoc {trace : List (MonitorEvent T C F)} {m m' : Monitor T F} {e : MonitorEvent T C F} :
      MonitorTrace body trace m → MonitorStep body m e m' → MonitorTrace body (trace ++ [e]) m'

namespace Monitor

/-! ### Sections -/

/-- The events of an operation. -/
def operation (body : T → C → List F) (t : T) (c : C) : List (MonitorEvent T C F) :=
  .start t c :: (body t c).map (.write t)

/-- The events of a stay inside, before the thread leaves. -/
def stay (body : T → C → List F) (t : T) (cs : List C) : List (MonitorEvent T C F) :=
  .enter t :: cs.flatMap (operation body t)

/-- The events of stays that are over. -/
def sections (body : T → C → List F) (stays : List (T × List C)) : List (MonitorEvent T C F) :=
  stays.flatMap fun x => stay body x.1 x.2 ++ [.leave x.1]

theorem stay_snoc (t : T) (cs : List C) (c : C) :
    stay body t (cs ++ [c]) = stay body t cs ++ operation body t c := by
  unfold stay
  rw [List.flatMap_append, List.flatMap_singleton, List.cons_append]

theorem sections_snoc (stays : List (T × List C)) (t : T) (cs : List C) :
    sections body (stays ++ [(t, cs)]) = sections body stays ++ (stay body t cs ++ [.leave t]) := by
  unfold sections
  rw [List.flatMap_append, List.flatMap_singleton]

/-- The trace comes in sections. If somebody is inside, then what is left of the operation
completes the last one. -/
def InSections (body : T → C → List F) (trace : List (MonitorEvent T C F)) (m : Monitor T F) :
    Prop :=
  ∃ stays : List (T × List C),
    (m.inside = none → trace = sections body stays) ∧
    ∀ t, m.inside = some t → ∃ cs,
      trace ++ m.pending.map (.write t) = sections body stays ++ stay body t cs

/-- **Sections.** -/
theorem inSections_of_trace {trace : List (MonitorEvent T C F)} {m : Monitor T F}
    (h : MonitorTrace body trace m) : InSections body trace m := by
  induction h with
  | nil => exact ⟨[], fun _ => rfl, nofun⟩
  | @snoc trace m m' e h h_step ih =>
    obtain ⟨stays, h_none, h_some⟩ := ih
    cases h_step with
    | enter t =>
      -- a section is opened behind those that are over
      refine ⟨stays, nofun, fun u h_u => ?_⟩
      cases h_u
      refine ⟨[], ?_⟩
      rw [h_none rfl]
      exact List.append_nil _
    | start t c =>
      refine ⟨stays, nofun, fun u h_u => ?_⟩
      cases h_u
      obtain ⟨cs, h_cs⟩ := h_some t rfl
      rw [List.map_nil, List.append_nil] at h_cs
      refine ⟨cs ++ [c], ?_⟩
      rw [h_cs, stay_snoc, List.append_assoc, List.append_assoc]
      rfl
    | write t f rest =>
      refine ⟨stays, nofun, fun u h_u => ?_⟩
      cases h_u
      obtain ⟨cs, h_cs⟩ := h_some t rfl
      refine ⟨cs, ?_⟩
      rw [← h_cs, List.append_assoc]
      rfl
    | leave t =>
      obtain ⟨cs, h_cs⟩ := h_some t rfl
      rw [List.map_nil, List.append_nil] at h_cs
      refine ⟨stays ++ [(t, cs)], fun _ => ?_, nofun⟩
      rw [h_cs, sections_snoc, List.append_assoc]

/-- What every trace is a prefix of. -/
theorem InSections.isPrefix {trace : List (MonitorEvent T C F)} {m : Monitor T F}
    (h : InSections body trace m) : ∃ stays, trace <+: sections body stays := by
  obtain ⟨stays, h_none, h_some⟩ := h
  cases h_in : m.inside with
  | none => exact ⟨stays, [], by rw [List.append_nil]; exact h_none h_in⟩
  | some t =>
    obtain ⟨cs, h_cs⟩ := h_some t h_in
    refine ⟨stays ++ [(t, cs)], m.pending.map (.write t) ++ [.leave t], ?_⟩
    rw [← List.append_assoc, h_cs, sections_snoc, List.append_assoc]

/-! ### Steps -/

/-- The operations that were started. -/
def started (trace : List (MonitorEvent T C F)) : List (T × C) :=
  trace.filterMap fun e => match e with
  | .start t c => some (t, c)
  | _ => none

/-- The steps that were made. -/
def written (trace : List (MonitorEvent T C F)) : List F :=
  trace.filterMap fun e => match e with
  | .write _ f => some f
  | _ => none

theorem written_append (trace events : List (MonitorEvent T C F)) :
    written (trace ++ events) = written trace ++ written events := List.filterMap_append

theorem started_append (trace events : List (MonitorEvent T C F)) :
    started (trace ++ events) = started trace ++ started events := List.filterMap_append

/-- **Steps.** They are those of the operations in the order of their start, all but those that
are left of the last one. -/
theorem written_of_trace {trace : List (MonitorEvent T C F)} {m : Monitor T F}
    (h : MonitorTrace body trace m) :
    written trace ++ m.pending = (started trace).flatMap fun x => body x.1 x.2 := by
  induction h with
  | nil => rfl
  | @snoc trace m m' e h h_step ih =>
    rw [written_append, started_append, List.flatMap_append, ← ih]
    cases h_step with
    | enter t | leave t | start t c | write t f rest => simp [written, started]

end Monitor
end ToiletOS
