import Mathlib.Data.Finset.Basic
import Mathlib.Data.List.Infix
import Mathlib.Logic.Function.Basic

/-!
# Keys that are held, and flags that several keys share

Keys are pressed, repeat while they are held, and are released. `heldFrom` gives the keys that are
held after some events, and `Each P` says that every event has the property `P` in the state it
finds; `Each Possible` are the sequences that a keyboard can produce.

A driver that keeps one flag for a group of keys, set by every press and cleared by every release
(`markFrom`), has the right flags (`Tracks`) for as long as no key of a group is released while
another one of the group is held, and no longer (`tracks_iff`). The key type and the groups are
arbitrary.
-/

namespace ToiletOS

/-- What a keyboard reports. -/
inductive KeyEvent (κ : Type)
  | press (k : κ)
  -- A key that is held down is reported again.
  | typematic (k : κ)
  | release (k : κ)
  deriving DecidableEq, Repr

namespace KeyEvent

variable {κ γ : Type} [DecidableEq κ] [DecidableEq γ]

/-! ### The keys that are held -/

/-- The keys that are held after an event. -/
def hold (held : Finset κ) : KeyEvent κ → Finset κ
  | press k => insert k held
  | typematic _ => held
  | release k => held.erase k

/-- The event can happen while the keys `held` are. -/
def Possible (held : Finset κ) : KeyEvent κ → Prop
  | press k => k ∉ held
  | typematic k | release k => k ∈ held

instance (held : Finset κ) : ∀ e, Decidable (Possible held e)
  | press k => inferInstanceAs (Decidable (k ∉ held))
  | typematic k | release k => inferInstanceAs (Decidable (k ∈ held))

/-- The keys that are held after some events. -/
def heldFrom (held : Finset κ) (es : List (KeyEvent κ)) : Finset κ := es.foldl hold held

/-- Every event has the property `P` at the keys that are held before it. -/
def Each (P : Finset κ → KeyEvent κ → Prop) (held : Finset κ) : List (KeyEvent κ) → Prop
  | [] => True
  | e :: es => P held e ∧ Each P (hold held e) es

instance {P : Finset κ → KeyEvent κ → Prop} [∀ held e, Decidable (P held e)] (held : Finset κ) :
    ∀ es, Decidable (Each P held es)
  | [] => inferInstanceAs (Decidable True)
  | e :: es =>
    have : Decidable (Each P (hold held e) es) := instDecidableEach _ es
    inferInstanceAs (Decidable (_ ∧ _))

@[simp] theorem heldFrom_nil (held : Finset κ) : heldFrom held [] = held := rfl

@[simp] theorem heldFrom_cons (held : Finset κ) (e : KeyEvent κ) (es : List (KeyEvent κ)) :
    heldFrom held (e :: es) = heldFrom (hold held e) es := rfl

/-! ### Shared flags -/

variable (group : κ → Option γ)

/-- The flag of the group of `k` is written. -/
def mark (flag : γ → Bool) (k : κ) (b : Bool) : γ → Bool :=
  match group k with
  | some g => Function.update flag g b
  | none => flag

/-- The flags after an event. -/
def markBy (flag : γ → Bool) : KeyEvent κ → γ → Bool
  | press k | typematic k => mark group flag k true
  | release k => mark group flag k false

/-- The flags after some events. -/
def markFrom (flag : γ → Bool) (es : List (KeyEvent κ)) : γ → Bool := es.foldl (markBy group) flag

/-- A flag is set exactly when a key of its group is held. -/
def Tracks (flag : γ → Bool) (held : Finset κ) : Prop :=
  ∀ g, flag g = true ↔ ∃ k ∈ held, group k = some g

/-- A key of a group is released only when it is the last one that is held. -/
def Alone (held : Finset κ) : KeyEvent κ → Prop
  | press _ | typematic _ => True
  | release k => ∀ k' ∈ held, k' ≠ k → group k = none ∨ group k' ≠ group k

instance (held : Finset κ) : ∀ e, Decidable (Alone group held e)
  | press _ | typematic _ => inferInstanceAs (Decidable True)
  | release k =>
    inferInstanceAs (Decidable (∀ k' ∈ held, k' ≠ k → group k = none ∨ group k' ≠ group k))

variable {group} {flag : γ → Bool} {held : Finset κ} {e : KeyEvent κ} {k : κ}

omit [DecidableEq κ] in
theorem mark_none (h : group k = none) (b : Bool) : mark group flag k b = flag := by
  rw [mark, h]

omit [DecidableEq κ] in
theorem mark_some {g : γ} (h : group k = some g) (b : Bool) :
    mark group flag k b = Function.update flag g b := by
  rw [mark, h]

omit [DecidableEq κ] [DecidableEq γ] in
/-- No key is held, and no flag is set. -/
theorem tracks_empty : Tracks group (fun _ => false) (∅ : Finset κ) := by
  intro g
  refine iff_of_false Bool.false_ne_true ?_
  rintro ⟨k, h_k, -⟩
  exact absurd h_k (Finset.notMem_empty k)

/-- A press sets the flag of the key, which is held from then on. -/
theorem Tracks.insert (h : Tracks group flag held) :
    Tracks group (mark group flag k true) (insert k held) := by
  intro g
  cases h_k : group k with
  | none =>
    rw [mark_none h_k, h g]
    simp [h_k]
  | some g' =>
    rw [mark_some h_k]
    by_cases h_g : g = g'
    · subst h_g
      rw [Function.update_self]
      -- the pressed key is one that holds the flag up
      exact iff_of_true rfl ⟨k, Finset.mem_insert_self k held, h_k⟩
    · rw [Function.update_of_ne h_g, h g]
      have h_ne : some g' ≠ some g := fun h_eq => h_g (Option.some.inj h_eq).symm
      simp [h_k, h_ne]

omit [DecidableEq γ] in
/-- Releasing a key of another group leaves the held keys of a group. -/
theorem exists_mem_erase {g : γ} (h_k : group k ≠ some g) :
    (∃ k' ∈ held.erase k, group k' = some g) ↔ ∃ k' ∈ held, group k' = some g := by
  constructor
  · rintro ⟨k', h_k', h_g⟩
    exact ⟨k', Finset.mem_of_mem_erase h_k', h_g⟩
  · rintro ⟨k', h_k', h_g⟩
    refine ⟨k', Finset.mem_erase.mpr ⟨?_, h_k'⟩, h_g⟩
    rintro rfl
    exact h_k h_g

/-- A release clears the flag of the key, which is right if and only if no other key of the group
is held. -/
theorem Tracks.erase (h : Tracks group flag held) :
    Tracks group (mark group flag k false) (held.erase k) ↔ Alone group held (release k) := by
  cases h_k : group k with
  | none =>
    -- a key of no group moves no flag
    rw [mark_none h_k]
    refine iff_of_true (fun g => ?_) fun k' _ _ => Or.inl h_k
    rw [h g, exists_mem_erase (by rw [h_k]; exact (Option.some_ne_none g).symm)]
  | some g =>
    rw [mark_some h_k]
    constructor
    · intro h_after k' h_k' h_ne
      -- another key of the group would still be held, and the flag is down
      refine Or.inr fun h_same => ?_
      have h_flag := (h_after g).mpr
        ⟨k', Finset.mem_erase.mpr ⟨h_ne, h_k'⟩, h_same.trans h_k⟩
      rw [Function.update_self] at h_flag
      cases h_flag
    · intro h_alone g'
      by_cases h_g : g' = g
      · subst h_g
        rw [Function.update_self]
        refine iff_of_false Bool.false_ne_true ?_
        rintro ⟨k', h_k', h_same⟩
        obtain ⟨h_ne, h_held⟩ := Finset.mem_erase.mp h_k'
        -- the released key was the only one of its group
        rcases h_alone k' h_held h_ne with h_none | h_other
        · rw [h_k] at h_none
          cases h_none
        · exact h_other (h_same.trans h_k.symm)
      · have h_ne : group k ≠ some g' := by
          rw [h_k]
          exact fun h_eq => h_g (Option.some.inj h_eq).symm
        rw [Function.update_of_ne h_g, h g', exists_mem_erase h_ne]

/-- **One event** leaves the flags right exactly when it releases no key of a group while another
one is held. -/
theorem tracks_step (h : Tracks group flag held) (h_possible : Possible held e) :
    Tracks group (markBy group flag e) (hold held e) ↔ Alone group held e := by
  cases e with
  | press k => exact iff_of_true h.insert trivial
  | typematic k =>
    refine iff_of_true ?_ trivial
    have h_insert := h.insert (k := k)
    rwa [Finset.insert_eq_of_mem h_possible] at h_insert
  | release k => exact h.erase

/-- **The flags are right after every event** exactly when no event releases a key of a group while
another one of the group is held. -/
theorem tracks_iff {es : List (KeyEvent κ)} (h : Tracks group flag held)
    (h_possible : Each Possible held es) :
    (∀ pre, pre <+: es → Tracks group (markFrom group flag pre) (heldFrom held pre)) ↔
      Each (Alone group) held es := by
  induction es generalizing flag held with
  | nil =>
    refine iff_of_true (fun pre h_pre => ?_) trivial
    obtain rfl := List.prefix_nil.mp h_pre
    exact h
  | cons e es ih =>
    obtain ⟨h_e, h_es⟩ := h_possible
    constructor
    · intro h_all
      -- the first event is the prefix of length one
      have h_next : Tracks group (markBy group flag e) (hold held e) :=
        h_all [e] (List.prefix_append [e] es)
      refine ⟨(tracks_step h h_e).mp h_next, (ih h_next h_es).mp fun pre h_pre => ?_⟩
      exact h_all (e :: pre) ((List.prefix_cons_inj e).mpr h_pre)
    · rintro ⟨h_alone, h_rest⟩ pre h_pre
      have h_next := (tracks_step h h_e).mpr h_alone
      -- a prefix is empty, or the first event and a prefix of the others
      rcases List.prefix_cons_iff.mp h_pre with rfl | ⟨pre', rfl, h_pre'⟩
      · exact h
      · exact (ih h_next h_es).mpr h_rest pre' h_pre'

end KeyEvent
end ToiletOS
