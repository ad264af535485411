import DotFraming.Log
import DotFraming.Source

/-!
# Runs side by side

Two runs of the same program, on states that differ in something that does not matter to it, do the
same at every step. So they are compared step by step: related states lead to the same value or to
the same failure, and to related states again.

* `Agree`, `Simulates` : this of two results, and of two computations.
* `Simulation` : related sources answer alike, and related logs take up the same notes.
-/

namespace DotFraming

variable {σ ρ α β : Type}

/-- The same value or the same failure, with states that are related. -/
inductive Agree (R : σ → ρ → Prop) :
    EStateM.Result Fault σ α → EStateM.Result Fault ρ α → Prop where
  /-- Both succeed. -/
  | ok (a : α) {s : σ} {t : ρ} (related : R s t) : Agree R (.ok a s) (.ok a t)
  /-- Both fail. -/
  | error (e : Fault) {s : σ} {t : ρ} (related : R s t) : Agree R (.error e s) (.error e t)

/-- Two computations agree on related states. -/
def Simulates (R : σ → ρ → Prop) (x : Action σ α) (y : Action ρ α) : Prop :=
  ∀ s t, R s t → Agree R (x s) (y t)

namespace Agree

variable {R : σ → ρ → Prop} {r : EStateM.Result Fault σ α} {r' : EStateM.Result Fault ρ α} {s : σ}

theorem of_ok {a : α} (h : Agree R r r') (hr : r = .ok a s) : ∃ t, r' = .ok a t ∧ R s t := by
  cases h with
  | ok b hrel =>
    cases hr
    exact ⟨_, rfl, hrel⟩
  | error e _ => cases hr

theorem of_error {e : Fault} (h : Agree R r r') (hr : r = .error e s) :
    ∃ t, r' = .error e t ∧ R s t := by
  cases h with
  | ok b _ => cases hr
  | error e hrel =>
    cases hr
    exact ⟨_, rfl, hrel⟩

end Agree

namespace Simulates

variable {R : σ → ρ → Prop} {x x' : Action σ α} {y y' : Action ρ α}

theorem pure (a : α) : Simulates R (pure a) (pure a) := fun _ _ h => .ok a h

theorem bind {k : α → Action σ β} {l : α → Action ρ β} (h : Simulates R x y)
    (h' : ∀ a, Simulates R (k a) (l a)) : Simulates R (x >>= k) (y >>= l) := by
  intro s t hst
  have hfirst := h s t hst
  rw [bind_apply, bind_apply]
  cases hx : x s with
  | ok a s' =>
    obtain ⟨t', hy, hst'⟩ := hfirst.of_ok hx
    rw [hy]
    exact h' a s' t' hst'
  | error e s' =>
    obtain ⟨t', hy, hst'⟩ := hfirst.of_error hx
    rw [hy]
    exact .error e hst'

theorem ite {p : Prop} [Decidable p] (h : Simulates R x y) (h' : Simulates R x' y') :
    Simulates R (if p then x else x') (if p then y else y') := by
  split
  · exact h
  · exact h'

end Simulates

/-- Sources related by `R` answer alike and stay related, and logs related by `Q` stay related if
the same is noted in both. -/
structure Simulation [CharacterSource σ] [CharacterSource ρ] (R : σ → ρ → Prop)
    (Q : Log → Log → Prop) : Prop where
  /-- Reading. -/
  read : Simulates R CharacterSource.read CharacterSource.read
  /-- Handing back. -/
  unread : ∀ p, Simulates R (CharacterSource.unread p) (CharacterSource.unread p)
  /-- Asking whether it is ready. -/
  ready : ∀ s t, R s t → CharacterSource.ready t = CharacterSource.ready s
  /-- Noting something. -/
  note : ∀ l m, Q l m → ∀ level message context,
    Q (l.note level message context) (m.note level message context)

end DotFraming
