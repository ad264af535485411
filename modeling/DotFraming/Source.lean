import DotFraming.Fault

/-!
# Character sources

A source hands out pieces and takes one piece back. Everything above it asks for no more than that.

* `Action` : a computation on a state that may fail; the state it leaves counts in both cases.
* `AnySource` : what can be asked of a source. Nothing is known of how it answers.
* `CharacterSource` : the sources that most is told of. Their laws say that a source holds finitely
  much, that handing out a piece uses up some of it, and that a piece taken back is the next one
  handed out.
-/

namespace DotFraming

/-- A computation on states `σ` that gives an `α` or fails. Either way it leaves a state. -/
abbrev Action (σ α : Type) := EStateM Fault σ α

/-- The state that a computation left, whether it succeeded or failed. -/
def stateAfter {σ α : Type} : EStateM.Result Fault σ α → σ
  | .ok _ s => s
  | .error _ s => s

@[simp] theorem stateAfter_ok {σ α : Type} (a : α) (s : σ) :
    stateAfter (.ok a s : EStateM.Result Fault σ α) = s := rfl

@[simp] theorem stateAfter_error {σ α : Type} (e : Fault) (s : σ) :
    stateAfter (.error e s : EStateM.Result Fault σ α) = s := rfl

/-- One computation after another: the second runs on the state that the first left, unless the
first failed. -/
theorem bind_apply {σ α β : Type} (x : Action σ α) (f : α → Action σ β) (s : σ) :
    (x >>= f) s =
      match x s with
      | .ok a s' => f a s'
      | .error e s' => .error e s' := by
  cases h : x s <;> simp [bind, EStateM.bind, h]

theorem bind_of_ok {σ α β : Type} {x : Action σ α} {f : α → Action σ β} {a : α} {s s' : σ}
    (h : x s = .ok a s') : (x >>= f) s = f a s' := by
  rw [bind_apply, h]

theorem bind_of_error {σ α β : Type} {x : Action σ α} {f : α → Action σ β} {e : Fault} {s s' : σ}
    (h : x s = .error e s') : (x >>= f) s = .error e s' := by
  rw [bind_apply, h]

/-- What succeeds as a whole succeeds part by part. -/
theorem exists_of_bind_ok {σ α β : Type} {x : Action σ α} {f : α → Action σ β} {b : β} {s t : σ}
    (h : (x >>= f) s = .ok b t) : ∃ a m, x s = .ok a m ∧ f a m = .ok b t := by
  rw [bind_apply] at h
  split at h
  · next a m hx => exact ⟨a, m, hx, h⟩
  · cases h

theorem pure_apply {σ α : Type} (a : α) (s : σ) : (pure a : Action σ α) s = .ok a s := rfl

/-- What can be asked of a source. Nothing is known of how it answers: it may never end, and lose
what it takes back. -/
class AnySource (σ : Type) where
  /-- Hands out the next piece, or `none` at the end of the stream. -/
  read : Action σ (Option Piece)
  /-- Takes a piece back. -/
  unread : Piece → Action σ Unit
  /-- Whether a piece can be handed out without waiting. -/
  ready : σ → Except Fault Bool

namespace CharacterSource

-- the calls go by the same names, whether there are laws or not
export AnySource (read unread ready)

end CharacterSource

/-- A source of pieces, which holds finitely much. -/
class CharacterSource (σ : Type) extends AnySource σ where
  /-- A bound on the number of pieces that are left. -/
  remaining : σ → Nat
  /-- Reading never adds to what is left. -/
  remaining_read : ∀ s : σ, remaining (stateAfter (read s)) ≤ remaining s
  /-- Handing out a piece uses something up. -/
  remaining_read_some : ∀ {s s' : σ} {p : Piece}, read s = .ok (some p) s' →
    remaining s' < remaining s
  /-- Taking a piece back adds at most one. -/
  remaining_unread : ∀ (s : σ) (p : Piece), remaining (stateAfter (unread p s)) ≤ remaining s + 1
  /-- A piece taken back is the next one handed out. -/
  read_of_unread : ∀ {s s' : σ} {p : Piece}, unread p s = .ok () s' →
    ∃ s'', read s' = .ok (some p) s''

end DotFraming
