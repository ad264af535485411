import DotFraming.Source

/-!
# Sources that keep a record of the calls

* `Call` : a call on a source and its outcome.
* `Traced` : a source together with the calls made on it, which behaves as the source does.
-/

namespace DotFraming

/-- A call on a source. -/
inductive Call where
  /-- A read, and what it gave. -/
  | read (outcome : Except Fault (Option Piece))
  /-- An attempt to hand a piece back, and whether it was taken. -/
  | unread (piece : Piece) (outcome : Except Fault Unit)

/-- A source and the calls made on it. -/
structure Traced (σ : Type) where
  /-- The source. -/
  source : σ
  /-- The calls, the latest first. -/
  calls : List Call := []

namespace Traced

section

variable {σ : Type} [AnySource σ]

/-- Reads from the source. -/
def read : Action (Traced σ) (Option Piece) := fun s =>
  match CharacterSource.read s.source with
  | .ok p source => .ok p ⟨source, .read (.ok p) :: s.calls⟩
  | .error e source => .error e ⟨source, .read (.error e) :: s.calls⟩

/-- Hands a piece back to the source. -/
def unread (p : Piece) : Action (Traced σ) Unit := fun s =>
  match CharacterSource.unread p s.source with
  | .ok () source => .ok () ⟨source, .unread p (.ok ()) :: s.calls⟩
  | .error e source => .error e ⟨source, .unread p (.error e) :: s.calls⟩

instance : AnySource (Traced σ) where
  read := read
  unread := unread
  ready s := CharacterSource.ready s.source

end

variable {σ : Type} [CharacterSource σ]

instance : CharacterSource (Traced σ) where
  read := read
  unread := unread
  ready s := CharacterSource.ready s.source
  remaining s := CharacterSource.remaining s.source
  remaining_read s := by
    have h := CharacterSource.remaining_read s.source
    unfold read
    split <;> simp_all
  remaining_read_some {s s' p} h := by
    unfold read at h
    split at h
    · next hr =>
      cases h
      exact CharacterSource.remaining_read_some hr
    · cases h
  remaining_unread s p := by
    have h := CharacterSource.remaining_unread s.source p
    unfold unread
    split <;> simp_all
  read_of_unread {s s' p} h := by
    unfold unread at h
    split at h
    · next hu =>
      cases h
      obtain ⟨s'', hr⟩ := CharacterSource.read_of_unread hu
      exact ⟨⟨s'', _⟩, by simp [read, hr]; rfl⟩
    · cases h

/-- How many reads there were. -/
def reads (s : Traced σ) : Nat :=
  s.calls.countP fun
    | .read _ => true
    | .unread _ _ => false

end Traced

end DotFraming
