import DotFraming.Source

/-!
# Pushback over a text stream

A text stream can be read but takes nothing back. `Pushback` adds room for one character.

* `AnyStream` : what can be asked of a text stream. The empty text stands for the end of the stream.
* `TextStream` : the streams that hold finitely much.
* `Pushback` : a text stream with room for one character that was taken back.
-/

namespace DotFraming

/-- What can be asked of a stream of text. Nothing is known of how it answers. -/
class AnyStream (τ : Type) where
  /-- Reads up to the given number of characters, all that are left if it is negative. -/
  read : Int → Action τ Text
  /-- What the stream itself says about being ready, if it can tell. -/
  ready? : τ → Option (Except Fault Bool)
  /-- Whether the stream's descriptor is readable, if it has one. -/
  readable? : τ → Option Bool

namespace TextStream

export AnyStream (read ready? readable?)

end TextStream

/-- A stream of text, which holds finitely much. -/
class TextStream (τ : Type) extends AnyStream τ where
  /-- A bound on the number of single reads that give text. -/
  remaining : τ → Nat
  /-- Reading one character never adds to what is left. -/
  remaining_read : ∀ s : τ, remaining (stateAfter (read 1 s)) ≤ remaining s
  /-- Reading one character and getting text uses something up. -/
  remaining_read_cons : ∀ {s s' : τ} {c : Char} {t : Text}, read 1 s = .ok (c :: t) s' →
    remaining s' < remaining s

/-- A text stream with room for one character that was taken back. -/
structure Pushback (τ : Type) where
  /-- The stream. -/
  stream : τ
  /-- What was taken back and is handed out next. -/
  pushed : Option Piece := none

namespace Pushback

section

variable {τ : Type} [AnyStream τ]

/-- Hands out what was taken back, else the next character of the stream. -/
def read : Action (Pushback τ) (Option Piece) := fun s =>
  match s.pushed with
  | some p => .ok (some p) { s with pushed := none }
  | none =>
    match TextStream.read 1 s.stream with
    | .ok [] stream => .ok none { s with stream }
    | .ok (c :: t) stream => .ok (some (c :: t)) { s with stream }
    | .error e stream => .error e { s with stream }

/-- Takes back a single character, if none is waiting. -/
def unread (p : Piece) : Action (Pushback τ) Unit := fun s =>
  if p.length ≠ 1 then .error (.notOneCharacter p) s
  else
    match s.pushed with
    | some _ => .error .pushbackOccupied s
    | none => .ok () { s with pushed := some p }

/-- A character that was taken back is ready. Otherwise the stream is asked, then its descriptor;
a stream with neither is never waited for. -/
def ready (s : Pushback τ) : Except Fault Bool :=
  if s.pushed.isSome then .ok true
  else
    match TextStream.ready? s.stream with
    | some answer => answer
    | none => .ok ((TextStream.readable? s.stream).getD true)

instance : AnySource (Pushback τ) where
  read := read
  unread := unread
  ready := ready

end

variable {τ : Type} [TextStream τ]

/-- What is left: that of the stream, and what was taken back. -/
def remaining (s : Pushback τ) : Nat :=
  TextStream.remaining s.stream + s.pushed.toList.length

theorem remaining_read (s : Pushback τ) : remaining (stateAfter (read s)) ≤ remaining s := by
  have h := TextStream.remaining_read s.stream
  unfold read
  split
  · next hp => simp [remaining, hp]
  · next hp =>
    split <;> next hr => rw [hr] at h; simp_all [remaining]

theorem remaining_read_some {s s' : Pushback τ} {p : Piece} (h : read s = .ok (some p) s') :
    remaining s' < remaining s := by
  unfold read at h
  split at h
  · next hp => cases h; simp [remaining, hp]
  · next hp =>
    split at h
    · cases h
    · next hr =>
      cases h
      have := TextStream.remaining_read_cons hr
      simp_all [remaining]
    · cases h

theorem remaining_unread (s : Pushback τ) (p : Piece) :
    remaining (stateAfter (unread p s)) ≤ remaining s + 1 := by
  unfold unread
  split
  · simp
  · split <;> simp_all [remaining]

theorem read_of_unread {s s' : Pushback τ} {p : Piece} (h : unread p s = .ok () s') :
    ∃ s'', read s' = .ok (some p) s'' := by
  unfold unread at h
  split at h
  · cases h
  · split at h
    · cases h
    · cases h
      exact ⟨_, rfl⟩

instance : CharacterSource (Pushback τ) where
  read := read
  unread := unread
  ready := ready
  remaining := remaining
  remaining_read := remaining_read
  remaining_read_some := remaining_read_some
  remaining_unread := remaining_unread
  read_of_unread := read_of_unread

/-- The source in words, given the stream in words. -/
def describe (stream : String) (s : Pushback τ) : String :=
  "PushbackSource(" ++ stream ++ ", pushed=" ++
    (match s.pushed with
      | some p => String.ofList (Text.quote p)
      | none => "None") ++ ")"

end Pushback

end DotFraming
