import DotFraming.Bytes.Chunks
import DotFraming.Source.Pushback

/-!
# Scripted text streams

* `ScriptedText` : a text stream that follows a list of events, one per read, whatever size is asked
  for.
-/

namespace DotFraming

/-- A text stream that follows a list of events, and ends when they are used up. -/
structure ScriptedText where
  /-- What the next reads give. -/
  events : List (Event Text)
  /-- What the stream itself says about being ready, if it can tell. -/
  answer : Option (Except Fault Bool) := none
  /-- Its descriptor. -/
  descriptor : Descriptor := .absent

namespace ScriptedText

/-- Follows the next event; `none` says that there is nothing at the moment. -/
def next : Action ScriptedText (Option Text) := fun s =>
  match s.events with
  | [] => .ok (some []) s
  | .item t :: rest => .ok (some t) { s with events := rest }
  | .nothing :: rest => .ok none { s with events := rest }
  | .failure e :: rest => .error e { s with events := rest }

theorem events_next (s : ScriptedText) : (stateAfter (next s)).events = s.events.tail := by
  unfold next
  split <;> simp_all

/-- Follows the next event, whatever size is asked for. Nothing at the moment is no text. -/
def read (_ : Int) : Action ScriptedText Text := fun s =>
  match next s with
  | .ok t s' => .ok (t.getD []) s'
  | .error e s' => .error e s'

theorem events_read (n : Int) (s : ScriptedText) :
    (stateAfter (read n s)).events = s.events.tail := by
  rw [← events_next s]
  unfold read
  cases next s <;> rfl

instance : TextStream ScriptedText where
  read := read
  ready? := answer
  readable? s := s.descriptor.readable?
  remaining s := s.events.length
  remaining_read s := by
    rw [events_read, List.length_tail]
    exact Nat.sub_le _ _
  remaining_read_cons {s s' c t} h := by
    have he := events_read 1 s
    rw [h, stateAfter_ok] at he
    rw [he, List.length_tail]
    cases hs : s.events with
    | nil => simp [read, next, hs] at h
    | cons => exact Nat.lt_succ_self _

end ScriptedText

end DotFraming
