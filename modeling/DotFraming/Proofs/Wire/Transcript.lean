import DotFraming.Proofs.Source.Events
import DotFraming.Proofs.Wire.Unfinished

/-!
# Messages in what a source does

A source that follows events may end within a message and then go on, and it may fail. What its
events stand for is told here from the events alone.

* `Wire.firstMessage` : the first message, and the events that are left after it. It is cut short by
  a failure of the source unless the whole terminator comes before.
* `Wire.Transcript`, `Wire.transcript` : **the messages one after the other**, up to the first
  failure.
-/

namespace DotFraming

namespace Wire

/-- The text of the first message and the events that are left after it. If the source ends before
the whole terminator, the message ends there. If it fails before, no message ends, and the text is
that of what had been settled by then. -/
def firstMessage (eol : Text) (es : List (Event Char)) : Text × Option (List (Event Char)) :=
  let w := Event.text es
  if Complete true w then (decode eol w, some ((rest w).map .item ++ Event.later es))
  else
    match Event.later es with
    | .failure _ :: _ => (decode eol (settled true w), none)
    | left => (decode eol w, some left.tail)

/-- The messages that a source is read as. -/
structure Transcript where
  /-- The texts of the messages that were read to their end. -/
  whole : List Text
  /-- What there was of the next message when the source failed, if it failed. -/
  broken : Option Text := none
  deriving DecidableEq, Repr

/-- Another message comes before. -/
def Transcript.after (t : Text) (T : Transcript) : Transcript := { T with whole := t :: T.whole }

variable {eol t : Text} {es left : List (Event Char)}

theorem length_text_later (es : List (Event Char)) :
    (Event.text es).length + (Event.later es).length = es.length := by
  have h := congrArg List.length (Event.map_text_append_later es)
  rwa [List.length_append, List.length_map] at h

/-- A message that is whole ends with its terminator, or with the end of the stream. -/
theorem firstMessage_whole (h : firstMessage eol es = (t, some left)) :
    t = decode eol (Event.text es) ∧
      (Complete true (Event.text es) ∧
          left = (rest (Event.text es)).map .item ++ Event.later es ∨
        ¬Complete true (Event.text es) ∧ left = (Event.later es).tail ∧
          ∀ e es', Event.later es ≠ .failure e :: es') := by
  unfold firstMessage at h
  simp only at h
  split at h
  · next hw =>
    cases h
    exact ⟨rfl, .inl ⟨hw, rfl⟩⟩
  · next hw =>
    split at h
    · cases h
    · next hno =>
      cases h
      exact ⟨rfl, .inr ⟨hw, rfl, fun e es' => hno e es'⟩⟩

theorem firstMessage_broken (h : firstMessage eol es = (t, none)) :
    ¬Complete true (Event.text es) ∧ t = decode eol (settled true (Event.text es)) ∧
      ∃ e es', Event.later es = .failure e :: es' := by
  unfold firstMessage at h
  simp only at h
  split at h
  · cases h
  · next hw =>
    split at h
    · next e es' hlater =>
      cases h
      exact ⟨hw, rfl, e, es', hlater⟩
    · cases h

-- a failure within the terminator: the line ending before it is not handed out yet
example : firstMessage ['|'] ("a\r\n.\r".toList.map .item ++ [.failure .noDataYet, .item 'b']) =
    ("a".toList, none) := by decide

theorem length_firstMessage (h : firstMessage eol es = (t, some left)) :
    left = [] ∨ left.length < es.length := by
  have hlength := length_text_later es
  obtain ⟨-, ⟨⟨p, -, hp⟩, rfl⟩ | ⟨-, rfl, -⟩⟩ := firstMessage_whole h
  · have hshorter : (rest (Event.text es)).length < (Event.text es).length := by
      by_cases hrest : rest (Event.text es) = []
      · rw [hrest, List.length_nil]
        omega
      · exact length_rest_lt hrest
    rw [List.length_append, List.length_map]
    exact .inr (by omega)
  · cases hlater : Event.later es with
    | nil => exact .inl rfl
    | cons e later =>
      rw [hlater, List.length_cons] at hlength
      rw [List.tail_cons]
      exact .inr (by omega)

/-- The messages one after the other, or the first one only. They go on if a character comes next,
and end where the source fails. -/
def transcript (eol : Text) (all : Bool) (es : List (Event Char)) : Transcript :=
  match _h : firstMessage eol es with
  | (t, none) => { whole := [], broken := some t }
  | (t, some (.item c :: left)) =>
    if all then (transcript eol all (.item c :: left)).after t else { whole := [t] }
  | (t, some (.failure _ :: _)) => { whole := [t], broken := if all then some [] else none }
  | (t, some _) => { whole := [t] }
termination_by es.length
decreasing_by exact (length_firstMessage _h).resolve_left (by simp)

/-! ### Step by step -/

theorem transcript_of_broken {all : Bool} (h : firstMessage eol es = (t, none)) :
    transcript eol all es = { whole := [], broken := some t } := by
  rw [transcript]
  split <;> simp_all

theorem transcript_of_first (h : firstMessage eol es = (t, some left)) :
    transcript eol false es = { whole := [t] } := by
  rw [transcript]
  split <;> simp_all

theorem transcript_of_next {c : Char} (h : firstMessage eol es = (t, some (.item c :: left))) :
    transcript eol true es = (transcript eol true (.item c :: left)).after t := by
  rw [transcript]
  split <;> simp_all

theorem transcript_of_failure {e : Fault}
    (h : firstMessage eol es = (t, some (.failure e :: left))) :
    transcript eol true es = { whole := [t], broken := some [] } := by
  rw [transcript]
  split <;> simp_all

theorem transcript_of_last (h : firstMessage eol es = (t, some left))
    (hleft : left = [] ∨ ∃ es', left = .nothing :: es') :
    transcript eol true es = { whole := [t] } := by
  rcases hleft with rfl | ⟨es', rfl⟩
  · rw [transcript]
    split <;> simp_all
  · rw [transcript]
    split <;> simp_all

end Wire

end DotFraming
