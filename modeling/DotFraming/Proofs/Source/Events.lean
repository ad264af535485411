import DotFraming.Proofs.Source.Calls
import DotFraming.Proofs.Source.Delivery
import DotFraming.Source.Script
import DotFraming.Stream.Scripted

/-!
# Sources that follow events

A source may deliver characters, report the end of the stream and go on, and fail, in any order.
`Follows s es` says that the reads of a source give the events `es`, one after the other, and then
nothing but the end of the stream. What is known of such a source is known of every scripted one,
with pushback or without.

* `Event.text`, `Event.later` : the characters that come first, and what comes after them.
* `Follows` : the reads of a source give these events. It delivers their characters
  (`Follows.delivers`).
* `Follows.calls` : **a source stays such a source** if it is treated with discipline, and takes
  back every character.
* `Pushback.follows` : scripted sources.
-/

namespace DotFraming

namespace Event

/-- The characters that come first. -/
def text : List (Event Char) → Text
  | item c :: es => c :: text es
  | _ => []

/-- What comes after them. -/
def later : List (Event Char) → List (Event Char)
  | item _ :: es => later es
  | es => es

/-- The same event for a source that hands out pieces. -/
def piece : Event Char → Event Piece
  | item c => item [c]
  | nothing => nothing
  | failure e => failure e

theorem map_text_append_later (es : List (Event Char)) :
    (text es).map item ++ later es = es := by
  fun_induction text es with
  | case1 c es ih => exact congrArg (item c :: ·) ih
  | case2 es h =>
    rw [later]
    · rfl
    · exact h

theorem later_cases (es : List (Event Char)) :
    later es = [] ∨ (∃ es', later es = .nothing :: es') ∨
      ∃ e es', later es = .failure e :: es' := by
  fun_induction later es with
  | case1 c es ih => exact ih
  | case2 es h =>
    cases es with
    | nil => exact .inl rfl
    | cons e es =>
      cases e with
      | item c => exact absurd rfl (h c es)
      | nothing => exact .inr (.inl ⟨es, rfl⟩)
      | failure e => exact .inr (.inr ⟨e, es, rfl⟩)

end Event

variable {σ : Type} [CharacterSource σ]

/-- The reads of a source give these events, one after the other, and then the end of the stream. A
character can be given back. -/
inductive Follows : σ → List (Event Char) → Prop where
  /-- No more events. -/
  | done {s : σ} (read : CharacterSource.read s = .ok none s) : Follows s []
  /-- A character is handed out. -/
  | item {s s' : σ} {c : Char} {es : List (Event Char)}
      (read : CharacterSource.read s = .ok (some [c]) s') (back : TakesBack c s')
      (tail : Follows s' es) : Follows s (.item c :: es)
  /-- The end of the stream is reported. -/
  | nothing {s s' : σ} {es : List (Event Char)} (read : CharacterSource.read s = .ok none s')
      (tail : Follows s' es) : Follows s (.nothing :: es)
  /-- A read fails. -/
  | failure {s s' : σ} {e : Fault} {es : List (Event Char)}
      (read : CharacterSource.read s = .error e s') (tail : Follows s' es) :
      Follows s (.failure e :: es)

namespace Follows

variable {s t : σ} {es : List (Event Char)} {w : Text}

theorem delivers (h : Follows s (w.map .item ++ es)) : ∃ t, Delivers s w t ∧ Follows t es := by
  induction w generalizing s with
  | nil => exact ⟨s, .nil s, h⟩
  | cons c w ih =>
    cases h with
    | item read back tail =>
      obtain ⟨t, hd, ht⟩ := ih tail
      exact ⟨t, .cons read back hd, ht⟩

theorem of_delivers (h : Follows s (w.map .item ++ es)) (hd : Delivers s w t) : Follows t es := by
  obtain ⟨t', hd', ht⟩ := h.delivers
  exact hd.unique hd' ▸ ht

/-- The end of the stream is met after the characters that come first, unless the source fails. -/
theorem ends (h : Follows t (Event.later es)) (hno : ∀ e es', Event.later es ≠ .failure e :: es') :
    ∃ t', CharacterSource.read t = .ok none t' ∧ Follows t' (Event.later es).tail := by
  rcases Event.later_cases es with hlater | ⟨es', hlater⟩ | ⟨e, es', hlater⟩
  · rw [hlater] at h ⊢
    cases h with
    | done read => exact ⟨t, read, .done read⟩
  · rw [hlater] at h ⊢
    cases h with
    | nothing read tail => exact ⟨_, read, tail⟩
  · exact absurd hlater (hno e es')

theorem read {o : Except Fault (Option Piece)} (h : Follows s es)
    (hread : (Call.read o).Leads s t) :
    (∃ es', Follows t es') ∧ ∀ p, o = .ok (some p) → ∃ c, p = [c] ∧ TakesBack c t := by
  rcases o with e | o
  · change CharacterSource.read s = .error e t at hread
    cases h with
    | failure read tail =>
      cases read.symm.trans hread
      exact ⟨⟨_, tail⟩, nofun⟩
    | done read | item read | nothing read => cases read.symm.trans hread
  · change CharacterSource.read s = .ok o t at hread
    cases h with
    | done read =>
      cases read.symm.trans hread
      exact ⟨⟨_, .done read⟩, nofun⟩
    | item read back tail =>
      cases read.symm.trans hread
      refine ⟨⟨_, tail⟩, fun p hp => ?_⟩
      cases hp
      exact ⟨_, rfl, back⟩
    | nothing read tail =>
      cases read.symm.trans hread
      exact ⟨⟨_, tail⟩, nofun⟩
    | failure read => cases read.symm.trans hread

theorem unread {c : Char} {o : Except Fault Unit} (h : Follows s es) (hback : TakesBack c s)
    (hunread : (Call.unread [c] o).Leads s t) : o = .ok () ∧ Follows t (.item c :: es) := by
  obtain ⟨t', htakes, hread⟩ := hback
  rcases o with e | ⟨⟩
  · change CharacterSource.unread [c] s = .error e t at hunread
    cases htakes.symm.trans hunread
  · change CharacterSource.unread [c] s = .ok () t at hunread
    cases htakes.symm.trans hunread
    exact ⟨rfl, .item hread ⟨t, htakes, hread⟩ h⟩

/-- **A source stays such a source** if it is treated with discipline: what is handed back is the
character that was read just before, and the source takes it back. -/
theorem calls {rs : List Call} (h : Follows s es) (hdisc : Disciplined rs)
    (hcalls : Calls s rs.reverse t) :
    (∃ es', Follows t es') ∧
      (∀ p, rs.head? = some (.read (.ok (some p))) → ∃ c, p = [c] ∧ TakesBack c t) ∧
      ∀ p o, Call.unread p o ∈ rs → o = .ok () := by
  -- the latest call comes first in `rs`
  induction rs generalizing t with
  | nil =>
    cases hcalls
    exact ⟨⟨es, h⟩, by simp, by simp⟩
  | cons c rs ih =>
    rw [List.reverse_cons] at hcalls
    obtain ⟨m, hm, hlast⟩ := hcalls.last
    cases c with
    | read o =>
      obtain ⟨⟨es', hfollows⟩, -, hearlier⟩ := ih hdisc hm
      obtain ⟨hnext, hback⟩ := hfollows.read hlast
      refine ⟨hnext, fun p hp => hback p ?_, fun p o hmem => hearlier p o (by simpa using hmem)⟩
      simpa using hp
    | unread p o =>
      obtain ⟨hhead, hdisc⟩ := hdisc
      obtain ⟨⟨es', hfollows⟩, hback, hearlier⟩ := ih hdisc hm
      obtain ⟨c, rfl, htakes⟩ := hback p hhead
      obtain ⟨rfl, hnext⟩ := hfollows.unread htakes hlast
      refine ⟨⟨_, hnext⟩, by simp, fun q o hmem => ?_⟩
      rcases List.mem_cons.1 hmem with heq | hmem
      · cases heq
        rfl
      · exact hearlier q o hmem

end Follows

/-! ### Scripted sources -/

theorem Pushback.follows (es : List (Event Char)) (answer : Option (Except Fault Bool))
    (descriptor : Descriptor) :
    Follows
      ({ stream := { events := es.map Event.piece, answer, descriptor } } : Pushback ScriptedText)
      es := by
  induction es with
  | nil => exact .done rfl
  | cons e es ih =>
    cases e with
    | item c => exact .item rfl ⟨_, rfl, rfl⟩ ih
    | nothing => exact .nothing rfl ih
    | failure e => exact .failure rfl ih

end DotFraming
