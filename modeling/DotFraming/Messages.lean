import DotFraming.Reader.Operations

/-!
# Decoding whole messages

Messages follow one another on a source. They are decoded one at a time, each by a reader of its own
that is closed before the next one starts.

* `Decoding` : a source being decoded, the log, and the lines written so far.
* `Decoding.message` : one message. If a line cannot be read, the lines before it have been written,
  and the rest of the message is still read past.
* `Decoding.messages` : one message, or all that the source has.
-/

namespace DotFraming

/-- A source whose messages are being decoded. -/
structure Decoding (σ : Type) where
  /-- The source. -/
  source : σ
  /-- The log. -/
  log : Log
  /-- The lines that have been written, the latest first. -/
  written : List Text := []

namespace Decoding

variable {σ : Type} [CharacterSource σ]

/-- The text that has been written. -/
def output (s : Decoding σ) : Text := s.written.reverse.flatten

/-- What the source has left. -/
def supply (s : Decoding σ) : Nat := CharacterSource.remaining s.source

/-- A new reader over the source. -/
def reading (r : Reader) (s : Decoding σ) : Reading σ := ⟨r, s.source, s.log⟩

/-- Back from a reader, after more has been written. -/
def resume (written : List Text) (t : Reading σ) : Decoding σ := ⟨t.source, t.log, written⟩

/-- Decodes one message with the line ending `eol`. Of two failures, one while reading the lines
and one while reading past the rest, the second counts. -/
def message (eol : Text) : Action (Decoding σ) Unit := fun s =>
  match Reader.new? eol with
  | .error e => .error e s
  | .ok r =>
    match Reading.linesFrom s.written (s.reading r) with
    | (written, .ok () t) =>
      match Reading.close t with
      | .ok () u => .ok () (resume written u)
      | .error e u => .error e (resume written u)
    | (written, .error e t) =>
      match Reading.close t with
      | .ok () u => .error e (resume written u)
      | .error e' u => .error e' (resume written u)

/-! ### Every message uses something up -/

theorem message_supply_lt {eol : Text} {s s' : Decoding σ} {p : Piece} {source : σ}
    (hread : CharacterSource.read s.source = .ok (some p) source)
    (h : message eol s = .ok () s') : s'.supply < s.supply := by
  unfold message at h
  split at h
  · cases h
  · next r hr =>
    have hfresh : r.staged = [] ∧ (r.eof || r.closed) = false := by
      unfold Reader.new? at hr
      split at hr
      · cases hr
      · cases hr
        exact ⟨rfl, rfl⟩
    have h₀ := Reading.supply_readOne_fresh (s := s.reading r) hfresh.1 hfresh.2 hread
    have h₁ := Reading.supply_linesFrom s.written (s.reading r)
    split at h
    · next written t ht =>
      have h₂ := Reading.supply_close t
      split at h
      · next u hu =>
        cases h
        rw [hu] at h₂
        rw [ht] at h₁
        exact Nat.lt_of_le_of_lt (Nat.le_trans h₂ h₁) h₀
      · cases h
    · split at h <;> cases h

/-- Looks whether the source has anything more, by reading a piece and handing it back. -/
def more : Action (Decoding σ) Bool := fun s =>
  match CharacterSource.read s.source with
  | .error e source => .error e { s with source }
  | .ok none source => .ok false { s with source }
  | .ok (some p) source =>
    match CharacterSource.unread p source with
    | .ok () source => .ok true { s with source }
    | .error e source => .error e { s with source }

/-- If there is more, a piece can be read, and the source has no more left than before. -/
theorem more_true {s s' : Decoding σ} (h : more s = .ok true s') :
    s'.supply ≤ s.supply ∧ ∃ p source, CharacterSource.read s'.source = .ok (some p) source := by
  unfold more at h
  split at h
  · cases h
  · cases h
  · next p source hr =>
    split at h
    · next source' hu =>
      cases h
      have h₁ := CharacterSource.remaining_read_some hr
      have h₂ := CharacterSource.remaining_unread source p
      rw [hu] at h₂
      obtain ⟨source'', hr'⟩ := CharacterSource.read_of_unread hu
      exact ⟨by simp only [supply, stateAfter_ok] at h₂ ⊢; omega, p, source'', hr'⟩
    · cases h

/-- Decodes messages until nothing follows the last one, when it is known that something follows.
`count` messages came before. -/
def following (eol : Text) (count : Nat) (s : Decoding σ)
    (more_next : ∃ p source, CharacterSource.read s.source = .ok (some p) source) :
    EStateM.Result Fault (Decoding σ) Nat :=
  match h : message eol s with
  | .error e s' => .error e s'
  | .ok () s' =>
    match hm : more s' with
    | .error e t => .error e t
    | .ok false t => .ok (count + 1) t
    | .ok true t =>
      have : t.supply < s.supply := by
        obtain ⟨p, source, hr⟩ := more_next
        exact Nat.lt_of_le_of_lt (more_true hm).1 (message_supply_lt hr h)
      following eol (count + 1) t (more_true hm).2
termination_by s.supply

/-- Decodes one message, or all messages if `all` is set, and gives their number. -/
def messages (eol : Text) (all : Bool) : Action (Decoding σ) Nat := fun s =>
  match message eol s with
  | .error e s' => .error e s'
  | .ok () s' =>
    if all then
      match hm : more s' with
      | .error e t => .error e t
      | .ok false t => .ok 1 t
      | .ok true t => following eol 1 t (more_true hm).2
    else .ok 1 s'

end Decoding

end DotFraming
