import DotFraming.Bytes.Chunks
import DotFraming.Proofs.Encoding.Repertoire
import DotFraming.Proofs.Source.Delivery
import DotFraming.Stream.Decoding

/-!
# Text that comes in stretches

A byte stream may have nothing at the moment: the read fails, and a later one gives what has come in
the meantime. What such a stream delivers is a list of stretches of text, with a failed read between
one stretch and the next and the end of the stream after the last.

* `Chunks.Stalling`, `Chunks.stretches` : events of this kind, and the stretches they make, each
  byte being a character.
* `Waiting` : a source over such a stream, with the stretches that are still to come.
* `Waiting.delivers`, `Waiting.stalls`, `Waiting.ends` : **the source delivers the first stretch,
  then fails once for each further stretch, and ends after the last.**
-/

namespace DotFraming

namespace Chunks

/-! ### Stretches -/

/-- A read that gives bytes, or none at the moment. -/
def Stalling : Event (List UInt8) → Prop
  | .item data => data ≠ []
  | .nothing => True
  | .failure _ => False

instance : DecidablePred Stalling
  | .item data => inferInstanceAs (Decidable (data ≠ []))
  | .nothing => .isTrue trivial
  | .failure _ => .isFalse id

/-- The stretches that events make if `front` comes before them. -/
def stretches (front : Text) : List (Event (List UInt8)) → List Text
  | [] => [front]
  | .item data :: events => stretches (front ++ latin1Text data) events
  | .nothing :: events => front :: stretches [] events
  | .failure _ :: events => stretches front events

theorem stretches_cons (c : Char) (front : Text) (events : List (Event (List UInt8))) :
    ∃ w ws, stretches front events = w :: ws ∧ stretches (c :: front) events = (c :: w) :: ws := by
  induction events generalizing front with
  | nil => exact ⟨front, [], rfl, rfl⟩
  | cons e events ih =>
    cases e with
    | item data => exact ih (front ++ latin1Text data)
    | nothing => exact ⟨front, stretches [] events, rfl, rfl⟩
    | failure e => exact ih front

theorem stretches_ne_nil (front : Text) (events : List (Event (List UInt8))) :
    stretches front events ≠ [] := by
  induction events generalizing front with
  | nil => simp [stretches]
  | cons e events ih => cases e <;> simp [stretches, ih]

end Chunks

/-! ### Sources -/

/-- The source waits for stretches of text: it has taken nothing back, and what it has read and what
the events will give make up the stretches. -/
structure Waiting (s : Pushback (DecodingStream Chunks)) (ws : List Text) : Prop where
  /-- Nothing has been taken back. -/
  pushed : s.pushed = none
  /-- Each byte is a character. -/
  decoder : s.stream.decoder = ⟨.latin1, []⟩
  /-- No read fails for good, and none ends the stream before its time. -/
  events : ∀ e ∈ s.stream.raw.events, Chunks.Stalling e
  /-- After the end of the stream nothing comes. -/
  ended : s.stream.eof = true → s.stream.raw.events = []
  /-- The stretches. -/
  stretches : Chunks.stretches s.stream.buffered s.stream.raw.events = ws

namespace DecodingStream

variable {s : DecodingStream Chunks} {data : List UInt8} {events : List (Event (List UInt8))}

theorem feed_latin1 (data : List UInt8) (final : Bool) :
    Decoder.feed ⟨.latin1, []⟩ data final = .ok (latin1Text data, ⟨.latin1, []⟩) := by
  simp [Decoder.feed, decode_latin1]

/-- The byte stream after a read, when `events` are left. -/
def afterRead (s : DecodingStream Chunks) (events : List (Event (List UInt8))) : Chunks :=
  { s.raw with events, styles := ByteStream.style s.raw :: s.raw.styles }

theorem fill_of_item (h : (s.eof || !s.buffered.isEmpty) = false)
    (hdecoder : s.decoder = ⟨.latin1, []⟩) (hevents : s.raw.events = .item data :: events)
    (hne : data ≠ []) :
    fill s = .ok () { s with raw := s.afterRead events, buffered := latin1Text data } := by
  have hread : ByteStream.read (ByteStream.style s.raw) s.chunk s.raw =
      .ok (some data) (s.afterRead events) := by
    simp [ByteStream.read, Chunks.read, hevents, afterRead]
  have hdata : data.isEmpty = false := List.isEmpty_eq_false_iff.2 hne
  have heof : s.eof = false := (Bool.or_eq_false_iff.1 h).1
  rw [fill_of_open h, hread]
  simp only [hdecoder, feed_latin1]
  rw [fill_of_ready (by simp [latin1Text]), hdata, ← heof]

theorem fill_of_nothing (h : (s.eof || !s.buffered.isEmpty) = false)
    (hevents : s.raw.events = .nothing :: events) :
    fill s = .error .noDataYet { s with raw := s.afterRead events } := by
  have hread : ByteStream.read (ByteStream.style s.raw) s.chunk s.raw =
      .ok none (s.afterRead events) := by
    simp [ByteStream.read, Chunks.read, hevents, afterRead]
  rw [fill_of_open h, hread]

theorem fill_of_end (h : (s.eof || !s.buffered.isEmpty) = false)
    (hdecoder : s.decoder = ⟨.latin1, []⟩) (hevents : s.raw.events = []) :
    fill s = .ok () { s with raw := s.afterRead [], buffered := [], eof := true } := by
  have hread : ByteStream.read (ByteStream.style s.raw) s.chunk s.raw =
      .ok (some []) (s.afterRead []) := by
    simp [ByteStream.read, Chunks.read, hevents, afterRead]
  rw [fill_of_open h, hread]
  simp only [hdecoder, feed_latin1]
  exact fill_of_ready rfl

end DecodingStream

/-! ### What a waiting source does -/

section Waiting

variable {s : Pushback (DecodingStream Chunks)} {stream : DecodingStream Chunks} {c : Char}
  {v w : Text} {ws : List Text}

theorem read_of_fill (hpushed : s.pushed = none)
    (h : DecodingStream.fill s.stream = .ok () stream) :
    CharacterSource.read s = .ok (stream.buffered.head?.map ([·]))
      { s with stream := { stream with buffered := stream.buffered.tail } } := by
  have hread : TextStream.read 1 s.stream =
      .ok (stream.buffered.take 1) { stream with buffered := stream.buffered.drop 1 } := by
    change DecodingStream.readSome 1 s.stream = _
    simp [DecodingStream.readSome, h]
  simp only [CharacterSource.read, Pushback.read, hpushed, hread]
  cases stream.buffered <;> rfl

theorem read_of_fill_error {e : Fault} (hpushed : s.pushed = none)
    (h : DecodingStream.fill s.stream = .error e stream) :
    CharacterSource.read s = .error e { s with stream } := by
  have hread : TextStream.read 1 s.stream = .error e stream := by
    change DecodingStream.readSome 1 s.stream = _
    simp [DecodingStream.readSome, h]
  simp only [CharacterSource.read, Pushback.read, hpushed, hread]

namespace Waiting

theorem takesBack (h : Waiting s ws) (c : Char) : TakesBack c s := by
  obtain ⟨stream, pushed⟩ := s
  obtain rfl : pushed = none := h.pushed
  exact ⟨⟨stream, some [c]⟩, rfl, rfl⟩

theorem read_buffered (h : Waiting s ((c :: v) :: ws)) (hb : s.stream.buffered ≠ []) :
    ∃ t, CharacterSource.read s = .ok (some [c]) t ∧ Waiting t (v :: ws) := by
  obtain ⟨d, b, hb⟩ := List.exists_cons_of_ne_nil hb
  have hfill := DecodingStream.fill_of_ready (s := s.stream) (by simp [hb])
  have hread := read_of_fill h.pushed hfill
  obtain ⟨x, xs, hx, hdx⟩ := Chunks.stretches_cons d b s.stream.raw.events
  have hfirst := h.stretches
  rw [hb, hdx] at hfirst
  obtain ⟨⟨rfl, rfl⟩, rfl⟩ : (d = c ∧ x = v) ∧ xs = ws := by simpa using hfirst
  rw [hb] at hread
  exact ⟨_, hread, h.pushed, h.decoder, h.events, h.ended, hx⟩

theorem not_ready (h : Waiting s ws) (hb : s.stream.buffered = [])
    (hevents : s.stream.raw.events ≠ []) :
    (s.stream.eof || !s.stream.buffered.isEmpty) = false := by
  have heof : s.stream.eof = false := Bool.eq_false_iff.2 fun heof => hevents (h.ended heof)
  simp [heof, hb]

theorem buffered_eq_nil (h : Waiting s ([] :: ws)) : s.stream.buffered = [] := by
  cases hb : s.stream.buffered with
  | nil => rfl
  | cons c b =>
    have hstretches := h.stretches
    obtain ⟨x, xs, -, hx⟩ := Chunks.stretches_cons c b s.stream.raw.events
    rw [hb, hx] at hstretches
    cases hstretches

theorem of_item {data : List UInt8} {events : List (Event (List UInt8))} (h : Waiting s ws)
    (hb : s.stream.buffered = []) (hevents : s.stream.raw.events = .item data :: events) :
    ∃ stream, DecodingStream.fill s.stream = .ok () stream ∧ stream.buffered ≠ [] ∧
      Waiting { s with stream } ws := by
  have hdata : data ≠ [] := h.events (.item data) (by simp [hevents])
  have hready := h.not_ready hb (by simp [hevents])
  have hrest : ∀ e ∈ events, Chunks.Stalling e := fun e he => h.events e (by simp [hevents, he])
  have hstretches := h.stretches
  rw [hb, hevents] at hstretches
  refine ⟨_, DecodingStream.fill_of_item hready h.decoder hevents hdata, ?_, h.pushed, h.decoder,
    hrest, ?_, hstretches⟩
  · simpa [latin1Text] using hdata
  · intro heof
    have := h.ended heof
    simp_all

theorem read_cons (h : Waiting s ((c :: v) :: ws)) :
    ∃ t, CharacterSource.read s = .ok (some [c]) t ∧ Waiting t (v :: ws) := by
  by_cases hb : s.stream.buffered = []
  · have hstretches := h.stretches
    cases hevents : s.stream.raw.events with
    | nil =>
      rw [hb, hevents] at hstretches
      cases hstretches
    | cons e events =>
      cases e with
      | item data =>
        -- the bytes are read ahead: the character is among them
        obtain ⟨stream, hfill, hne, hwait⟩ := h.of_item hb hevents
        obtain ⟨t, hread, ht⟩ := hwait.read_buffered hne
        have hready := DecodingStream.fill_of_ready (s := stream) (by simp [hne])
        rw [read_of_fill hwait.pushed hready, ← read_of_fill h.pushed hfill] at hread
        exact ⟨t, hread, ht⟩
      | nothing =>
        rw [hb, hevents] at hstretches
        cases hstretches
      | failure e => exact (h.events (.failure e) (by simp [hevents])).elim
  · exact h.read_buffered hb

/-- **The source delivers the first stretch**, and any part of it in front. -/
theorem delivers {m : Text} (h : Waiting s ((m ++ v) :: ws)) :
    ∃ t, Delivers s m t ∧ Waiting t (v :: ws) := by
  induction m generalizing s with
  | nil => exact ⟨s, .nil s, h⟩
  | cons c m ih =>
    obtain ⟨t, hread, ht⟩ := h.read_cons
    obtain ⟨t', hd, ht'⟩ := ih ht
    exact ⟨t', .cons hread (ht.takesBack c) hd, ht'⟩

/-- After a part of the first stretch the source waits for the others. -/
theorem waiting_of_delivers {m : Text} {t : Pushback (DecodingStream Chunks)}
    (h : Waiting s ((m ++ v) :: ws)) (hd : Delivers s m t) : Waiting t (v :: ws) := by
  obtain ⟨t', hd', ht'⟩ := h.delivers
  exact hd.unique hd' ▸ ht'

theorem delivers_all (h : Waiting s (w :: ws)) : ∃ t, Delivers s w t ∧ Waiting t ([] :: ws) := by
  rw [← List.append_nil w] at h
  exact h.delivers

/-- A source with nothing left of a stretch gets no bytes from the next event. -/
theorem not_item {data : List UInt8} {events : List (Event (List UInt8))}
    (h : Waiting s ([] :: ws)) : s.stream.raw.events ≠ .item data :: events := by
  intro hevents
  obtain ⟨stream, -, hne, hwait⟩ := h.of_item h.buffered_eq_nil hevents
  exact hne hwait.buffered_eq_nil

/-- **It then fails once** before it goes on with the next stretch. -/
theorem stalls (h : Waiting s ([] :: w :: ws)) :
    ∃ t, CharacterSource.read s = .error .noDataYet t ∧ Waiting t (w :: ws) := by
  have hb := h.buffered_eq_nil
  have hstretches := h.stretches
  cases hevents : s.stream.raw.events with
  | nil =>
    rw [hb, hevents] at hstretches
    cases hstretches
  | cons e events =>
    cases e with
    | item data => exact absurd hevents h.not_item
    | nothing =>
      -- the event is used up, and with it the stretch in front
      have hfill := DecodingStream.fill_of_nothing (h.not_ready hb (by simp [hevents])) hevents
      have hrest : ∀ e ∈ events, Chunks.Stalling e := fun e he => h.events e (by simp [hevents, he])
      rw [hb, hevents] at hstretches
      refine ⟨_, read_of_fill_error h.pushed hfill, h.pushed, h.decoder, hrest, ?_, ?_⟩
      · intro heof
        have := h.ended heof
        simp_all
      · rw [hb]
        exact (List.cons.inj hstretches).2
    | failure e => exact (h.events (.failure e) (by simp [hevents])).elim

/-- **It ends after the last stretch.** -/
theorem ends (h : Waiting s [[]]) : ∃ t, CharacterSource.read s = .ok none t ∧ Waiting t [[]] := by
  have hb := h.buffered_eq_nil
  have hstretches := h.stretches
  cases hevents : s.stream.raw.events with
  | nil =>
    cases heof : s.stream.eof with
    | true =>
      have hread := read_of_fill h.pushed (DecodingStream.fill_of_ready (by simp [heof]))
      rw [hb] at hread
      refine ⟨_, hread, h.pushed, h.decoder, h.events, h.ended, ?_⟩
      simp [hevents, Chunks.stretches]
    | false =>
      have hfill := DecodingStream.fill_of_end (by simp [heof, hb]) h.decoder hevents
      exact ⟨_, read_of_fill h.pushed hfill, h.pushed, h.decoder,
        by simp [DecodingStream.afterRead], fun _ => rfl, rfl⟩
  | cons e events =>
    cases e with
    | item data => exact absurd hevents h.not_item
    | nothing =>
      rw [hb, hevents] at hstretches
      exact absurd (List.cons.inj hstretches).2 (Chunks.stretches_ne_nil [] events)
    | failure e => exact (h.events (.failure e) (by simp [hevents])).elim

end Waiting

end Waiting

end DotFraming
