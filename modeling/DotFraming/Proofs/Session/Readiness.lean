import DotFraming.Bytes.Socket
import DotFraming.Proofs.Encoding.Kept
import DotFraming.Proofs.Session.Discipline
import DotFraming.Proofs.Stream.Chunking
import DotFraming.Stream.Decoding

/-!
# Asking a connection before it is read

A connection never waits: if no character can be had, a read fails. Whoever wants to know beforehand
asks whether the source is ready. Three layers have a say in the answer: a character that was taken
back, characters that were decoded earlier, and the descriptor, which tells of bytes that have
arrived and of the peer having hung up.

* `Connection` : a source over the receiving end of a connection.
* `Connection.Reached` : what its users and the peer can bring about, in any order.
* `DecodingStream.fill_noDataYet` : a stream that finds nothing to give has kept all the bytes.
* `Connection.ready_predicts_read` : **the answer is right**, up to bytes that complete no
  character.
-/

namespace DotFraming

/-! ### The receiving end -/

namespace Socket

variable {s : Socket}

/-- Bytes that have arrived are given, and the end is if there are none. If there is neither, more
may come. -/
theorem read_eq (style : ReadStyle) (s : Socket) :
    ByteStream.read style 4096 s =
      if s.readable then .ok (some (s.waiting.take 4096)) { s with waiting := s.waiting.drop 4096 }
      else .ok none s := by
  have hcut : Memory.cut 4096 s.waiting = .ok (s.waiting.take 4096, s.waiting.drop 4096) := rfl
  change Socket.read style 4096 s = _
  simp [Socket.read, hcut]

theorem readable_eq_false : s.readable = false ↔ s.waiting = [] ∧ s.hungUp = false := by
  simp [readable]

end Socket

/-! ### Characters of one byte -/

theorem Encoding.decode_ne_nil {e : Encoding} (he : e = .latin1 ∨ e = .ascii) {pos : Nat}
    {bytes kept : List UInt8} (hbytes : bytes ≠ []) :
    e.decode false pos bytes ≠ .ok ([], kept) := by
  intro h
  obtain ⟨b, rest, rfl⟩ := List.exists_cons_of_ne_nil hbytes
  rw [decode] at h
  split at h
  · split at h <;> cases h
  · cases h
  · next hscan =>
    rcases he with rfl | rfl
    · cases hscan
    · unfold scan at hscan
      simp only at hscan
      split at hscan <;> cases hscan

theorem Decoder.feed_nil {d d' : Decoder} {data : List UInt8}
    (h : d.feed data false = .ok ([], d')) :
    d.encoding.decode false 0 (d.kept ++ data) = .ok ([], d.kept ++ data) ∧
      d' = { d with kept := d.kept ++ data } := by
  unfold feed at h
  split at h
  · next kept hdecode =>
    cases h
    obtain rfl := Encoding.kept_of_decode_nil hdecode
    exact ⟨hdecode, rfl⟩
  · cases h

namespace DecodingStream

/-! ### Filling the buffer -/

theorem fill_keeps {ρ : Type} [ByteStream ρ] (s : DecodingStream ρ) :
    (stateAfter (fill s)).chunk = s.chunk ∧
      (stateAfter (fill s)).decoder.encoding = s.decoder.encoding := by
  fun_induction fill s with
  | case1 => exact ⟨rfl, rfl⟩
  | case2 => exact ⟨rfl, rfl⟩
  | case3 => exact ⟨rfl, rfl⟩
  | case4 => exact ⟨rfl, rfl⟩
  | case5 s _ data raw _ buffered decoder hfeed ih =>
    have hsame : decoder.encoding = s.decoder.encoding := by
      unfold Decoder.feed at hfeed
      split at hfeed <;> cases hfeed
      rfl
    exact ⟨ih.1, ih.2.trans hsame⟩

variable {s t : DecodingStream Socket}

theorem fill_of_not_ready (hchunk : s.chunk = 4096) (h : s.ready = false) :
    fill s = .error .noDataYet s := by
  unfold ready at h
  split at h
  · cases h
  · next hopen =>
    change s.raw.readable = false at h
    have hread : ByteStream.read (ByteStream.style s.raw) s.chunk s.raw = .ok none s.raw := by
      rw [hchunk, Socket.read_eq, h]
      rfl
    rw [fill_of_open (Bool.eq_false_iff.2 hopen), hread]

/-- The stream when all the bytes that have arrived are kept for a character that they begin. -/
def keepAll (s : DecodingStream Socket) : DecodingStream Socket :=
  { s with raw := { s.raw with waiting := [] },
           decoder := { s.decoder with kept := s.decoder.kept ++ s.raw.waiting } }

/-- **A stream that finds nothing to give has kept all the bytes.** They complete no character. -/
theorem fill_noDataYet (hchunk : s.chunk = 4096) (h : fill s = .error .noDataYet t) :
    (s.eof || !s.buffered.isEmpty) = false ∧ s.raw.hungUp = false ∧
      (s.raw.waiting ≠ [] → s.decoder.encoding.decode false 0 (s.decoder.kept ++ s.raw.waiting) =
        .ok ([], s.decoder.kept ++ s.raw.waiting)) ∧
      t = s.keepAll := by
  fun_induction fill s with
  | case1 => cases h
  | case2 s hready e raw hread =>
    rw [hchunk, Socket.read_eq] at hread
    split at hread <;> cases hread
  | case3 s hready raw hread =>
    cases h
    rw [hchunk, Socket.read_eq] at hread
    split at hread
    · cases hread
    · next hidle =>
      cases hread
      obtain ⟨hnone, hhere⟩ := Socket.readable_eq_false.1 (Bool.eq_false_iff.2 hidle)
      refine ⟨Bool.eq_false_iff.2 hready, hhere, absurd hnone, ?_⟩
      rw [keepAll, hnone, List.append_nil, ← hnone]
  | case4 => cases h
  | case5 s hready data raw hread buffered decoder hfeed ih =>
    obtain ⟨hopen, hhere, hkept, hlast⟩ := ih hchunk h
    rw [hchunk, Socket.read_eq] at hread
    split at hread
    · cases hread
      obtain ⟨hdata, rfl⟩ : (s.raw.waiting.take 4096).isEmpty = false ∧ buffered = [] := by
        simpa using hopen
      rw [hdata] at hfeed hlast
      obtain ⟨hnone, rfl⟩ := Decoder.feed_nil hfeed
      -- the first portion and what is left of the bytes
      have hall : s.decoder.kept ++ s.raw.waiting.take 4096 ++ s.raw.waiting.drop 4096 =
          s.decoder.kept ++ s.raw.waiting := by
        rw [List.append_assoc, List.take_append_drop]
      obtain ⟨heof, hbuffered⟩ : s.eof = false ∧ s.buffered = [] := by simpa using hready
      refine ⟨Bool.eq_false_iff.2 hready, hhere, fun _ => ?_, ?_⟩
      · by_cases hdrop : s.raw.waiting.drop 4096 = []
        · rw [hdrop, List.append_nil] at hall
          rwa [← hall]
        · rw [← hall]
          exact hkept hdrop
      · rw [hlast]
        simp only [keepAll, hall, heof, hbuffered]
    · cases hread

end DecodingStream

/-! ### Connections -/

/-- A source over the receiving end of a connection. -/
abbrev Connection := Pushback (DecodingStream Socket)

namespace Connection

/-- The peer sends bytes. -/
def feed (data : List UInt8) (s : Connection) : Connection :=
  { s with stream := { s.stream with raw := s.stream.raw.feed data } }

/-- The peer hangs up. -/
def hangUp (s : Connection) : Connection :=
  { s with stream := { s.stream with raw := s.stream.raw.hangUp } }

/-- States that come about from the first one when the peer sends bytes and hangs up and the users
of the source make calls, in any order. -/
inductive Reached (first : Connection) : Connection → Prop where
  /-- Nothing has happened. -/
  | start : Reached first first
  /-- The peer sends bytes. -/
  | feed {s : Connection} (h : Reached first s) (data : List UInt8) : Reached first (s.feed data)
  /-- The peer hangs up. -/
  | hangUp {s : Connection} (h : Reached first s) : Reached first s.hangUp
  /-- A user makes a call. -/
  | call {s t : Connection} {c : Call} (h : Reached first s) (hc : c.Leads s t) : Reached first t

variable {first s t : Connection}

theorem Reached.calls (h : Reached first s) {cs : List Call} (hcs : Calls s cs t) :
    Reached first t := by
  induction hcs with
  | nil => exact h
  | cons head _ ih => exact ih (h.call head)

/-- **Whatever is asked for in a session** comes down to calls. -/
theorem Reached.perform {session : Session Connection} (h : Reached first session.source)
    (q : Request) : Reached first (q.perform session).2.source := by
  obtain ⟨cs, hcs⟩ := q.calls session
  exact h.calls hcs

theorem read_of_pushed (hpushed : s.pushed = none) :
    CharacterSource.read s =
      match DecodingStream.fill s.stream with
      | .ok () stream =>
        .ok (if stream.buffered.take 1 = [] then none else some (stream.buffered.take 1))
          { s with stream := { stream with buffered := stream.buffered.drop 1 } }
      | .error e stream => .error e { s with stream } := by
  obtain ⟨stream, pushed⟩ := s
  obtain rfl : pushed = none := hpushed
  have hread : TextStream.read 1 stream = DecodingStream.readSome 1 stream := rfl
  change Pushback.read _ = _
  rw [Pushback.read_of_empty, hread, DecodingStream.readSome, if_neg Nat.one_ne_zero]
  cases DecodingStream.fill stream <;> rfl

theorem read_keeps (s : Connection) :
    (stateAfter (Pushback.read s)).stream.chunk = s.stream.chunk ∧
      (stateAfter (Pushback.read s)).stream.decoder.encoding = s.stream.decoder.encoding := by
  cases hpushed : s.pushed with
  | some p =>
    rw [Pushback.read, hpushed]
    exact ⟨rfl, rfl⟩
  | none =>
    have hfill := DecodingStream.fill_keeps s.stream
    rw [show Pushback.read s = _ from read_of_pushed hpushed]
    cases h : DecodingStream.fill s.stream with
    | error e stream => rwa [h] at hfill
    | ok u stream => rwa [h] at hfill

theorem leads_keeps {c : Call} (hc : c.Leads s t) :
    t.stream.chunk = s.stream.chunk ∧ t.stream.decoder.encoding = s.stream.decoder.encoding := by
  rw [← hc.after_eq]
  cases c with
  | read => exact read_keeps s
  | unread p =>
    change (stateAfter (Pushback.unread p s)).stream.chunk = _ ∧
      (stateAfter (Pushback.unread p s)).stream.decoder.encoding = _
    unfold Pushback.unread
    split
    · exact ⟨rfl, rfl⟩
    · split <;> exact ⟨rfl, rfl⟩

theorem Reached.keeps (h : Reached first s) :
    s.stream.chunk = first.stream.chunk ∧
      s.stream.decoder.encoding = first.stream.decoder.encoding := by
  induction h with
  | start => exact ⟨rfl, rfl⟩
  | feed _ _ ih => exact ih
  | hangUp _ ih => exact ih
  | call _ hc ih => exact ⟨(leads_keeps hc).1.trans ih.1, (leads_keeps hc).2.trans ih.2⟩

theorem ready_eq (s : Connection) :
    CharacterSource.ready s = .ok (s.pushed.isSome || s.stream.ready) := by
  change Pushback.ready s = _
  unfold Pushback.ready
  cases s.pushed <;> rfl

/-! ### The answer -/

/-- **If the source is not ready, a read fails**, and nothing changes. -/
theorem read_of_not_ready (hchunk : s.stream.chunk = 4096)
    (h : CharacterSource.ready s = .ok false) : CharacterSource.read s = .error .noDataYet s := by
  rw [ready_eq] at h
  obtain ⟨hpushed, hready⟩ : s.pushed = none ∧ s.stream.ready = false := by simpa using h
  rw [read_of_pushed hpushed, DecodingStream.fill_of_not_ready hchunk hready]

/-- What it means that a read fails for lack of bytes: there are some, but they complete no
character, and they are kept. -/
structure Stalls (s t : Connection) : Prop where
  /-- Nothing was taken back, no character was left, and the peer has not hung up. -/
  empty : s.pushed = none ∧ s.stream.buffered = [] ∧ s.stream.eof = false ∧
    s.stream.raw.hungUp = false
  /-- Bytes have arrived, -/
  arrived : s.stream.raw.waiting ≠ []
  /-- but they complete no character. -/
  incomplete : s.stream.decoder.encoding.decode false 0
    (s.stream.decoder.kept ++ s.stream.raw.waiting) =
      .ok ([], s.stream.decoder.kept ++ s.stream.raw.waiting)
  /-- All of them are kept, and nothing else changes. -/
  kept : t = { s with stream := s.stream.keepAll }

/-- **If the source is ready, a read fails only for bytes that complete no character.** -/
theorem stalls_of_ready (hchunk : s.stream.chunk = 4096)
    (h : CharacterSource.ready s = .ok true)
    (hread : CharacterSource.read s = .error .noDataYet t) : Stalls s t := by
  cases hpushed : s.pushed with
  | some p =>
    change Pushback.read s = _ at hread
    rw [Pushback.read, hpushed] at hread
    cases hread
  | none =>
    rw [read_of_pushed hpushed] at hread
    cases hfill : DecodingStream.fill s.stream with
    | ok u stream =>
      rw [hfill] at hread
      cases hread
    | error e stream =>
      rw [hfill] at hread
      cases hread
      obtain ⟨hopen, hhere, hkept, rfl⟩ := DecodingStream.fill_noDataYet hchunk hfill
      obtain ⟨heof, hbuffered⟩ : s.stream.eof = false ∧ s.stream.buffered = [] := by
        simpa using hopen
      have hreadable : s.stream.raw.readable = true := by
        rw [ready_eq, hpushed, DecodingStream.ready, hopen] at h
        simpa [ByteStream.readable?] using h
      have harrived : s.stream.raw.waiting ≠ [] := by
        intro hnone
        rw [Socket.readable_eq_false.2 ⟨hnone, hhere⟩] at hreadable
        cases hreadable
      exact ⟨⟨hpushed, hbuffered, heof, hhere⟩, harrived, hkept harrived, rfl⟩

/-- **The answer is right.** A source is made from the receiving end of a connection, and bytes
arrive, the peer hangs up, readers and others use the source, all in any order. Asking whether the
source is ready changes nothing. If it is not ready, a read fails for lack of bytes. If it is ready,
a read does not do so when each byte is a character, and with other encodings only if the bytes that
have arrived complete no character. They are kept then, and nothing is lost. -/
theorem ready_predicts_read {raw : Socket} {encoding : Option String} {fallback : String}
    {stream : DecodingStream Socket}
    (hnew : DecodingStream.new? raw encoding fallback 4096 = .ok stream)
    (hs : Reached { stream } s) :
    (∀ (q : Request) (log : Log) (readers : List Reader),
        Reached { stream } (q.perform ⟨s, log, readers⟩).2.source) ∧
      (∀ (index : Nat) (log : Log) (readers : List Reader),
        ((Request.operate index .ready).perform ⟨s, log, readers⟩).2 = ⟨s, log, readers⟩) ∧
      ∃ answer, CharacterSource.ready s = .ok answer ∧
        (answer = false → CharacterSource.read s = .error .noDataYet s) ∧
        (answer = true → ∀ t, CharacterSource.read s = .error .noDataYet t →
          Stalls s t ∧ stream.decoder.encoding ≠ .latin1 ∧ stream.decoder.encoding ≠ .ascii) := by
  have hchunk : s.stream.chunk = 4096 := by
    rw [hs.keeps.1]
    unfold DecodingStream.new? at hnew
    simp only at hnew
    split at hnew <;> cases hnew
    rfl
  refine ⟨fun q log readers => ?_, fun index log readers => ?_, _, ready_eq s, fun h => ?_,
    fun h t hread => ?_⟩
  · exact @Reached.perform _ ⟨s, log, readers⟩ hs q
  · unfold Request.perform
    simp only
    split
    · next r hr =>
      have hlt : index < readers.length := (List.getElem?_eq_some_iff.1 hr).1
      have hsame : readers[index] = r := (List.getElem?_eq_some_iff.1 hr).2
      change (⟨s, log, readers.set index r⟩ : Session Connection) = ⟨s, log, readers⟩
      rw [← hsame, List.set_getElem_self hlt]
    · rfl
  · exact read_of_not_ready hchunk (by rw [ready_eq, h])
  · have hstalls := stalls_of_ready hchunk (by rw [ready_eq, h]) hread
    have hsame : s.stream.decoder.encoding = stream.decoder.encoding := hs.keeps.2
    have hbytes : s.stream.decoder.kept ++ s.stream.raw.waiting ≠ [] := by
      simp [hstalls.arrived]
    refine ⟨hstalls, fun he => ?_, fun he => ?_⟩
    · exact Encoding.decode_ne_nil (.inl (hsame.trans he)) hbytes hstalls.incomplete
    · exact Encoding.decode_ne_nil (.inr (hsame.trans he)) hbytes hstalls.incomplete

/-- Two bytes of a character of three have arrived: the source is ready, but a read keeps them and
fails, and then the source is not ready any more. -/
theorem ready_predicts_read_within_character :
    let stream : DecodingStream Socket := { raw := {}, decoder := ⟨.utf8, []⟩ }
    let s := Connection.feed [0xE2, 0x82] { stream }
    DecodingStream.new? ({} : Socket) (some "utf-8") "latin-1" 4096 = .ok stream ∧
      Reached { stream } s ∧ CharacterSource.ready s = .ok true ∧
        ∃ t, CharacterSource.read s = .error .noDataYet t ∧ Stalls s t ∧
          Reached { stream } t ∧ CharacterSource.ready t = .ok false ∧
            CharacterSource.read t = .error .noDataYet t := by
  intro stream s
  have hnew : DecodingStream.new? ({} : Socket) (some "utf-8") "latin-1" 4096 = .ok stream := rfl
  have hs : Reached { stream } s := Reached.start.feed [0xE2, 0x82]
  have hscan : Encoding.utf8.scan 0xE2 [0x82] = .incomplete 1 .unexpectedEnd := by decide
  have hfirst : ByteStream.read (ByteStream.style s.stream.raw) s.stream.chunk s.stream.raw =
      .ok (some [0xE2, 0x82]) {} := rfl
  have hfeed : s.stream.decoder.feed [0xE2, 0x82] false = .ok ([], ⟨.utf8, [0xE2, 0x82]⟩) := by
    simp [s, stream, feed, Decoder.feed, Encoding.decode, hscan]
  have hfill : DecodingStream.fill s.stream = .error .noDataYet s.stream.keepAll := by
    rw [DecodingStream.fill_of_open rfl, hfirst]
    simp only [List.isEmpty_cons, hfeed]
    exact DecodingStream.fill_of_not_ready rfl rfl
  have hread :
      CharacterSource.read s = .error .noDataYet { s with stream := s.stream.keepAll } := by
    rw [read_of_pushed rfl, hfill]
  have ht : Reached { stream } { s with stream := s.stream.keepAll } :=
    hs.call (c := .read (.error .noDataYet)) hread
  obtain ⟨-, -, answer, hanswer, -, hready⟩ := ready_predicts_read hnew hs
  obtain ⟨-, -, answer', hanswer', hnot, -⟩ := ready_predicts_read hnew ht
  obtain rfl : true = answer := Except.ok.inj hanswer
  obtain rfl : false = answer' := Except.ok.inj hanswer'
  exact ⟨hnew, hs, hanswer, _, hread, (hready rfl _ hread).1, ht, hanswer', hnot rfl⟩

end Connection

end DotFraming
