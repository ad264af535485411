import DotFraming.Messages
import DotFraming.Proofs.Reader.Operations
import DotFraming.Proofs.Wire.Encode

/-!
# Decoding undoes the wire encoding

A sender writes one message after the other. What it wrote is decoded message by message, each by a
reader of its own; between two messages the source may have taken back the first character of the
next one.

* `Reading.finishes_of_encode` : a reader over a message as it was sent.
* `Decoding.Rounds` : decoding all messages, told by its first round.
* `Decoding.message_encode`, `Decoding.rounds_encode` : one message, and those that follow it.
* `Decoding.decoding_undoes_encoding` : **the lines that were sent are written, each with the line
  ending**, nothing is logged, and nothing else is left or taken.
-/

namespace DotFraming

open Wire

variable {eol : Text} {ls : List Text}

/-! ### One reader -/

namespace Reading

/-- A new reader over a message as it was sent hands out the lines, logs nothing and leaves what
comes behind the message. -/
theorem finishes_of_encode {r : Reader} {source : Pushback InMemory} {v : Text} (log : Log)
    (hr : Reader.new? eol = .ok r) (hls : ∀ l ∈ ls, ¬crlf <:+: l)
    (hsource : source.Holds (encode ls ++ v)) :
    ∃ z, Finishes ⟨r, source, log⟩ (ls.flatMap (· ++ eol)) z ∧ z.log = log ∧
      z.source = Pushback.ofText v := by
  obtain ⟨rfl, hs⟩ := open_of_new hr source log
  obtain ⟨out, start, left, out', rest, hruns, hends⟩ := exists_ends_encode hls r.eol v
  obtain ⟨z, hz, -, hlog, -, m, hne, hm, hd⟩ :=
    finishes_of_ends hs hruns hends hsource.delivers_all
  -- what the calls hand out and leave is what the text stands for
  have hrest : rest = v := by
    rw [← hends.restFrom_eq, ← hruns.restFrom_eq, restFrom_encode hls]
  have htext : out ++ out' = ls.flatMap (· ++ r.eol) := by
    rw [← hends.decodeFrom_eq, ← hruns.decodeFrom_eq, decodeFrom_encode hls]
  rw [htext] at hz
  rw [hm, hrest] at hsource
  exact ⟨z, hz, hlog, hd.unique (hsource.delivers hne)⟩

theorem close_of_finishes {σ : Type} [CharacterSource σ] {z : Reading σ} (h : Finishes z [] z) :
    ∃ y, close z = .ok () y ∧ y.source = z.source ∧ y.log = z.log := by
  unfold close
  split
  · exact ⟨z, rfl, rfl, rfl⟩
  · split
    · exact ⟨z.shut, rfl, rfl, rfl⟩
    · rw [collect_of_none rfl h.readOne_nil]
      exact ⟨z.shut, rfl, rfl, rfl⟩

end Reading

/-! ### Message by message -/

namespace Decoding

open Reading

variable {s : Decoding (Pushback InMemory)} {v : Text}

theorem message_of_finishes {σ : Type} [CharacterSource σ] {s : Decoding σ} {r : Reader}
    {z : Reading σ} {t : Text} (hr : Reader.new? eol = .ok r) (hz : Finishes (s.reading r) t z) :
    ∃ s', message eol s = .ok () s' ∧ s'.output = s.output ++ t ∧ s'.log = z.log ∧
      s'.source = z.source := by
  obtain ⟨cut, hcut, hlines⟩ := linesFrom_of_finishes s.written hz
  obtain ⟨y, hclose, hsource, hlog⟩ := close_of_finishes hz.again
  refine ⟨resume (cut.reverse ++ s.written) y, ?_, ?_, hlog, hsource⟩
  · simp only [message, hr, hlines, hclose]
  · simp [output, resume, hcut.flatten_eq]

/-- One message as it was sent: its lines are written, and what comes behind it is left. -/
theorem message_encode (heol : eol ≠ []) (hls : ∀ l ∈ ls, ¬crlf <:+: l)
    (hs : s.source.Holds (encode ls ++ v)) :
    ∃ s', message eol s = .ok () s' ∧ s'.output = s.output ++ ls.flatMap (· ++ eol) ∧
      s'.log = s.log ∧ s'.source = Pushback.ofText v := by
  have hr : Reader.new? eol = .ok { eol, eol_ne_nil := heol } := dif_neg heol
  obtain ⟨z, hz, hlog, hsource⟩ := finishes_of_encode s.log hr hls hs
  obtain ⟨s', hmessage, hout, hlog', hsource'⟩ := message_of_finishes hr hz
  exact ⟨s', hmessage, hout, hlog'.trans hlog, hsource'.trans hsource⟩

theorem more_of_nil (hs : s.source = Pushback.ofText []) :
    more s = .ok false s := by
  obtain ⟨source, log, written⟩ := s
  cases hs
  rfl

theorem more_of_cons {c : Char} (hs : s.source = Pushback.ofText (c :: v)) :
    ∃ s', more s = .ok true s' ∧ s'.source.Holds (c :: v) ∧ s'.log = s.log ∧
      s'.output = s.output := by
  obtain ⟨source, log, written⟩ := s
  cases hs
  exact ⟨_, rfl, .inr ⟨c, v, rfl, rfl⟩, rfl, rfl⟩

section Steps

variable {σ : Type} [CharacterSource σ] {s s' t : Decoding σ} {count : Nat}

theorem following_of_error {e : Fault}
    {hmore : ∃ p source, CharacterSource.read s.source = .ok (some p) source}
    (hmessage : message eol s = .error e t) : following eol count s hmore = .error e t := by
  rw [following]
  split <;> simp_all

theorem following_of_more_error {e : Fault}
    {hmore : ∃ p source, CharacterSource.read s.source = .ok (some p) source}
    (hmessage : message eol s = .ok () s') (hlook : more s' = .error e t) :
    following eol count s hmore = .error e t := by
  rw [following]
  split
  · next h => simp [hmessage] at h
  · next h =>
    obtain rfl : s' = _ := by simpa [hmessage] using h
    split <;> simp_all

theorem following_of_last
    {hmore : ∃ p source, CharacterSource.read s.source = .ok (some p) source}
    (hmessage : message eol s = .ok () s') (hend : more s' = .ok false t) :
    following eol count s hmore = .ok (count + 1) t := by
  rw [following]
  split
  · next h => simp [hmessage] at h
  · next h =>
    obtain rfl : s' = _ := by simpa [hmessage] using h
    split <;> simp_all

theorem following_of_next
    {hmore : ∃ p source, CharacterSource.read s.source = .ok (some p) source}
    (hmessage : message eol s = .ok () s') (hnext : more s' = .ok true t) :
    following eol count s hmore = following eol (count + 1) t (more_true hnext).2 := by
  rw [following]
  split
  · next h => simp [hmessage] at h
  · next h =>
    obtain rfl : s' = _ := by simpa [hmessage] using h
    split
    · next h => simp [hnext] at h
    · next h => simp [hnext] at h
    · next h =>
      obtain rfl : t = _ := by simpa [hnext] using h
      rfl

theorem messages_of_more_error {e : Fault} (hmessage : message eol s = .ok () s')
    (hlook : more s' = .error e t) : messages eol true s = .error e t := by
  simp only [messages, hmessage, if_true]
  split <;> simp_all

theorem messages_of_last (hmessage : message eol s = .ok () s') (hend : more s' = .ok false t) :
    messages eol true s = .ok 1 t := by
  simp only [messages, hmessage, if_true]
  split <;> simp_all

theorem messages_of_next (hmessage : message eol s = .ok () s') (hnext : more s' = .ok true t) :
    messages eol true s = following eol 1 t (more_true hnext).2 := by
  simp only [messages, hmessage, if_true]
  split
  · next h => simp [hnext] at h
  · next h => simp [hnext] at h
  · next h =>
    obtain rfl : t = _ := by simpa [hnext] using h
    rfl

/-- What decoding all messages comes to, told by its first round: a message, and a look whether
there is more. -/
structure Rounds (eol : Text) (count : Nat) (s : Decoding σ)
    (r : EStateM.Result Fault (Decoding σ) Nat) : Prop where
  /-- The message fails. -/
  broken : ∀ {e t}, message eol s = .error e t → r = .error e t
  /-- Looking for more fails. -/
  failed : ∀ {s' e t}, message eol s = .ok () s' → more s' = .error e t → r = .error e t
  /-- The message is the last one. -/
  last : ∀ {s' t}, message eol s = .ok () s' → more s' = .ok false t → r = .ok (count + 1) t
  /-- There is another one. -/
  next : ∀ {s' t}, message eol s = .ok () s' → (hmore : more s' = .ok true t) →
    r = following eol (count + 1) t (more_true hmore).2

theorem rounds_following (eol : Text) (count : Nat) (s : Decoding σ)
    (hmore : ∃ p source, CharacterSource.read s.source = .ok (some p) source) :
    Rounds eol count s (following eol count s hmore) :=
  ⟨following_of_error, following_of_more_error, following_of_last, following_of_next⟩

theorem rounds_messages (eol : Text) (s : Decoding σ) :
    Rounds eol 0 s (messages eol true s) :=
  ⟨fun h => by simp [messages, h], messages_of_more_error, messages_of_last, messages_of_next⟩

end Steps

theorem encode_append_ne_nil (ls : List Text) (v : Text) : encode ls ++ v ≠ [] := by
  simp [encode]

theorem more_of_encode {m : List Text} {ms : List (List Text)}
    (hs : s.source = Pushback.ofText ((m :: ms).flatMap encode)) :
    ∃ s', more s = .ok true s' ∧ s'.source.Holds ((m :: ms).flatMap encode) ∧ s'.log = s.log ∧
      s'.output = s.output := by
  rw [List.flatMap_cons] at hs ⊢
  obtain ⟨c, t, hct⟩ := List.exists_cons_of_ne_nil (encode_append_ne_nil m (ms.flatMap encode))
  rw [hct] at hs ⊢
  exact more_of_cons hs

theorem rounds_encode (heol : eol ≠ []) {ms : List (List Text)} {count : Nat}
    {r : EStateM.Result Fault (Decoding (Pushback InMemory)) Nat} (h : Rounds eol count s r)
    (hms : ∀ m ∈ ls :: ms, ∀ l ∈ m, ¬crlf <:+: l)
    (hs : s.source.Holds ((ls :: ms).flatMap encode)) :
    ∃ s', r = .ok (count + (ms.length + 1)) s' ∧
      s'.output = s.output ++ (ls :: ms).flatten.flatMap (· ++ eol) ∧ s'.log = s.log ∧
      s'.source = Pushback.ofText [] := by
  -- over any source that holds the messages: to see that there is another one, its first character
  -- was read and taken back
  induction ms generalizing s ls count r with
  | nil =>
    obtain ⟨s', hmessage, hout, hlog, hsource⟩ := message_encode heol (hms ls (by simp)) hs
    refine ⟨s', h.last hmessage (more_of_nil hsource), ?_, hlog, hsource⟩
    simpa using hout
  | cons m ms ih =>
    obtain ⟨s', hmessage, hout, hlog, hsource⟩ := message_encode heol (hms ls (by simp)) hs
    obtain ⟨s'', hnext, hholds, hlog', hout'⟩ := more_of_encode hsource
    obtain ⟨z, hz, hout'', hlog'', hleft⟩ :=
      ih (rounds_following eol (count + 1) s'' (more_true hnext).2)
        (fun x hx => hms x (List.mem_cons_of_mem _ hx)) hholds
    refine ⟨z, ?_, ?_, hlog''.trans (hlog'.trans hlog), hleft⟩
    · rw [h.next hmessage hnext, hz, List.length_cons]
      congr 1
      omega
    · rw [hout'', hout', hout]
      simp

theorem messages_encode (heol : eol ≠ []) {ms : List (List Text)} (hne : ms ≠ [])
    (hms : ∀ m ∈ ms, ∀ l ∈ m, ¬crlf <:+: l) (hs : s.source.Holds (ms.flatMap encode)) :
    ∃ s', messages eol true s = .ok ms.length s' ∧
      s'.output = s.output ++ ms.flatten.flatMap (· ++ eol) ∧ s'.log = s.log ∧
      s'.source = Pushback.ofText [] := by
  obtain ⟨ls, ms, rfl⟩ := List.exists_cons_of_ne_nil hne
  obtain ⟨s', hrun, h⟩ := rounds_encode heol (rounds_messages eol s) hms hs
  rw [Nat.zero_add] at hrun
  exact ⟨s', hrun, h⟩

theorem messages_first (heol : eol ≠ []) (hls : ∀ l ∈ ls, ¬crlf <:+: l)
    (hs : s.source.Holds (encode ls ++ v)) :
    ∃ s', messages eol false s = .ok 1 s' ∧ s'.output = s.output ++ ls.flatMap (· ++ eol) ∧
      s'.log = s.log ∧ s'.source = Pushback.ofText v := by
  obtain ⟨s', hmessage, h⟩ := message_encode heol hls hs
  exact ⟨s', by simp [messages, hmessage], h⟩

/-- A reader gives the lines back one by one if the last character of the line ending occurs in none
of them. -/
theorem lines_encode (heol : eol ≠ []) {r : Reader} {source : Pushback InMemory} (log : Log)
    (hr : Reader.new? eol = .ok r) (hls : ∀ l ∈ ls, ¬crlf <:+: l)
    (hlast : ∀ l ∈ ls, eol.getLast heol ∉ l) (hsource : source.Holds (encode ls ++ v)) :
    ∃ z, Reading.lines ⟨r, source, log⟩ = .ok (ls.map (· ++ eol)) z ∧
      z.source = Pushback.ofText v := by
  obtain ⟨z, hz, -, hleft⟩ := finishes_of_encode log hr hls hsource
  obtain ⟨cut, hcut, hlines⟩ := lines_of_finishes hz
  obtain ⟨rfl, -⟩ := open_of_new hr source log
  rw [hcut.unique heol (lines_of_not_mem heol hlast)] at hlines
  exact ⟨z, hlines, hleft⟩

/-- **Decoding undoes the wire encoding.** From messages one after another all lines are written,
each with the line ending; from the first message alone its lines are, and what comes behind it is
left. Nothing is logged. If the last character of the line ending occurs in none of the lines, a
reader gives them back one by one. -/
theorem decoding_undoes_encoding (heol : eol ≠ []) (log : Log) :
    (∀ ms : List (List Text), ms ≠ [] → (∀ m ∈ ms, ∀ l ∈ m, ¬crlf <:+: l) →
      ∃ s', messages eol true ⟨Pushback.ofText (ms.flatMap encode), log, []⟩ = .ok ms.length s' ∧
        s'.output = ms.flatten.flatMap (· ++ eol) ∧ s'.log = log ∧
        s'.source = Pushback.ofText []) ∧
    (∀ (m : List Text) (t : Text), (∀ l ∈ m, ¬crlf <:+: l) →
      ∃ s', messages eol false ⟨Pushback.ofText (encode m ++ t), log, []⟩ = .ok 1 s' ∧
        s'.output = m.flatMap (· ++ eol) ∧ s'.log = log ∧ s'.source = Pushback.ofText t) ∧
    ∀ (m : List Text) (r : Reader), (∀ l ∈ m, ¬crlf <:+: l) → (∀ l ∈ m, eol.getLast heol ∉ l) →
      Reader.new? eol = .ok r →
        ∃ z, Reading.lines ⟨r, Pushback.ofText (encode m), log⟩ = .ok (m.map (· ++ eol)) z := by
  refine ⟨fun ms hne hms => messages_encode heol hne hms (.inl rfl),
    fun m t hm => messages_first heol hm (.inl rfl), fun m r hm hlast hr => ?_⟩
  obtain ⟨z, hz, -⟩ := lines_encode (v := []) heol log hr hm hlast (.inl rfl)
  rw [List.append_nil] at hz
  exact ⟨z, hz⟩

/-- Two messages, one of them empty, with a line ending that overlaps itself. -/
theorem decoding_undoes_encoding_overlap :
    let m : List Text := [".b\r".toList, [], "..".toList]
    (∃ s', messages "aa".toList true ⟨Pushback.ofText ([m, []].flatMap encode), {}, []⟩ = .ok 2 s' ∧
      s'.output = ".b\raaaa..aa".toList ∧ s'.log = {} ∧ s'.source = Pushback.ofText []) ∧
    ∃ r z, Reader.new? "aa".toList = .ok r ∧
      Reading.lines ⟨r, Pushback.ofText (encode m), {}⟩ =
        .ok [".b\raa".toList, "aa".toList, "..aa".toList] z := by
  intro m
  have hm : ∀ x ∈ [m, []], ∀ l ∈ x, ¬crlf <:+: l := by decide
  have hlast : ∀ l ∈ m, "aa".toList.getLast (by decide) ∉ l := by decide
  obtain ⟨hall, -, hlines⟩ := @decoding_undoes_encoding "aa".toList (by decide) {}
  obtain ⟨z, hz⟩ := hlines m _ (hm m (by simp)) hlast rfl
  exact ⟨hall [m, []] (by simp) hm, _, z, rfl, hz⟩

end Decoding

end DotFraming
