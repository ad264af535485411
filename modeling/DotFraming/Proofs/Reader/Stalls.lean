import DotFraming.Proofs.Reader.Consumption
import DotFraming.Proofs.Reader.Failure
import DotFraming.Proofs.Stream.Stretches

/-!
# Reading on after a stall

A consumer over a stream that has nothing at the moment calls again. What a call had looked at
before it failed is lost, so the message survives only where the stream stalls between calls.

* `Reading.Hears` : calls one after another, failed ones among them.
* `Reading.hears_of_waiting` : **what such a consumer receives** is told stretch by stretch
  (`Wire.decodeStalled`).
* `Operation.readOne_through_stalls` : the same for any number of calls on a new reader, and that
  nothing is lost if no stretch leaves an unfinished end.
* `Operation.stall_loses_line_ending` : in general something is.
-/

namespace DotFraming

namespace Reading

open Wire

section Calls

variable {σ : Type} [CharacterSource σ]

/-- Calls hand out the characters of a text, or fail for lack of data and are made again. -/
inductive Hears : Reading σ → Nat → Text → Reading σ → Prop where
  /-- No call. -/
  | nil (s : Reading σ) : Hears s 0 [] s
  /-- A call that hands out the first character. -/
  | piece {s s' z : Reading σ} {n : Nat} {c : Char} {u : Text}
      (call : readOne s = .ok (some [c]) s') (tail : Hears s' n u z) : Hears s (n + 1) (c :: u) z
  /-- A call that fails. -/
  | stall {s s' z : Reading σ} {n : Nat} {u : Text} (call : readOne s = .error .noDataYet s')
      (tail : Hears s' n u z) : Hears s (n + 1) u z

theorem HandsOut.hears {s m z : Reading σ} {n : Nat} {u v : Text} (h : HandsOut s u m)
    (h' : Hears m n v z) : Hears s (u.length + n) (u ++ v) z := by
  induction h with
  | nil => simpa using h'
  | cons call _ ih =>
    rw [List.length_cons, Nat.add_right_comm]
    exact .piece call (ih h')

theorem Finishes.hears {s z : Reading σ} {u : Text} (h : Finishes s u z) :
    ∃ m, Hears s u.length u m ∧ readOne m = .ok none z ∧ readOne z = .ok none z := by
  obtain ⟨m, hm, hend, hagain⟩ := h
  have hhears := hm.hears (.nil m)
  rw [List.append_nil] at hhears
  exact ⟨m, hhears, hend, hagain⟩

end Calls

/-- **What a consumer receives that calls again after every stall.** It needs no more calls than
there are characters and stalls, and one that reports the end. -/
theorem hears_of_waiting {s : Reading (Pushback (DecodingStream Chunks))} {start : Bool}
    {w : Text} {ws : List Text} (hs : Open s start []) (hw : Waiting s.source (w :: ws)) :
    ∃ n m z, Hears s n (decodeStalled s.reader.eol start (w :: ws)) m ∧
      readOne m = .ok none z ∧ readOne z = .ok none z ∧
      n ≤ (decodeStalled s.reader.eol start (w :: ws)).length + ws.length ∧
      Waiting z.source (restStalled start (w :: ws)) := by
  obtain ⟨t, hd, ht⟩ := hw.delivers_all
  induction ws generalizing s start w t with
  | nil =>
    obtain ⟨t', hend, ht'⟩ := ht.ends
    obtain ⟨z, hz, -, hleft⟩ := finishes_of_exhausts hs hd hend
    obtain ⟨m, hhears, hcall, hagain⟩ := hz.hears
    refine ⟨_, m, z, hhears, hcall, hagain, Nat.le_refl _, ?_⟩
    rcases hleft with ⟨u, -, hu, hdu⟩ | ⟨hnil, hz⟩
    · rw [hu] at hw
      exact hw.waiting_of_delivers hdu
    · rw [restStalled, hnil, hz]
      exact ht'
  | cons w' ws ih =>
    by_cases hcomplete : Complete start w
    -- the terminator is in this stretch: no further one is asked for
    · obtain ⟨out, start', left, out', rest, hruns, hends⟩ :=
        (complete_iff s.reader.eol).1 hcomplete
      obtain ⟨z, hz, -, -, -, u, -, hu, hdu⟩ := finishes_of_ends hs hruns hends hd
      obtain ⟨m, hhears, hcall, hagain⟩ := hz.hears
      simp only [decodeStalled, restStalled, hcomplete, if_true]
      rw [hruns.decodeFrom_eq, hends.decodeFrom_eq, hruns.restFrom_eq, hends.restFrom_eq]
      rw [hu] at hw
      exact ⟨_, m, z, hhears, hcall, hagain, by simp, hw.waiting_of_delivers hdu⟩
    · obtain ⟨t', hfail, ht'⟩ := ht.stalls
      obtain ⟨y, s', hy, call, hopen, heol, rfl⟩ := exists_failure hs hcomplete hd hfail
      obtain ⟨t'', hd'', ht''⟩ := ht'.delivers_all
      obtain ⟨n, m, z, hhears, hend, hagain, hn, hleft⟩ := ih hopen ht' t'' hd'' ht''
      rw [heol] at hhears hn
      simp only [decodeStalled, restStalled, hcomplete, if_false]
      refine ⟨_, m, z, hy.hears (.stall call hhears), hend, hagain, ?_, hleft⟩
      simp only [List.length_append, List.length_cons] at hn ⊢
      omega

end Reading

namespace Operation

open Reading

/-! ### A consumer that calls again and again -/

/-- What `k` calls come to if `n` of them hand out `u` or fail, and the others report the end and
leave the reader as `z`. -/
structure Reports {σ : Type} (u : Text) (n k : Nat) (z : Reading σ)
    (run : List (Outcome σ) × Reading σ) : Prop where
  /-- What is received is a part of the text in front. -/
  received : receivedAll (List.replicate k readOne) run.1 <+: u
  /-- A call gives an answer or fails for lack of data. -/
  answers : ∀ o ∈ run.1, (∃ p, o.answer = .ok (.piece p)) ∨ o.answer = .error .noDataYet
  /-- With the end all of the text has been received. -/
  complete : (∃ o ∈ run.1, o.answer = .ok (.piece none)) →
    receivedAll (List.replicate k readOne) run.1 = u ∧ run.2 = z
  /-- The end is reported if there are calls enough. -/
  ended : n < k → ∃ o ∈ run.1, o.answer = .ok (.piece none)

theorem Reports.cons {σ : Type} {u v : Text} {n k : Nat} {z : Reading σ}
    {run : List (Outcome σ) × Reading σ} {o : Outcome σ} (h : Reports u n k z run)
    (hrec : readOne.received o = v)
    (hans : (∃ p, o.answer = .ok (.piece (some p))) ∨ o.answer = .error .noDataYet) :
    Reports (v ++ u) (n + 1) (k + 1) z (o :: run.1, run.2) := by
  have hnone : o.answer ≠ .ok (.piece none) := by
    rcases hans with ⟨p, hp⟩ | herr <;> simp_all
  refine ⟨?_, ?_, ?_, fun hk => ?_⟩
  · rw [List.replicate_succ, receivedAll_cons, hrec]
    exact (List.prefix_append_right_inj v).2 h.received
  · rintro o' (_ | ⟨_, ho'⟩)
    · exact hans.imp_left fun ⟨p, hp⟩ => ⟨some p, hp⟩
    · exact h.answers o' ho'
  · rintro ⟨o', _ | ⟨_, ho'⟩, hend⟩
    · exact absurd hend hnone
    · obtain ⟨hgot, hz⟩ := h.complete ⟨o', ho', hend⟩
      exact ⟨by rw [List.replicate_succ, receivedAll_cons, hrec, hgot], hz⟩
  · obtain ⟨o', ho', hend⟩ := h.ended (by omega)
    exact ⟨o', List.mem_cons_of_mem _ ho', hend⟩

section Calls

variable {σ : Type} [CharacterSource σ] {s m z : Reading σ}

theorem performAll_after_end (hagain : Reading.readOne z = .ok none z) (k : Nat) :
    performAll (List.replicate k readOne) z =
      (List.replicate k { answer := .ok (.piece none), after := z }, z) := by
  induction k with
  | zero => rfl
  | succ k ih =>
    simp only [List.replicate_succ, performAll, perform, hagain, Outcome.ofResult, ih]

theorem reports_zero (u : Text) (n : Nat) (s z : Reading σ) :
    Reports u n 0 z (performAll (List.replicate 0 readOne) s) :=
  ⟨List.nil_prefix, by simp [performAll], by simp [performAll], by simp⟩

theorem reports_nil (hend : Reading.readOne m = .ok none z)
    (hagain : Reading.readOne z = .ok none z) (k : Nat) :
    Reports [] 0 k z (performAll (List.replicate k readOne) m) := by
  cases k with
  | zero => exact reports_zero _ _ _ _
  | succ k =>
    have hrun : performAll (List.replicate (k + 1) readOne) m =
        (List.replicate (k + 1) { answer := .ok (.piece none), after := z }, z) := by
      simp only [List.replicate_succ, performAll, perform, hend, Outcome.ofResult,
        performAll_after_end hagain k]
    have hnil : receivedAll (List.replicate (k + 1) readOne)
        (List.replicate (k + 1) { answer := .ok (.piece none), after := z }) = [] := by
      simp [receivedAll, received]
    rw [hrun]
    refine ⟨by simp [hnil], fun o ho => .inl ⟨none, ?_⟩, fun _ => ⟨hnil, rfl⟩,
      fun _ => ⟨_, List.mem_cons_self, rfl⟩⟩
    rw [List.eq_of_mem_replicate ho]

theorem reports_of_hears {n : Nat} {u : Text} (h : Hears s n u m)
    (hend : Reading.readOne m = .ok none z) (hagain : Reading.readOne z = .ok none z) (k : Nat) :
    Reports u n k z (performAll (List.replicate k readOne) s) := by
  induction h generalizing k with
  | nil => exact reports_nil hend hagain k
  | @piece _ _ _ _ c _ call _ ih =>
    cases k with
    | zero => exact reports_zero _ _ _ _
    | succ k =>
      simp only [List.replicate_succ, performAll, perform, call]
      exact (ih hend k).cons (v := [c]) rfl (.inl ⟨_, rfl⟩)
  | stall call _ ih =>
    cases k with
    | zero => exact reports_zero _ _ _ _
    | succ k =>
      simp only [List.replicate_succ, performAll, perform, call]
      exact (ih hend k).cons (v := []) rfl (.inr rfl)

end Calls

/-- A source over a stream of bytes each of which is a character. -/
def latin1Source (raw : Chunks) (chunk : Int) : Pushback (DecodingStream Chunks) :=
  { stream := { raw, decoder := ⟨.latin1, []⟩, chunk } }

theorem waiting_latin1Source {raw : Chunks} (hevents : ∀ e ∈ raw.events, Chunks.Stalling e)
    (chunk : Int) : Waiting (latin1Source raw chunk) (Chunks.stretches [] raw.events) :=
  ⟨rfl, rfl, hevents, fun h => (Bool.false_ne_true h).elim, rfl⟩

theorem reports_of_stalling {eol : Text} {r : Reader} (raw : Chunks) (log : Log)
    (hr : Reader.new? eol = .ok r) (hevents : ∀ e ∈ raw.events, Chunks.Stalling e) (chunk : Int)
    (k : Nat) :
    let ws := Chunks.stretches [] raw.events
    ∃ n z, n < (Wire.decodeStalled eol true ws).length + ws.length ∧
      Waiting z.source (Wire.restStalled true ws) ∧
      Reports (Wire.decodeStalled eol true ws) n k z
        (performAll (List.replicate k readOne) ⟨r, latin1Source raw chunk, log⟩) := by
  obtain ⟨rfl, hs⟩ := open_of_new hr (latin1Source raw chunk) log
  have hw := waiting_latin1Source hevents chunk
  obtain ⟨w, ws, hws⟩ := List.exists_cons_of_ne_nil (Chunks.stretches_ne_nil [] raw.events)
  rw [hws] at hw ⊢
  obtain ⟨n, m, z, hhears, hend, hagain, hn, hleft⟩ := hears_of_waiting hs hw
  refine ⟨n, z, ?_, hleft, reports_of_hears hhears hend hagain k⟩
  change n ≤ (Wire.decodeStalled r.eol true (w :: ws)).length + ws.length at hn
  rw [List.length_cons]
  omega

/-- **A stall costs what the call had looked at, and nothing else.** A consumer calls `k` times,
again after every call that failed for lack of data. It receives the text of the stretches, each
without its unfinished end, and the end of the message at the first whole terminator within a
stretch, or at the end of the stream; the source is then left right behind it. If no stretch leaves
an unfinished end, this is the text of the first message, and what comes after that message, as if
everything had been there at once. -/
theorem readOne_through_stalls {eol : Text} {r : Reader} (raw : Chunks) (log : Log)
    (hr : Reader.new? eol = .ok r) (hevents : ∀ e ∈ raw.events, Chunks.Stalling e) (chunk : Int)
    (k : Nat) :
    let ws := Chunks.stretches [] raw.events
    let run := performAll (List.replicate k readOne) ⟨r, latin1Source raw chunk, log⟩
    let got := receivedAll (List.replicate k readOne) run.1
    got <+: Wire.decodeStalled eol true ws ∧
      (∀ o ∈ run.1, (∃ p, o.answer = .ok (.piece p)) ∨ o.answer = .error .noDataYet) ∧
      ((∃ o ∈ run.1, o.answer = .ok (.piece none)) →
        got = Wire.decodeStalled eol true ws ∧
          Waiting run.2.source (Wire.restStalled true ws)) ∧
      ((Wire.decodeStalled eol true ws).length + ws.length ≤ k →
        ∃ o ∈ run.1, o.answer = .ok (.piece none)) ∧
      (Wire.CleanStalls true ws →
        Wire.decodeStalled eol true ws = Wire.decode eol ws.flatten ∧
          (Wire.restStalled true ws).flatten = Wire.rest ws.flatten) := by
  obtain ⟨n, z, hn, hleft, hreports⟩ := reports_of_stalling raw log hr hevents chunk k
  refine ⟨hreports.received, hreports.answers, fun hend => ?_, fun hk => ?_, fun hclean => ?_⟩
  · obtain ⟨hgot, hz⟩ := hreports.complete hend
    exact ⟨hgot, hz ▸ hleft⟩
  · exact hreports.ended (Nat.lt_of_lt_of_le hn hk)
  · rw [← Wire.decodeFrom_true, ← Wire.restFrom_true]
    exact Wire.decodeStalled_of_clean eol hclean

/-- The bytes of a text of characters that are bytes. -/
def bytesOf (t : String) : Event (List UInt8) := .item (t.toList.map fun c => UInt8.ofNat c.toNat)

/-- A stream that stalls within a line, and once more before a line ending. -/
theorem readOne_through_stalls_between_calls :
    let events := [bytesOf "a", .nothing, bytesOf "b\r\n..c", .nothing, bytesOf "\r\n.\r\nd"]
    ∃ r, Reader.new? ['|'] = .ok r ∧ (∀ e ∈ events, Chunks.Stalling e) ∧
      Wire.CleanStalls true (Chunks.stretches [] events) ∧
      let run := performAll (List.replicate 10 readOne) ⟨r, latin1Source { events } 4096, {}⟩
      receivedAll (List.replicate 10 readOne) run.1 = "ab|.c|".toList ∧
        Waiting run.2.source [['d']] := by
  intro events
  have hr : Reader.new? ['|'] = .ok _ := rfl
  have hevents : ∀ e ∈ events, Chunks.Stalling e := by decide
  have hclean : Wire.CleanStalls true (Chunks.stretches [] events) :=
    .inr ⟨by decide, .inr ⟨by decide, trivial⟩⟩
  have htext : Wire.decodeStalled ['|'] true (Chunks.stretches [] events) = "ab|.c|".toList := by
    decide
  have hrest : Wire.restStalled true (Chunks.stretches [] events) = [['d']] := by decide
  obtain ⟨-, -, hall, hdone, -⟩ := readOne_through_stalls { events } {} hr hevents 4096 10
  rw [htext] at hall hdone
  rw [hrest] at hall
  exact ⟨_, hr, hevents, hclean, hall (hdone (by decide))⟩

/-- **In general something is lost.** It is not true that a consumer that calls again after every
stall receives the text of the message. If the stream stalls right after a line ending, this line
ending is lost, and the dot of the terminator then counts as text. -/
theorem stall_loses_line_ending :
    ¬∀ (eol : Text) (r : Reader) (raw : Chunks) (k : Nat), Reader.new? eol = .ok r →
      (∀ e ∈ raw.events, Chunks.Stalling e) →
      let run := performAll (List.replicate k readOne) ⟨r, latin1Source raw 4096, {}⟩
      (∃ o ∈ run.1, o.answer = .ok (.piece none)) →
        receivedAll (List.replicate k readOne) run.1 =
          Wire.decode eol (Chunks.stretches [] raw.events).flatten := by
  intro h
  let events := [bytesOf "a\r\n", .nothing, bytesOf ".\r\n"]
  have hr : Reader.new? ['\n'] = .ok _ := rfl
  have hevents : ∀ e ∈ events, Chunks.Stalling e := by decide
  have htext : Wire.decodeStalled ['\n'] true (Chunks.stretches [] events) = "a.\n".toList := by
    decide
  have hdecode : Wire.decode ['\n'] (Chunks.stretches [] events).flatten = "a\n".toList := by decide
  obtain ⟨n, z, hn, -, hreports⟩ := reports_of_stalling { events } {} hr hevents 4096 5
  rw [htext] at hn hreports
  have hend := hreports.ended hn
  have hsame := h ['\n'] _ { events } 5 hr hevents hend
  rw [(hreports.complete hend).1, hdecode] at hsame
  exact absurd hsame (by decide)

end Operation

end DotFraming
