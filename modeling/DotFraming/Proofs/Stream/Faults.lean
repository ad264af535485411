import DotFraming.Proofs.Encoding.Kept
import DotFraming.Proofs.Stream.Chunking
import DotFraming.Proofs.Stream.Stretches

/-!
# Chunks that cannot be decoded

A chunk that cannot be decoded fails the read that meets it. It is used up then, but the decoder is
as it was before, so whoever goes on reading finds the stream as if the chunk had not come.

* `Decoder.outcomes` : what events come to, chunk by chunk.
* `DecodingStream.outcomes_fill`, `DecodingStream.outcomes_attempts` : **reads take their outcomes
  off what is to come.** So the stream depends on nothing else.
* `DecodingStream.spelled_attempts`, `DecodingStream.attempts_end` : nothing comes twice, nothing is
  left out, and the end is final.
* `DecodingStream.Lacks`, `DecodingStream.attempts_of_lacks` : two streams, one of which lacks the
  chunk, come to the same but for the read that fails.
* `Decoder.outcomes_eq` : the characters are those of the chunks that can be decoded.
* `DecodingStream.fault_costs_one_read` : **a fault costs the read that meets it**, nothing else.
-/

namespace DotFraming

/-! ### What is to come -/

/-- A text that comes before other outcomes, if there is any of it. -/
def ahead (t : Text) (os : List (Except Fault Text)) : List (Except Fault Text) :=
  if t = [] then os else .ok t :: os

/-- The characters and failures in their order. -/
def spelled : List (Except Fault Text) → List (Except Fault Char)
  | [] => []
  | .ok t :: os => t.map .ok ++ spelled os
  | .error e :: os => .error e :: spelled os

theorem length_spelled (os : List (Except Fault Text)) :
    (spelled os).length = (textOf os).length + (faultsOf os).length := by
  induction os with
  | nil => rfl
  | cons o os ih =>
    cases o with
    | ok t => simp only [spelled, textOf, faultsOf, List.length_append, List.length_map, ih]; omega
    | error e => simp only [spelled, textOf, faultsOf, List.length_cons, ih]; omega

theorem spelled_append (os os' : List (Except Fault Text)) :
    spelled (os ++ os') = spelled os ++ spelled os' := by
  induction os with
  | nil => rfl
  | cons o os ih => cases o <;> simp [spelled, ih]

theorem spelled_ahead (t : Text) (os : List (Except Fault Text)) :
    spelled (ahead t os) = t.map .ok ++ spelled os := by
  unfold ahead
  split
  · next h => simp [h]
  · rfl

theorem textOf_ahead (t : Text) (os : List (Except Fault Text)) :
    textOf (ahead t os) = t ++ textOf os := by
  unfold ahead
  split
  · next h => simp [h]
  · rfl

theorem ahead_append (t : Text) (os os' : List (Except Fault Text)) :
    ahead t (os ++ os') = ahead t os ++ os' := by
  unfold ahead
  split <;> rfl

/-- What a read of up to `n` characters gives, and what is to come after it. -/
def deal (n : Nat) : List (Except Fault Text) → Except Fault Text × List (Except Fault Text)
  | [] => (.ok [], [])
  | .error e :: os => (.error e, os)
  | .ok t :: os => (.ok (t.take n), ahead (t.drop n) os)

/-- What reads of some sizes give, and what is to come after them. -/
def dealAll : List Int → List (Except Fault Text) →
    List (Except Fault Text) × List (Except Fault Text)
  | [], os => ([], os)
  | n :: ns, os =>
    ((deal n.toNat os).1 :: (dealAll ns (deal n.toNat os).2).1, (dealAll ns (deal n.toNat os).2).2)

theorem spelled_deal (n : Nat) (os : List (Except Fault Text)) :
    spelled os = spelled [(deal n os).1] ++ spelled (deal n os).2 := by
  rcases os with _ | ⟨e | t, os⟩
  · rfl
  · rfl
  · simp only [deal, spelled, spelled_ahead, List.append_nil]
    rw [← List.append_assoc, ← List.map_append, List.take_append_drop]

namespace Decoder

/-- The decoder after events. A chunk that cannot be decoded leaves it as it was. -/
def after (d : Decoder) : List (Event (List UInt8)) → Decoder
  | [] => d
  | .nothing :: events => after d events
  | .failure _ :: events => after d events
  | .item data :: events =>
    match d.feed data false with
    | .ok (_, d') => after d' events
    | .error _ => after d events

/-- What the end of the bytes comes to. -/
def ending (d : Decoder) : List (Except Fault Text) :=
  match d.feed [] true with
  | .ok (cs, _) => ahead cs []
  | .error err => [.error (.undecodable err)]

/-- What events come to: the text of each chunk, and the failures. A chunk that cannot be decoded is
a failure. A chunk without bytes is the end. -/
def outcomes (d : Decoder) : List (Event (List UInt8)) → List (Except Fault Text)
  | [] => d.ending
  | .nothing :: events => .error .noDataYet :: outcomes d events
  | .failure e :: events => .error e :: outcomes d events
  | .item data :: events =>
    if data = [] then d.ending
    else
      match d.feed data false with
      | .ok (cs, d') => ahead cs (outcomes d' events)
      | .error err => .error (.undecodable err) :: outcomes d events

/-- The bytes of the chunks that can be decoded, up to the end. -/
def accepted (d : Decoder) : List (Event (List UInt8)) → List UInt8
  | [] => []
  | .nothing :: events => accepted d events
  | .failure _ :: events => accepted d events
  | .item data :: events =>
    if data = [] then []
    else
      match d.feed data false with
      | .ok (_, d') => data ++ accepted d' events
      | .error _ => accepted d events

end Decoder

namespace DecodingStream

variable {s s' t : DecodingStream Chunks} {data : List UInt8} {events : List (Event (List UInt8))}
  {e : Fault}

/-- What the stream has still to give: what it has read ahead, and what the events will come to. -/
def outcomes (s : DecodingStream Chunks) : List (Except Fault Text) :=
  ahead s.buffered (if s.eof then [] else s.decoder.outcomes s.raw.events)

/-- How often the byte stream will have been read when the end has been seen. -/
def reads (s : DecodingStream Chunks) : Nat :=
  s.raw.styles.length +
    if s.eof then 0 else (s.raw.events.takeWhile (· ≠ .item [])).length + 1

/-! ### Filling the buffer -/

theorem fill_of_chunk (h : (s.eof || !s.buffered.isEmpty) = false)
    (hevents : s.raw.events = .item data :: events) :
    fill s =
      match s.decoder.feed data data.isEmpty with
      | .error err => .error (.undecodable err)
          { s with raw := s.afterRead events, eof := data.isEmpty }
      | .ok (buffered, decoder) =>
        fill { s with raw := s.afterRead events, decoder, buffered, eof := data.isEmpty } := by
  have hread : ByteStream.read (ByteStream.style s.raw) s.chunk s.raw =
      .ok (some data) (s.afterRead events) := by
    simp [ByteStream.read, Chunks.read, hevents, afterRead]
  have hfill := fill_of_open h
  rw [hread] at hfill
  exact hfill

theorem fill_of_failure (h : (s.eof || !s.buffered.isEmpty) = false)
    (hevents : s.raw.events = .failure e :: events) :
    fill s = .error e { s with raw := s.afterRead events } := by
  have hread : ByteStream.read (ByteStream.style s.raw) s.chunk s.raw =
      .error e (s.afterRead events) := by
    simp [ByteStream.read, Chunks.read, hevents, afterRead]
  rw [fill_of_open h, hread]

theorem outcomes_of_read {raw : Chunks} (hready : ¬(s.eof || !s.buffered.isEmpty) = true)
    (hread : ByteStream.read (ByteStream.style s.raw) s.chunk s.raw = .ok (some data) raw) :
    s.outcomes =
      match s.decoder.feed data data.isEmpty with
      | .ok (buffered, decoder) =>
        outcomes { s with raw, decoder, buffered, eof := data.isEmpty }
      | .error err =>
        .error (.undecodable err) :: outcomes { s with raw, eof := data.isEmpty } := by
  obtain ⟨hopen, hbuffered⟩ : s.eof = false ∧ s.buffered = [] := by simpa using hready
  have hcome : s.outcomes = s.decoder.outcomes s.raw.events := by
    simp [outcomes, ahead, hopen, hbuffered]
  rw [hcome]
  rcases Chunks.read_some hread with ⟨hevents, rfl, rfl⟩ | ⟨events, hevents, rfl⟩
  · rw [hevents, Decoder.outcomes, Decoder.ending, List.isEmpty_nil]
    cases s.decoder.feed [] true <;> simp [outcomes, ahead, hbuffered]
  · rw [hevents, Decoder.outcomes]
    by_cases hdata : data = []
    · rw [if_pos hdata, Decoder.ending, hdata, List.isEmpty_nil]
      cases s.decoder.feed [] true <;> simp [outcomes, ahead, hbuffered]
    · rw [if_neg hdata, List.isEmpty_eq_false_iff.2 hdata]
      cases s.decoder.feed data false <;> simp [outcomes, ahead, hbuffered, Chunks.next]

theorem reads_of_read {raw : Chunks} (hopen : s.eof = false)
    (hread : ByteStream.read (ByteStream.style s.raw) s.chunk s.raw = .ok (some data) raw)
    (hraw : t.raw = raw) (heof : t.eof = data.isEmpty) : t.reads = s.reads := by
  rcases Chunks.read_some hread with ⟨hevents, rfl, rfl⟩ | ⟨events, hevents, rfl⟩
  · simp [reads, hraw, heof, hopen, hevents, Chunks.next]
  · by_cases hdata : data = []
    · simp [reads, hraw, heof, hopen, hevents, Chunks.next, hdata]
    · simp [reads, hraw, heof, hopen, hevents, Chunks.next, hdata, Nat.add_assoc, Nat.add_comm]

/-- **Filling the buffer** takes no more off what is to come than the failure that it meets. -/
theorem outcomes_fill (s : DecodingStream Chunks) :
    (stateAfter (fill s)).reads = s.reads ∧
      match fill s with
      | .ok () s' => s'.outcomes = s.outcomes ∧ (s'.eof = true ∨ s'.buffered ≠ [])
      | .error e s' => s.outcomes = .error e :: s'.outcomes := by
  fun_induction fill s with
  | case1 s hready =>
    refine ⟨rfl, rfl, ?_⟩
    simpa [List.isEmpty_iff] using hready
  | case2 s hready e raw hread =>
    obtain ⟨events, hevents, rfl⟩ := Chunks.read_error hread
    obtain ⟨hopen, hbuffered⟩ : s.eof = false ∧ s.buffered = [] := by simpa using hready
    simp [outcomes, reads, ahead, Chunks.next, Decoder.outcomes, hopen, hbuffered, hevents,
      Nat.add_assoc, Nat.add_comm]
  | case3 s hready raw hread =>
    obtain ⟨events, hevents, rfl⟩ := Chunks.read_none hread
    obtain ⟨hopen, hbuffered⟩ : s.eof = false ∧ s.buffered = [] := by simpa using hready
    simp [outcomes, reads, ahead, Chunks.next, Decoder.outcomes, hopen, hbuffered, hevents,
      Nat.add_assoc, Nat.add_comm]
  | case4 s hready data raw hread err hfeed =>
    have hopen : s.eof = false := by simp_all
    refine ⟨reads_of_read hopen hread rfl rfl, ?_⟩
    rw [outcomes_of_read hready hread, hfeed]
  | case5 s hready data raw hread buffered decoder hfeed ih =>
    have hopen : s.eof = false := by simp_all
    have hreads : reads { s with raw, decoder, buffered, eof := data.isEmpty } = s.reads :=
      reads_of_read hopen hread rfl rfl
    rw [outcomes_of_read hready hread, hfeed, ← hreads]
    exact ih

/-! ### Reads -/

theorem read_of_pos {size : Int} (hsize : 0 < size) (s : DecodingStream Chunks) :
    read size s =
      match fill s with
      | .ok () s' =>
        .ok (s'.buffered.take size.toNat) { s' with buffered := s'.buffered.drop size.toNat }
      | .error e s' => .error e s' := by
  obtain ⟨n, rfl⟩ := Int.eq_ofNat_of_zero_le (Int.le_of_lt hsize)
  have hn : n ≠ 0 := by omega
  change readSome n s = _
  rw [readSome, if_neg hn]
  cases fill s <;> rfl

/-- **One read** takes its outcome off what is to come. If it gives nothing, nothing is to come. -/
theorem outcomes_read {size : Int} (hsize : 0 < size) (s : DecodingStream Chunks) :
    ∃ o s', attempts [read size] s = ([o], s') ∧ deal size.toNat s.outcomes = (o, s'.outcomes) ∧
      s'.reads = s.reads ∧ (o = .ok [] → s'.eof = true ∧ s'.buffered = []) := by
  have hfill := outcomes_fill s
  simp only [attempts, read_of_pos hsize]
  cases h : fill s with
  | error e s' =>
    rw [h] at hfill
    have hdeal : deal size.toNat s.outcomes = (.error e, s'.outcomes) := by
      rw [hfill.2]
      rfl
    exact ⟨.error e, s', rfl, hdeal, hfill.1, fun hnil => by cases hnil⟩
  | ok u s' =>
    rw [h] at hfill
    obtain ⟨hreads, houtcomes, hready⟩ := hfill
    refine ⟨.ok (s'.buffered.take size.toNat), _, rfl, ?_, hreads, fun hnil => ?_⟩
    · rw [← houtcomes]
      by_cases hbuffered : s'.buffered = []
      · have heof : s'.eof = true := hready.resolve_right (absurd hbuffered)
        simp [outcomes, ahead, hbuffered, heof, deal]
      · simp [outcomes, ahead, hbuffered, deal]
    · have hbuffered : s'.buffered = [] :=
        (List.take_eq_nil_iff.1 (Except.ok.inj hnil)).resolve_left (by omega)
      have heof : s'.eof = true := hready.resolve_right (absurd hbuffered)
      exact ⟨heof, by simp [hbuffered]⟩

/-- **Any reads** take their outcomes off what is to come. -/
theorem outcomes_attempts {sizes : List Int} (hsizes : ∀ n ∈ sizes, 0 < n)
    (s : DecodingStream Chunks) :
    ((attempts (sizes.map read) s).1, (attempts (sizes.map read) s).2.outcomes) =
      dealAll sizes s.outcomes := by
  induction sizes generalizing s with
  | nil => rfl
  | cons n sizes ih =>
    obtain ⟨o, s', hread, hdeal, -, -⟩ := outcomes_read (hsizes n (by simp)) s
    have hrest := ih (fun m hm => hsizes m (by simp [hm])) s'
    rw [List.map_cons, attempts_cons, hread, dealAll, hdeal, ← hrest]
    rfl

/-- What reads come to depends on nothing but what is to come. -/
theorem attempts_eq_of_outcomes {sizes : List Int} (hsizes : ∀ n ∈ sizes, 0 < n)
    (h : s.outcomes = s'.outcomes) :
    (attempts (sizes.map read) s).1 = (attempts (sizes.map read) s').1 := by
  have hs := outcomes_attempts hsizes s
  rw [h, ← outcomes_attempts hsizes s'] at hs
  exact (Prod.mk.inj hs).1

/-- **What any reads give comes in order**: nothing comes twice, and nothing is left out. -/
theorem spelled_attempts {sizes : List Int} (hsizes : ∀ n ∈ sizes, 0 < n)
    (s : DecodingStream Chunks) :
    let run := attempts (sizes.map read) s
    spelled s.outcomes = spelled run.1 ++ spelled run.2.outcomes ∧ run.2.reads = s.reads := by
  induction sizes generalizing s with
  | nil => exact ⟨rfl, rfl⟩
  | cons n sizes ih =>
    obtain ⟨o, s', hread, hdeal, hreads, -⟩ := outcomes_read (hsizes n (by simp)) s
    obtain ⟨hspelled, hsame⟩ := ih (fun m hm => hsizes m (by simp [hm])) s'
    have hfirst := spelled_deal n.toNat s.outcomes
    rw [hdeal, hspelled, ← List.append_assoc, ← spelled_append] at hfirst
    rw [List.map_cons, attempts_cons, hread]
    exact ⟨hfirst, hsame.trans hreads⟩

/-- **Once the end is reported, nothing else is.** -/
theorem attempts_end {sizes : List Int} (hsizes : ∀ n ∈ sizes, 0 < n) (s : DecodingStream Chunks) :
    let run := attempts (sizes.map read) s
    ∃ front k, run.1 = front ++ List.replicate k (.ok []) ∧ .ok [] ∉ front ∧
      (k ≠ 0 → run.2.eof = true ∧ run.2.buffered = []) := by
  induction sizes generalizing s with
  | nil => exact ⟨[], 0, rfl, nofun, fun h => absurd rfl h⟩
  | cons n sizes ih =>
    have hrest : ∀ m ∈ sizes, 0 < m := fun m hm => hsizes m (by simp [hm])
    obtain ⟨o, s', hread, -, -, hend⟩ := outcomes_read (hsizes n (by simp)) s
    rw [List.map_cons, attempts_cons, hread]
    by_cases ho : o = .ok []
    · obtain ⟨heof, hbuffered⟩ := hend ho
      rw [attempts_of_eof heof hbuffered hrest, ho]
      exact ⟨[], sizes.length + 1, rfl, nofun, fun _ => ⟨heof, hbuffered⟩⟩
    · obtain ⟨front, k, hrun, hfront, hlast⟩ := ih hrest s'
      refine ⟨o :: front, k, by rw [hrun]; rfl, fun hmem => ?_, hlast⟩
      exact (List.mem_cons.1 hmem).elim (fun heq => ho heq.symm) hfront

theorem eof_of_attempts {sizes : List Int} (hsizes : ∀ n ∈ sizes, 0 < n) {s : DecodingStream Chunks}
    (hmem : .ok [] ∈ (attempts (sizes.map read) s).1) :
    (attempts (sizes.map read) s).2.eof = true ∧ (attempts (sizes.map read) s).2.buffered = [] := by
  obtain ⟨front, k, hrun, hfront, hlast⟩ := attempts_end hsizes s
  refine hlast fun hk => hfront ?_
  rw [hrun, hk] at hmem
  simpa using hmem

/-! ### A chunk that is missing -/

/-- The stream `s'` is as `s`, but for a chunk that comes before the events `later` and that cannot
be decoded when it comes, because of `err`. -/
structure Lacks (data : List UInt8) (err : DecodingError) (later : List (Event (List UInt8)))
    (s s' : DecodingStream Chunks) : Prop where
  /-- The chunk is still to come, and the end does not come before it. -/
  chunk : ∃ before, s.raw.events = before ++ .item data :: later ∧ s'.raw.events = before ++ later ∧
    .item [] ∉ before ∧ (s.decoder.after before).feed data false = .error err
  /-- The decoders are the same. -/
  decoder : s'.decoder = s.decoder
  /-- The same has been read ahead. -/
  buffered : s'.buffered = s.buffered
  /-- The end has not come. -/
  eof : s.eof = false ∧ s'.eof = false

variable {err : DecodingError} {later : List (Event (List UInt8))}

/-- **Without the chunk, filling the buffer comes to the same**, but for the failure that the chunk
is. After this failure the same is to come. -/
theorem fill_of_lacks (hdata : data ≠ []) (h : Lacks data err later s s') :
    (∃ t t', fill s = .ok () t ∧ fill s' = .ok () t' ∧ Lacks data err later t t') ∨
      (∃ e t t', fill s = .error e t ∧ fill s' = .error e t' ∧ Lacks data err later t t') ∨
        ∃ t, fill s = .error (.undecodable err) t ∧ t.outcomes = s'.outcomes := by
  obtain ⟨⟨before, hevents, hevents', hend, hfault⟩, hdecoder, hbuffered, heof, heof'⟩ := h
  induction before generalizing s s' with
  | nil =>
    by_cases hempty : s.buffered = []
    · refine .inr (.inr ⟨{ s with raw := s.afterRead later, eof := false }, ?_, ?_⟩)
      · change s.decoder.feed data false = .error err at hfault
        rw [fill_of_chunk (by simp [heof, hempty]) hevents, List.isEmpty_eq_false_iff.2 hdata,
          hfault]
      · simp only [List.nil_append] at hevents'
        simp [outcomes, afterRead, hdecoder, hbuffered, heof', hevents']
    · refine .inl ⟨s, s', ?_, ?_, ⟨[], hevents, hevents', hend, hfault⟩, hdecoder, hbuffered, heof,
        heof'⟩
      · exact fill_of_ready (by simp [hempty])
      · exact fill_of_ready (by simp [hbuffered, hempty])
  | cons event before ih =>
    have hlater : .item [] ∉ before := fun hmem => hend (List.mem_cons_of_mem _ hmem)
    by_cases hempty : s.buffered = []
    · have hready : (s.eof || !s.buffered.isEmpty) = false := by simp [heof, hempty]
      have hready' : (s'.eof || !s'.buffered.isEmpty) = false := by simp [heof', hbuffered, hempty]
      cases event with
      | nothing =>
        exact .inr (.inl ⟨_, _, _, fill_of_nothing hready hevents, fill_of_nothing hready' hevents',
          ⟨before, rfl, rfl, hlater, hfault⟩, hdecoder, hbuffered, heof, heof'⟩)
      | failure e =>
        exact .inr (.inl ⟨_, _, _, fill_of_failure hready hevents, fill_of_failure hready' hevents',
          ⟨before, rfl, rfl, hlater, hfault⟩, hdecoder, hbuffered, heof, heof'⟩)
      | item d =>
        have hd : d ≠ [] := fun hnil => hend (by simp [hnil])
        rw [fill_of_chunk hready hevents, fill_of_chunk hready' hevents',
          List.isEmpty_eq_false_iff.2 hd, hdecoder]
        rw [Decoder.after] at hfault
        cases hfeed : s.decoder.feed d false with
        | error e =>
          rw [hfeed] at hfault
          exact .inr (.inl ⟨_, _, _, rfl, rfl, ⟨before, rfl, rfl, hlater, hfault⟩, rfl, hbuffered,
            rfl, rfl⟩)
        | ok fed =>
          obtain ⟨cs, d'⟩ := fed
          rw [hfeed] at hfault
          -- the text of the chunk has been read ahead, and is still to come
          have hahead : s'.outcomes = outcomes
              { s' with raw := s'.afterRead (before ++ later), decoder := d', buffered := cs,
                        eof := false } := by
            simp [outcomes, ahead, Decoder.outcomes, hevents', hdecoder, hbuffered, hempty, heof',
              hd, hfeed, afterRead]
          rw [hahead]
          exact ih rfl rfl rfl rfl hlater hfault rfl rfl
    · refine .inl ⟨s, s', ?_, ?_, ⟨event :: before, hevents, hevents', hend, hfault⟩, hdecoder,
        hbuffered, heof, heof'⟩
      · exact fill_of_ready (by simp [hempty])
      · exact fill_of_ready (by simp [hbuffered, hempty])

/-- Without the chunk, one read comes to the same, but for the failure that the chunk is. -/
theorem read_of_lacks (hdata : data ≠ []) (h : Lacks data err later s s') {size : Int}
    (hsize : 0 < size) :
    (∃ o t t', attempts [read size] s = ([o], t) ∧ attempts [read size] s' = ([o], t') ∧
        Lacks data err later t t') ∨
      ∃ t, attempts [read size] s = ([.error (.undecodable err)], t) ∧
        t.outcomes = s'.outcomes := by
  simp only [attempts, read_of_pos hsize]
  rcases fill_of_lacks hdata h with
    ⟨t, t', hfill, hfill', ht⟩ | ⟨e, t, t', hfill, hfill', ht⟩ | ⟨t, hfill, ht⟩
  · refine .inl ⟨.ok (t.buffered.take size.toNat),
      { t with buffered := t.buffered.drop size.toNat },
      { t' with buffered := t.buffered.drop size.toNat }, by rw [hfill], ?_,
      ht.chunk, ht.decoder, rfl, ht.eof⟩
    rw [hfill', ← ht.buffered]
  · exact .inl ⟨.error e, t, t', by rw [hfill], by rw [hfill'], ht⟩
  · exact .inr ⟨t, by rw [hfill], ht⟩

/-- **Without the chunk, any reads come to the same** until it is read. The read that reads it
fails, and without this read and the chunk all comes to the same. -/
theorem attempts_of_lacks (hdata : data ≠ []) {sizes : List Int} (hsizes : ∀ n ∈ sizes, 0 < n)
    (h : Lacks data err later s s') :
    let run := attempts (sizes.map read) s
    (∃ t', attempts (sizes.map read) s' = (run.1, t') ∧ Lacks data err later run.2 t') ∨
      ∃ i, run.1[i]? = some (.error (.undecodable err)) ∧
        run.1.eraseIdx i = (attempts ((sizes.eraseIdx i).map read) s').1 := by
  induction sizes generalizing s s' with
  | nil => exact .inl ⟨s', rfl, h⟩
  | cons n sizes ih =>
    have hrest : ∀ m ∈ sizes, 0 < m := fun m hm => hsizes m (by simp [hm])
    rw [List.map_cons, attempts_cons, attempts_cons (read n) _ s']
    rcases read_of_lacks hdata h (hsizes n (by simp)) with
      ⟨o, t, t', hread, hread', ht⟩ | ⟨t, hread, ht⟩
    · rw [hread, hread']
      rcases ih hrest ht with ⟨u', hrun, hu⟩ | ⟨i, hi, hrun⟩
      · exact .inl ⟨u', by rw [hrun], hu⟩
      · refine .inr ⟨i + 1, hi, ?_⟩
        rw [List.eraseIdx_cons_succ, List.map_cons, attempts_cons, hread', ← hrun]
        rfl
    -- the chunk has been read, and without it the others come to the same
    · rw [hread]
      exact .inr ⟨0, rfl, attempts_eq_of_outcomes hrest ht⟩

end DecodingStream

/-! ### What comes of the bytes -/

namespace Decoder

variable {d : Decoder}

/-- **Events come to the characters of the bytes that can be decoded**, with the failures between
them, and to what the end makes of the bytes that are kept. -/
theorem outcomes_eq (hkept : d.encoding.decode false 0 d.kept = .ok ([], d.kept))
    (events : List (Event (List UInt8))) :
    ∃ T kept body, d.encoding.decode false 0 (d.kept ++ d.accepted events) = .ok (T, kept) ∧
      d.outcomes events = body ++ ending { d with kept } ∧ textOf body = T := by
  induction events generalizing d with
  | nil => exact ⟨[], d.kept, [], by rwa [accepted, List.append_nil], rfl, rfl⟩
  | cons event events ih =>
    cases event with
    | nothing =>
      obtain ⟨T, kept, body, hdecode, hbody, htext⟩ := ih hkept
      exact ⟨T, kept, .error .noDataYet :: body, hdecode, by rw [outcomes, hbody]; rfl, htext⟩
    | failure e =>
      obtain ⟨T, kept, body, hdecode, hbody, htext⟩ := ih hkept
      exact ⟨T, kept, .error e :: body, hdecode, by rw [outcomes, hbody]; rfl, htext⟩
    | item data =>
      rw [accepted, outcomes]
      by_cases hdata : data = []
      · rw [if_pos hdata, if_pos hdata, List.append_nil]
        exact ⟨[], d.kept, [], hkept, rfl, rfl⟩
      · rw [if_neg hdata, if_neg hdata]
        cases hfeed : d.feed data false with
        | error err =>
          obtain ⟨T, kept, body, hdecode, hbody, htext⟩ := ih hkept
          exact ⟨T, kept, .error (.undecodable err) :: body, hdecode, by rw [hbody]; rfl, htext⟩
        | ok fed =>
          obtain ⟨cs, d'⟩ := fed
          obtain ⟨left, hleft, rfl⟩ : ∃ left, d.encoding.decode false 0 (d.kept ++ data) =
              .ok (cs, left) ∧ { d with kept := left } = d' := by
            unfold feed at hfeed
            split at hfeed
            · next left hleft =>
              cases hfeed
              exact ⟨left, hleft, rfl⟩
            · cases hfeed
          obtain ⟨T, kept, body, hdecode, hbody, rfl⟩ :=
            ih (d := { d with kept := left }) (Encoding.decode_kept hleft)
          refine ⟨cs ++ textOf body, kept, ahead cs body, ?_, ?_, textOf_ahead cs body⟩
          · rw [← List.append_assoc]
            exact Encoding.decode_append_of_ok hleft hdecode
          · simp only
            rw [hbody, ahead_append]

theorem ending_of_nil (h : d.kept = []) : d.ending = [] := by
  simp [ending, feed, h, Encoding.decode, ahead]

/-- At the end, bytes that are kept are one failure. -/
theorem ending_of_kept {u : List UInt8} {T : Text}
    (h : d.encoding.decode false 0 u = .ok (T, d.kept)) (hne : d.kept ≠ []) :
    ∃ err, d.encoding.decode true 0 d.kept = .error err ∧
      d.ending = [.error (.undecodable err)] := by
  obtain ⟨err, herr⟩ := Encoding.exists_error_of_kept h hne
  exact ⟨err, herr, by simp [ending, feed, herr]⟩

end Decoder

/-! ### Any reads of any events -/

/-- What attempts to read come to, when the byte stream follows `events`, `os` is what is to come,
and the byte stream is left as `raw`. -/
structure ComesInOrder (os : List (Except Fault Text)) (events : List (Event (List UInt8)))
    (run : List (Except Fault Text)) (raw : Chunks) : Prop where
  /-- The characters and failures come in their order. None is left out, and none comes twice. -/
  order : spelled run <+: spelled os
  /-- Once the end is reported, nothing else is. -/
  forever : ∃ front k, run = front ++ List.replicate k (.ok []) ∧ .ok [] ∉ front
  /-- When the end is reported, all has come. -/
  whole : .ok [] ∈ run → spelled run = spelled os
  /-- Then the byte stream has been read once for each event, and once for the end. -/
  once : .ok [] ∈ run → raw.styles.length = (events.takeWhile (· ≠ .item [])).length + 1
  /-- The end is reported as soon as there is nothing else. -/
  ends : (spelled os).length < run.length → .ok [] ∈ run

namespace DecodingStream

variable {e : Encoding} {events : List (Event (List UInt8))} {sizes : List Int}

theorem comesInOrder_of_read (hsizes : ∀ n ∈ sizes, 0 < n) (events : List (Event (List UInt8)))
    (offersAvailable : Bool) (descriptor : Descriptor) (e : Encoding) (chunk : Int) :
    let run := attempts (sizes.map read) (Chunks.decoded events offersAvailable descriptor e chunk)
    ComesInOrder (Decoder.outcomes ⟨e, []⟩ events) events run.1 run.2.raw := by
  intro run
  obtain ⟨hspelled, hreads⟩ :=
    spelled_attempts hsizes (Chunks.decoded events offersAvailable descriptor e chunk)
  obtain ⟨front, k, hrun, hfront, -⟩ :=
    attempts_end hsizes (Chunks.decoded events offersAvailable descriptor e chunk)
  change spelled (Decoder.outcomes ⟨e, []⟩ events) = spelled run.1 ++ spelled run.2.outcomes
    at hspelled
  refine ⟨⟨_, hspelled.symm⟩, ⟨front, k, hrun, hfront⟩, fun hmem => ?_, fun hmem => ?_,
    fun hlen => ?_⟩
  · obtain ⟨heof, hbuffered⟩ := eof_of_attempts hsizes hmem
    have hnone : run.2.outcomes = [] := by simp [run, outcomes, ahead, heof, hbuffered]
    rw [hspelled, hnone]
    exact (List.append_nil _).symm
  · have heof : run.2.eof = true := (eof_of_attempts hsizes hmem).1
    have hcount : run.2.reads = run.2.raw.styles.length := by simp [reads, heof]
    rw [← hcount, show run.2.reads = _ from hreads]
    simp [reads, Chunks.decoded]
  · refine Classical.byContradiction fun hnot => ?_
    have hle := length_attempts_le hnot
    rw [← length_spelled] at hle
    rw [hspelled, List.length_append] at hlen
    omega

/-- **A fault costs the read that meets it, and nothing else.** A byte stream follows any events,
and whoever reads from the decoding stream, in any sizes, goes on after each failure.

A chunk that cannot be decoded fails the read that meets it. Without this read the others come to
what they come to if the chunk is missing. All in all the characters and failures come in their
order, and the end is reported only after all of this, for good; the byte stream, read once for each
event and once for the end, is not read again. The characters are those of the bytes in the chunks
that can be decoded. If they end within a character, this is one more failure, the last. -/
theorem fault_costs_one_read (hsizes : ∀ n ∈ sizes, 0 < n) (events : List (Event (List UInt8)))
    (offersAvailable : Bool) (descriptor : Descriptor) (e : Encoding) (chunk : Int) :
    let reads (sizes : List Int) (events : List (Event (List UInt8))) :=
      attempts (sizes.map TextStream.read)
        (Chunks.decoded events offersAvailable descriptor e chunk)
    let run := reads sizes events
    let os := Decoder.outcomes ⟨e, []⟩ events
    (∀ before data later err, events = before ++ .item data :: later → .item [] ∉ before →
      data ≠ [] → (Decoder.after ⟨e, []⟩ before).feed data false = .error err →
        (run.1 = (reads sizes (before ++ later)).1 ∧ .ok [] ∉ run.1 ∧
            ∃ left, run.2.raw.events = left ++ .item data :: later) ∨
          ∃ i, run.1[i]? = some (.error (.undecodable err)) ∧
            run.1.eraseIdx i = (reads (sizes.eraseIdx i) (before ++ later)).1) ∧
      ComesInOrder os events run.1 run.2.raw ∧
        ∃ T kept body, e.decode false 0 (Decoder.accepted ⟨e, []⟩ events) = .ok (T, kept) ∧
          textOf body = T ∧ (kept = [] → os = body) ∧
            (kept ≠ [] → ∃ err, e.decode true 0 kept = .error err ∧
              os = body ++ [.error (.undecodable err)]) := by
  intro reads run os
  have horder := comesInOrder_of_read hsizes events offersAvailable descriptor e chunk
  refine ⟨fun before data later err hevents hend hdata hfault => ?_, horder, ?_⟩
  · have hlacks : Lacks data err later (Chunks.decoded events offersAvailable descriptor e chunk)
        (Chunks.decoded (before ++ later) offersAvailable descriptor e chunk) :=
      ⟨⟨before, hevents, rfl, hend, hfault⟩, rfl, rfl, rfl, rfl⟩
    rcases attempts_of_lacks hdata hsizes hlacks with ⟨t', hrun, hlast⟩ | hread
    · obtain ⟨left, hleft, -, -, -⟩ := hlast.chunk
      refine .inl ⟨(congrArg Prod.fst hrun).symm, fun hmem => ?_, left, hleft⟩
      exact absurd (eof_of_attempts hsizes hmem).1 (by simp [hlast.eof.1])
    · exact .inr hread
  · have hnil : e.decode false 0 [] = .ok ([], []) := by rw [Encoding.decode]
    obtain ⟨T, kept, body, hdecode, hbody, htext⟩ :=
      Decoder.outcomes_eq (d := ⟨e, []⟩) hnil events
    refine ⟨T, kept, body, hdecode, htext, fun h => ?_, fun h => ?_⟩
    · change Decoder.outcomes ⟨e, []⟩ events = body
      rw [hbody, Decoder.ending_of_nil h, List.append_nil]
    · obtain ⟨err, herr, hending⟩ := Decoder.ending_of_kept (d := ⟨e, kept⟩) hdecode h
      exact ⟨err, herr, by rw [← hending, ← hbody]⟩

/-- A chunk that cannot be decoded comes within a character; the bytes end within another one. -/
theorem fault_costs_one_read_within_character :
    let events : List (Event (List UInt8)) :=
      [.item [0xC3], .item [0xFF], .nothing, .item [0xA9, 0x61], .item [0xE2, 0x82]]
    let reads (sizes : List Int) (events : List (Event (List UInt8))) :=
      attempts (sizes.map TextStream.read) (Chunks.decoded events false .absent .utf8 4096)
    let sizes : List Int := [2, 1, 1, 3, 1, 1]
    let run := reads sizes events
    (∀ n ∈ sizes, 0 < n) ∧
      spelled run.1 =
        [.error (.undecodable ⟨.utf8, 0, [0xC3], .invalidContinuation⟩), .error .noDataYet, .ok 'é',
          .ok 'a', .error (.undecodable ⟨.utf8, 0, [0xE2, 0x82], .unexpectedEnd⟩)] ∧
      .ok [] ∈ run.1 ∧ run.2.raw.styles.length = 6 ∧
        ∃ i, run.1[i]? = some (.error (.undecodable ⟨.utf8, 0, [0xC3], .invalidContinuation⟩)) ∧
          run.1.eraseIdx i = (reads (sizes.eraseIdx i) (events.eraseIdx 1)).1 := by
  intro events reads sizes run
  have hsizes : ∀ n ∈ sizes, 0 < n := by decide
  have hc3 : Encoding.utf8.scan 0xC3 [] = .incomplete 0 .unexpectedEnd := by decide
  have hff : Encoding.utf8.scan 0xC3 [0xFF] = .malformed 0 .invalidContinuation := by decide
  have hé : Encoding.utf8.scan 0xC3 [0xA9, 0x61] = .char 'é' 1 := by decide
  have ha : Encoding.utf8.scan 0x61 [] = .char 'a' 0 := by decide
  have he2 : Encoding.utf8.scan 0xE2 [0x82] = .incomplete 1 .unexpectedEnd := by decide
  obtain ⟨hchunk, horder, -⟩ := fault_costs_one_read hsizes events false .absent .utf8 4096
  have hos : spelled (Decoder.outcomes ⟨.utf8, []⟩ events) =
      [.error (.undecodable ⟨.utf8, 0, [0xC3], .invalidContinuation⟩), .error .noDataYet, .ok 'é',
        .ok 'a', .error (.undecodable ⟨.utf8, 0, [0xE2, 0x82], .unexpectedEnd⟩)] := by
    simp [events, Decoder.outcomes, Decoder.ending, Decoder.feed, Encoding.decode, hc3, hff, hé, ha,
      he2, ahead, spelled]
  have hend : .ok [] ∈ run.1 := horder.ends (by rw [length_attempts, hos]; decide)
  refine ⟨hsizes, by rw [horder.whole hend, hos], hend, horder.once hend, ?_⟩
  have hfault : (Decoder.after ⟨.utf8, []⟩ [.item [0xC3]]).feed [0xFF] false =
      .error ⟨.utf8, 0, [0xC3], .invalidContinuation⟩ := by
    simp [Decoder.after, Decoder.feed, Encoding.decode, hc3, hff]
  exact (hchunk [.item [0xC3]] [0xFF] _ _ rfl (by decide) (by decide) hfault).resolve_left
    fun hmissing => hmissing.2.1 hend

end DecodingStream

end DotFraming
