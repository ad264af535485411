import DotFraming.Bytes.Chunks
import DotFraming.Proofs.Encoding.Portions
import DotFraming.Stream.Decoding

/-!
# Where bytes are cut does not matter

A byte stream gives its bytes in chunks of any size, fails in between, and has nothing at the moment
as often as it likes. Whoever reads characters from it and goes on after every failure gets the text
of all the bytes, and each failure once.

* `attempts` : computations one after another, failed ones included.
* `DecodingStream.Yields` : the text and the failures that a stream has still to give.
* `DecodingStream.fill_of_yields`, `DecodingStream.read_of_yields` : **one read** gives a part of
  the text in front or the next failure.
* `DecodingStream.attempts_of_yields` : so do any reads.
* `DecodingStream.chunking_invisible` : **the text and the failures come out whole**, whatever the
  chunks and the sizes of the reads.
-/

namespace DotFraming

/-! ### Attempts -/

/-- Computations one after another, each on the state that the one before left, even if that failed.
-/
def attempts {σ α : Type} : List (Action σ α) → σ → List (Except Fault α) × σ
  | [], s => ([], s)
  | x :: xs, s =>
    match x s with
    | .ok a t => ((.ok a) :: (attempts xs t).1, (attempts xs t).2)
    | .error e t => ((.error e) :: (attempts xs t).1, (attempts xs t).2)

theorem attempts_cons {σ α : Type} (x : Action σ α) (xs : List (Action σ α)) (s : σ) :
    attempts (x :: xs) s =
      ((attempts [x] s).1 ++ (attempts xs (attempts [x] s).2).1,
        (attempts xs (attempts [x] s).2).2) := by
  simp only [attempts]
  cases x s <;> rfl

/-- The text that attempts returned. -/
def textOf : List (Except Fault Text) → Text
  | [] => []
  | .ok t :: os => t ++ textOf os
  | .error _ :: os => textOf os

/-- The failures of attempts. -/
def faultsOf {α : Type} : List (Except Fault α) → List Fault
  | [] => []
  | .ok _ :: os => faultsOf os
  | .error e :: os => e :: faultsOf os

/-- Attempts that all returned some text or failed are no more than the characters and failures. -/
theorem length_attempts_le {os : List (Except Fault Text)} (h : .ok [] ∉ os) :
    os.length ≤ (textOf os).length + (faultsOf os).length := by
  induction os with
  | nil => exact Nat.le_refl _
  | cons o os ih =>
    have hrest := ih fun hmem => h (List.mem_cons_of_mem _ hmem)
    cases o with
    | error e => simp only [textOf, faultsOf, List.length_cons]; omega
    | ok t =>
      have ht : 1 ≤ t.length := List.length_pos_iff.2 fun hnil => h (hnil ▸ List.mem_cons_self)
      simp only [textOf, faultsOf, List.length_cons, List.length_append]
      omega

/-! ### Chunks -/

namespace Chunks

/-- The failure that an event comes to. -/
def faultOf? : Event (List UInt8) → Option Fault
  | .item _ => none
  | .nothing => some .noDataYet
  | .failure e => some e

/-- The failures that events come to. -/
def faults (events : List (Event (List UInt8))) : List Fault := events.filterMap faultOf?

theorem bytesOf_of_fault {event : Event (List UInt8)} {e : Fault} (h : faultOf? event = some e) :
    bytesOf event = [] := by
  cases event with
  | item data => cases h
  | nothing => rfl
  | failure e => rfl

/-- The byte stream after a read, when `events` are left. -/
def next (s : Chunks) (style : ReadStyle) (events : List (Event (List UInt8))) : Chunks :=
  { s with events, styles := style :: s.styles }

variable {s t : Chunks} {style : ReadStyle} {n : Int} {e : Fault} {data : List UInt8}

theorem read_error (h : ByteStream.read style n s = .error e t) :
    ∃ events, s.events = .failure e :: events ∧ t = s.next style events := by
  change Chunks.read style n s = .error e t at h
  unfold Chunks.read at h
  simp only at h
  split at h <;> cases h
  next hevents => exact ⟨_, hevents, rfl⟩

theorem read_none (h : ByteStream.read style n s = .ok none t) :
    ∃ events, s.events = .nothing :: events ∧ t = s.next style events := by
  change Chunks.read style n s = .ok none t at h
  unfold Chunks.read at h
  simp only at h
  split at h <;> cases h
  next hevents => exact ⟨_, hevents, rfl⟩

theorem read_some (h : ByteStream.read style n s = .ok (some data) t) :
    (s.events = [] ∧ data = [] ∧ t = s.next style []) ∨
      ∃ events, s.events = .item data :: events ∧ t = s.next style events := by
  change Chunks.read style n s = .ok (some data) t at h
  unfold Chunks.read at h
  simp only at h
  split at h <;> cases h
  · next hevents => exact .inl ⟨hevents, rfl, by simp [next, hevents]⟩
  · next hevents => exact .inr ⟨_, hevents, rfl⟩

end Chunks

/-! ### What a stream has still to give -/

namespace DecodingStream

/-- The stream has still to give the text `v` and the failures `fs`, and by the end it will have
read its byte stream `reads` times in all. -/
structure Yields (s : DecodingStream Chunks) (v : Text) (fs : List Fault) (reads : Nat) : Prop where
  /-- The text that is kept, and that of the bytes to come. -/
  text : ∃ v', v = s.buffered ++ v' ∧ s.decoder.Gives (s.raw.events.flatMap Chunks.bytesOf) v'
  /-- The failures to come. -/
  faults : Chunks.faults s.raw.events = fs
  /-- No chunk that could be taken for the end. -/
  chunks : .item [] ∉ s.raw.events
  /-- After the end nothing comes, and no byte is kept. -/
  ended : s.eof = true → s.raw.events = [] ∧ s.decoder.kept = []
  /-- Each event takes a read, and so does the end. -/
  reads : s.raw.styles.length + s.raw.events.length + (if s.eof then 0 else 1) = reads

variable {s : DecodingStream Chunks} {v : Text} {fs : List Fault} {reads : Nat}

theorem Yields.of_eof (h : Yields s v fs reads) (heof : s.eof = true) :
    v = s.buffered ∧ fs = [] ∧ s.raw.events = [] ∧ s.raw.styles.length = reads := by
  obtain ⟨hevents, hkept⟩ := h.ended heof
  obtain ⟨v', rfl, hgives⟩ := h.text
  have hv' : v' = [] := by
    simpa [Decoder.Gives, hevents, hkept, Encoding.decode, eq_comm] using hgives
  refine ⟨by simp [hv'], ?_, hevents, ?_⟩
  · rw [← h.faults, hevents]
    rfl
  · simpa [hevents, heof] using h.reads

theorem Yields.open_of_cons {event : Event (List UInt8)} {events : List (Event (List UInt8))}
    (h : Yields s v fs reads) (hevents : s.raw.events = event :: events) : s.eof = false := by
  refine Bool.eq_false_iff.2 fun heof => ?_
  have hnil := (h.ended heof).1
  rw [hevents] at hnil
  cases hnil

theorem Yields.fails {event : Event (List UInt8)} {events : List (Event (List UInt8))} {e : Fault}
    (h : Yields s v fs reads) (style : ReadStyle) (hevents : s.raw.events = event :: events)
    (he : Chunks.faultOf? event = some e) :
    ∃ fs', fs = e :: fs' ∧ Yields { s with raw := s.raw.next style events } v fs' reads := by
  have hopen := h.open_of_cons hevents
  obtain ⟨⟨v', hv, hgives⟩, hfaults, hchunks, -, hreads⟩ := h
  rw [hevents, Chunks.faults, List.filterMap_cons_some he] at hfaults
  rw [hevents, List.flatMap_cons, Chunks.bytesOf_of_fault he, List.nil_append] at hgives
  refine ⟨_, hfaults.symm, ⟨v', hv, hgives⟩, rfl, ?_, ?_, ?_⟩
  · exact fun hmem => hchunks (hevents ▸ List.mem_cons_of_mem _ hmem)
  · exact fun heof => absurd (hopen.symm.trans heof) (by simp)
  · simp only [Chunks.next, hopen, hevents, List.length_cons] at hreads ⊢
    omega

theorem Yields.feeds {data : List UInt8} {events : List (Event (List UInt8))}
    (h : Yields s v fs reads) (style : ReadStyle) (hbuffered : s.buffered = [])
    (hevents : s.raw.events = .item data :: events) :
    data ≠ [] ∧ ∃ cs d, s.decoder.feed data false = .ok (cs, d) ∧
      Yields { s with raw := s.raw.next style events, decoder := d, buffered := cs, eof := false }
        v fs reads := by
  have hopen := h.open_of_cons hevents
  obtain ⟨⟨v', hv, hgives⟩, hfaults, hchunks, -, hreads⟩ := h
  rw [hevents, List.flatMap_cons] at hgives
  obtain ⟨cs, d, v'', hfeed, rfl, hgives'⟩ := Decoder.Gives.feed hgives
  refine ⟨?_, cs, d, hfeed, ⟨v'', by rw [hv, hbuffered]; rfl, hgives'⟩, ?_, ?_, nofun, ?_⟩
  · rintro rfl
    exact hchunks (hevents ▸ List.mem_cons_self)
  · rw [← hfaults, hevents]
    rfl
  · exact fun hmem => hchunks (hevents ▸ List.mem_cons_of_mem _ hmem)
  · simp only [Chunks.next, hopen, hevents, List.length_cons] at hreads ⊢
    omega

theorem Yields.finishes (h : Yields s v fs reads) (style : ReadStyle) (hbuffered : s.buffered = [])
    (hopen : s.eof = false) (hevents : s.raw.events = []) :
    ∃ cs d, s.decoder.feed [] true = .ok (cs, d) ∧
      Yields { s with raw := s.raw.next style [], decoder := d, buffered := cs, eof := true }
        v fs reads := by
  obtain ⟨⟨v', hv, hgives⟩, hfaults, -, -, hreads⟩ := h
  rw [hevents] at hgives hfaults
  refine ⟨v', _, Decoder.Gives.final hgives, ⟨[], ?_, ?_⟩, hfaults, ?_, fun _ => ⟨rfl, rfl⟩, ?_⟩
  · rw [hv, hbuffered, List.append_nil, List.nil_append]
  · simp [Decoder.Gives, Chunks.next, Encoding.decode]
  · simp [Chunks.next]
  · simp only [Chunks.next, hopen, hevents, List.length_cons, List.length_nil] at hreads ⊢
    simpa using hreads

theorem feed_of_yields {data : List UInt8} {raw : Chunks} (h : Yields s v fs reads)
    (hready : ¬(s.eof || !s.buffered.isEmpty) = true)
    (hread : ByteStream.read (ByteStream.style s.raw) s.chunk s.raw = .ok (some data) raw) :
    ∃ cs d, s.decoder.feed data data.isEmpty = .ok (cs, d) ∧
      Yields { s with raw, decoder := d, buffered := cs, eof := data.isEmpty } v fs reads := by
  obtain ⟨hopen, hbuffered⟩ : s.eof = false ∧ s.buffered = [] := by simpa using hready
  rcases Chunks.read_some hread with ⟨hevents, rfl, rfl⟩ | ⟨events, hevents, rfl⟩
  · exact h.finishes _ hbuffered hopen hevents
  · obtain ⟨hne, hfeeds⟩ := h.feeds (ByteStream.style s.raw) hbuffered hevents
    rwa [List.isEmpty_eq_false_iff.2 hne]

/-- **Filling the buffer** leaves what is still to come as it is, unless it meets the next failure.
-/
theorem fill_of_yields (h : Yields s v fs reads) :
    (∃ s', fill s = .ok () s' ∧ Yields s' v fs reads ∧ (s'.eof = true ∨ s'.buffered ≠ [])) ∨
      ∃ e fs' s', fill s = .error e s' ∧ fs = e :: fs' ∧ Yields s' v fs' reads := by
  fun_induction fill s with
  | case1 s hready =>
    refine .inl ⟨s, rfl, h, ?_⟩
    simpa [List.isEmpty_iff] using hready
  | case2 s hready e raw hread =>
    obtain ⟨events, hevents, rfl⟩ := Chunks.read_error hread
    obtain ⟨fs', rfl, hnext⟩ := h.fails (ByteStream.style s.raw) hevents rfl
    exact .inr ⟨e, fs', _, rfl, rfl, hnext⟩
  | case3 s hready raw hread =>
    obtain ⟨events, hevents, rfl⟩ := Chunks.read_none hread
    obtain ⟨fs', rfl, hnext⟩ := h.fails (ByteStream.style s.raw) hevents rfl
    exact .inr ⟨.noDataYet, fs', _, rfl, rfl, hnext⟩
  | case4 s hready data raw hread e hfeed =>
    obtain ⟨cs, d, hfed, -⟩ := feed_of_yields h hready hread
    cases hfed.symm.trans hfeed
  | case5 s hready data raw hread buffered decoder hfeed ih =>
    obtain ⟨cs, d, hfed, hnext⟩ := feed_of_yields h hready hread
    cases hfed.symm.trans hfeed
    exact ih hnext

/-! ### Reads -/

theorem Yields.takes (h : Yields s v fs reads) (n : Nat) : ∃ v', v = s.buffered.take n ++ v' ∧
    Yields { s with buffered := s.buffered.drop n } v' fs reads := by
  obtain ⟨⟨v', rfl, hgives⟩, hfaults, hchunks, hended, hreads⟩ := h
  refine ⟨s.buffered.drop n ++ v', ?_, ⟨v', rfl, hgives⟩, hfaults, hchunks, hended, hreads⟩
  rw [← List.append_assoc, List.take_append_drop]

/-- **One read** gives a part of the text in front, or the next failure. If it gives nothing,
nothing is left. -/
theorem read_of_yields (h : Yields s v fs reads) {size : Int} (hsize : 0 < size) :
    (∃ t s' v', read size s = .ok t s' ∧ v = t ++ v' ∧ Yields s' v' fs reads ∧
        (t = [] → s'.eof = true ∧ s'.buffered = [])) ∨
      ∃ e fs' s', read size s = .error e s' ∧ fs = e :: fs' ∧ Yields s' v fs' reads := by
  obtain ⟨n, rfl⟩ := Int.eq_ofNat_of_zero_le (Int.le_of_lt hsize)
  have hn : n ≠ 0 := by omega
  change (∃ t s' v', readSome n s = .ok t s' ∧ _) ∨ ∃ e fs' s', readSome n s = .error e s' ∧ _
  unfold readSome
  rw [if_neg hn]
  rcases fill_of_yields h with ⟨s', hfill, hs', hready⟩ | ⟨e, fs', s', hfill, rfl, hs'⟩
  · obtain ⟨v', hv, hrest⟩ := hs'.takes n
    refine .inl ⟨_, _, v', by rw [hfill], hv, hrest, fun hnil => ?_⟩
    have hbuffered : s'.buffered = [] := (List.take_eq_nil_iff.1 hnil).resolve_left hn
    exact ⟨hready.resolve_right (· hbuffered), by simp [hbuffered]⟩
  · exact .inr ⟨e, fs', s', by rw [hfill], rfl, hs'⟩

theorem read_of_eof (heof : s.eof = true) (hbuffered : s.buffered = []) {size : Int}
    (hsize : 0 < size) : read size s = .ok [] s := by
  obtain ⟨n, rfl⟩ := Int.eq_ofNat_of_zero_le (Int.le_of_lt hsize)
  change readSome n s = _
  obtain ⟨raw, decoder, chunk, buffered, eof⟩ := s
  cases hbuffered
  cases heof
  simp [readSome, fill]

theorem attempts_of_eof (heof : s.eof = true) (hbuffered : s.buffered = []) {sizes : List Int}
    (hsizes : ∀ n ∈ sizes, 0 < n) :
    attempts (sizes.map read) s = (List.replicate sizes.length (.ok []), s) := by
  induction sizes with
  | nil => rfl
  | cons n sizes ih =>
    have hrest := ih fun m hm => hsizes m (by simp [hm])
    simp only [List.map_cons, attempts, read_of_eof heof hbuffered (hsizes n (by simp)), hrest]
    rfl

theorem length_read_one {t : Text} {s' : DecodingStream Chunks} (h : read 1 s = .ok t s') :
    t.length ≤ 1 := by
  change readSome 1 s = _ at h
  unfold readSome at h
  rw [if_neg Nat.one_ne_zero] at h
  split at h <;> cases h
  exact List.length_take_le ..

/-- **Any reads** give a part of the text in front, and some failures, the first ones first. -/
theorem attempts_of_yields (h : Yields s v fs reads) {sizes : List Int}
    (hsizes : ∀ n ∈ sizes, 0 < n) :
    let run := attempts (sizes.map read) s
    ∃ v' fs', v = textOf run.1 ++ v' ∧ fs = faultsOf run.1 ++ fs' ∧ Yields run.2 v' fs' reads ∧
      (.ok [] ∈ run.1 → run.2.eof = true ∧ run.2.buffered = []) := by
  induction sizes generalizing s v fs with
  | nil => exact ⟨v, fs, rfl, rfl, h, nofun⟩
  | cons n sizes ih =>
    have hn : 0 < n := hsizes n (by simp)
    have hrest : ∀ m ∈ sizes, 0 < m := fun m hm => hsizes m (by simp [hm])
    rcases read_of_yields h hn with
      ⟨t, s', v', hread, rfl, hs', hend⟩ | ⟨e, fs', s', hread, rfl, hs'⟩
    · obtain ⟨v'', fs', rfl, rfl, hlast, hended⟩ := ih hs' hrest
      simp only [List.map_cons, attempts, hread, textOf, faultsOf]
      refine ⟨v'', fs', (List.append_assoc ..).symm, rfl, hlast, fun hmem => ?_⟩
      rcases List.mem_cons.1 hmem with hnil | hmem
      -- the end has been reported, and nothing happens after it
      · obtain ⟨heof, hbuffered⟩ := hend (Except.ok.inj hnil).symm
        rw [attempts_of_eof heof hbuffered hrest]
        exact ⟨heof, hbuffered⟩
      · exact hended hmem
    · obtain ⟨v'', fs'', rfl, rfl, hlast, hended⟩ := ih hs' hrest
      simp only [List.map_cons, attempts, hread, textOf, faultsOf]
      exact ⟨v'', fs'', rfl, rfl, hlast, fun hmem => hended (by simpa using hmem)⟩

end DecodingStream

/-! ### The whole text -/

theorem exists_of_mem_attempts {σ α : Type} {xs : List (Action σ α)} {s : σ} {a : α}
    (h : .ok a ∈ (attempts xs s).1) : ∃ x ∈ xs, ∃ t t', x t = .ok a t' := by
  induction xs generalizing s with
  | nil => cases h
  | cons x xs ih =>
    unfold attempts at h
    split at h
    · next b t hx =>
      rcases List.mem_cons.1 h with hhead | hmem
      · cases hhead
        exact ⟨x, List.mem_cons_self, s, t, hx⟩
      · obtain ⟨y, hy, hlater⟩ := ih hmem
        exact ⟨y, List.mem_cons_of_mem _ hy, hlater⟩
    · obtain ⟨y, hy, hlater⟩ := ih (by simpa using h)
      exact ⟨y, List.mem_cons_of_mem _ hy, hlater⟩

theorem length_attempts {σ α : Type} (xs : List (Action σ α)) (s : σ) :
    (attempts xs s).1.length = xs.length := by
  induction xs generalizing s with
  | nil => rfl
  | cons x xs ih =>
    unfold attempts
    split <;> simp [ih]

/-- What attempts to read come to, when the bytes stand for the text `T`, the byte stream follows
`events` and is left as `raw`. -/
structure ComesWhole (T : Text) (events : List (Event (List UInt8)))
    (os : List (Except Fault Text)) (raw : Chunks) : Prop where
  /-- What was returned is the text in front. -/
  text : textOf os <+: T
  /-- Each failure was met once, the first ones first. -/
  faults : faultsOf os <+: Chunks.faults events
  /-- When the end is reported, all of the text was returned and every failure was met. -/
  whole : .ok [] ∈ os → textOf os = T ∧ faultsOf os = Chunks.faults events
  /-- Then the byte stream has been read to its end, and not again. -/
  once : .ok [] ∈ os → raw.events = [] ∧ raw.styles.length = events.length + 1
  /-- The end is reported as soon as there is nothing else. -/
  ends : T.length + (Chunks.faults events).length < os.length → .ok [] ∈ os

/-- A stream that follows `events` and has read nothing. -/
def Chunks.decoded (events : List (Event (List UInt8))) (offersAvailable : Bool)
    (descriptor : Descriptor) (e : Encoding) (chunk : Int) : DecodingStream Chunks :=
  { raw := { events, offersAvailable, descriptor }, decoder := ⟨e, []⟩, chunk }

namespace DecodingStream

variable {e : Encoding} {events : List (Event (List UInt8))} {T : Text}

theorem yields_decoded (hvalid : e.decodeAll (events.flatMap Chunks.bytesOf) = .ok T)
    (hchunks : .item [] ∉ events) (offersAvailable : Bool) (descriptor : Descriptor) (chunk : Int) :
    Yields (Chunks.decoded events offersAvailable descriptor e chunk) T (Chunks.faults events)
      (events.length + 1) :=
  ⟨⟨T, rfl, Decoder.gives_of_decodeAll hvalid⟩, rfl, hchunks, nofun, by simp [Chunks.decoded]⟩

theorem comesWhole_of_read (hvalid : e.decodeAll (events.flatMap Chunks.bytesOf) = .ok T)
    (hchunks : .item [] ∉ events) (offersAvailable : Bool) (descriptor : Descriptor) (chunk : Int)
    {sizes : List Int} (hsizes : ∀ n ∈ sizes, 0 < n) :
    let run := attempts (sizes.map read) (Chunks.decoded events offersAvailable descriptor e chunk)
    ComesWhole T events run.1 run.2.raw := by
  intro run
  obtain ⟨v', fs', hv, hfs, hlast, hended⟩ :=
    attempts_of_yields (yields_decoded hvalid hchunks offersAvailable descriptor chunk) hsizes
  refine ⟨⟨v', hv.symm⟩, ⟨fs', hfs.symm⟩, fun hmem => ?_, fun hmem => ?_, fun hlen => ?_⟩
  · obtain ⟨heof, hbuffered⟩ := hended hmem
    obtain ⟨hnone, rfl, -, -⟩ := hlast.of_eof heof
    rw [hbuffered] at hnone
    rw [hv, hfs, hnone, List.append_nil, List.append_nil]
    exact ⟨rfl, rfl⟩
  · obtain ⟨-, -, hevents, hreads⟩ := hlast.of_eof (hended hmem).1
    exact ⟨hevents, hreads⟩
  · have htext : T.length = (textOf run.1).length + v'.length := by rw [hv, List.length_append]
    have hfaults : (Chunks.faults events).length = (faultsOf run.1).length + fs'.length := by
      rw [hfs, List.length_append]
    refine Classical.byContradiction fun hnot => ?_
    have hle := length_attempts_le hnot
    omega

end DecodingStream

/-! ### Character by character -/

namespace Pushback

theorem read_of_empty {τ : Type} [TextStream τ] (m : τ) :
    Pushback.read { stream := m } =
      match TextStream.read 1 m with
      | .ok t m' => .ok (if t = [] then none else some t) { stream := m' }
      | .error e m' => .error e { stream := m' } := by
  unfold Pushback.read
  simp only
  rcases TextStream.read 1 m with ⟨_ | ⟨c, t⟩, m'⟩ | ⟨e, m'⟩ <;> rfl

/-- Reading character by character is reading one character at a time from the stream. -/
theorem attempts_read {τ : Type} [TextStream τ] (k : Nat) (m : τ) :
    attempts (List.replicate k Pushback.read) { stream := m } =
      ((attempts (List.replicate k (TextStream.read 1)) m).1.map
          (Except.map fun t => if t = [] then none else some t),
        { stream := (attempts (List.replicate k (TextStream.read 1)) m).2 }) := by
  induction k generalizing m with
  | zero => rfl
  | succ k ih =>
    simp only [List.replicate_succ, attempts, read_of_empty]
    rcases TextStream.read 1 m with ⟨t, m'⟩ | ⟨e, m'⟩
    · simp only [ih]
      rfl
    · simp only [ih]
      rfl

end Pushback

namespace DecodingStream

variable {e : Encoding} {events : List (Event (List UInt8))} {T : Text}

theorem map_pieces (os : List (Except Fault Text)) :
    (os.map (Except.map fun t => if t = [] then none else some t)).map
      (Except.map fun o : Option Piece => o.getD []) = os := by
  rw [List.map_map]
  refine (List.map_congr_left fun o _ => ?_).trans (List.map_id os)
  rcases o with e | _ | ⟨c, t⟩ <;> rfl

theorem comesWhole_of_readChar (hvalid : e.decodeAll (events.flatMap Chunks.bytesOf) = .ok T)
    (hchunks : .item [] ∉ events) (offersAvailable : Bool) (descriptor : Descriptor) (chunk : Int)
    (k : Nat) :
    let run := attempts (List.replicate k CharacterSource.read)
      ({ stream := Chunks.decoded events offersAvailable descriptor e chunk } :
        Pushback (DecodingStream Chunks))
    ComesWhole T events (run.1.map (Except.map fun o => o.getD [])) run.2.stream.raw := by
  intro run
  have hone : ∀ n ∈ List.replicate k (1 : Int), 0 < n := fun n hn => by
    rw [List.eq_of_mem_replicate hn]
    decide
  have hread := comesWhole_of_read hvalid hchunks offersAvailable descriptor chunk hone
  have hrun := Pushback.attempts_read k (Chunks.decoded events offersAvailable descriptor e chunk)
  rw [List.map_replicate] at hread
  rw [show run = _ from hrun, map_pieces]
  exact hread

/-- **Where bytes are cut does not matter, and neither do stalls.** A byte stream follows events:
chunks that together stand for the text `T`, with failures and reads that give nothing at the moment
anywhere in between. Whoever reads from the decoding stream in any sizes, or character by character,
and goes on after each failure, gets the text and each of the failures once; the end is reported
only after all of this, and the byte stream, read once for each event and once for the end, is not
read again. -/
theorem chunking_invisible (hvalid : e.decodeAll (events.flatMap Chunks.bytesOf) = .ok T)
    (hchunks : .item [] ∉ events) (offersAvailable : Bool) (descriptor : Descriptor) (chunk : Int) :
    let stream := Chunks.decoded events offersAvailable descriptor e chunk
    (∀ sizes : List Int, (∀ n ∈ sizes, 0 < n) →
      let run := attempts (sizes.map TextStream.read) stream
      ComesWhole T events run.1 run.2.raw) ∧
    ∀ k : Nat,
      let run := attempts (List.replicate k CharacterSource.read)
        ({ stream } : Pushback (DecodingStream Chunks))
      ComesWhole T events (run.1.map (Except.map fun o => o.getD [])) run.2.stream.raw ∧
        ∀ p, .ok (some p) ∈ run.1 → p.length = 1 := by
  intro stream
  refine ⟨fun sizes hsizes => ?_, fun k => ⟨?_, fun p hp => ?_⟩⟩
  · exact comesWhole_of_read hvalid hchunks offersAvailable descriptor chunk hsizes
  · exact comesWhole_of_readChar hvalid hchunks offersAvailable descriptor chunk k
  · obtain ⟨o, ho, hpiece⟩ : ∃ o ∈ (attempts (List.replicate k (TextStream.read 1)) stream).1,
        Except.map (fun t : Text => if t = [] then none else some t) o = .ok (some p) := by
      rw [show (attempts (List.replicate k CharacterSource.read) _).1 = _ from
        congrArg Prod.fst (Pushback.attempts_read k stream)] at hp
      exact List.mem_map.1 hp
    rcases o with e' | _ | ⟨c, t⟩
    · cases hpiece
    · cases hpiece
    · cases hpiece
      obtain ⟨x, hx, m, m', hread⟩ := exists_of_mem_attempts ho
      obtain rfl := List.eq_of_mem_replicate hx
      have hle := length_read_one hread
      simp only [List.length_cons] at hle ⊢
      omega

/-- Characters of two and three bytes that are cut into chunks, with a stall and a failure between.
-/
theorem chunking_invisible_cut_characters :
    let events : List (Event (List UInt8)) :=
      [.item [0xC3], .nothing, .item [0xA9, 0x61, 0xE2], .failure (.transport "OSError" "reset"),
        .item [0x82], .item [0xAC]]
    let run := attempts ([1, 7, 2, 1, 3, 1].map TextStream.read)
      (Chunks.decoded events false .absent .utf8 4096)
    Encoding.utf8.decodeAll (events.flatMap Chunks.bytesOf) = .ok "éa€".toList ∧
      .item [] ∉ events ∧ textOf run.1 = "éa€".toList ∧
        faultsOf run.1 = [.noDataYet, .transport "OSError" "reset"] ∧
          run.2.raw.styles.length = 7 := by
  intro events run
  have htwo : Encoding.utf8.scan 0xC3 [0xA9, 0x61, 0xE2, 0x82, 0xAC] = .char 'é' 1 := by decide
  have hone : Encoding.utf8.scan 0x61 [0xE2, 0x82, 0xAC] = .char 'a' 0 := by decide
  have hthree : Encoding.utf8.scan 0xE2 [0x82, 0xAC] = .char '€' 2 := by decide
  have hvalid : Encoding.utf8.decodeAll (events.flatMap Chunks.bytesOf) = .ok "éa€".toList := by
    simp [events, Chunks.bytesOf, Encoding.decodeAll, Encoding.decode, htwo, hone, hthree]
  have hchunks : .item [] ∉ events := by decide
  have hrun : ComesWhole "éa€".toList events run.1 run.2.raw :=
    (chunking_invisible hvalid hchunks false .absent 4096).1 [1, 7, 2, 1, 3, 1] (by decide)
  have hend : .ok [] ∈ run.1 := hrun.ends (by rw [length_attempts]; decide)
  obtain ⟨htext, hfaults⟩ := hrun.whole hend
  exact ⟨hvalid, hchunks, htext, hfaults, (hrun.once hend).2⟩

end DecodingStream

end DotFraming
