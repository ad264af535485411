import DotFraming.Proofs.Messages
import DotFraming.Proofs.Reader.Failure
import DotFraming.Proofs.Session.Simulation
import DotFraming.Proofs.Source.Gauge
import DotFraming.Proofs.Wire.Transcript

/-!
# Decoding from a source that fails

A source may fail while a message is decoded. The lines that are whole by then have been written,
and the rest of the message is read past, which may fail again. Nothing is written any more.

* `Reading.linesFrom_of_failure` : the lines that are taken before a call fails.
* `Decoding.message_of_whole`, `Decoding.message_of_broken` : one message, from a source that
  follows events.
* `Decoding.Writes`, `Decoding.messages_writes` : **what is written** is told by the messages that
  the events stand for.
* `Failed`, `Decoding.failed_messages` : **the failure that is passed on** is the last one.
* `Decoding.failure_ends_decoding` : both of them.
-/

namespace DotFraming

variable {σ : Type} [CharacterSource σ]

namespace Reading

variable {s y z : Reading σ} {t : Text} {e : Fault}

/-! ### Lines before a failure -/

theorem readLine_of_failure (h : HandsOut s t y) (hfail : readOne y = .error e z) :
    (∃ u v m, t = u ++ v ∧ IsLine s.reader.eol u ∧ HandsOut m v y ∧ readLine s = .ok u m ∧
        m.reader.eol = s.reader.eol) ∨
      (∀ u, u <+: t → ¬s.reader.eol <:+ u) ∧ readLine s = .error e z := by
  have heol := s.reader.eol_ne_nil
  rcases take_of_handsOut (fun got => !got.endsLine s.reader.eol) h with
    ⟨u, v, m, rfl, hstop, hm, htake⟩ | ⟨hall, htake⟩
  · obtain ⟨m', hm', htail⟩ := h.split
    obtain rfl := hm'.unique hm
    exact .inl ⟨u, v, m', rfl, isLine_of_stopsAfter heol hstop, htail, by simp [readLine, htake],
      hm.eol_eq⟩
  · have hfailed := htake.trans (collect_of_error (hall t (List.prefix_refl t)) hfail)
    exact .inr ⟨fun u hu => not_suffix_of_wanted heol (hall u hu), by simp [readLine, hfailed]⟩

end Reading

/-- The lines that end with the line ending. -/
def completeLines (eol : Text) (ls : List Text) : List Text := ls.filter (eol <:+ ·)

namespace Reading

variable {s y z : Reading σ} {t : Text} {e : Fault}

/-- **The lines before a failure** are taken as far as they are complete. -/
theorem linesFrom_of_failure (got : List Text) (h : HandsOut s t y)
    (hfail : readOne y = .error e z) :
    ∃ ls, Lines s.reader.eol t ls ∧
      linesFrom got s = ((completeLines s.reader.eol ls).reverse ++ got, .error e z) := by
  -- a line is never empty: what comes after it is shorter
  induction hn : t.length using Nat.strongRecOn generalizing s t got with
  | _ n ih =>
    rcases readLine_of_failure h hfail with
      ⟨u, v, m, rfl, hline, htail, hread, heol⟩ | ⟨hnone, hread⟩
    · have hne := hline.ne_nil s.reader.eol_ne_nil
      have hlt : v.length < n := by
        have := List.length_pos_iff.2 hne
        simp only [List.length_append] at hn
        omega
      obtain ⟨ls, hls, hfrom⟩ := ih v.length hlt (u :: got) htail rfl
      rw [heol] at hls hfrom
      refine ⟨u :: ls, .cons hline hls, ?_⟩
      rw [linesFrom_of_line hread hne, hfrom]
      simp [completeLines, hline.ends]
    · rw [linesFrom_of_error hread]
      cases t with
      | nil => exact ⟨[], .nil, rfl⟩
      | cons c t =>
        have hnot := hnone (c :: t) (List.prefix_refl _)
        exact ⟨[c :: t], .last (by simp) hnone, by simp [completeLines, hnot]⟩

open Wire

/-! ### One message from a source that follows events -/

variable {eol : Text} {r : Reader} {source : σ} {es left : List (Event Char)}

theorem finishes_of_whole (log : Log) (hr : Reader.new? eol = .ok r) (h : Follows source es)
    (hfirst : firstMessage eol es = (t, some left)) :
    ∃ z, Finishes ⟨r, source, log⟩ t z ∧ Follows z.source left := by
  obtain ⟨rfl, hs⟩ := open_of_new hr source log
  rw [← Event.map_text_append_later es] at h
  obtain ⟨source', hd, hlater⟩ := h.delivers
  obtain ⟨rfl, ⟨hw, rfl⟩ | ⟨hw, rfl, hno⟩⟩ := firstMessage_whole hfirst
  -- the source is left right behind the terminator, or behind the end of the stream
  · obtain ⟨out, start', w', out', rest', hruns, hends⟩ := (complete_iff r.eol).1 hw
    obtain ⟨z, hz, -, -, -, m, -, hm, hdm⟩ := finishes_of_ends hs hruns hends hd
    rw [← decodeFrom_true, ← restFrom_true, hruns.decodeFrom_eq, hends.decodeFrom_eq,
      hruns.restFrom_eq, hends.restFrom_eq]
    rw [hm, List.map_append, List.append_assoc] at h
    exact ⟨z, hz, h.of_delivers hdm⟩
  · obtain ⟨out, start', w', hruns, hshort⟩ := exists_runs_of_not_complete r.eol hw
    obtain ⟨source'', hend, hnext⟩ := hlater.ends hno
    obtain ⟨z, hz, -, hsource⟩ := finishes_of_short hs hruns hshort hd hend
    rw [← decodeFrom_true]
    exact ⟨z, hz, hsource ▸ hnext⟩

/-- A message that is broken is handed out up to the failure. -/
theorem fails_of_broken (log : Log) (hr : Reader.new? eol = .ok r) (h : Follows source es)
    (hfirst : firstMessage eol es = (t, none)) :
    ∃ y e z, HandsOut ⟨r, source, log⟩ t y ∧ readOne y = .error e z := by
  obtain ⟨rfl, hs⟩ := open_of_new hr source log
  obtain ⟨hw, rfl, e, es', hlater⟩ := firstMessage_broken hfirst
  rw [← Event.map_text_append_later es, hlater] at h
  obtain ⟨source', hd, hfails⟩ := h.delivers
  cases hfails with
  | failure read =>
    obtain ⟨y, z, hy, hcall, -⟩ := exists_failure hs hw hd read
    rw [decodeFrom_true] at hy
    exact ⟨y, e, z, hy, hcall⟩

end Reading

namespace Decoding

open Wire

variable {eol t : Text} {s : Decoding σ} {es left : List (Event Char)} {e : Fault}

theorem message_of_whole (heol : eol ≠ []) (h : Follows s.source es)
    (hfirst : firstMessage eol es = (t, some left)) :
    ∃ s', message eol s = .ok () s' ∧ s'.output = s.output ++ t ∧ Follows s'.source left := by
  have hr : Reader.new? eol = .ok { eol, eol_ne_nil := heol } := dif_neg heol
  obtain ⟨z, hz, hleft⟩ := Reading.finishes_of_whole s.log hr h hfirst
  obtain ⟨s', hmessage, hout, -, hsource⟩ := message_of_finishes hr hz
  exact ⟨s', hmessage, hout, hsource ▸ hleft⟩

theorem message_of_broken (heol : eol ≠ []) (h : Follows s.source es)
    (hfirst : firstMessage eol es = (t, none)) :
    ∃ e s' ls, message eol s = .error e s' ∧ Lines eol t ls ∧
      s'.output = s.output ++ (completeLines eol ls).flatten := by
  have hr : Reader.new? eol = .ok { eol, eol_ne_nil := heol } := dif_neg heol
  obtain ⟨y, e, z, hy, hcall⟩ := Reading.fails_of_broken s.log hr h hfirst
  obtain ⟨ls, hls, hlines⟩ := Reading.linesFrom_of_failure s.written hy hcall
  have hout (u : Reading σ) : (resume ((completeLines eol ls).reverse ++ s.written) u).output =
      s.output ++ (completeLines eol ls).flatten := by
    simp [output, resume]
  -- the reader is closed in any case
  cases hclose : Reading.close z with
  | ok _ u => exact ⟨e, _, ls, by simp only [message, hr, reading, hlines, hclose], hls, hout u⟩
  | error e' u =>
    exact ⟨e', _, ls, by simp only [message, hr, reading, hlines, hclose], hls, hout u⟩

/-! ### Between two messages -/

theorem more_of_item {c : Char} (h : Follows s.source (.item c :: left)) :
    ∃ s', more s = .ok true s' ∧ Follows s'.source (.item c :: left) ∧ s'.output = s.output := by
  cases h with
  | item read back tail =>
    obtain ⟨source', hunread, hread⟩ := back
    exact ⟨{ s with source := source' }, by simp [more, read, hunread],
      .item hread ⟨source', hunread, hread⟩ tail, rfl⟩

theorem more_of_end (h : Follows s.source left)
    (hleft : left = [] ∨ ∃ es', left = .nothing :: es') :
    ∃ s', more s = .ok false s' ∧ s'.output = s.output := by
  rcases hleft with rfl | ⟨es', rfl⟩
  · cases h with
    | done read => exact ⟨s, by simp [more, read], rfl⟩
  · cases h with
    | @nothing _ source' _ read =>
      exact ⟨{ s with source := source' }, by simp [more, read], rfl⟩

theorem more_of_failure (h : Follows s.source (.failure e :: left)) :
    ∃ s', more s = .error e s' ∧ s'.output = s.output := by
  cases h with
  | @failure _ source' _ _ read =>
    exact ⟨{ s with source := source' }, by simp [more, read], rfl⟩

/-! ### What is written -/

/-- What comes of decoding when `count` messages came before, `out` has been written, and the
messages to come are `T`: their number and their texts, or a failure and the lines that were
complete by then. -/
inductive Writes (eol out : Text) (count : Nat) (T : Transcript) :
    EStateM.Result Fault (Decoding σ) Nat → Prop where
  /-- No failure. -/
  | whole {s' : Decoding σ} (broken : T.broken = none)
      (output : s'.output = out ++ T.whole.flatten) :
      Writes eol out count T (.ok (count + T.whole.length) s')
  /-- A failure, within a message or between two of them. -/
  | broken {e : Fault} {s' : Decoding σ} {u : Text} {ls : List Text} (broken : T.broken = some u)
      (lines : Lines eol u ls)
      (output : s'.output = out ++ T.whole.flatten ++ (completeLines eol ls).flatten) :
      Writes eol out count T (.error e s')

omit [CharacterSource σ] in
theorem Writes.after {out : Text} {count : Nat} {T : Transcript}
    {r : EStateM.Result Fault (Decoding σ) Nat} (h : Writes eol (out ++ t) (count + 1) T r) :
    Writes eol out count (T.after t) r := by
  cases h with
  | whole hbroken hout =>
    have hcount : count + 1 + T.whole.length = count + (T.after t).whole.length := by
      simp only [Transcript.after, List.length_cons]
      omega
    rw [hcount]
    exact .whole hbroken (by simp [Transcript.after, hout])
  | broken hbroken hls hout => exact .broken hbroken hls (by simp [Transcript.after, hout])

/-- **Decoding all messages** writes what the events stand for. -/
theorem writes_of_rounds {count : Nat} {r : EStateM.Result Fault (Decoding σ) Nat} (heol : eol ≠ [])
    (h : Rounds eol count s r) (hs : Follows s.source es) :
    Writes eol s.output count (transcript eol true es) r := by
  -- every message takes something from the events
  induction hn : es.length using Nat.strongRecOn generalizing s r count es with
  | _ n ih =>
    rcases hfirst : firstMessage eol es with ⟨t, _ | left⟩
    · obtain ⟨e, s', ls, hmessage, hls, hout⟩ := message_of_broken heol hs hfirst
      rw [h.broken hmessage, transcript_of_broken hfirst]
      exact .broken rfl hls (by simp [hout])
    · obtain ⟨s', hmessage, hout, hleft⟩ := message_of_whole heol hs hfirst
      have hend (hnone : left = [] ∨ ∃ es', left = .nothing :: es') :
          Writes eol s.output count (transcript eol true es) r := by
        obtain ⟨s'', hlook, hout'⟩ := more_of_end hleft hnone
        rw [h.last hmessage hlook, transcript_of_last hfirst hnone]
        exact .whole rfl (by simp [hout', hout])
      match left with
      | [] => exact hend (.inl rfl)
      | .nothing :: left => exact hend (.inr ⟨left, rfl⟩)
      | .failure e :: left =>
        obtain ⟨s'', hlook, hout'⟩ := more_of_failure hleft
        rw [h.failed hmessage hlook, transcript_of_failure hfirst]
        exact .broken rfl .nil (by simp [hout', hout, completeLines])
      | .item c :: left =>
        obtain ⟨s'', hlook, hnext, hout'⟩ := more_of_item hleft
        have hlt := (length_firstMessage hfirst).resolve_left (by simp)
        have hrest := ih _ (hn ▸ hlt) (rounds_following eol (count + 1) s'' (more_true hlook).2)
          hnext rfl
        rw [hout', hout] at hrest
        rw [h.next hmessage hlook, transcript_of_next hfirst]
        exact hrest.after

/-- **What is written** is told by the messages that the events stand for. -/
theorem messages_writes (heol : eol ≠ []) (all : Bool) (hs : Follows s.source es) :
    Writes eol s.output 0 (transcript eol all es) (messages eol all s) := by
  cases all with
  | true => exact writes_of_rounds heol (rounds_messages eol s) hs
  | false =>
    rcases hfirst : firstMessage eol es with ⟨t, _ | left⟩
    · obtain ⟨e, s', ls, hmessage, hls, hout⟩ := message_of_broken heol hs hfirst
      rw [transcript_of_broken hfirst]
      simp only [messages, hmessage]
      exact .broken rfl hls (by simp [hout])
    · obtain ⟨s', hmessage, hout, -⟩ := message_of_whole heol hs hfirst
      rw [transcript_of_first hfirst]
      simp only [messages, hmessage, Bool.false_eq_true, ↓reduceIte]
      exact .whole rfl (by simp [hout])

end Decoding

/-! ### The failure that is passed on -/

/-- What is on record between two states of a source, and the failure of the latest call that
failed. -/
def Failed (s : Traced σ) (f : Option Fault) (t : Traced σ) : Prop :=
  ∃ cs, t.calls = cs ++ s.calls ∧ cs.findSome? Call.fault? = f

section Failed

variable {s m t : Traced σ} {f g : Option Fault} {cs : List Call}

omit [CharacterSource σ] in
theorem Failed.trans (h : Failed s f m) (h' : Failed m g t) : Failed s (g.or f) t := by
  obtain ⟨cs, hcs, rfl⟩ := h
  obtain ⟨ds, hds, rfl⟩ := h'
  exact ⟨ds ++ cs, by rw [hds, hcs, List.append_assoc], List.findSome?_append⟩

theorem failed_of_calls (h : Calls s cs t) : Failed s (cs.reverse.findSome? Call.fault?) t :=
  ⟨cs.reverse, h.record.2, rfl⟩

theorem failed_none_of_calls (h : Calls s cs t) (hno : ∀ c ∈ cs, c.fault? = none) :
    Failed s none t := by
  have hnone : cs.reverse.findSome? Call.fault? = none := by simpa using hno
  exact hnone ▸ failed_of_calls h

/-- If no attempt to hand something back fails, the latest call that failed was a read. -/
theorem find?_of_findSome? {e : Fault} (h : cs.findSome? Call.fault? = some e)
    (hback : ∀ p o, Call.unread p o ∈ cs → o = .ok ()) :
    cs.find? (fun c => c.fault?.isSome) = some (.read (.error e)) := by
  obtain ⟨later, c, earlier, rfl, hfault, hlater⟩ := List.findSome?_eq_some_iff.1 h
  have hread : c = .read (.error e) := by
    rcases c with (e' | o) | ⟨p, o⟩
    · cases hfault
      rfl
    · cases hfault
    · cases hback p o (by simp)
      cases hfault
  rw [hread, List.find?_append, List.find?_eq_none.2 fun d hd => by simp [hlater d hd]]
  rfl

end Failed

namespace Reading

variable {s z : Reading (Traced σ)}

theorem failed_readOne (s : Reading (Traced σ)) :
    Failed s.source (failureOf (readOne s)) (stateAfter (readOne s)).source := by
  rcases readOne_cases s with ⟨c, t, -, hrun⟩ | ⟨-, -, hrun⟩ | ⟨-, -, -, cs, hlooks⟩
  · rw [hrun]
    exact ⟨[], rfl, rfl⟩
  · rw [hrun]
    exact ⟨[], rfl, rfl⟩
  · have hcalls := failed_of_calls hlooks.calls
    -- the call that failed is the last one
    have hfailed : cs.reverse.findSome? Call.fault? = failureOf (readOne s) := by
      cases hr : readOne s with
      | ok o s' =>
        rw [List.findSome?_eq_none_iff.2 fun c hc => ?_]
        · rfl
        · cases hfault : c.fault? with
          | none => rfl
          | some e =>
            obtain ⟨s'', hs''⟩ := hlooks.raises c (List.mem_reverse.1 hc) e hfault
            cases hr.symm.trans hs''
      | error e s' =>
        obtain ⟨c, hlast, hfault⟩ := hlooks.fails e s' hr
        obtain ⟨ds, rfl⟩ := List.getLast?_eq_some_iff.1 hlast
        simp [hfault, failureOf]
    rwa [hfailed] at hcalls

theorem Evolves.failed (h : Evolves s z) : ∃ f, Failed s.source f z.source :=
  h.source_invariant (P := fun t => ∃ f, Failed s.source f t) ⟨none, [], rfl, rfl⟩
    fun m ⟨_, hm⟩ => ⟨_, hm.trans (failed_readOne m)⟩

/-- **An operation fails with the latest failure** of the source. -/
theorem Done.failed {α : Type} {r : EStateM.Result Fault (Reading (Traced σ)) α} (h : Done s r) :
    Failed s.source (failureOf r) (stateAfter r).source := by
  cases r with
  | ok a t =>
    obtain ⟨cs, hcs, hraises⟩ := h.raises
    refine failed_none_of_calls hcs fun c hc => ?_
    cases hfault : c.fault? with
    | none => rfl
    | some e =>
      obtain ⟨s', hs'⟩ := hraises c hc e hfault
      cases hs'
  | error e t =>
    obtain ⟨m, hm, hcall⟩ := h.fails e t rfl
    obtain ⟨f, hf⟩ := hm.failed
    have hlast := failed_readOne m
    rw [hcall] at hlast
    exact hf.trans hlast

end Reading

namespace Decoding

open Wire

theorem failed_more (s : Decoding (Traced σ)) :
    Failed s.source (failureOf (more s)) (stateAfter (more s)).source := by
  unfold more
  split
  · next e source hr =>
    have hread : (Call.read (.error e)).Leads s.source source := hr
    exact failed_of_calls (.single hread)
  · next source hr =>
    have hread : (Call.read (.ok none)).Leads s.source source := hr
    exact failed_of_calls (.single hread)
  · next p source hr =>
    have hread : (Call.read (.ok (some p))).Leads s.source source := hr
    split
    · next source' hu =>
      have hback : (Call.unread p (.ok ())).Leads source source' := hu
      exact failed_of_calls (.cons hread (.single hback))
    · next e source' hu =>
      have hback : (Call.unread p (.error e)).Leads source source' := hu
      exact failed_of_calls (.cons hread (.single hback))

theorem accounts_failed : Accounts (Failed : Traced σ → Option Fault → Traced σ → Prop) where
  next {_ _ _ g} h h' := by
    have hall := h.trans h'
    rwa [Option.or_none] at hall
  cover h h' := h.trans h'
  done h := h.failed
  more := failed_more

/-- **The failure that is passed on** is the last one that the source met. If decoding goes well,
the source met none. -/
theorem failed_messages {eol : Text} (heol : eol ≠ []) (all : Bool) (s : Decoding (Traced σ)) :
    Failed s.source (failureOf (messages eol all s)) (stateAfter (messages eol all s)).source := by
  refine accounts_failed.messages (fun e he => ?_) all s
  rw [Reader.new?, dif_neg heol] at he
  cases he

/-! ### Both together -/

variable {eol : Text} {source : σ} {es : List (Event Char)}

/-- What is being decoded, without the record of the calls. -/
def unrecorded (s : Decoding (Traced σ)) : Decoding σ := ⟨s.source.source, s.log, s.written⟩

theorem messages_unrecorded (eol : Text) (all : Bool) (s : Decoding (Traced σ)) :
    messages eol all s.unrecorded = mapState unrecorded (messages eol all s) := by
  have hrun := simulates_messages Traced.view_source.simulation eol all s s.unrecorded
    ⟨s.written, rfl, rfl⟩
  exact hrun.eq_mapState fun _ _ ⟨_, hsource, hlog⟩ => by rw [unrecorded, hsource, hlog]

/-- Of all calls only reads fail, as every character that is handed back is one that was read just
before. -/
theorem taken_back_of_mem_calls (all : Bool) (h : Follows source es) (log : Log) {p : Piece}
    {o : Except Fault Unit}
    (hmem : .unread p o ∈
      (stateAfter (messages eol all ⟨({ source } : Traced σ), log, []⟩)).source.calls) :
    o = .ok () := by
  obtain ⟨cs, hcs, hdisc, -⟩ := orderly_messages eol all ⟨({ source } : Traced σ), log, []⟩
  obtain ⟨hcalls, hrecord⟩ := hcs.record
  rw [List.append_nil] at hrecord
  rw [hrecord] at hmem
  rw [← List.reverse_reverse cs] at hcalls
  exact (h.calls hdisc hcalls).2.2 p o hmem

/-- **A failure of the source ends decoding**, and only such a failure does. Decoding gives the
number of messages only if no call on the source failed, and then it has written all of the
messages. Otherwise it fails as the last read that failed did, be it the one that cut a message
short, the one that looked for another message, or one made while the rest of the message was read
past. What has been written then are the messages before, and of the one that was cut short the
lines that were complete when the source failed first. -/
theorem failure_ends_decoding (heol : eol ≠ []) (all : Bool) (h : Follows source es) (log : Log) :
    let T := transcript eol all es
    match messages eol all ⟨({ source } : Traced σ), log, []⟩ with
    | .ok count s =>
      (∀ c ∈ s.source.calls, c.fault? = none) ∧ T.broken = none ∧ count = T.whole.length ∧
        s.output = T.whole.flatten
    | .error e s =>
      s.source.calls.find? (fun c => c.fault?.isSome) = some (.read (.error e)) ∧
        ∃ t ls, T.broken = some t ∧ Lines eol t ls ∧
          s.output = T.whole.flatten ++ (completeLines eol ls).flatten := by
  have hwrites := messages_writes heol all (s := ⟨source, log, []⟩) h
  have hplain := messages_unrecorded eol all ⟨({ source } : Traced σ), log, []⟩
  have hfailed := failed_messages heol all ⟨({ source } : Traced σ), log, []⟩
  have hback := fun p o => @taken_back_of_mem_calls σ _ eol source es all h log p o
  change messages eol all ⟨source, log, []⟩ = _ at hplain
  rw [hplain] at hwrites
  intro T
  revert hwrites hfailed hback
  generalize messages eol all ⟨({ source } : Traced σ), log, []⟩ = r
  rcases r with ⟨count, s⟩ | ⟨e, s⟩
  · rintro hwrites ⟨cs, hrecord, hnone⟩ -
    have hcs : s.source.calls = cs := hrecord.trans (List.append_nil cs)
    cases hwrites with
    | whole hbroken hout =>
      refine ⟨?_, hbroken, by simp [T], hout⟩
      rw [hcs]
      exact List.findSome?_eq_none_iff.1 hnone
  · rintro hwrites ⟨cs, hrecord, hlast⟩ hback
    have hcs : s.source.calls = cs := hrecord.trans (List.append_nil cs)
    cases hwrites with
    | broken hbroken hls hout =>
      refine ⟨?_, _, _, hbroken, hls, hout⟩
      rw [hcs]
      exact find?_of_findSome? hlast fun p o hmem => hback p o (hcs ▸ hmem)

/-- The second message is cut short after a complete line and a part of another one. The rest of it,
up to the end of the stream, can be read past. -/
theorem failure_ends_decoding_within_line :
    let es : List (Event Char) := "a\r\n.\r\nb\r\nc".toList.map .item ++
      [.failure .noDataYet, .item 'd', .item '\r', .nothing, .item 'e']
    let source : Pushback ScriptedText := { stream := { events := es.map Event.piece } }
    ['|'] ≠ [] ∧ Follows source es ∧
      ∃ e s, messages ['|'] true ⟨({ source } : Traced (Pushback ScriptedText)), {}, []⟩ =
          .error e s ∧
        s.source.calls.find? (fun c => c.fault?.isSome) = some (.read (.error e)) ∧
        s.output = "a|b|".toList := by
  intro es source
  have heol : ['|'] ≠ [] := by decide
  have hsource : Follows source es := Pushback.follows es none .absent
  have hnext : firstMessage ['|'] es =
      ("a|".toList, some (.item 'b' :: es.drop 7)) := by decide
  have hbroken : firstMessage ['|'] (.item 'b' :: es.drop 7) = ("b|c".toList, none) := by decide
  have htranscript : transcript ['|'] true es =
      { whole := ["a|".toList], broken := some "b|c".toList } := by
    rw [transcript_of_next hnext, transcript_of_broken hbroken]
    rfl
  have hlines : Lines ['|'] "b|c".toList ["b|".toList, "c".toList] := by
    have hmem : ['|'].getLast (by decide) ∉ ['b'] := by decide
    refine .cons (isLine_of_not_mem heol hmem) (.last (by decide) fun y hy hend => ?_)
    exact absurd (hy.subset (hend.subset (List.mem_singleton_self _))) (by decide)
  have hrun := failure_ends_decoding heol true hsource {}
  refine ⟨heol, hsource, ?_⟩
  revert hrun
  rw [htranscript]
  generalize messages ['|'] true ⟨({ source } : Traced (Pushback ScriptedText)), {}, []⟩ = r
  rcases r with ⟨count, s⟩ | ⟨e, s⟩
  · rintro ⟨-, hnone, -⟩
    cases hnone
  · rintro ⟨hlast, t, ls, ht, hls, hout⟩
    cases ht
    obtain rfl := hls.unique heol hlines
    exact ⟨e, s, rfl, hlast, hout⟩

end Decoding

end DotFraming
