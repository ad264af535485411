import DotFraming.Proofs.Session.Conduct
import DotFraming.Proofs.Source.Pushback
import DotFraming.Source.Script

/-!
# Sessions on one source

Several readers may work on one source, one after the other or by turns, and whole messages may be
decoded from it in between. The source's owner, the client, may read from it and hand pieces back as
well. This file looks at everything that can be done to a source in this way.

* `Request`, `Session` : what can be asked for, and what all of it works on.
* `Request.perform`, `Session.run` : one request, and any number of them.
* `Request.orderly` : every request of the package makes disciplined calls.
* `Session.pushback_discipline` : **what is handed back was read just before**, so handing back
  never fails over a text stream, and nothing waits after the end of a message.
-/

namespace DotFraming

/-- Something that is asked for in a session. -/
inductive Request where
  /-- A new reader. -/
  | openReader (eol : Text)
  /-- An operation of one of the readers. -/
  | operate (index : Nat) (op : Operation)
  /-- One message or all of them, decoded. -/
  | decode (eol : Text) (all : Bool)
  /-- All messages, decoded into an output that has room for `room` lines after `count` messages and
  fails then. -/
  | decodeInto (eol : Text) (count room : Nat) (kind text : String)
  /-- A read of the client. -/
  | readChar
  /-- A piece that the client hands back. -/
  | unreadChar (p : Piece)

/-- A source, and those who work on it. -/
structure Session (σ : Type) where
  /-- The source. -/
  source : σ
  /-- The log. -/
  log : Log := {}
  /-- The readers, in the order in which they were made. -/
  readers : List Reader := []

namespace Request

variable {σ : Type} [CharacterSource σ]

/-- The client does this itself. -/
def ofClient : Request → Bool
  | readChar => true
  | unreadChar _ => true
  | _ => false

/-- The session after whole messages have been decoded. -/
def resume {α : Type} (s : Session σ) (r : EStateM.Result Fault (Decoding σ) α) :
    Option Fault × Session σ :=
  (failureOf r, { s with source := (stateAfter r).source, log := (stateAfter r).log })

/-- Does what is asked for. The first component of the answer is the failure, if there is one. -/
def perform (q : Request) (s : Session σ) : Option Fault × Session σ :=
  match q with
  | openReader eol =>
    match Reader.new? eol with
    | .ok r => (none, { s with readers := s.readers ++ [r] })
    | .error e => (some e, s)
  | operate index op =>
    match s.readers[index]? with
    | some r =>
      let o := op.perform ⟨r, s.source, s.log⟩
      (o.fault?, ⟨o.after.source, o.after.log, s.readers.set index o.after.reader⟩)
    | none => (none, s)
  | decode eol all => resume s (Decoding.messages eol all ⟨s.source, s.log, []⟩)
  | decodeInto eol count room kind text =>
    resume s (Decoding.interrupted eol (.transport kind text) room count ⟨s.source, s.log, []⟩)
  | readChar =>
    let r := (CharacterSource.read s.source : EStateM.Result _ _ _)
    (failureOf r, { s with source := stateAfter r })
  | unreadChar p =>
    let r := (CharacterSource.unread p s.source : EStateM.Result _ _ _)
    (failureOf r, { s with source := stateAfter r })

/-! ### One request -/

/-- **Every request of the package makes disciplined calls.** -/
theorem orderly {q : Request} (hq : q.ofClient = false) (s : Session σ) :
    Orderly s.source (q.perform s).1 (q.perform s).2.source := by
  cases q with
  | openReader eol =>
    unfold perform
    simp only
    split
    · exact .refl _
    · next hnew => exact (Orderly.refl _).fail (Fault.ofPushback_of_new hnew)
  | operate index op =>
    unfold perform
    simp only
    split
    · next r _ => exact op.orderly ⟨r, s.source, s.log⟩
    · exact .refl _
  | decode eol all => exact Decoding.orderly_messages eol all ⟨s.source, s.log, []⟩
  | decodeInto eol count room kind text =>
    have hfault : (Fault.transport kind text).ofPushback = false := rfl
    exact Decoding.orderly_interrupted hfault eol room count ⟨s.source, s.log, []⟩
  | readChar => cases hq
  | unreadChar p => cases hq

theorem calls_of_client {q : Request} (hq : q.ofClient = true) (s : Session σ) :
    ∃ cs, Calls s.source cs (q.perform s).2.source := by
  cases q with
  | readChar =>
    obtain ⟨o, hread⟩ := Call.leads_read s.source
    exact ⟨_, .single hread⟩
  | unreadChar p =>
    obtain ⟨o, hback⟩ := Call.leads_unread p s.source
    exact ⟨_, .single hback⟩
  | _ => cases hq

theorem calls (q : Request) (s : Session σ) :
    ∃ cs, Calls s.source cs (q.perform s).2.source := by
  cases hq : q.ofClient with
  | true => exact calls_of_client hq s
  | false =>
    obtain ⟨cs, hcs, -⟩ := orderly hq s
    exact ⟨cs, hcs⟩

end Request

namespace Session

variable {σ τ : Type} [CharacterSource σ] [TextStream τ]

/-- Does what is asked for, one request after the other. -/
def run (qs : List Request) (s : Session σ) : Session σ :=
  qs.foldl (fun s q => (q.perform s).2) s

theorem calls_run (qs : List Request) (s : Session σ) :
    ∃ cs, Calls s.source cs (run qs s).source := by
  induction qs generalizing s with
  | nil => exact ⟨[], .nil _⟩
  | cons q qs ih =>
    obtain ⟨cs, hcs⟩ := q.calls s
    obtain ⟨ds, hds⟩ := ih (q.perform s).2
    exact ⟨cs ++ ds, hcs.append hds⟩

/-! ### A session as a whole -/

/-- **What is handed back was read just before.** -/
theorem unread_follows_read {q : Request} (hq : q.ofClient = false) (s : Session (Traced σ)) :
    ∃ cs, (q.perform s).2.source.calls = cs ++ s.source.calls ∧ ∀ later p o earlier,
      cs = later ++ .unread p o :: earlier → earlier.head? = some (.read (.ok (some p))) := by
  obtain ⟨cs, hcs, hdisc, -⟩ := Request.orderly hq s
  refine ⟨cs.reverse, hcs.record.2, fun later p o earlier hsplit => ?_⟩
  rw [hsplit] at hdisc
  exact hdisc.head?_of_unread

/-- **Handing back never fails** over a stream that gives one character at a time. -/
theorem unread_succeeds {stream : τ} (hsingle : TextStream.Single stream) {q : Request}
    (hq : q.ofClient = false) {s : Session (Traced (Pushback τ))}
    (hs : s.source.source.Sound stream) :
    (∃ cs, (q.perform s).2.source.calls = cs ++ s.source.calls ∧
        ∀ p o, .unread p o ∈ cs → o = .ok ()) ∧
      ∀ e, (q.perform s).1 = some e → e.ofPushback = true → TextStream.Fails stream e := by
  obtain ⟨cs, hcs, hdisc, hfails⟩ := Request.orderly hq s
  obtain ⟨hsource, hcalls⟩ := hcs.record
  have htaken : ∀ p o, .unread p o ∈ cs.reverse → o = .ok () := fun p o hmem =>
    Pushback.takes_back hsingle hs hdisc (by rwa [List.reverse_reverse]) hmem
  refine ⟨⟨cs.reverse, hcalls, htaken⟩, fun e he hback => ?_⟩
  rcases hfails e he hback with ⟨ds, m, hds, hready⟩ | ⟨c, hc, hfault⟩
  · exact Pushback.fails_of_ready (hs.calls hds.record.1) hready
  · obtain ⟨ds, m, m', hds, hleads⟩ := hsource.exists_leads hc
    rcases c with (e' | o) | ⟨p, e' | ⟨⟩⟩
    · cases hfault
      exact Pushback.fails_of_read (hs.calls hds) hleads
    · cases hfault
    · cases htaken p _ (List.mem_reverse.2 hc)
    · cases hfault

end Session

/-- **When the end of the message is seen, nothing waits.** -/
theorem Reading.pushed_of_eof {τ : Type} [TextStream τ] {s : Reading (Pushback τ)}
    (hopen : s.reader.eof = false) (heof : (stateAfter (readOne s)).reader.eof = true) :
    (stateAfter (readOne s)).source.pushed = none := by
  rcases readOne_cases s with ⟨c, t, -, hrun⟩ | ⟨-, -, hrun⟩ | ⟨-, -, -, cs, hlooks⟩
  · rw [hrun] at heof
    cases hopen.symm.trans heof
  · rw [hrun] at heof
    cases hopen.symm.trans heof
  -- the end was seen by the last call, which is a read
  · rcases hlooks.seen heof with hover | ⟨o, hlast⟩
    · cases hopen.symm.trans hover
    · obtain ⟨cs', rfl⟩ := List.getLast?_eq_some_iff.1 hlast
      obtain ⟨m, -, hread⟩ := hlooks.calls.last
      exact Pushback.pushed_of_read hread

namespace Session

variable {σ τ : Type} [CharacterSource σ] [TextStream τ]

/-- **The discipline of handing back.** Readers work on a source, messages are decoded from it, and
the client reads and hands back as well; all of this in any order, and whatever fails. Of the source
it is assumed that it holds finitely much and hands out next what it took back, as it is in the laws
of `CharacterSource`; a text stream with pushback does the latter by itself.

Any piece that the package hands back was given by the read that is the call directly before. Over a
text stream that gives one character at a time, all these pieces are taken, and a failure that is
about a piece handed back can only be one that the stream has come up with itself. And a call of a
reader that sees the end of the message leaves nothing waiting. -/
theorem pushback_discipline :
    (∀ (source : σ) (log : Log) (before : List Request) (q : Request), q.ofClient = false →
      let s := run before { source := ({ source } : Traced σ), log }
      ∃ cs, (q.perform s).2.source.calls = cs ++ s.source.calls ∧ ∀ later p o earlier,
        cs = later ++ .unread p o :: earlier → earlier.head? = some (.read (.ok (some p)))) ∧
    (∀ (stream : τ) (log : Log) (before : List Request) (q : Request), TextStream.Single stream →
      q.ofClient = false →
        let s := run before { source := ({ source := { stream } } : Traced (Pushback τ)), log }
        (∃ cs, (q.perform s).2.source.calls = cs ++ s.source.calls ∧
            ∀ p o, .unread p o ∈ cs → o = .ok ()) ∧
          ∀ e, (q.perform s).1 = some e → e.ofPushback = true → TextStream.Fails stream e) ∧
    ∀ s : Reading (Pushback τ), s.reader.eof = false →
      (stateAfter (Reading.readOne s)).reader.eof = true →
        (stateAfter (Reading.readOne s)).source.pushed = none := by
  refine ⟨fun source log before q hq => unread_follows_read hq _,
    fun stream log before q hsingle hq => unread_succeeds hsingle hq ?_,
    fun s => Reading.pushed_of_eof⟩
  obtain ⟨cs, hcs⟩ :=
    calls_run before { source := ({ source := { stream } } : Traced (Pushback τ)), log }
  exact (Pushback.sound_of_stream stream).calls hcs.record.1

/-- A source that takes nothing back. A text in memory, of which the client has read a character and
handed it back before all messages are decoded. And a reader that meets the terminator at once. -/
theorem pushback_discipline_client :
    let script : Script :=
      { events := [.item cr, .item ['a']], unreadFault := some (.transport "OSError" "closed") }
    let before : List Request :=
      [.readChar, .unreadChar ['a'], .openReader ['\n'], .operate 0 .readLine,
        .unreadChar ['b', 'c']]
    (∃ cs, ((Request.decode ['\n'] true).perform
          { source := ({ source := script } : Traced Script) }).2.source.calls = cs ++ [] ∧
        ∀ later p o earlier, cs = later ++ .unread p o :: earlier →
          earlier.head? = some (.read (.ok (some p)))) ∧
      (let s := run before
          { source := ({ source := { stream := ⟨"a\r\nb\r\n.\r\nc".toList⟩ } } :
            Traced (Pushback InMemory)) }
        ∃ cs, ((Request.decode ['\n'] true).perform s).2.source.calls = cs ++ s.source.calls ∧
          ∀ p o, .unread p o ∈ cs → o = .ok ()) ∧
      ∃ r, Reader.new? ['\n'] = .ok r ∧
        (stateAfter (Reading.readOne
          ⟨r, Pushback.ofText ".\r\nc".toList, {}⟩)).source.pushed = none := by
  intro script before
  obtain ⟨hfollows, htaken, hempty⟩ := @pushback_discipline Script InMemory _ _
  refine ⟨hfollows script {} [] (.decode ['\n'] true) rfl, ?_, _, rfl, hempty _ rfl rfl⟩
  exact (htaken _ {} before (.decode ['\n'] true) (InMemory.single _) rfl).1

end Session

end DotFraming
