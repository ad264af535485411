import Mathlib
import DotFraming.Proofs.Session.Discipline
import DotFraming.Proofs.Session.Simulation

/-!
# The level of the log

How much of what happens is written to the log is up to whoever looks at the log. Two sessions that
differ in the level of their logs are run side by side here, request by request.

* `Reply`, `Request.fulfil`, `Session.fulfilAll` : requests together with what is answered to them,
  as `Request.perform` and `Session.run` do them (`Request.perform_eq`, `Session.run_eq`).
* `Session.fulfilAll_alike` : sessions over related sources and logs answer alike.
* `Log.Thinned` : of what is written to one log, only the entries of a high enough level are written
  to another.
* `Session.level_irrelevant` : **the level of the log decides about its entries, and about nothing
  else.**
-/

namespace DotFraming

/-- What is answered to a request in a session. -/
inductive Reply where
  /-- Whether a reader was made. -/
  | reader (result : Except Fault Unit)
  /-- The answer of a reader, and the buffer that came with the request. -/
  | operation (answer : Except Fault Answer) (buffer : Option (List Piece))
  /-- There is no such reader. -/
  | noReader
  /-- The number of messages decoded, and the lines written, the latest first. -/
  | messages (count : Except Fault Nat) (written : List Text)
  /-- How decoding into an output ended that may fail, and the lines written. -/
  | interrupted (result : Except Fault Unit) (written : List Text)
  /-- What the client has read. -/
  | piece (result : Except Fault (Option Piece))
  /-- Whether a piece of the client was taken back. -/
  | taken (result : Except Fault Unit)

/-- The failure that is part of a reply. -/
def Reply.fault? : Reply → Option Fault
  | reader (.error e) | operation (.error e) _ | messages (.error e) _ | interrupted (.error e) _
  | piece (.error e) | taken (.error e) => some e
  | _ => none

/-- The value of a computation, or its failure. -/
def valueOf {σ α : Type} : EStateM.Result Fault σ α → Except Fault α
  | .ok a _ => .ok a
  | .error e _ => .error e

namespace Request

variable {σ : Type} [CharacterSource σ]

/-- Does what is asked for and answers it. -/
def fulfil (q : Request) (s : Session σ) : Reply × Session σ :=
  match q with
  | openReader eol =>
    match Reader.new? eol with
    | .ok r => (.reader (.ok ()), { s with readers := s.readers ++ [r] })
    | .error e => (.reader (.error e), s)
  | operate index op =>
    match s.readers[index]? with
    | some r =>
      let o := op.perform ⟨r, s.source, s.log⟩
      (.operation o.answer o.buffer,
        ⟨o.after.source, o.after.log, s.readers.set index o.after.reader⟩)
    | none => (.noReader, s)
  | decode eol all =>
    let r := Decoding.messages eol all ⟨s.source, s.log, []⟩
    (.messages (valueOf r) (stateAfter r).written, (resume s r).2)
  | decodeInto eol count room kind text =>
    let r := Decoding.interrupted eol (.transport kind text) room count ⟨s.source, s.log, []⟩
    (.interrupted (valueOf r) (stateAfter r).written, (resume s r).2)
  | readChar =>
    let r := (CharacterSource.read s.source : EStateM.Result _ _ _)
    (.piece (valueOf r), { s with source := stateAfter r })
  | unreadChar p =>
    let r := (CharacterSource.unread p s.source : EStateM.Result _ _ _)
    (.taken (valueOf r), { s with source := stateAfter r })

/-- **Answering a request is doing it.** -/
theorem perform_eq (q : Request) (s : Session σ) :
    q.perform s = ((q.fulfil s).1.fault?, (q.fulfil s).2) := by
  cases q with
  | openReader eol =>
    simp only [perform, fulfil]
    cases Reader.new? eol <;> rfl
  | operate index op =>
    simp only [perform, fulfil]
    cases s.readers[index]? with
    | none => rfl
    | some r =>
      simp only [Outcome.fault?]
      cases (op.perform ⟨r, s.source, s.log⟩).answer <;> rfl
  | decode eol all =>
    simp only [perform, fulfil, resume]
    cases Decoding.messages eol all ⟨s.source, s.log, []⟩ <;> rfl
  | decodeInto eol count room kind text =>
    simp only [perform, fulfil, resume]
    cases Decoding.interrupted eol (.transport kind text) room count ⟨s.source, s.log, []⟩ <;> rfl
  | readChar =>
    simp only [perform, fulfil]
    cases (CharacterSource.read s.source : EStateM.Result Fault σ _) <;> rfl
  | unreadChar p =>
    simp only [perform, fulfil]
    cases (CharacterSource.unread p s.source : EStateM.Result Fault σ _) <;> rfl

end Request

namespace Session

/-! ### Sessions side by side -/

/-- Does what is asked for, one request after the other, and answers all of it. -/
def fulfilAll {σ : Type} [CharacterSource σ] : List Request → Session σ → List Reply × Session σ
  | [], s => ([], s)
  | q :: qs, s =>
    let (reply, t) := q.fulfil s
    let (replies, u) := fulfilAll qs t
    (reply :: replies, u)

theorem run_eq {σ : Type} [CharacterSource σ] (qs : List Request) (s : Session σ) :
    run qs s = (fulfilAll qs s).2 := by
  induction qs generalizing s with
  | nil => rfl
  | cons q qs ih =>
    change run qs (q.perform s).2 = _
    rw [q.perform_eq, ih]
    rfl

variable {σ ρ : Type} {R : σ → ρ → Prop} {Q : Log → Log → Prop}

/-- Related sources and logs, and the same readers. -/
inductive Alike (R : σ → ρ → Prop) (Q : Log → Log → Prop) : Session σ → Session ρ → Prop where
  /-- Only the sources and the logs may differ. -/
  | intro (readers : List Reader) {s : σ} {t : ρ} {l m : Log} (source : R s t) (log : Q l m) :
    Alike R Q ⟨s, l, readers⟩ ⟨t, m, readers⟩

/-- One request in two sessions. -/
structure SameReply (R : σ → ρ → Prop) (Q : Log → Log → Prop) (x : Reply × Session σ)
    (y : Reply × Session ρ) : Prop where
  /-- What is answered. -/
  reply : y.1 = x.1
  /-- What is left. -/
  after : Alike R Q x.2 y.2

theorem sameReply_decoded {α : Type} (kind : Except Fault α → List Text → Reply)
    {s : Session σ} {t : Session ρ} {r : EStateM.Result Fault (Decoding σ) α}
    {r' : EStateM.Result Fault (Decoding ρ) α} (hst : Alike R Q s t)
    (h : Agree (Decoding.Alike R Q) r r') :
    SameReply R Q (kind (valueOf r) (stateAfter r).written, (Request.resume s r).2)
      (kind (valueOf r') (stateAfter r').written, (Request.resume t r').2) := by
  obtain ⟨readers, -, -⟩ := hst
  rcases h with ⟨a, written, hsource, hlog⟩ | ⟨e, written, hsource, hlog⟩
  · exact ⟨rfl, readers, hsource, hlog⟩
  · exact ⟨rfl, readers, hsource, hlog⟩

theorem sameReply_client {α : Type} (kind : Except Fault α → Reply) {s : Session σ}
    {t : Session ρ} {r : EStateM.Result Fault σ α} {r' : EStateM.Result Fault ρ α}
    (hst : Alike R Q s t) (h : Agree R r r') :
    SameReply R Q (kind (valueOf r), { s with source := stateAfter r })
      (kind (valueOf r'), { t with source := stateAfter r' }) := by
  obtain ⟨readers, -, hlog⟩ := hst
  rcases h with ⟨a, hsource⟩ | ⟨e, hsource⟩
  · exact ⟨rfl, readers, hsource, hlog⟩
  · exact ⟨rfl, readers, hsource, hlog⟩

variable [CharacterSource σ] [CharacterSource ρ]

/-- **One request** in two sessions. -/
theorem fulfil_alike (h : Simulation R Q) (q : Request) {s : Session σ} {t : Session ρ}
    (hst : Alike R Q s t) : SameReply R Q (q.fulfil s) (q.fulfil t) := by
  have halike := hst
  obtain @⟨readers, s, t, l, m, hsource, hlog⟩ := hst
  cases q with
  | openReader eol =>
    simp only [Request.fulfil]
    cases Reader.new? eol with
    | ok r => exact ⟨rfl, readers ++ [r], hsource, hlog⟩
    | error e => exact ⟨rfl, halike⟩
  | operate index op =>
    simp only [Request.fulfil]
    cases readers[index]? with
    | none => exact ⟨rfl, halike⟩
    | some r =>
      obtain ⟨hanswer, hbuffer, hafter⟩ := Operation.perform_alike h op (.intro r hsource hlog)
      simp only [hanswer, hbuffer]
      generalize (op.perform ⟨r, s, l⟩).after = x, (op.perform ⟨r, t, m⟩).after = y at hafter
      obtain ⟨r', hsource', hlog'⟩ := hafter
      exact ⟨rfl, readers.set index r', hsource', hlog'⟩
  | decode eol all =>
    have hrun := Decoding.simulates_messages h eol all _ _ ⟨[], hsource, hlog⟩
    exact sameReply_decoded .messages halike hrun
  | decodeInto eol count room kind text =>
    have hrun := Decoding.simulates_interrupted h eol (.transport kind text) room count _ _
      ⟨[], hsource, hlog⟩
    exact sameReply_decoded .interrupted halike hrun
  | readChar => exact sameReply_client .piece halike (h.read _ _ hsource)
  | unreadChar p => exact sameReply_client .taken halike (h.unread p _ _ hsource)

/-- **Any requests** in two sessions. -/
theorem fulfilAll_alike (h : Simulation R Q) (qs : List Request) {s : Session σ} {t : Session ρ}
    (hst : Alike R Q s t) :
    (fulfilAll qs t).1 = (fulfilAll qs s).1 ∧ Alike R Q (fulfilAll qs s).2 (fulfilAll qs t).2 := by
  induction qs generalizing s t with
  | nil => exact ⟨rfl, hst⟩
  | cons q qs ih =>
    obtain ⟨hreply, hafter⟩ := fulfil_alike h q hst
    obtain ⟨hreplies, hlast⟩ := ih hafter
    exact ⟨congrArg₂ List.cons hreply hreplies, hlast⟩

end Session

/-! ### Logs of two levels -/

namespace Log

/-- Something was written to the log `l₀`, which is now `l`; to the log `m₀`, which is now `m`, only
the entries of a high enough level were written. -/
def Thinned (l₀ m₀ l m : Log) : Prop :=
  ∃ es : List Entry, l = { l₀ with entries := l₀.entries ++ es } ∧
    m = { m₀ with entries := m₀.entries ++ es.filter (m₀.level ≤ ·.level) }

theorem Thinned.refl (l₀ m₀ : Log) : Thinned l₀ m₀ l₀ m₀ := ⟨[], by simp, by simp⟩

/-- **An entry that is noted in both** is written to both, to the first only, or to none. -/
theorem Thinned.note {l₀ m₀ l m : Log} (h : Thinned l₀ m₀ l m) (hlevel : l₀.level ≤ m₀.level)
    (horigin : m₀.origin = l₀.origin) (level : Level) (message : String)
    (context : List (String × Value)) :
    Thinned l₀ m₀ (l.note level message context) (m.note level message context) := by
  obtain ⟨es, rfl, rfl⟩ := h
  let e : Entry :=
    { origin := l₀.origin, level, message := some message, context := some context }
  refine ⟨es ++ if l₀.level ≤ level then [e] else [], ?_, ?_⟩
  · simp [Log.note, send_eq, e]
  · by_cases hm : m₀.level ≤ level
    · have hl : l₀.level ≤ level := Nat.le_trans hlevel hm
      simp [Log.note, send_eq, horigin, hm, hl, e]
    · by_cases hl : l₀.level ≤ level <;> simp [Log.note, send_eq, hm, hl, e]

end Log

theorem Simulates.refl {σ α : Type} (x : Action σ α) : Simulates (fun s t => t = s) x x := by
  rintro s t rfl
  cases x t with
  | ok a u => exact .ok a rfl
  | error e u => exact .error e rfl

theorem simulation_thinned {σ : Type} [CharacterSource σ] {l₀ m₀ : Log}
    (hlevel : l₀.level ≤ m₀.level) (horigin : m₀.origin = l₀.origin) :
    Simulation (fun s t : σ => t = s) (Log.Thinned l₀ m₀) where
  read := .refl _
  unread p := .refl _
  ready := by
    rintro s _ rfl
    rfl
  note l m h level message context := h.note hlevel horigin level message context

namespace Session

variable {σ : Type} [CharacterSource σ]

theorem fulfilAll_thinned (s : Session σ) {log : Log} (hlevel : s.log.level ≤ log.level)
    (horigin : log.origin = s.log.origin) (qs : List Request) :
    (fulfilAll qs { s with log }).1 = (fulfilAll qs s).1 ∧
      Alike (fun s t : σ => t = s) (Log.Thinned s.log log) (fulfilAll qs s).2
        (fulfilAll qs { s with log }).2 := by
  have hstart : Alike (fun s t : σ => t = s) (Log.Thinned s.log log) s { s with log } :=
    ⟨s.readers, rfl, .refl s.log log⟩
  exact fulfilAll_alike (simulation_thinned hlevel horigin) qs hstart

omit [CharacterSource σ] in
theorem Alike.same {s t : Session σ} {Q : Log → Log → Prop}
    (h : Alike (fun s t : σ => t = s) Q s t) :
    t.source = s.source ∧ t.readers = s.readers ∧ Q s.log t.log := by
  obtain ⟨readers, hsource, hlog⟩ := h
  exact ⟨hsource, rfl, hlog⟩

/-- **The level of the log decides about its entries, and about nothing else.** A session is run
with two logs that differ in their levels. The source holds finitely much and hands out next what it
took back; apart from this it may do anything. Anything may be asked for: readers are made and used,
whole messages are decoded, the client reads and hands back.

All that is answered is the same in both runs, failures and buffers included; the source is left in
the same state, after the same calls on it; and the readers are left in the same states. Of the
entries that are written to the log with the lower level, those are written to the other log that
have its level at least, in the same order, and no others. Both runs are runs of `Session.run`. -/
theorem level_irrelevant (s : Session (Traced σ)) {log : Log} (horigin : log.origin = s.log.origin)
    (qs : List Request) :
    let run := fulfilAll qs s
    let run' := fulfilAll qs { s with log }
    run'.1 = run.1 ∧
      run'.2.source.source = run.2.source.source ∧ run'.2.source.calls = run.2.source.calls ∧
      run'.2.readers = run.2.readers ∧
      (s.log.level ≤ log.level → ∃ es : List Entry,
        run.2.log = { s.log with entries := s.log.entries ++ es } ∧
          run'.2.log =
            { log with entries := log.entries ++ es.filter (log.level ≤ ·.level) }) ∧
      run.2 = Session.run qs s ∧ run'.2 = Session.run qs { s with log } := by
  intro run run'
  have hruns : run.2 = Session.run qs s ∧ run'.2 = Session.run qs { s with log } :=
    ⟨(run_eq qs s).symm, (run_eq qs { s with log }).symm⟩
  rcases Nat.le_total s.log.level.rank log.level.rank with hlevel | hlevel
  · obtain ⟨hreplies, hafter⟩ := fulfilAll_thinned s hlevel horigin qs
    obtain ⟨hsource, hreaders, hlog⟩ := hafter.same
    exact ⟨hreplies, congrArg _ hsource, congrArg _ hsource, hreaders, fun _ => hlog, hruns⟩
  -- the other run is the one with the lower level
  · obtain ⟨hreplies, hafter⟩ := fulfilAll_thinned { s with log } hlevel horigin.symm qs
    obtain ⟨hsource, hreaders, -⟩ := hafter.same
    refine ⟨hreplies.symm, congrArg _ hsource.symm, congrArg _ hsource.symm, hreaders.symm,
      fun hle => ?_, hruns⟩
    obtain ⟨-, hafter'⟩ := fulfilAll_thinned s hle horigin qs
    exact hafter'.same.2.2

/-- A source that ends within a message, goes on, and fails while another reader reads past the rest
of its message. All that happens is of interest to one log, and warnings are to the other. -/
theorem level_irrelevant_failing_source :
    let source : Script :=
      { events := [.item ['a'], .nothing, .item ['b'], .item ['c'], .item cr, .item lf, .item dot,
          .item cr, .failure .noDataYet, .item lf] }
    let s : Session (Traced Script) := { source := { source }, log := { level := .debug } }
    let qs : List Request :=
      [.openReader ['\n'], .operate 0 .readLine, .operate 0 .close, .openReader ['|'],
        .operate 1 .close, .operate 1 .close, .decode [] true, .unreadChar ['d'], .readChar]
    let run := fulfilAll qs s
    let run' := fulfilAll qs { s with log := { level := .warning } }
    run'.1 = run.1 ∧ run'.2.source.calls = run.2.source.calls ∧
      run.2.log.entries.map (·.level) = [.warning, .warning, .debug] ∧
      run'.2.log.entries = run.2.log.entries.filter (Level.warning ≤ ·.level) := by
  intro source s qs run run'
  obtain ⟨hreplies, -, hcalls, -, hlog, -⟩ :=
    level_irrelevant s (rfl : ({ level := .warning } : Log).origin = s.log.origin) qs
  obtain ⟨es, hrun, hrun'⟩ := hlog (by decide)
  refine ⟨hreplies, hcalls, ?_, ?_⟩
  · cbv
  · rw [hrun, hrun']
    rfl

end Session

end DotFraming
