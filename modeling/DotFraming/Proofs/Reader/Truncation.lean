import DotFraming.Proofs.Reader.Invariant
import DotFraming.Proofs.Reader.View
import DotFraming.Proofs.Source.Gauge
import DotFraming.Proofs.Wire.Unfinished

/-!
# When a message is reported to be truncated

A stream may end within a message. The reader then logs a warning, unless it can tell the end of the
message nevertheless: a dot at the start of a line and another character but a dot are enough for
that, and the character that should follow is not missed.

* `Log.truncations` : how often a truncation was logged.
* `Reading.Tells` : what the log says before the end of the message and after it.
* `Reading.tells_readOne` : **one call keeps to this.**
* `Operation.truncation_logged` : **a truncation is logged once**, just if the stream has ended in a
  read and the text has no terminator.
* `Operation.truncation_unnoticed` : a terminator of which the last character is missing is not
  reported.
-/

namespace DotFraming

namespace Log

/-- How often it was logged that the source ended within a message. -/
def truncations (log : Log) : Nat :=
  log.entries.countP fun e =>
    e.level == .warning && e.message == some "Source ended before the message terminator"

theorem truncations_noteTruncated (log : Log) :
    log.noteTruncated.truncations = log.truncations + if log.level ≤ .warning then 1 else 0 := by
  unfold noteTruncated note truncations
  rw [entries_send, List.countP_append]
  split <;> rfl

theorem truncations_noteDiscarded (log : Log) (count : Nat) :
    (log.noteDiscarded count).truncations = log.truncations := by
  unfold noteDiscarded note truncations
  rw [entries_send, List.countP_append]
  split <;> rfl

end Log

/-- The call met the end of the stream. -/
def Call.meetsEnd : Call → Bool
  | read (.ok none) => true
  | _ => false

theorem Call.eq_of_meetsEnd {c : Call} (h : c.meetsEnd = true) : c = .read (.ok none) := by
  unfold meetsEnd at h
  split at h
  · rfl
  · cases h

theorem Call.any_meetsEnd_iff {cs : List Call} :
    cs.any meetsEnd = true ↔ .read (.ok none) ∈ cs := by
  rw [List.any_eq_true]
  constructor
  · rintro ⟨c, hc, hend⟩
    exact eq_of_meetsEnd hend ▸ hc
  · intro h
    exact ⟨_, h, rfl⟩

variable {σ : Type} [CharacterSource σ]

namespace Reading

open Wire

/-! ### The log -/

theorem log_readOne (s : Reading σ) : (stateAfter (readOne s)).log = s.log ∨
    (stateAfter (readOne s)).log = s.log.noteTruncated := by
  rcases readOne_cases s with ⟨c, t, -, hrun⟩ | ⟨-, -, hrun⟩ | ⟨-, -, -, cs, hlooks⟩
  · rw [hrun]
    exact .inl rfl
  · rw [hrun]
    exact .inl rfl
  · exact hlooks.log.imp_right And.right

theorem Evolves.log_invariant {P : Log → Prop} {s s' : Reading σ} (h : Evolves s s') (h₀ : P s.log)
    (htruncated : ∀ log, P log → P log.noteTruncated)
    (hdiscarded : ∀ log count, P log → P (log.noteDiscarded count)) : P s'.log := by
  refine h.invariant (P := fun m => P m.log) h₀ (fun m hm => ?_)
    (fun m count => hdiscarded m.log count) fun _ => id
  rcases log_readOne m with hlog | hlog
  · rwa [hlog]
  · rw [hlog]
    exact htruncated m.log hm

theorem Evolves.level_eq {s s' : Reading σ} (h : Evolves s s') : s'.log.level = s.log.level := by
  refine h.log_invariant (P := fun log => log.level = s.log.level) rfl (fun log hlog => ?_)
    fun log count hlog => ?_
  · rw [Log.noteTruncated, Log.note, Log.level_send, hlog]
  · rw [Log.noteDiscarded, Log.note, Log.level_send, hlog]

/-! ### What the log says -/

/-- The number of truncations to be logged of a text, with these calls made. -/
def due (w : Text) (log : Log) (calls : List Call) : Nat :=
  if calls.any Call.meetsEnd ∧ terminator? w = none ∧ log.level ≤ .warning then 1 else 0

/-- What a log says that was `log` at first. The source delivers the text `w` in all and is then in
the state `t`. -/
inductive Tells (w : Text) (t : σ) (log : Log) (s : Reading (Traced σ)) : Prop where
  /-- Within the message it says nothing. The end of the message is still to come, if it comes. -/
  | before {start : Bool} {p left : Text} (opened : Open s start p)
      (delivers : Delivers s.source.source left t)
      (missing : endFrom? start left = none ↔ terminator? w = none)
      (calls : s.source.calls.any Call.meetsEnd = false)
      (told : s.log.truncations = log.truncations)
  /-- After the message it says whether a truncation was met. -/
  | after (eof : s.reader.eof = true)
      (told : s.log.truncations = log.truncations + due w log s.source.calls)

theorem exists_of_forgotten {s : Reading (Traced σ)} {s₀ : Reading σ} {o : Option Piece}
    (h : readOne (s.map Traced.source) = .ok o s₀) :
    ∃ s', readOne s = .ok o s' ∧ s'.map Traced.source = s₀ := by
  rw [views_readOne Traced.view_source s] at h
  exact eq_ok_of_mapState h

variable {w left : Text} {t t' : σ} {log : Log} {s s' : Reading (Traced σ)} {start : Bool}
  {cs : List Call}

theorem any_meetsEnd_of_looks {o : Option Piece} (hlooks : Looks s (.ok o s') cs)
    (hs : s.source.calls.any Call.meetsEnd = false) :
    s'.source.calls.any Call.meetsEnd = true ↔ .read (.ok none) ∈ cs := by
  have hrecord : s'.source.calls = cs.reverse ++ s.source.calls := hlooks.calls.record.2
  rw [hrecord, List.any_append, hs, Bool.or_false, Call.any_meetsEnd_iff, List.mem_reverse]

theorem truncations_logEnd (hmissing : endFrom? start left = none ↔ terminator? w = none)
    (log : Log) : (logEnd start left log).truncations =
      log.truncations + if terminator? w = none ∧ log.level ≤ .warning then 1 else 0 := by
  unfold logEnd
  by_cases hnone : terminator? w = none
  · rw [if_pos (hmissing.2 hnone), Log.truncations_noteTruncated]
    simp [hnone]
  · rw [if_neg fun h => hnone (hmissing.1 h), if_neg fun h => hnone h.1, Nat.add_zero]

theorem tells_of_looks (hend : CharacterSource.read t = .ok none t')
    (hlevel : s.log.level = log.level) (hs : Open s start [])
    (hd : Delivers s.source.source left t)
    (hmissing : endFrom? start left = none ↔ terminator? w = none)
    (hcalls : s.source.calls.any Call.meetsEnd = false)
    (htold : s.log.truncations = log.truncations) (hlooks : Looks s (readOne s) cs) :
    Tells w t log (stateAfter (readOne s)) := by
  have hs₀ : Open (s.map Traced.source) start [] := ⟨hs.eof, hs.closed, hs.start, hs.staged⟩
  rcases call_cases s.reader.eol start left with ⟨out, rest, htakes⟩ | ⟨out, rest, hends⟩ | hshort
  -- in the middle of the message no read meets the end of the stream
  · obtain ⟨s₀, call, hopen, -, hlog, hd', -⟩ := readOne_of_takes hs₀ htakes hd
    obtain ⟨s', hrun, rfl⟩ := exists_of_forgotten call
    rw [hrun] at hlooks ⊢
    obtain ⟨k, -, hat⟩ := htakes.endFrom?_eq
    refine .before ⟨hopen.eof, hopen.closed, hopen.start, hopen.staged⟩ hd' ?_ ?_ ?_
    · rw [← hmissing, hat, Option.map_eq_none_iff]
    · refine Bool.eq_false_iff.2 fun hany => ?_
      have heof := hlooks.ends ((any_meetsEnd_of_looks hlooks hcalls).1 hany)
      rw [stateAfter_ok, show s'.reader.eof = false from hopen.eof] at heof
      cases heof
    · exact (congrArg Log.truncations hlog).trans htold
  -- the terminator is there
  · obtain ⟨s₀, call, hover, -, hlog, -⟩ := readOne_of_ends hs₀ hends hd
    obtain ⟨s', hrun, rfl⟩ := exists_of_forgotten call
    rw [hrun]
    obtain ⟨p, hp, -⟩ := complete_iff_endFrom?.1 hends.complete
    have hthere : terminator? w ≠ none := by simp [← hmissing, hp]
    refine .after hover.eof ?_
    rw [due, if_neg fun h => hthere h.2.1]
    exact (congrArg Log.truncations hlog).trans htold
  -- the stream ends; what is logged tells that a read has met its end
  · obtain ⟨s₀, call, hover, -, -, hlog⟩ := readOne_of_short_end hs₀ hshort hd hend
    obtain ⟨s', hrun, rfl⟩ := exists_of_forgotten call
    rw [hrun] at hlooks ⊢
    have hnow : s'.log.truncations = log.truncations +
        if terminator? w = none ∧ log.level ≤ .warning then 1 else 0 := by
      rw [← htold, ← hlevel, ← truncations_logEnd hmissing]
      exact congrArg Log.truncations hlog
    have hany : terminator? w = none ∧ log.level ≤ .warning →
        s'.source.calls.any Call.meetsEnd = true := by
      intro hdue
      rw [any_meetsEnd_of_looks hlooks hcalls]
      refine (hlooks.log.resolve_left fun hsame => ?_).1
      rw [if_pos hdue, ← htold, show s'.log = s.log from hsame] at hnow
      omega
    refine .after hover.eof (hnow.trans ?_)
    by_cases hdue : terminator? w = none ∧ log.level ≤ .warning
    · rw [due, if_pos hdue, if_pos ⟨hany hdue, hdue⟩]
    · rw [due, if_neg hdue, if_neg fun h => hdue h.2]

/-- **One call** logs what it has to. -/
theorem tells_readOne (hend : CharacterSource.read t = .ok none t')
    (hlevel : s.log.level = log.level) (h : Tells w t log s) :
    Tells w t log (stateAfter (readOne s)) := by
  rcases readOne_cases s with ⟨c, u, hst, hrun⟩ | ⟨hst, hover, hrun⟩ | ⟨hst, heof, -, cs, hlooks⟩
  · rw [hrun]
    cases h with
    | before opened delivers missing calls told =>
      exact .before ⟨opened.eof, opened.closed, opened.start, Reader.staged_advance hst⟩ delivers
        missing calls told
    | after eof told => exact .after eof told
  · rw [hrun]
    exact h
  · cases h with
    | before opened delivers missing calls told =>
      exact tells_of_looks hend hlevel ⟨opened.eof, opened.closed, opened.start, hst⟩ delivers
        missing calls told hlooks
    | after eof told =>
      rw [eof] at heof
      cases heof

theorem Tells.note {log' : Log} (h : Tells w t log s)
    (hsame : log'.truncations = s.log.truncations) : Tells w t log { s with log := log' } := by
  cases h with
  | before opened delivers missing calls told =>
    exact .before ⟨opened.eof, opened.closed, opened.start, opened.staged⟩ delivers missing calls
      (hsame.trans told)
  | after eof told => exact .after eof (hsame.trans told)

/-- A reader that is shut within the message has not met the end of the stream. -/
theorem Tells.shut (h : Tells w t log s) : Tells w t log s.shut := by
  refine .after rfl ?_
  cases h with
  | before opened delivers missing calls told =>
    have hnot : due w log s.source.calls = 0 := by
      rw [due, if_neg]
      rintro ⟨hany, -⟩
      rw [calls] at hany
      cases hany
    change s.log.truncations = log.truncations + due w log s.source.calls
    rw [hnot]
    exact told
  | after eof told => exact told

/-- **Any number of steps** log what they have to. -/
theorem Evolves.tells (h : Evolves s s') (hend : CharacterSource.read t = .ok none t')
    (hlevel : s.log.level = log.level) (hs : Tells w t log s) : Tells w t log s' := by
  have hkept : s'.log.level = log.level ∧ Tells w t log s' := by
    refine h.invariant (P := fun m => m.log.level = log.level ∧ Tells w t log m) ⟨hlevel, hs⟩
      (fun m hm => ?_) (fun m count hm => ?_) fun m hm => ⟨hm.1, hm.2.shut⟩
    · have hstep : Evolves m (stateAfter (readOne m)) := .of_step (.call m)
      exact ⟨hstep.level_eq.trans hm.1, tells_readOne hend hm.1 hm.2⟩
    · have hstep : Evolves m _ := .of_step (.note m count)
      exact ⟨hstep.level_eq.trans hm.1, hm.2.note (Log.truncations_noteDiscarded m.log count)⟩
  exact hkept.2

end Reading

namespace Operation

open Reading

/-- **A truncation is logged once.** A new reader over a source that ends is asked for anything. The
log then says once that the source ended within the message if a read has met the end of the stream,
the text has no terminator, and warnings are logged at all; otherwise it never says so. -/
theorem truncation_logged {eol w : Text} {r : Reader} {source : σ} (log : Log)
    (hr : Reader.new? eol = .ok r) (hsource : Exhausts source w) (ops : List Operation) :
    let s := (performAll ops ⟨r, ({ source } : Traced σ), log⟩).2
    s.log.truncations = log.truncations +
      if s.source.calls.any Call.meetsEnd ∧ Wire.terminator? w = none ∧ log.level ≤ .warning then 1
      else 0 := by
  intro s
  obtain ⟨t, t', hd, hend⟩ := hsource
  have hs : Evolves ⟨r, ({ source } : Traced σ), log⟩ s := performAll_evolves ops _
  obtain ⟨-, hopen⟩ := open_of_new hr ({ source } : Traced σ) log
  have htells : Tells w t log s := by
    refine hs.tells hend rfl (.before hopen hd ?_ rfl rfl)
    rw [Wire.endFrom?_true]
  cases htells with
  | before opened delivers missing calls told =>
    rw [if_neg (by simp [calls])]
    exact told
  | after eof told => exact told

/-- A text that ends within a line ending, of which the second character is still to be handed out
when the warning is logged. -/
theorem truncation_logged_line_ending :
    let w := "a\r\n".toList
    ∃ r, Reader.new? ['\r', '\n'] = .ok r ∧ Exhausts (Pushback.ofText w) w ∧
      let s := (performAll [.readOne, .readOne, .readOne, .readOne]
        ⟨r, ({ source := Pushback.ofText w } : Traced (Pushback InMemory)), {}⟩).2
      s.source.calls.any Call.meetsEnd = true ∧ s.log.truncations = 1 := by
  intro w
  have hsource := Pushback.exhausts_ofText w
  have hlogged := truncation_logged {} (rfl : Reader.new? ['\r', '\n'] = .ok _) hsource
    [.readOne, .readOne, .readOne, .readOne]
  exact ⟨_, rfl, hsource, rfl, hlogged⟩

/-- **A terminator of which the last character is missing** is taken for whole. It is not true that
the warning is logged whenever a read has met the end of the stream. -/
theorem truncation_unnoticed :
    ¬∀ (eol w : Text) (r : Reader) (ops : List Operation), Reader.new? eol = .ok r →
      let s := (performAll ops
        ⟨r, ({ source := Pushback.ofText w } : Traced (Pushback InMemory)), {}⟩).2
      s.log.truncations = if s.source.calls.any Call.meetsEnd then 1 else 0 := by
  intro h
  have hlogged := h ['\n'] "a\r\n.\r".toList _ [.readOne, .readOne] rfl
  exact absurd hlogged (by decide)

end Operation

end DotFraming
