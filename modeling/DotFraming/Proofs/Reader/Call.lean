import DotFraming.Proofs.Source.Delivery
import DotFraming.Proofs.Wire.Call
import DotFraming.Reader

/-!
# What one call of a reader does

`Wire.call_cases` sorts the texts that may wait for a call into three kinds. This file says what a
call does with each of them: one lemma for a text in the middle of the message, one for the end of
the message, and one for a text that is too short, with what follows if the source then ends or
fails.

* `Reading.Open`, `Reading.Over` : the readers that still read, and those that only hand out what
  is staged.
* `Reading.readOne_of_takes`, `Reading.readOne_of_ends` : **a call hands out the first character of
  what the text stands for and stages the others.**
* `Reading.readOne_of_short_end` : if the source ends within a lookahead, what was looked at counts.
* `Reading.readOne_of_short_error` : if the source fails there, what was looked at is lost.
-/

namespace DotFraming

namespace Reading

open Wire

variable {σ : Type} [CharacterSource σ]

/-- The reader has not seen the end of the message; `staged` is what it has to hand out before it
reads on, and `start` tells whether it has read nothing yet. -/
structure Open (s : Reading σ) (start : Bool) (staged : Text) : Prop where
  /-- The end of the message has not been seen. -/
  eof : s.reader.eof = false
  /-- The reader is not done with its source. -/
  closed : s.reader.closed = false
  /-- Whether nothing has been read. -/
  start : s.reader.atBeginning = start
  /-- What is staged. -/
  staged : s.reader.staged = staged

/-- The reader has seen the end of the message and only hands out what is staged. -/
structure Over (s : Reading σ) (staged : Text) : Prop where
  /-- The end of the message has been seen. -/
  eof : s.reader.eof = true
  /-- What is staged. -/
  staged : s.reader.staged = staged

theorem readOne_of_over {s : Reading σ} (h : Over s []) : readOne s = .ok none s := by
  simp [readOne, h.staged, h.eof]

theorem readOne_of_open {s : Reading σ} {start : Bool} (h : Open s start []) :
    readOne s = readOn s := by
  simp [readOne, h.staged, h.eof, h.closed]

/-! ### The parts of a call -/

/-- The reading after a call has read its first piece. -/
def begun (s : Reading σ) (source : σ) : Reading σ :=
  { s with source, reader := { s.reader with atBeginning := false } }

theorem ask_of_read {s : Reading σ} {o : Option Piece} {source : σ}
    (h : CharacterSource.read s.source = .ok o source) : ask s = .ok o { s with source } := by
  simp [ask, h]

theorem ask_of_read_error {s : Reading σ} {e : Fault} {source : σ}
    (h : CharacterSource.read s.source = .error e source) :
    ask s = .error e { s with source } := by
  simp [ask, h]

theorem putBack_of_unread {s : Reading σ} {p : Piece} {source : σ}
    (h : CharacterSource.unread p s.source = .ok () source) :
    putBack p s = .ok () { s with source } := by
  simp [putBack, h]

theorem putBack_of_unread_error {s : Reading σ} {p : Piece} {e : Fault} {source : σ}
    (h : CharacterSource.unread p s.source = .error e source) :
    putBack p s = .error e { s with source } := by
  simp [putBack, h]

omit [CharacterSource σ] in
theorem stage_eq {suffix out : Text} {s : Reading σ} (h : out = s.reader.eol ++ suffix) :
    stage suffix s = .ok (out.head?.map ([·]))
      { s with reader := { s.reader with pending := out, cursor := 1 } } := by
  obtain ⟨c, t, heol⟩ := List.exists_cons_of_ne_nil s.reader.eol_ne_nil
  simp [stage, h, heol]

theorem readOn_of_read {s : Reading σ} {c : Char} {source : σ}
    (h : CharacterSource.read s.source = .ok (some [c]) source) :
    readOn s =
      (if s.reader.atBeginning = true ∧ c = '.' then afterFirstDot
        else if c = '\r' then afterCR else pure (some [c]) : Action (Reading σ) _)
        (begun s source) := by
  simp [readOn, bind_apply, ask_of_read h, leaveBeginning, begun, dot, cr]

theorem afterFirstDot_of_read {s : Reading σ} {c : Char} {source : σ}
    (h : CharacterSource.read s.source = .ok (some [c]) source) :
    afterFirstDot s =
      (if c = '.' then pure (some dot) else do let _ ← ask; finish; pure none :
        Action (Reading σ) _) { s with source } := by
  simp [afterFirstDot, bind_apply, ask_of_read h, dot]

theorem afterCR_of_read {s : Reading σ} {c : Char} {source : σ}
    (h : CharacterSource.read s.source = .ok (some [c]) source) :
    afterCR s =
      (if c = '\n' then afterCRLF else do putBack [c]; pure (some cr) : Action (Reading σ) _)
        { s with source } := by
  simp [afterCR, bind_apply, ask_of_read h, lf]

theorem afterCRLF_of_read {s : Reading σ} {c : Char} {source : σ}
    (h : CharacterSource.read s.source = .ok (some [c]) source) :
    afterCRLF s =
      (if c = '.' then afterCRLFDot else do putBack [c]; stage [] : Action (Reading σ) _)
        { s with source } := by
  by_cases hc : c = '.' <;> simp [afterCRLF, bind_apply, ask_of_read h, dot, hc]

theorem afterCRLFDot_of_read {s : Reading σ} {c : Char} {source : σ}
    (h : CharacterSource.read s.source = .ok (some [c]) source) :
    afterCRLFDot s =
      (if c = '.' then stage dot else do let _ ← ask; finish; stage [] : Action (Reading σ) _)
        { s with source } := by
  by_cases hc : c = '.' <;> simp [afterCRLFDot, bind_apply, ask_of_read h, dot, hc]

/-! ### Calls in the middle of the message -/

variable {s : Reading σ} {t t' : σ} {start : Bool} {w out rest : Text}

/-- **A call in the middle of the message** hands out the first character of what the text stands
for and stages the others. -/
theorem readOne_of_takes (hs : Open s start []) (hw : Takes s.reader.eol start w out rest)
    (hd : Delivers s.source w t) :
    ∃ s' : Reading σ, readOne s = .ok (out.head?.map ([·])) s' ∧ Open s' false out.tail ∧
      s'.reader.eol = s.reader.eol ∧ s'.log = s.log ∧ Delivers s'.source rest t ∧
      ∃ m, w = m ++ rest ∧ LeadsTo s.source m s'.source := by
  rw [readOne_of_open hs]
  obtain ⟨heof, hclosed, rfl, hstaged⟩ := hs
  generalize hstart : s.reader.atBeginning = start at hw
  cases hw with
  | plain hcr hdot =>
    obtain _ | ⟨r₁, b₁, hd⟩ := hd
    rw [readOn_of_read r₁, hstart, if_neg hdot, if_neg hcr]
    exact ⟨_, rfl, ⟨heof, hclosed, rfl, hstaged⟩, rfl, rfl, hd, [_], rfl,
      (Delivers.cons r₁ b₁ (.nil _)).leadsTo⟩
  | firstDots =>
    obtain _ | ⟨r₁, b₁, _ | ⟨r₂, b₂, hd⟩⟩ := hd
    rw [readOn_of_read r₁, if_pos ⟨hstart, rfl⟩, afterFirstDot_of_read r₂, if_pos rfl]
    exact ⟨_, rfl, ⟨heof, hclosed, rfl, hstaged⟩, rfl, rfl, hd, ['.', '.'], rfl,
      (Delivers.cons r₁ b₁ (.cons r₂ b₂ (.nil _))).leadsTo⟩
  | loneCR hlf =>
    obtain _ | ⟨r₁, b₁, _ | ⟨r₂, b₂, hd⟩⟩ := hd
    -- the character that is given back is left for the next call
    have ⟨back, hu, hr⟩ := b₂
    rw [readOn_of_read r₁, if_neg (by simp), if_pos rfl, afterCR_of_read r₂, if_neg hlf,
      bind_of_ok (putBack_of_unread hu)]
    exact ⟨_, rfl, ⟨heof, hclosed, rfl, hstaged⟩, rfl, rfl, .cons hr b₂ hd, ['\r'], rfl,
      (Delivers.cons r₁ b₁ (.nil _)).leadsTo.trans (leadsTo_of_back r₂ b₂ hr)⟩
  | newline hdot =>
    obtain _ | ⟨r₁, b₁, _ | ⟨r₂, b₂, _ | ⟨r₃, b₃, hd⟩⟩⟩ := hd
    have ⟨back, hu, hr⟩ := b₃
    rw [readOn_of_read r₁, if_neg (by simp), if_pos rfl, afterCR_of_read r₂, if_pos rfl,
      afterCRLF_of_read r₃, if_neg hdot, bind_of_ok (putBack_of_unread hu)]
    refine ⟨_, stage_eq (List.append_nil _).symm, ⟨heof, hclosed, rfl, ?_⟩, rfl, rfl,
      .cons hr b₃ hd, ['\r', '\n'], rfl,
      (Delivers.cons r₁ b₁ (.cons r₂ b₂ (.nil _))).leadsTo.trans (leadsTo_of_back r₃ b₃ hr)⟩
    simp [Reader.staged]
  | stuffed =>
    obtain _ | ⟨r₁, b₁, _ | ⟨r₂, b₂, _ | ⟨r₃, b₃, _ | ⟨r₄, b₄, hd⟩⟩⟩⟩ := hd
    rw [readOn_of_read r₁, if_neg (by simp), if_pos rfl, afterCR_of_read r₂, if_pos rfl,
      afterCRLF_of_read r₃, if_pos rfl, afterCRLFDot_of_read r₄, if_pos rfl]
    refine ⟨_, stage_eq rfl, ⟨heof, hclosed, rfl, ?_⟩, rfl, rfl, hd, ['\r', '\n', '.', '.'], rfl,
      (Delivers.cons r₁ b₁ (.cons r₂ b₂ (.cons r₃ b₃ (.cons r₄ b₄ (.nil _))))).leadsTo⟩
    simp [Reader.staged]

/-! ### Calls that see the end of the message -/

/-- **A call that meets the terminator** hands out the first character of what the text before it
stands for and stages the others. The source is left right behind the terminator. -/
theorem readOne_of_ends (hs : Open s start []) (hw : Ends s.reader.eol start w out rest)
    (hd : Delivers s.source w t) :
    ∃ s' : Reading σ, readOne s = .ok (out.head?.map ([·])) s' ∧ Over s' out.tail ∧
      s'.reader.eol = s.reader.eol ∧ s'.log = s.log ∧ Delivers s'.source rest t ∧
      ∃ m, m ≠ [] ∧ w = m ++ rest ∧ Delivers s.source m s'.source := by
  rw [readOne_of_open hs]
  obtain ⟨heof, hclosed, rfl, hstaged⟩ := hs
  generalize hstart : s.reader.atBeginning = start at hw
  cases hw with
  | @atOnce c d _ hdot =>
    obtain _ | ⟨r₁, b₁, _ | ⟨r₂, b₂, _ | ⟨r₃, b₃, hd⟩⟩⟩ := hd
    rw [readOn_of_read r₁, if_pos ⟨hstart, rfl⟩, afterFirstDot_of_read r₂, if_neg hdot,
      bind_of_ok (ask_of_read r₃)]
    exact ⟨_, rfl, ⟨rfl, hstaged⟩, rfl, rfl, hd, ['.', c, d], by simp, rfl,
      .cons r₁ b₁ (.cons r₂ b₂ (.cons r₃ b₃ (.nil _)))⟩
  | @afterLine _ c d _ hdot =>
    obtain _ | ⟨r₁, b₁, _ | ⟨r₂, b₂, _ | ⟨r₃, b₃, _ | ⟨r₄, b₄, _ | ⟨r₅, b₅, hd⟩⟩⟩⟩⟩ := hd
    -- the line ending before the terminator is staged although the message is over
    rw [readOn_of_read r₁, if_neg (by simp), if_pos rfl, afterCR_of_read r₂, if_pos rfl,
      afterCRLF_of_read r₃, if_pos rfl, afterCRLFDot_of_read r₄, if_neg hdot,
      bind_of_ok (ask_of_read r₅)]
    refine ⟨_, stage_eq (List.append_nil _).symm, ⟨rfl, ?_⟩, rfl, rfl, hd,
      ['\r', '\n', '.', c, d], by simp, rfl,
      .cons r₁ b₁ (.cons r₂ b₂ (.cons r₃ b₃ (.cons r₄ b₄ (.cons r₅ b₅ (.nil _)))))⟩
    simp [Reader.staged]

/-! ### Calls that have to ask for more -/

/-- The log when the source has ended and `w` was all there was to look at. That the message was
truncated is logged unless its end can be told from `w`. -/
def logEnd (start : Bool) (w : Text) (log : Log) : Log :=
  if endFrom? start w = none then log.noteTruncated else log

omit [CharacterSource σ] in
theorem logEnd_of_none (h : endFrom? start w = none) (s : Reading σ) :
    s.log.noteTruncated = logEnd start w s.log := (if_pos h).symm

omit [CharacterSource σ] in
theorem logEnd_of_some {p : Nat} (h : endFrom? start w = some p) (s : Reading σ) :
    s.log = logEnd start w s.log := (if_neg (by simp [h])).symm

/-- **A call on a text that is too short** looks at all of it and asks for one piece more. What it
does then is some `goOn`, which at the end of the stream hands out the first character of what the
text stands for and stages the others. -/
theorem readOne_of_short (hs : Open s start []) (hw : Short start w)
    (hd : Delivers s.source w t) :
    ∃ (goOn : Option Piece → Action (Reading σ) (Option Piece)) (s₁ : Reading σ),
      readOne s = (do goOn (← ask) : Action (Reading σ) _) s₁ ∧
      Open s₁ (start && w.isEmpty) [] ∧ s₁.reader.eol = s.reader.eol ∧ s₁.log = s.log ∧
      s₁.source = t ∧
      ∀ s₂ : Reading σ, s₂.reader = s₁.reader → ∃ s' : Reading σ,
        goOn none s₂ = .ok ((decodeFrom s.reader.eol start w).head?.map ([·])) s' ∧
        Over s' (decodeFrom s.reader.eol start w).tail ∧ s'.reader.eol = s.reader.eol ∧
        s'.source = s₂.source ∧ s'.log = logEnd start w s₂.log := by
  rw [readOne_of_open hs]
  obtain ⟨heof, hclosed, rfl, hstaged⟩ := hs
  generalize hstart : s.reader.atBeginning = start at hw ⊢
  -- each case stops at its last `ask`; of the state `s₂` that this leads to only the reader is known
  cases hw with
  | nil =>
    cases hd
    rw [List.isEmpty_nil, Bool.and_true, decodeFrom.eq_5]
    refine ⟨_, s, rfl, ⟨heof, hclosed, hstart, hstaged⟩, rfl, rfl, rfl, fun s₂ h₂ => ?_⟩
    exact ⟨_, rfl, ⟨rfl, h₂ ▸ hstaged⟩, by simp [h₂], rfl, logEnd_of_none rfl s₂⟩
  | dot =>
    obtain _ | ⟨r₁, _, _ | _⟩ := hd
    rw [readOn_of_read r₁, if_pos ⟨hstart, rfl⟩]
    refine ⟨_, _, rfl, ⟨heof, hclosed, rfl, hstaged⟩, rfl, rfl, rfl, fun s₂ h₂ => ?_⟩
    exact ⟨_, rfl, ⟨rfl, h₂ ▸ hstaged⟩, by simp [h₂, begun], rfl, logEnd_of_none rfl s₂⟩
  | dotChar hdot =>
    obtain _ | ⟨r₁, _, _ | ⟨r₂, _, _ | _⟩⟩ := hd
    rw [readOn_of_read r₁, if_pos ⟨hstart, rfl⟩, afterFirstDot_of_read r₂, if_neg hdot,
      decodeFrom_dot hdot]
    refine ⟨_, _, rfl, ⟨heof, hclosed, rfl, hstaged⟩, rfl, rfl, rfl, fun s₂ h₂ => ?_⟩
    exact ⟨_, rfl, ⟨rfl, h₂ ▸ hstaged⟩, by simp [h₂, begun], rfl,
      logEnd_of_some (endFrom?_dotChar hdot) s₂⟩
  | cr =>
    obtain _ | ⟨r₁, _, _ | _⟩ := hd
    rw [readOn_of_read r₁, if_neg (by simp), if_pos rfl, decodeFrom_cr, List.isEmpty_cons,
      Bool.and_false]
    refine ⟨_, _, rfl, ⟨heof, hclosed, rfl, hstaged⟩, rfl, rfl, rfl, fun s₂ h₂ => ?_⟩
    exact ⟨_, rfl, ⟨rfl, h₂ ▸ hstaged⟩, by simp [h₂, begun], rfl,
      logEnd_of_none (endFrom?_cr _) s₂⟩
  | crlf =>
    obtain _ | ⟨r₁, _, _ | ⟨r₂, _, _ | _⟩⟩ := hd
    rw [readOn_of_read r₁, if_neg (by simp), if_pos rfl, afterCR_of_read r₂, if_pos rfl,
      decodeFrom.eq_3, List.isEmpty_cons, Bool.and_false]
    refine ⟨_, _, rfl, ⟨heof, hclosed, rfl, hstaged⟩, rfl, rfl, rfl, fun s₂ h₂ => ?_⟩
    refine ⟨_, stage_eq (by simp [h₂, begun, decodeFrom]), ⟨rfl, ?_⟩, by simp [h₂, begun], rfl,
      logEnd_of_none (endFrom?_crlf _ _) s₂⟩
    simp [Reader.staged]
  | crlfDot =>
    obtain _ | ⟨r₁, _, _ | ⟨r₂, _, _ | ⟨r₃, _, _ | _⟩⟩⟩ := hd
    rw [readOn_of_read r₁, if_neg (by simp), if_pos rfl, afterCR_of_read r₂, if_pos rfl,
      afterCRLF_of_read r₃, if_pos rfl, decodeFrom.eq_3, List.isEmpty_cons, Bool.and_false]
    refine ⟨_, _, rfl, ⟨heof, hclosed, rfl, hstaged⟩, rfl, rfl, rfl, fun s₂ h₂ => ?_⟩
    refine ⟨_, stage_eq (by simp [h₂, begun, decodeFrom]), ⟨rfl, ?_⟩, by simp [h₂, begun], rfl,
      logEnd_of_none (endFrom?_crlf _ _) s₂⟩
    simp [Reader.staged]
  | @crlfDotChar _ c hdot =>
    obtain _ | ⟨r₁, _, _ | ⟨r₂, _, _ | ⟨r₃, _, _ | ⟨r₄, _, _ | _⟩⟩⟩⟩ := hd
    rw [readOn_of_read r₁, if_neg (by simp), if_pos rfl, afterCR_of_read r₂, if_pos rfl,
      afterCRLF_of_read r₃, if_pos rfl, afterCRLFDot_of_read r₄, if_neg hdot, decodeFrom.eq_3,
      decodeFrom_dot hdot, List.isEmpty_cons, Bool.and_false]
    refine ⟨_, _, rfl, ⟨heof, hclosed, rfl, hstaged⟩, rfl, rfl, rfl, fun s₂ h₂ => ?_⟩
    have hat : endFrom? start ['\r', '\n', '.', c] = some 2 := by
      rw [endFrom?_crlf, endFrom?_dotChar hdot]
      rfl
    refine ⟨_, stage_eq (by simp [h₂, begun]), ⟨rfl, ?_⟩, by simp [h₂, begun], rfl,
      logEnd_of_some hat s₂⟩
    simp [Reader.staged]

/-- **A call that meets the end of the source** hands out the first character of what the text so
far stands for and stages the others. -/
theorem readOne_of_short_end (hs : Open s start []) (hw : Short start w)
    (hd : Delivers s.source w t) (hend : CharacterSource.read t = .ok none t') :
    ∃ s' : Reading σ,
      readOne s = .ok ((decodeFrom s.reader.eol start w).head?.map ([·])) s' ∧
      Over s' (decodeFrom s.reader.eol start w).tail ∧ s'.reader.eol = s.reader.eol ∧
      s'.source = t' ∧ s'.log = logEnd start w s.log := by
  obtain ⟨goOn, s₁, hrun, -, -, hlog, rfl, hnone⟩ := readOne_of_short hs hw hd
  rw [hrun, bind_of_ok (ask_of_read hend), ← hlog]
  exact hnone _ rfl

/-- **A call whose source fails within a lookahead** loses what it had looked at. The reader is as
before, but that it has begun to read if it had looked at anything. -/
theorem readOne_of_short_error {e : Fault} (hs : Open s start []) (hw : Short start w)
    (hd : Delivers s.source w t) (hfail : CharacterSource.read t = .error e t') :
    ∃ s' : Reading σ, readOne s = .error e s' ∧ Open s' (start && w.isEmpty) [] ∧
      s'.reader.eol = s.reader.eol ∧ s'.log = s.log ∧ s'.source = t' := by
  obtain ⟨goOn, s₁, hrun, ⟨heof, hclosed, hstart, hstaged⟩, heol, hlog, rfl, -⟩ :=
    readOne_of_short hs hw hd
  rw [hrun, bind_of_error (ask_of_read_error hfail)]
  exact ⟨_, rfl, ⟨heof, hclosed, hstart, hstaged⟩, heol, hlog, rfl⟩

end Reading

end DotFraming
