import DotFraming.Proofs.Reader.Call

/-!
# Calls one after another

The lemmas about one call are put together here. A reader over a source that delivers a text hands
out what the text stands for, character by character (`Reading.HandsOut`), to the end of the message
or to a point where the text is too short to go on.

* `Reading.handsOut_of_runs` : calls in the middle of the message, as many as the text is enough
  for.
* `Reading.finishes_of_ends` : **a terminator ends the message**: the reader hands out the text of
  the message, then reports its end, and the source is left right behind the terminator whatever it
  would do next.
* `Reading.finishes_of_exhausts` : **over a source that ends the reader hands out the text of the
  first message** and then reports its end.
-/

namespace DotFraming

namespace Reading

open Wire

variable {σ : Type} [CharacterSource σ]

/-- Calls hand out the characters of a text one by one. -/
inductive HandsOut : Reading σ → Text → Reading σ → Prop where
  /-- No call. -/
  | nil (s : Reading σ) : HandsOut s [] s
  /-- A call that hands out the first character, and calls for the others. -/
  | cons {s s' z : Reading σ} {c : Char} {u : Text} (call : readOne s = .ok (some [c]) s')
      (tail : HandsOut s' u z) : HandsOut s (c :: u) z

/-- Calls hand out the characters of a text one by one, and then report the end of the message over
and over. -/
def Finishes (s : Reading σ) (u : Text) (z : Reading σ) : Prop :=
  ∃ m, HandsOut s u m ∧ readOne m = .ok none z ∧ readOne z = .ok none z

namespace HandsOut

theorem append {s m z : Reading σ} {u v : Text} (h : HandsOut s u m) (h' : HandsOut m v z) :
    HandsOut s (u ++ v) z := by
  induction h with
  | nil => exact h'
  | cons call _ ih => exact .cons call (ih h')

theorem split {s z : Reading σ} {u v : Text} (h : HandsOut s (u ++ v) z) :
    ∃ m, HandsOut s u m ∧ HandsOut m v z := by
  induction u generalizing s with
  | nil => exact ⟨s, .nil s, h⟩
  | cons c u ih =>
    cases h with
    | cons call tail =>
      obtain ⟨m, hu, hv⟩ := ih tail
      exact ⟨m, .cons call hu, hv⟩

theorem unique {s z z' : Reading σ} {u : Text} (h : HandsOut s u z) (h' : HandsOut s u z') :
    z = z' := by
  induction h with
  | nil => cases h'; rfl
  | cons call _ ih =>
    cases h' with
    | cons call' tail' =>
      rw [call] at call'
      cases call'
      exact ih tail'

theorem finishes {s m z : Reading σ} {u v : Text} (h : HandsOut s u m) (h' : Finishes m v z) :
    Finishes s (u ++ v) z := by
  obtain ⟨m', hv, hend⟩ := h'
  exact ⟨m', h.append hv, hend⟩

end HandsOut

/-! ### What is staged -/

/-- The reading after all that is staged has been handed out. -/
def flushed (s : Reading σ) : Reading σ :=
  { s with reader := { s.reader with cursor := s.reader.cursor + s.reader.staged.length } }

theorem handsOut_flushed (s : Reading σ) : HandsOut s s.reader.staged s.flushed := by
  induction h : s.reader.staged generalizing s with
  | nil =>
    have hs : s.flushed = s := by simp [flushed, h]
    rw [hs]
    exact .nil s
  | cons c u ih =>
    let s' : Reading σ := { s with reader := { s.reader with cursor := s.reader.cursor + 1 } }
    have hst : s'.reader.staged = u := Reader.staged_advance h
    have hs : s.flushed = s'.flushed := by
      simp only [flushed, h, hst, s', List.length_cons]
      congr 2
      omega
    rw [hs]
    exact .cons (by simp [readOne, h, s']) (ih s' hst)

omit [CharacterSource σ] in
theorem staged_flushed (s : Reading σ) : s.flushed.reader.staged = [] := by
  simp only [flushed, Reader.staged, List.drop_eq_nil_iff, List.length_drop]
  omega

omit [CharacterSource σ] in
theorem Open.flushed {s : Reading σ} {start : Bool} {p : Text} (h : Open s start p) :
    Open s.flushed start [] :=
  ⟨h.eof, h.closed, h.start, staged_flushed s⟩

omit [CharacterSource σ] in
theorem Over.flushed {s : Reading σ} {p : Text} (h : Over s p) : Over s.flushed [] :=
  ⟨h.eof, staged_flushed s⟩

theorem finishes_of_over {s : Reading σ} {p : Text} (h : Over s p) : Finishes s p s.flushed :=
  ⟨s.flushed, h.staged ▸ handsOut_flushed s, readOne_of_over h.flushed,
    readOne_of_over h.flushed⟩

/-- A call hands out the first character of a text and stages the others; further calls hand out
those. -/
theorem handsOut_of_call {s s' : Reading σ} {u : Text} (hne : u ≠ [])
    (call : readOne s = .ok (u.head?.map ([·])) s') (hst : s'.reader.staged = u.tail) :
    HandsOut s u s'.flushed := by
  obtain ⟨c, v, rfl⟩ := List.exists_cons_of_ne_nil hne
  have htail := handsOut_flushed s'
  rw [hst] at htail
  exact .cons call htail

theorem finishes_of_call {s s' : Reading σ} {u : Text}
    (call : readOne s = .ok (u.head?.map ([·])) s') (h : Over s' u.tail) :
    Finishes s u s'.flushed := by
  cases u with
  | nil =>
    have hs : s'.flushed = s' := by simp [flushed, h.staged]
    rw [hs]
    exact ⟨s, .nil s, call, readOne_of_over h⟩
  | cons c u => exact (HandsOut.cons call (.nil s')).finishes (finishes_of_over h)

/-! ### From the text to the calls -/

variable {s : Reading σ} {t t' : σ} {start start' : Bool} {p w out left out' rest : Text}

/-- Calls in the middle of the message when nothing is staged. What is staged by one of them is
handed out before the next looks at the text again. -/
theorem handsOut_of_runs_unstaged {eol : Text} (hw : Runs eol start w out start' left)
    (heol : s.reader.eol = eol) (hs : Open s start []) (hd : Delivers s.source w t) :
    ∃ z : Reading σ, HandsOut s out z ∧ Open z start' [] ∧ z.reader.eol = eol ∧ z.log = s.log ∧
      Delivers z.source left t ∧ ∃ m, w = m ++ left ∧ LeadsTo s.source m z.source := by
  induction hw generalizing s with
  | refl => exact ⟨s, .nil s, hs, heol, rfl, hd, [], rfl, (Delivers.nil _).leadsTo⟩
  | step head _ ih =>
    subst heol
    obtain ⟨s', call, hopen, heol, hlog, hd', m, rfl, hm⟩ := readOne_of_takes hs head hd
    -- what the call staged is handed out without the source: the next call to look at the text
    -- starts from the flushed reader
    obtain ⟨z, hz, hopen', heol', hlog', hd'', m', rfl, hm'⟩ :=
      ih (s := s'.flushed) heol hopen.flushed hd'
    have hout := handsOut_of_call (head.out_ne_nil s.reader.eol_ne_nil) call hopen.staged
    exact ⟨z, hout.append hz, hopen', heol', hlog'.trans hlog, hd'', m ++ m',
      (List.append_assoc ..).symm, hm.trans hm'⟩

/-- **Calls in the middle of the message** hand out what is staged and what the text stands for. -/
theorem handsOut_of_runs (hs : Open s start p) (hw : Runs s.reader.eol start w out start' left)
    (hd : Delivers s.source w t) :
    ∃ z : Reading σ, HandsOut s (p ++ out) z ∧ Open z start' [] ∧ z.reader.eol = s.reader.eol ∧
      z.log = s.log ∧ Delivers z.source left t ∧
      ∃ m, w = m ++ left ∧ LeadsTo s.source m z.source := by
  obtain ⟨z, hz, h⟩ := handsOut_of_runs_unstaged (s := s.flushed) hw rfl hs.flushed hd
  exact ⟨z, (hs.staged ▸ handsOut_flushed s).append hz, h⟩

/-- **A terminator ends the message.** What is staged and what the text before the terminator stands
for is handed out, nothing is logged, and the source is left right behind the terminator. -/
theorem finishes_of_ends (hs : Open s start p) (hw : Runs s.reader.eol start w out start' left)
    (hends : Ends s.reader.eol start' left out' rest) (hd : Delivers s.source w t) :
    ∃ z : Reading σ, Finishes s (p ++ (out ++ out')) z ∧ Over z [] ∧ z.log = s.log ∧
      Delivers z.source rest t ∧ ∃ m, m ≠ [] ∧ w = m ++ rest ∧ Delivers s.source m z.source := by
  obtain ⟨y, hy, hopen, heol, hlog, hd', m, rfl, hm⟩ := handsOut_of_runs hs hw hd
  obtain ⟨s', call, hover, -, hlog', hd'', m', hne, rfl, hm'⟩ :=
    readOne_of_ends hopen (heol ▸ hends) hd'
  refine ⟨s'.flushed, ?_, hover.flushed, hlog'.trans hlog, hd'', m ++ m', by simp [hne],
    (List.append_assoc ..).symm, hm m' _ hne hm'⟩
  rw [← List.append_assoc]
  exact hy.finishes (finishes_of_call call hover)

/-- **The end of the stream ends the message** if there is no terminator. What is staged and what
the text stands for is handed out, and the source is left right behind the end of the stream. -/
theorem finishes_of_short (hs : Open s start p) (hw : Runs s.reader.eol start w out start' left)
    (hshort : Short start' left) (hd : Delivers s.source w t)
    (hend : CharacterSource.read t = .ok none t') :
    ∃ z : Reading σ, Finishes s (p ++ decodeFrom s.reader.eol start w) z ∧ Over z [] ∧
      z.source = t' := by
  obtain ⟨y, hy, hopen, heol, -, hd', -⟩ := handsOut_of_runs hs hw hd
  obtain ⟨s', call, hover, -, hsource, -⟩ := readOne_of_short_end hopen hshort hd' hend
  rw [hw.decodeFrom_eq, ← List.append_assoc]
  rw [heol] at call hover
  exact ⟨s'.flushed, hy.finishes (finishes_of_call call hover), hover.flushed, hsource⟩

/-- **Over a source that ends, the reader hands out the text of the first message** and then reports
its end. The source is left right behind the terminator, or at its end if there is none. -/
theorem finishes_of_exhausts (hs : Open s start p) (hd : Delivers s.source w t)
    (hend : CharacterSource.read t = .ok none t') :
    ∃ z : Reading σ, Finishes s (p ++ decodeFrom s.reader.eol start w) z ∧ Over z [] ∧
      ((∃ m, m ≠ [] ∧ w = m ++ restFrom start w ∧ Delivers s.source m z.source) ∨
        restFrom start w = [] ∧ z.source = t') := by
  obtain ⟨out, start', left, hruns, ⟨out', rest, hends⟩ | hshort⟩ :=
    exists_runs s.reader.eol start w
  -- the terminator is there, or the last call meets the end of the stream
  · obtain ⟨z, hz, hover, -, -, hm⟩ := finishes_of_ends hs hruns hends hd
    rw [hruns.decodeFrom_eq, hends.decodeFrom_eq, hruns.restFrom_eq, hends.restFrom_eq]
    exact ⟨z, hz, hover, .inl hm⟩
  · obtain ⟨z, hz, hover, hsource⟩ := finishes_of_short hs hruns hshort hd hend
    exact ⟨z, hz, hover, .inr ⟨by rw [hruns.restFrom_eq, hshort.restFrom_eq], hsource⟩⟩

/-! ### New readers -/

omit [CharacterSource σ] in
theorem open_of_new {eol : Text} {r : Reader} (hr : Reader.new? eol = .ok r) (source : σ)
    (log : Log) : r.eol = eol ∧ Open (⟨r, source, log⟩ : Reading σ) true [] := by
  unfold Reader.new? at hr
  split at hr
  · cases hr
  · cases hr
    exact ⟨rfl, rfl, rfl, rfl, rfl⟩

/-- **A new reader hands out the text of the first message.** -/
theorem finishes_of_new {eol : Text} {r : Reader} {source : σ} (log : Log)
    (hr : Reader.new? eol = .ok r) (hsource : Exhausts source w) :
    ∃ z, Finishes (⟨r, source, log⟩ : Reading σ) (decode eol w) z := by
  obtain ⟨t, t', hd, hend⟩ := hsource
  obtain ⟨rfl, hs⟩ := open_of_new hr source log
  obtain ⟨z, hz, -⟩ := finishes_of_exhausts hs hd hend
  rw [← decodeFrom_true]
  exact ⟨z, hz⟩

end Reading

end DotFraming
