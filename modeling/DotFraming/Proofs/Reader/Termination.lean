import DotFraming.Proofs.Reader.Cost
import DotFraming.Proofs.Reader.Operations
import DotFraming.Proofs.Source.Remains

/-!
# Loops over a reader come to an end

The loops over `readOne` count nothing: they go on as long as calls hand out pieces. A call may hand
back what it has read, and it may stage more than it has read. What makes the loops end is that a
piece which was not staged has used up something of what is left in the source, and that no more is
staged at a time than the line ending and a dot. So what is left in the source and what is staged
bound the number of calls. Of the source it is only asked that it comes to an end some time.

* `Reading.progress` : **a piece that was not staged uses up something** of what is left.
* `Reading.bound`, `Reading.spends_readOne` : how many pieces calls can hand out at most. Each piece
  lowers this bound, and nothing raises it.
* `Reading.Halts`, `Reading.LinesHalt` : a loop comes to an end after a number of pieces.
* `Reading.exists_halts`, `Reading.exists_linesHalt` : **every loop comes to an end** within the
  bound.
* `Reading.OperationsHalt` : so do the operations, which are such loops.
* `Reading.bounded_lookahead_and_termination` : all of this, with the bound on a single call.
-/

namespace DotFraming

namespace Reading

/-! ### What a call uses up -/

section Calls

variable {σ : Type} [AnySource σ] {s s₁ : Reading σ} {p : Piece}

/-- The calls of a call of `readOne` that come after its first read are none or look ahead. So the
piece that was read first is not handed back. -/
theorem calls_after_first (h : ask s = .ok (some p) s₁) :
    ∃ cs, Calls s₁.source cs (stateAfter (readOn s)).source ∧ (cs = [] ∨ Lookahead cs) := by
  let s₂ : Reading σ := { s₁ with reader := { s₁.reader with atBeginning := false } }
  rw [readOn, bind_of_ok h]
  simp only [bind_apply, leaveBeginning]
  split
  · obtain ⟨cs, hcs⟩ := looks_afterFirstDot s₂
    exact ⟨cs, hcs.calls, .inr hcs.ahead⟩
  · split
    · obtain ⟨cs, hcs⟩ := looks_afterCR (s := s₂) rfl
      exact ⟨cs, hcs.calls, .inr hcs.ahead⟩
    · exact ⟨[], .nil _, .inl rfl⟩

theorem length_staged_readOne (hstaged : s.reader.staged = []) :
    (stateAfter (readOne s)).reader.staged.length ≤
      handedOut (readOne s) * s.reader.eol.length := by
  rcases readOne_cases s with ⟨c, t, hst, -⟩ | ⟨-, -, hrun⟩ | ⟨-, -, -, cs, hlooks⟩
  · rw [hstaged] at hst
    cases hst
  · rw [hrun, stateAfter_ok, hstaged]
    exact Nat.zero_le _
  · cases hcall : readOne s with
    | error e t =>
      rw [hcall] at hlooks
      rw [stateAfter_error, (hlooks.halts e t rfl).1.staged_eq, hstaged]
      exact Nat.zero_le _
    | ok o t =>
      rw [hcall] at hlooks
      cases o with
      | none =>
        rw [stateAfter_ok, (over_of_readOne_none hcall).1]
        exact Nat.zero_le _
      | some p =>
        rw [handedOut, Nat.one_mul]
        exact hlooks.moves.length_staged hstaged

end Calls

section Wire

variable {τ : Type} [AnyStream τ] {s t : Reading (Pushback τ)} {w : List Piece} {p : Piece}

theorem remains_readOne (h : s.source.Remains w) :
    ∃ v, (stateAfter (readOne s)).source.Remains v ∧ v <:+ w := by
  rcases readOne_cases s with ⟨c, t, -, hrun⟩ | ⟨-, -, hrun⟩ | ⟨-, -, -, cs, hlooks⟩
  · rw [hrun]
    exact ⟨w, h, List.suffix_refl w⟩
  · rw [hrun]
    exact ⟨w, h, List.suffix_refl w⟩
  · exact h.lookahead hlooks.ahead hlooks.calls

/-- **A piece that was not staged uses up something** of what is left in the source, in front. -/
theorem progress (h : s.source.Remains w) (hstaged : s.reader.staged = [])
    (hcall : readOne s = .ok (some p) t) :
    ∃ front v, front ≠ [] ∧ w = front ++ v ∧ t.source.Remains v := by
  rcases readOne_cases s with ⟨c, u, hst, -⟩ | ⟨-, -, hrun⟩ | ⟨-, heof, hclosed, -⟩
  · rw [hstaged] at hst
    cases hst
  · cases hrun.symm.trans hcall
  · rw [readOne_eq_readOn hstaged heof hclosed] at hcall
    obtain ⟨o, s₁, hask, -⟩ := exists_of_bind_ok hcall
    cases o with
    | none =>
      rw [readOn, bind_of_ok hask] at hcall
      cases hcall
    | some q =>
      -- the first read takes a piece, and what comes after it gives back no more than it takes
      obtain ⟨v, rfl, hv⟩ := h.read_some (ask_leads hask).1
      obtain ⟨cs, hcalls, hahead⟩ := calls_after_first hask
      rw [hcall, stateAfter_ok] at hcalls
      rcases hahead with rfl | hahead
      · rw [← hcalls.eq_of_nil] at hv
        exact ⟨[q], v, by simp, rfl, hv⟩
      · obtain ⟨u, hu, front, rfl⟩ := hv.lookahead hahead hcalls
        exact ⟨q :: front, u, by simp, rfl, hu⟩

theorem length_remains_readOne (h : s.source.Remains w) (hstaged : s.reader.staged = []) :
    ∃ v, (stateAfter (readOne s)).source.Remains v ∧
      v.length + handedOut (readOne s) ≤ w.length := by
  obtain ⟨v, hv, hsuffix⟩ := remains_readOne h
  cases hcall : readOne s with
  | error e t => exact ⟨v, hcall ▸ hv, hsuffix.length_le⟩
  | ok o t =>
    cases o with
    | none => exact ⟨v, hcall ▸ hv, hsuffix.length_le⟩
    | some p =>
      obtain ⟨front, u, hfront, rfl, hu⟩ := progress h hstaged hcall
      have hpos := List.length_pos_iff.2 hfront
      refine ⟨u, hu, ?_⟩
      rw [handedOut, List.length_append]
      omega

end Wire

/-- How many pieces calls can hand out at most, if `left` pieces are left in the source: each of
these counts for a line ending and a dot, which is the most that is staged in one go. -/
def bound {σ : Type} (s : Reading σ) (left : Nat) : Nat :=
  left * (s.reader.eol.length + 1) + s.reader.staged.length

section Bound

variable {τ : Type} [AnyStream τ] {s : Reading (Pushback τ)} {w : List Piece}

/-- **Each piece that is handed out lowers the bound**, and no call raises it. -/
theorem spends_readOne (h : s.source.Remains w) :
    ∃ v, (stateAfter (readOne s)).source.Remains v ∧
      (stateAfter (readOne s)).bound v.length + handedOut (readOne s) ≤ s.bound w.length := by
  cases hst : s.reader.staged with
  | cons c u =>
    have hrun : readOne s =
        .ok (some [c]) { s with reader := { s.reader with cursor := s.reader.cursor + 1 } } := by
      simp [readOne, hst]
    rw [hrun]
    refine ⟨w, h, ?_⟩
    simp only [bound, stateAfter_ok, handedOut, Reader.staged_advance hst, hst, List.length_cons]
    omega
  | nil =>
    have hlength := length_staged_readOne hst
    obtain ⟨v, hv, hless⟩ := length_remains_readOne h hst
    have hbound := Nat.mul_le_mul_right (s.reader.eol.length + 1) hless
    rw [Nat.add_mul, Nat.mul_add_one (handedOut _)] at hbound
    refine ⟨v, hv, ?_⟩
    rw [bound, bound, eol_readOne, hst, List.length_nil]
    omega

end Bound

/-! ### Loops that come to an end -/

section Loops

variable {σ β : Type} [AnySource σ]

/-- The loop over calls from `s`, with `b` made of the pieces before, comes to an end: `n` more
pieces are handed out, and `out` is what it leaves. It stops when no more is wanted, at the end of
the message, and at the first failure. -/
inductive Halts (wanted : β → Bool) (step : β → Piece → β) :
    β → Reading σ → Nat → β × EStateM.Result Fault (Reading σ) Unit → Prop where
  /-- No more is wanted. -/
  | enough {b : β} {s : Reading σ} (done : wanted b = false) :
      Halts wanted step b s 0 (b, .ok () s)
  /-- The message is over. -/
  | ended {b : β} {s t : Reading σ} (more : wanted b = true) (call : readOne s = .ok none t) :
      Halts wanted step b s 0 (b, .ok () t)
  /-- A call fails. -/
  | failed {b : β} {s t : Reading σ} {e : Fault} (more : wanted b = true)
      (call : readOne s = .error e t) : Halts wanted step b s 0 (b, .error e t)
  /-- A call hands out a piece, and the loop goes on. -/
  | piece {b : β} {s t : Reading σ} {p : Piece} {n : Nat}
      {out : β × EStateM.Result Fault (Reading σ) Unit} (more : wanted b = true)
      (call : readOne s = .ok (some p) t) (rest : Halts wanted step (step b p) t n out) :
      Halts wanted step b s (n + 1) out

/-- The loop that reads a line comes to an end. -/
def LineHalts (s : Reading σ) (n : Nat)
    (out : Collected × EStateM.Result Fault (Reading σ) Unit) : Prop :=
  Halts (fun got => !got.endsLine s.reader.eol) Collected.push {} s n out

/-- The loop over lines from `s`, with the lines `got` before, the latest first, comes to an end:
`n` more pieces are handed out, and `out` is what it leaves. It stops at a line that is empty, and
at the first failure. -/
inductive LinesHalt : List Text → Reading σ → Nat →
    List Text × EStateM.Result Fault (Reading σ) Unit → Prop where
  /-- There is no further line. -/
  | ended {got : List Text} {s t : Reading σ} {n : Nat} {c : Collected}
      (line : LineHalts s n (c, .ok () t)) (empty : c.text = []) :
      LinesHalt got s n (got, .ok () t)
  /-- A line fails. -/
  | failed {got : List Text} {s t : Reading σ} {n : Nat} {c : Collected} {e : Fault}
      (line : LineHalts s n (c, .error e t)) : LinesHalt got s n (got, .error e t)
  /-- A line, and others after it. -/
  | line {got : List Text} {s t : Reading σ} {n k : Nat} {c : Collected}
      {out : List Text × EStateM.Result Fault (Reading σ) Unit}
      (line : LineHalts s n (c, .ok () t)) (nonempty : c.text ≠ [])
      (rest : LinesHalt (c.text :: got) t k out) : LinesHalt got s (n + k) out

theorem Halts.fst_eq {wanted : β → Bool} {step : β → Piece → β} {b : β} {s : Reading σ}
    {out : β × EStateM.Result Fault (Reading σ) Unit} (h : Halts wanted step b s 0 out) :
    out.1 = b := by
  cases h with
  | enough => rfl
  | ended => rfl
  | failed => rfl

end Loops

section Wire

variable {τ β : Type} [AnyStream τ] {s : Reading (Pushback τ)} {w : List Piece}
  {wanted : β → Bool} {step : β → Piece → β} {b : β} {n : Nat}

theorem Halts.spends {out : β × EStateM.Result Fault (Reading (Pushback τ)) Unit}
    (h : Halts wanted step b s n out) (hs : s.source.Remains w) :
    ∃ v, (stateAfter out.2).source.Remains v ∧
      (stateAfter out.2).bound v.length + n ≤ s.bound w.length := by
  induction h generalizing w with
  | enough => exact ⟨w, hs, Nat.le_refl _⟩
  | ended _ call =>
    obtain ⟨v, hv, hbound⟩ := spends_readOne hs
    rw [call] at hv hbound
    exact ⟨v, hv, hbound⟩
  | failed _ call =>
    obtain ⟨v, hv, hbound⟩ := spends_readOne hs
    rw [call] at hv hbound
    exact ⟨v, hv, hbound⟩
  | piece _ call _ ih =>
    obtain ⟨v, hv, hbound⟩ := spends_readOne hs
    rw [call, stateAfter_ok, handedOut] at hbound
    rw [call, stateAfter_ok] at hv
    obtain ⟨u, hu, hrest⟩ := ih hv
    exact ⟨u, hu, by omega⟩

/-- **Every loop over calls comes to an end.** -/
theorem exists_halts (wanted : β → Bool) (step : β → Piece → β) (b : β) (h : s.source.Remains w) :
    ∃ n out, n ≤ s.bound w.length ∧ Halts wanted step b s n out := by
  -- a piece that is handed out lowers the bound
  suffices hhalts : ∃ n out, Halts wanted step b s n out by
    obtain ⟨n, out, hn⟩ := hhalts
    obtain ⟨v, -, hbound⟩ := hn.spends h
    exact ⟨n, out, by omega, hn⟩
  induction hk : s.bound w.length using Nat.strongRecOn generalizing s w b with
  | _ k ih =>
    cases hw : wanted b with
    | false => exact ⟨0, _, .enough hw⟩
    | true =>
      obtain ⟨v, hv, hbound⟩ := spends_readOne h
      cases hcall : readOne s with
      | error e t => exact ⟨0, _, .failed hw hcall⟩
      | ok o t =>
        cases o with
        | none => exact ⟨0, _, .ended hw hcall⟩
        | some p =>
          rw [hcall, stateAfter_ok, handedOut] at hbound
          rw [hcall, stateAfter_ok] at hv
          obtain ⟨n, out, hn⟩ := ih (t.bound v.length) (by omega) (step b p) hv rfl
          exact ⟨n + 1, out, .piece hw hcall hn⟩

theorem exists_lineHalts (h : s.source.Remains w) :
    ∃ n out, n ≤ s.bound w.length ∧ LineHalts s n out :=
  exists_halts _ _ _ h

theorem LinesHalt.spends {got : List Text}
    {out : List Text × EStateM.Result Fault (Reading (Pushback τ)) Unit}
    (h : LinesHalt got s n out) (hs : s.source.Remains w) :
    ∃ v, (stateAfter out.2).source.Remains v ∧
      (stateAfter out.2).bound v.length + n ≤ s.bound w.length := by
  induction h generalizing w with
  | ended line => exact line.spends hs
  | failed line => exact line.spends hs
  | line line _ _ ih =>
    obtain ⟨v, hv, hbound⟩ := line.spends hs
    obtain ⟨u, hu, hrest⟩ := ih hv
    simp only [stateAfter_ok] at hbound
    exact ⟨u, hu, by omega⟩

/-- **The loop over lines comes to an end.** -/
theorem exists_linesHalt (got : List Text) (h : s.source.Remains w) :
    ∃ n out, n ≤ s.bound w.length ∧ LinesHalt got s n out := by
  -- a line that is not empty has at least one piece
  suffices hhalts : ∃ n out, LinesHalt got s n out by
    obtain ⟨n, out, hn⟩ := hhalts
    obtain ⟨v, -, hbound⟩ := hn.spends h
    exact ⟨n, out, by omega, hn⟩
  induction hk : s.bound w.length using Nat.strongRecOn generalizing s w got with
  | _ k ih =>
    obtain ⟨n, ⟨c, r⟩, -, hline⟩ := exists_lineHalts h
    obtain ⟨v, hv, hbound⟩ := hline.spends h
    cases r with
    | error e t => exact ⟨n, _, .failed hline⟩
    | ok u t =>
      by_cases hempty : c.text = []
      · exact ⟨n, _, .ended hline hempty⟩
      · have hpos : n ≠ 0 := by
          rintro rfl
          have hnothing : c = {} := hline.fst_eq
          exact hempty (hnothing ▸ rfl)
        simp only [stateAfter_ok] at hv hbound
        obtain ⟨m, out, hm⟩ := ih (t.bound v.length) (by omega) (c.text :: got) hv rfl
        exact ⟨n + m, out, .line hline hempty hm⟩

end Wire

/-! ### The operations are such loops -/

section Operations

variable {σ α β : Type} [CharacterSource σ] {s : Reading σ} {n : Nat}

theorem Halts.collect_eq {wanted : β → Bool} {step : β → Piece → β} {b : β}
    {out : β × EStateM.Result Fault (Reading σ) Unit} (h : Halts wanted step b s n out) :
    collect wanted step b s = out := by
  induction h with
  | enough done => exact collect_of_enough done
  | ended more call => exact collect_of_none more call
  | failed more call => exact collect_of_error more call
  | piece more call _ ih => rw [collect_of_some more call, ih]

/-- What an operation gives that makes `f` of what a loop leaves. -/
def concluded (f : β → α) :
    β × EStateM.Result Fault (Reading σ) Unit → EStateM.Result Fault (Reading σ) α
  | (b, .ok () t) => .ok (f b) t
  | (_, .error e t) => .error e t

theorem Halts.read_eq {out : Collected × EStateM.Result Fault (Reading σ) Unit}
    (h : Halts (fun _ => true) Collected.push {} s n out) :
    read (-1) s = concluded Collected.text out := by
  have hall : (fun got : Collected => decide ((-1 : Int) < 0) || decide ((got.count : Int) < -1)) =
      fun _ => true := by
    funext got
    rfl
  rw [read, take, hall, h.collect_eq]
  rcases out with ⟨_, ⟨_, _⟩ | ⟨_, _⟩⟩
  · rfl
  · rfl

theorem LineHalts.readLine_eq {out : Collected × EStateM.Result Fault (Reading σ) Unit}
    (h : LineHalts s n out) : readLine s = concluded Collected.text out := by
  rw [readLine, take, Halts.collect_eq h]
  rcases out with ⟨_, ⟨_, _⟩ | ⟨_, _⟩⟩
  · rfl
  · rfl

theorem LinesHalt.linesFrom_eq {got : List Text}
    {out : List Text × EStateM.Result Fault (Reading σ) Unit} (h : LinesHalt got s n out) :
    linesFrom got s = out := by
  induction h with
  | ended line hempty =>
    refine linesFrom_of_end ?_
    rw [line.readLine_eq, concluded, hempty]
  | failed line => exact linesFrom_of_error line.readLine_eq
  | line line hsome _ ih => rw [linesFrom_of_line line.readLine_eq hsome, ih]

theorem LinesHalt.lines_eq {out : List Text × EStateM.Result Fault (Reading σ) Unit}
    (h : LinesHalt [] s n out) : lines s = concluded List.reverse out := by
  rw [lines, h.linesFrom_eq]
  rcases out with ⟨_, ⟨_, _⟩ | ⟨_, _⟩⟩
  · rfl
  · rfl

/-- What closing a reader gives after the loop over the rest of the message. -/
def drained : Nat × EStateM.Result Fault (Reading σ) Unit → EStateM.Result Fault (Reading σ) Unit
  | (count, .ok () t) => .ok () (noteDiscarded count t).shut
  | (_, .error e t) => .error e t

theorem Halts.close_eq {out : Nat × EStateM.Result Fault (Reading σ) Unit}
    (h : Halts (fun _ => true) (fun n _ => n + 1) 0 s n out) (hclosed : s.reader.closed = false)
    (heof : s.reader.eof = false) : close s = drained out := by
  rw [close, if_neg (by simp [hclosed]), if_neg (by simp [heof]), h.collect_eq]
  rcases out with ⟨_, ⟨_, _⟩ | ⟨_, _⟩⟩
  · rfl
  · rfl

/-- The operations that read as much as there is come to an end: each gives what its loop leaves,
and the loop gets no more than `k` pieces. -/
structure OperationsHalt (s : Reading σ) (k : Nat) : Prop where
  /-- Reading all that is left. -/
  read : ∃ n out, n ≤ k ∧ Halts (fun _ => true) Collected.push {} s n out ∧
    Reading.read (-1) s = concluded Collected.text out
  /-- Reading a line. -/
  readLine : ∃ n out, n ≤ k ∧ LineHalts s n out ∧
    Reading.readLine s = concluded Collected.text out
  /-- Reading all lines. -/
  lines : ∃ n out, n ≤ k ∧ LinesHalt [] s n out ∧ Reading.lines s = concluded List.reverse out
  /-- Closing a reader, which has to read the rest unless it is over. -/
  close : ∃ n out, n ≤ k ∧ Halts (fun _ => true) (fun count _ => count + 1) 0 s n out ∧
    (s.reader.closed = false → s.reader.eof = false → Reading.close s = drained out)

end Operations

theorem operationsHalt {υ : Type} [TextStream υ] {s : Reading (Pushback υ)} {w : List Piece}
    (h : s.source.Remains w) : OperationsHalt s (s.bound w.length) where
  read :=
    have ⟨n, out, hn, hall⟩ := exists_halts _ _ _ h
    ⟨n, out, hn, hall, hall.read_eq⟩
  readLine :=
    have ⟨n, out, hn, hline⟩ := exists_lineHalts h
    ⟨n, out, hn, hline, hline.readLine_eq⟩
  lines :=
    have ⟨n, out, hn, hlines⟩ := exists_linesHalt [] h
    ⟨n, out, hn, hlines, hlines.lines_eq⟩
  close :=
    have ⟨n, out, hn, hall⟩ := exists_halts _ _ _ h
    ⟨n, out, hn, hall, hall.close_eq⟩

/-- **Bounded look ahead and termination.** Whatever the source does, and whatever state the reader
is in, a call makes no more than five reads and hands back no more than one piece, and it leaves the
source alone if something is staged; it hands out nothing only if the message is over or the reader
is closed. Over a stream of which finitely much is left, a call that hands out a piece which was not
staged has used up some of it, and every loop over calls comes to an end, as does the loop over
lines. So do the operations, which are such loops: what is left in the source and what is staged
bound the number of pieces they get. -/
theorem bounded_lookahead_and_termination {σ τ υ : Type} [AnySource σ] [AnyStream τ]
    [TextStream υ] :
    (∀ s : Reading (Traced σ), ∃ cs,
        (stateAfter (readOne s)).source.calls = cs ++ s.source.calls ∧
          Call.reads cs ≤ 5 ∧ Call.unreads cs ≤ 1 ∧ (s.reader.staged ≠ [] → cs = [])) ∧
      (∀ s t : Reading σ, readOne s = .ok none t →
        t.reader.eof = true ∨ t.reader.closed = true) ∧
      (∀ (s : Reading (Pushback τ)) (w : List Piece), s.source.Remains w →
        (∀ p t, s.reader.staged = [] → readOne s = .ok (some p) t →
            ∃ front v, front ≠ [] ∧ w = front ++ v ∧ t.source.Remains v) ∧
          (∀ {β : Type} (wanted : β → Bool) (step : β → Piece → β) (b : β),
            ∃ n out, n ≤ s.bound w.length ∧ Halts wanted step b s n out) ∧
          ∀ got, ∃ n out, n ≤ s.bound w.length ∧ LinesHalt got s n out) ∧
      ∀ s : Reading (Pushback υ), ∃ w, s.source.Remains w ∧
        OperationsHalt s (s.bound w.length) := by
  refine ⟨calls_readOne, fun s t hcall => (over_of_readOne_none hcall).2, fun s w h => ?_,
    fun s => ?_⟩
  · exact ⟨fun p t hstaged hcall => progress h hstaged hcall,
      fun wanted step b => exists_halts wanted step b h, fun got => exists_linesHalt got h⟩
  · obtain ⟨w, hw⟩ := s.source.exists_remains
    exact ⟨w, hw, operationsHalt hw⟩

/-- A carriage return before a line ending: the second one is read, handed back and read again. -/
theorem bounded_lookahead_and_termination_lone_cr :
    let wire : Text := "\r\r\n.\r\nx".toList
    ∃ r, Reader.new? ['\n', '|'] = .ok r ∧
      let s : Reading (Pushback InMemory) := ⟨r, .ofText wire, {}⟩
      let ending : Reading (Pushback InMemory) := ⟨r, .ofText ".\r\n".toList, {}⟩
      let staging : Reading (Traced (Pushback InMemory)) :=
        ⟨{ r with pending := ['\n', '|'], cursor := 1 }, { source := .ofText wire }, {}⟩
      (staging.reader.staged ≠ [] ∧ (stateAfter (readOne staging)).source.calls = []) ∧
        (∃ t, readOne ending = .ok none t ∧ (t.reader.eof = true ∨ t.reader.closed = true)) ∧
        (∃ t front v, readOne s = .ok (some cr) t ∧ front ≠ [] ∧ wire.map ([·]) = front ++ v ∧
          t.source.Remains v) ∧
        (∃ n out, n ≤ 21 ∧ LinesHalt [] s n out) ∧
        ∃ n out, n ≤ 21 ∧ Halts (fun _ => true) (fun count _ => count + 1) 0 s n out ∧
          close s = drained out := by
  intro wire
  have hwire : (Pushback.ofText wire).Remains (wire.map ([·])) := Pushback.remains_ofText wire
  obtain ⟨hcalls, hover, hloops, hoperations⟩ :=
    @bounded_lookahead_and_termination (Pushback InMemory) InMemory InMemory _ _ _
  refine ⟨_, rfl, ?_⟩
  intro s ending staging
  obtain ⟨cs, hcs, -, -, hnone⟩ := hcalls staging
  rw [hnone (by decide)] at hcs
  obtain ⟨hprogress, -, hlines⟩ := hloops s _ hwire
  obtain ⟨front, v, hfront, hsplit, hv⟩ := hprogress cr _ rfl rfl
  obtain ⟨w, hw, hhalts⟩ := hoperations s
  rw [hw.unique hwire] at hhalts
  obtain ⟨n, out, hn, hdrain, hclose⟩ := hhalts.close
  exact ⟨⟨by decide, hcs⟩, ⟨_, rfl, hover ending _ rfl⟩, ⟨_, front, v, rfl, hfront, hsplit, hv⟩,
    hlines [], n, out, hn, hdrain, hclose rfl rfl⟩

end Reading

end DotFraming
