import DotFraming.Proofs.Reader.Consumption
import DotFraming.Proofs.Reader.Steps
import DotFraming.Source.Script

/-!
# What holds of a reader in every state

A reader may be asked for anything, in any order, over a source that fails, ends and goes on as it
likes, as long as it holds finitely much and hands out next what it took back. This file says what
nevertheless holds in all the states that the reader comes to.

* `Reader.WellFormed` : how the fields of a reader hang together.
* `Reader.Ages` : what never goes back.
* `Reading.Evolves.source_eq` : **after the end of the message the source is left alone.**
* `Reading.EndIsLast` : a read that meets the end of the stream is the last one.
* `Operation.Drains`, `Operation.perform_of_eof` : what operations do after the end of the message.
* `Operation.reader_invariant` : all of this, for any requests to a new reader.
-/

namespace DotFraming

/-! ### The fields of a reader -/

namespace Reader

/-- How the fields of a reader hang together. -/
structure WellFormed (r : Reader) : Prop where
  /-- No more than what was staged has been handed out. -/
  cursor_le : r.cursor ≤ r.pending.length
  /-- What is staged is a line ending, perhaps with a dot behind. -/
  pending : r.pending = [] ∨ r.pending = r.eol ∨ r.pending = r.eol ++ dot
  /-- The first character of it has been handed out, and the message has begun. -/
  begun : r.pending ≠ [] → 1 ≤ r.cursor ∧ r.atBeginning = false
  /-- A closed reader has seen the end and has nothing to hand out. -/
  closed : r.closed = true → r.eof = true ∧ r.atBeginning = false ∧ r.pending = []

/-- What never goes back in the life of a reader. -/
structure Ages (r r' : Reader) : Prop where
  /-- The line ending stays. -/
  eol : r'.eol = r.eol
  /-- The end, once seen, stays seen. -/
  eof : r.eof = true → r'.eof = true
  /-- A closed reader stays closed. -/
  closed : r.closed = true → r'.closed = true
  /-- What has begun stays so. -/
  begun : r.atBeginning = false → r'.atBeginning = false

variable {r r' r'' : Reader}

theorem wellFormed_of_new {eol : Text} (h : new? eol = .ok r) : r.WellFormed := by
  unfold new? at h
  split at h <;> cases h
  exact ⟨Nat.le_refl _, .inl rfl, fun hne => absurd rfl hne, fun hc => by cases hc⟩

theorem WellFormed.moves (h : r.WellFormed) (hm : r.Moves r') (hopen : r.closed = false) :
    r'.WellFormed := by
  have hclosed : ¬r'.closed = true := by simp [hm.closed, hopen]
  rcases hm.pending with ⟨hp, hc⟩ | ⟨hp, hc, hb⟩
  · refine ⟨?_, ?_, fun hne => ?_, fun hcl => absurd hcl hclosed⟩
    · rw [hp, hc]
      exact h.cursor_le
    · rw [hp, hm.eol]
      exact h.pending
    · rw [hp] at hne
      exact ⟨hc ▸ (h.begun hne).1, hm.begun (h.begun hne).2⟩
  -- a line ending was staged: it is not empty
  · have hlen : 1 ≤ r.eol.length := List.length_pos_iff.2 r.eol_ne_nil
    refine ⟨?_, ?_, fun _ => ⟨Nat.le_of_eq hc.symm, hb⟩, fun hcl => absurd hcl hclosed⟩
    · rw [hc]
      rcases hp with hp | hp <;> rw [hp]
      · exact hlen
      · exact Nat.le_trans hlen (by simp)
    · rw [hm.eol]
      exact .inr hp

theorem WellFormed.advance (h : r.WellFormed) (hst : r.staged ≠ []) :
    WellFormed { r with cursor := r.cursor + 1 } := by
  have hlt : r.cursor < r.pending.length := Nat.lt_of_not_le fun hle =>
    hst (List.drop_eq_nil_iff.2 hle)
  exact ⟨hlt, h.pending, fun hne => ⟨Nat.le_add_left 1 _, (h.begun hne).2⟩, h.closed⟩

theorem Ages.refl (r : Reader) : r.Ages r := ⟨rfl, id, id, id⟩

theorem Ages.trans (h : r.Ages r') (h' : r'.Ages r'') : r.Ages r'' :=
  ⟨h'.eol.trans h.eol, h'.eof ∘ h.eof, h'.closed ∘ h.closed, h'.begun ∘ h.begun⟩

theorem Moves.ages (h : r.Moves r') : r.Ages r' :=
  ⟨h.eol, h.eof, fun hc => h.closed.trans hc, h.begun⟩

end Reader

namespace Reading

variable {σ : Type} [CharacterSource σ]

/-! ### One call -/

theorem wellFormed_readOne {s : Reading σ} (h : s.reader.WellFormed) :
    (stateAfter (readOne s)).reader.WellFormed := by
  rcases readOne_cases s with ⟨c, t, hst, hrun⟩ | ⟨-, -, hrun⟩ | ⟨-, -, hopen, cs, hlooks⟩
  · rw [hrun]
    exact h.advance (by simp [hst])
  · rw [hrun]
    exact h
  · exact h.moves hlooks.moves hopen

theorem ages_readOne (s : Reading σ) : s.reader.Ages (stateAfter (readOne s)).reader := by
  rcases readOne_cases s with ⟨c, t, -, hrun⟩ | ⟨-, -, hrun⟩ | ⟨-, -, -, cs, hlooks⟩
  · rw [hrun]
    exact ⟨rfl, id, id, id⟩
  · rw [hrun]
    exact .refl _
  · exact hlooks.moves.ages

theorem source_readOne_of_eof {s : Reading σ} (h : s.reader.eof = true) :
    (stateAfter (readOne s)).source = s.source := by
  rcases readOne_cases s with ⟨c, t, -, hrun⟩ | ⟨-, -, hrun⟩ | ⟨-, heof, -⟩
  · rw [hrun]
    rfl
  · rw [hrun]
    rfl
  · rw [h] at heof
    cases heof

theorem HandsOut.staged_of_eof {s m : Reading σ} {u : Text} (h : HandsOut s u m)
    (heof : s.reader.eof = true) : s.reader.staged = u ++ m.reader.staged := by
  induction h with
  | nil => rfl
  | @cons s s' m c u call _ ih =>
    rcases readOne_cases s with ⟨d, t, hst, hrun⟩ | ⟨-, -, hrun⟩ | ⟨-, hopen, -⟩
    · obtain ⟨hc, rfl⟩ := EStateM.Result.ok.inj (call.symm.trans hrun)
      cases hc
      rw [hst, List.cons_append, ← ih heof, Reader.staged_advance hst]
    · cases call.symm.trans hrun
    · rw [heof] at hopen
      cases hopen

/-! ### Any number of steps -/

namespace Evolves

variable {s t : Reading σ}

theorem wellFormed (h : Evolves s t) (hs : s.reader.WellFormed) : t.reader.WellFormed :=
  h.invariant (P := fun m => m.reader.WellFormed) hs (fun _ => wellFormed_readOne) (fun _ _ => id)
    fun _ _ => ⟨Nat.le_refl _, .inl rfl, fun hne => absurd rfl hne, fun _ => ⟨rfl, rfl, rfl⟩⟩

theorem ages (h : Evolves s t) : s.reader.Ages t.reader :=
  h.invariant (P := fun m => s.reader.Ages m.reader) (.refl _)
    (fun m hm => hm.trans (ages_readOne m)) (fun _ _ => id) fun _ hm =>
      ⟨hm.eol, fun _ => rfl, fun _ => rfl, fun _ => rfl⟩

/-- **After the end of the message the source is left alone.** -/
theorem source_eq (h : Evolves s t) (heof : s.reader.eof = true) : t.source = s.source := by
  have hkept : t.reader.eof = true ∧ t.source = s.source :=
    h.invariant (P := fun m => m.reader.eof = true ∧ m.source = s.source) ⟨heof, rfl⟩
      (fun m hm => ⟨(ages_readOne m).eof hm.1, (source_readOne_of_eof hm.1).trans hm.2⟩)
      (fun _ _ => id) fun m hm => ⟨rfl, hm.2⟩
  exact hkept.2

end Evolves

/-! ### The end of the stream -/

/-- In the record of a reader's calls, a read that met the end of the stream is the latest one, and
the reader has seen the end of the message. -/
structure EndIsLast (s : Reading (Traced σ)) : Prop where
  /-- No call comes after it. -/
  last : Call.read (.ok none) ∉ s.source.calls.tail
  /-- The reader has seen the end. -/
  eof : Call.read (.ok none) ∈ s.source.calls → s.reader.eof = true

theorem endIsLast_readOne {s : Reading (Traced σ)} (h : EndIsLast s) :
    EndIsLast (stateAfter (readOne s)) := by
  rcases readOne_cases s with ⟨c, t, -, hrun⟩ | ⟨-, -, hrun⟩ | ⟨-, heof, -, cs, hlooks⟩
  · rw [hrun]
    exact ⟨h.last, h.eof⟩
  · rw [hrun]
    exact h
  · have hold : Call.read (.ok none) ∉ s.source.calls := fun hmem => by
      rw [h.eof hmem] at heof
      cases heof
    have hne : cs.reverse ≠ [] := by simpa using hlooks.ahead.ne_nil
    obtain ⟨-, hcalls⟩ := hlooks.calls.record
    refine ⟨?_, fun hmem => hlooks.ends ?_⟩
    · rw [hcalls, List.tail_append_of_ne_nil hne, List.tail_reverse]
      simpa [hold] using hlooks.ahead.not_mem_dropLast
    · rw [hcalls] at hmem
      simpa [hold] using hmem

theorem Evolves.endIsLast {s t : Reading (Traced σ)} (h : Evolves s t) (hs : EndIsLast s) :
    EndIsLast t :=
  h.invariant hs (fun _ => endIsLast_readOne) (fun _ _ hm => ⟨hm.last, hm.eof⟩)
    fun _ hm => ⟨hm.last, fun _ => rfl⟩

omit [CharacterSource σ] in
theorem EndIsLast.later_eq_nil {s : Reading (Traced σ)} (h : EndIsLast s)
    {later earlier : List Call} (hcalls : s.source.calls = later ++ .read (.ok none) :: earlier) :
    later = [] := by
  cases later with
  | nil => rfl
  | cons c later =>
    refine absurd ?_ h.last
    rw [hcalls]
    simp

end Reading

namespace Operation

open Reading

variable {σ : Type} [CharacterSource σ]

/-! ### Operations after the end of the message -/

/-- What an operation does when the end of the message has been seen: it hands out a part of what is
staged, in front, or drops all of it if it closes the reader. If it asks for something, it gives an
answer; and this has at least one character while any is staged, and reports the end if nothing is
staged, and never with something left. -/
structure Drains (op : Operation) (s : Reading σ) (o : Outcome σ) : Prop where
  /-- What it returned was staged in front of what still is. -/
  handed : op ≠ close → op.received o ++ o.after.reader.staged = s.reader.staged
  /-- A closed reader has nothing staged. -/
  shut : op = close → o.after.reader.staged = []
  /-- It does not fail. -/
  answered : op.Asks → ∃ a, o.answer = .ok a
  /-- It hands out something while anything is staged. -/
  nonempty : op.Asks → s.reader.staged ≠ [] → op.received o ≠ []
  /-- Nothing is left when it reports the end. -/
  complete : op.Ended o → o.after.reader.staged = []
  /-- It reports the end when nothing is left. -/
  ended : op.Asks → s.reader.staged = [] → op.Ended o

theorem drains_of_returns {op : Operation} {s : Reading σ} {o : Outcome σ}
    (heof : s.reader.eof = true) (hop : op.isReading = true)
    (h : op.Returns s s.flushed s.reader.staged o) : op.Drains s o := by
  refine ⟨fun _ => ?_, ?_, h.answered, h.nonempty, fun hend => ?_, h.ended⟩
  · rcases h.reached with ⟨v, -, hm⟩ | ⟨hgot, hafter⟩
    · exact (hm.staged_of_eof heof).symm
    · rw [hgot, hafter, staged_flushed, List.append_nil]
  · rintro rfl
    cases hop
  · rw [(h.complete hend).2, staged_flushed]

/-- **After the end of the message** an operation hands out what is staged, and then the end. -/
theorem perform_of_eof {s : Reading σ} (heof : s.reader.eof = true)
    (hs : s.reader.WellFormed) (op : Operation) : op.Drains s (op.perform s) := by
  by_cases hop : op.isReading = true
  · exact drains_of_returns heof hop (perform_of_finishes hop (finishes_of_over ⟨heof, rfl⟩))
  · cases op with
    | ready =>
      refine ⟨fun _ => ?_, nofun, False.elim, False.elim, fun hend => hend.1.elim, False.elim⟩
      rw [perform]
      cases s.ready <;> rfl
    | close =>
      refine ⟨fun h => absurd rfl h, fun _ => ?_, False.elim, False.elim, fun hend => hend.1.elim,
        False.elim⟩
      cases hclosed : s.reader.closed with
      | true => simp [perform, Reading.close, hclosed, Outcome.ofResult, Reader.staged,
          (hs.closed hclosed).2.2]
      | false => simp [perform, Reading.close, hclosed, heof, Outcome.ofResult, shut, Reader.staged]
    | _ => exact absurd rfl hop

/-! ### Any requests -/

/-- **What holds of a reader in every state.** A new reader is asked for anything and comes to the
state `s`. Of its source only the laws of `CharacterSource` are assumed: it holds finitely much, so
that operations come to an end, and it hands out next what it took back. Apart from this it fails,
ends and goes on as it likes.

The fields of the reader hang together. Whatever it is asked for then, what has been seen of the end
stays seen, a closed reader stays closed, and what has begun stays so. Once the end of the message
has been seen, no call is made on the source any more, and operations hand out what is staged, at
least one character at a time, and report the end from then on. Once the stream has ended in a read
of the reader, the reader makes no further call. -/
theorem reader_invariant {eol : Text} {r : Reader} (source : σ) (log : Log)
    (hr : Reader.new? eol = .ok r) (ops : List Operation) :
    let s := (performAll ops ⟨r, ({ source } : Traced σ), log⟩).2
    (s.reader.WellFormed ∧ s.reader.eol = eol) ∧
      (∀ ops' : List Operation, s.reader.Ages (performAll ops' s).2.reader) ∧
      (s.reader.eof = true → ∀ ops' : List Operation,
        let m := (performAll ops' s).2
        m.source.calls = s.source.calls ∧ ∀ op : Operation, op.Drains m (op.perform m)) ∧
      ∀ later earlier, s.source.calls = later ++ .read (.ok none) :: earlier → later = [] := by
  intro s
  have hs : Evolves ⟨r, ({ source } : Traced σ), log⟩ s := performAll_evolves ops _
  have hfields : s.reader.WellFormed := hs.wellFormed (Reader.wellFormed_of_new hr)
  have hend : EndIsLast s := hs.endIsLast ⟨by simp, by simp⟩
  refine ⟨⟨hfields, ?_⟩, fun ops' => ?_, fun heof ops' => ?_,
    fun later earlier hcalls => hend.later_eq_nil hcalls⟩
  · exact hs.ages.eol.trans (open_of_new hr source log).1
  · exact (performAll_evolves ops' s).ages
  · have hm := performAll_evolves ops' s
    exact ⟨congrArg Traced.calls (hm.source_eq heof),
      perform_of_eof (hm.ages.eof heof) (hm.wellFormed hfields)⟩

/-- A source that fails within a line ending, ends behind one, and has more to give after that. -/
theorem reader_invariant_failing_source :
    let source : Script :=
      { events := [.item ['a'], .item cr, .failure .noDataYet, .item cr, .item lf, .nothing,
          .item ['b']] }
    let ops : List Operation := [.readOne, .readOne, .readOne, .ready]
    ∃ r, Reader.new? ['\n', '|'] = .ok r ∧
      let s := (performAll ops ⟨r, ({ source } : Traced Script), {}⟩).2
      s.reader.WellFormed ∧ s.reader.eof = true ∧ s.reader.staged = ['|'] ∧
        s.source.source.events = [.item ['b']] ∧
        ∀ ops' : List Operation, (performAll ops' s).2.source.calls = s.source.calls := by
  intro source ops
  obtain ⟨⟨hfields, -⟩, -, hover, -⟩ :=
    reader_invariant source {} (rfl : Reader.new? ['\n', '|'] = .ok _) ops
  exact ⟨_, rfl, hfields, rfl, rfl, rfl, fun ops' => (hover rfl ops').1⟩

end Operation

end DotFraming
