import Mathlib.Logic.Relation
import DotFraming.Proofs.Reader.Lookahead
import DotFraming.Reader.Operation

/-!
# What operations are made of

A reader does three things: it makes calls of `readOne`, it is shut, and it logs how much it left
unread. All its operations are made of these, failing operations included. So what holds at first
and is kept by each of the three holds whatever a reader has been asked for.

* `Reading.Step`, `Reading.Evolves` : one of these things, and any number of them.
* `Reading.Evolves.invariant` : what is kept by the steps.
* `Operation.performAll_evolves` : **operations one after another are steps.**
* `Operation.performed` : the same of a single one, and **why it may fail**.
-/

namespace DotFraming

variable {σ : Type} [CharacterSource σ]

namespace Reading

/-- One thing that a reader does. -/
inductive Step : Reading σ → Reading σ → Prop where
  /-- A call. -/
  | call (s : Reading σ) : Step s (stateAfter (readOne s))
  /-- It logs how much of the message was left unread. -/
  | note (s : Reading σ) (count : Nat) : Step s { s with log := s.log.noteDiscarded count }
  /-- It is done with its source. -/
  | shut (s : Reading σ) : Step s s.shut

/-- Any number of things, one after another. -/
def Evolves : Reading σ → Reading σ → Prop := Relation.ReflTransGen Step

variable {s m t : Reading σ}

namespace Evolves

theorem refl (s : Reading σ) : Evolves s s := Relation.ReflTransGen.refl

theorem trans (h : Evolves s m) (h' : Evolves m t) : Evolves s t := Relation.ReflTransGen.trans h h'

theorem of_step (h : Step s t) : Evolves s t := Relation.ReflTransGen.single h

/-- **What is kept by each step** is kept by any number of them. -/
theorem invariant {P : Reading σ → Prop} (h : Evolves s t) (h₀ : P s)
    (hcall : ∀ s, P s → P (stateAfter (readOne s)))
    (hnote : ∀ s count, P s → P { s with log := s.log.noteDiscarded count })
    (hshut : ∀ s, P s → P s.shut) : P t := by
  unfold Evolves at h
  induction h with
  | refl => exact h₀
  | tail _ step ih =>
    cases step with
    | call => exact hcall _ ih
    | note count => exact hnote _ count ih
    | shut => exact hshut _ ih

theorem source_invariant {P : σ → Prop} (h : Evolves s t) (h₀ : P s.source)
    (hcall : ∀ s : Reading σ, P s.source → P (stateAfter (readOne s)).source) : P t.source :=
  h.invariant (P := fun m => P m.source) h₀ hcall (fun _ _ => id) fun _ => id

end Evolves

/-- A result comes about by steps. If it is a failure, then the last of them is a call that failed;
and if a call on the source failed on the way, then it is this failure. -/
structure Done {α : Type} (s : Reading σ) (r : EStateM.Result Fault (Reading σ) α) : Prop where
  /-- It comes about by steps. -/
  evolves : Evolves s (stateAfter r)
  /-- A failure is that of a call. -/
  fails : ∀ e s', r = .error e s' → ∃ m, Evolves s m ∧ readOne m = .error e s'
  /-- No failure of the source is passed over. -/
  raises : ∃ cs, Calls s.source cs (stateAfter r).source ∧
    ∀ c ∈ cs, ∀ e, c.fault? = some e → ∃ s', r = .error e s'

namespace Done

variable {α β : Type} {a : α} {b : β} {e : Fault} {r : EStateM.Result Fault (Reading σ) β}

theorem pure (h : Evolves s t) (hsource : t.source = s.source) :
    Done s (.ok a t : EStateM.Result Fault (Reading σ) α) := by
  refine ⟨h, fun e s' he => ?_, [], hsource ▸ .nil _, by simp⟩
  cases he

theorem head (h : Done s (.ok a m : EStateM.Result Fault (Reading σ) α)) (h' : Done m r) :
    Done s r := by
  obtain ⟨cs, hcs, hnone⟩ := h.raises
  obtain ⟨ds, hds, hraises⟩ := h'.raises
  refine ⟨h.evolves.trans h'.evolves, fun e s' he => ?_, cs ++ ds, hcs.append hds,
    fun c hc e he => ?_⟩
  · obtain ⟨n, hn, hcall⟩ := h'.fails e s' he
    exact ⟨n, h.evolves.trans hn, hcall⟩
  · rcases List.mem_append.1 hc with hc | hc
    · obtain ⟨s', hs'⟩ := hnone c hc e he
      cases hs'
    · exact hraises c hc e he

theorem ok (h : Done s (.ok a t : EStateM.Result Fault (Reading σ) α)) :
    Done s (.ok b t : EStateM.Result Fault (Reading σ) β) :=
  h.head (.pure (.refl t) rfl)

theorem error (h : Done s (.error e t : EStateM.Result Fault (Reading σ) α)) :
    Done s (.error e t : EStateM.Result Fault (Reading σ) β) := by
  obtain ⟨cs, hcs, hraises⟩ := h.raises
  refine ⟨h.evolves, fun e' s' he => ?_, cs, hcs, fun c hc e' he => ?_⟩
  · cases he
    exact h.fails e t rfl
  · obtain ⟨s', hs'⟩ := hraises c hc e' he
    cases hs'
    exact ⟨t, rfl⟩

end Done

/-! ### The operations -/

theorem evolves_of_ok {o : Option Piece} (h : readOne s = .ok o t) : Evolves s t := by
  have hstep := Step.call s
  rw [h] at hstep
  exact .of_step hstep

theorem done_readOne (s : Reading σ) : Done s (readOne s) := by
  refine ⟨.of_step (.call s), fun _ _ h => ⟨s, .refl s, h⟩, ?_⟩
  rcases readOne_cases s with ⟨c, t, -, hrun⟩ | ⟨-, -, hrun⟩ | ⟨-, -, -, cs, hlooks⟩
  · rw [hrun]
    exact ⟨[], .nil _, by simp⟩
  · rw [hrun]
    exact ⟨[], .nil _, by simp⟩
  · exact ⟨cs, hlooks.calls, hlooks.raises⟩

theorem done_collect {β : Type} (wanted : β → Bool) (step : β → Piece → β) (b : β)
    (s : Reading σ) : Done s (collect wanted step b s).2 := by
  fun_induction collect wanted step b s with
  | case1 b s _ p s' h ih => exact Done.head (h ▸ done_readOne s) ih
  | case2 b s _ s' h => exact Done.ok (h ▸ done_readOne s)
  | case3 b s _ e s' h => exact Done.error (h ▸ done_readOne s)
  | case4 => exact .pure (.refl _) rfl

theorem done_take (wanted : Collected → Bool) (s : Reading σ) : Done s (take wanted s).2 :=
  done_collect _ _ _ _

theorem done_read (size : Int) (s : Reading σ) : Done s (read size s) := by
  have h := done_take (fun got => size < 0 || got.count < size) s
  unfold read
  split
  · next hr => exact Done.ok (hr ▸ h)
  · next hr => exact Done.error (hr ▸ h)

theorem done_readLine (s : Reading σ) : Done s (readLine s) := by
  have h := done_take (fun got => !got.endsLine s.reader.eol) s
  unfold readLine
  split
  · next hr => exact Done.ok (hr ▸ h)
  · next hr => exact Done.error (hr ▸ h)

theorem done_next (s : Reading σ) : Done s (next s) := by
  have h := done_readLine s
  unfold next
  rw [bind_apply]
  split
  · next hr => exact Done.ok (hr ▸ h)
  · next hr => exact Done.error (hr ▸ h)

theorem done_linesFrom (got : List Text) (s : Reading σ) : Done s (linesFrom got s).2 := by
  fun_induction linesFrom got s with
  | case1 got s s' h => exact Done.ok (h ▸ done_readLine s)
  | case2 got s line s' h _ _ ih => exact Done.head (h ▸ done_readLine s) ih
  | case3 got s e s' h => exact Done.error (h ▸ done_readLine s)

theorem done_lines (s : Reading σ) : Done s (lines s) := by
  have h := done_linesFrom [] s
  unfold lines
  split
  · next hr => exact Done.ok (hr ▸ h)
  · next hr => exact Done.error (hr ▸ h)

theorem done_noteDiscarded (count : Nat) (s : Reading σ) :
    Done s (.ok () (noteDiscarded count s) : EStateM.Result Fault (Reading σ) Unit) := by
  unfold noteDiscarded
  split
  · exact .pure (.refl s) rfl
  · exact .pure (.of_step (.note s count)) rfl

theorem done_shut (s : Reading σ) :
    Done s (.ok () s.shut : EStateM.Result Fault (Reading σ) Unit) :=
  .pure (.of_step (.shut s)) rfl

theorem done_close (s : Reading σ) : Done s (close s) := by
  have h := done_collect (fun _ : Nat => true) (fun n _ => n + 1) 0 s
  unfold close
  split
  · exact .pure (.refl s) rfl
  · split
    · exact done_shut s
    · split
      · next hr => exact (Done.head (hr ▸ h) (done_noteDiscarded _ _)).head (done_shut _)
      · next hr => exact Done.error (hr ▸ h)

end Reading

/-! ### Requests -/

/-- A fault of a request that asks for a place that a buffer does not have. -/
def Fault.ofRange : Fault → Bool
  | offsetOutside _ _ => true
  | rangeOutside _ _ _ => true
  | _ => false

namespace Reading

theorem done_readInto (buffer : List Piece) (offset : Int) (length : Option Int) (s : Reading σ) :
    (∃ e, e.ofRange = true ∧ readInto buffer offset length s = (buffer, .error e s)) ∨
      Done s (readInto buffer offset length s).2 := by
  have h := done_take (fun got => got.count < length.getD (buffer.length - offset)) s
  unfold readInto
  simp only
  split
  · exact .inr (.pure (.refl s) rfl)
  · split
    · exact .inl ⟨_, rfl, rfl⟩
    · split
      · exact .inr (.pure (.refl s) rfl)
      · split
        · exact .inl ⟨_, rfl, rfl⟩
        · split
          · next hr => exact .inr (Done.ok (hr ▸ h))
          · next hr => exact .inr (Done.error (hr ▸ h))

end Reading

namespace Operation

open Reading

/-- What a request `op` leads to comes about by steps. If it fails, it was refused, the source could
not tell whether it is ready, or the last step is a call that failed. If a call on the source fails
on the way, it fails like this. -/
structure Performed (op : Operation) (s : Reading σ) (o : Outcome σ) : Prop where
  /-- It comes about by steps. -/
  evolves : Evolves s o.after
  /-- Why it may fail. -/
  fails : ∀ e, o.answer = .error e → e.ofRange = true ∨ (op = ready ∧ s.ready = .error e) ∨
    ∃ m, Evolves s m ∧ Reading.readOne m = .error e o.after
  /-- No failure of the source is passed over. -/
  raises : ∃ cs, Calls s.source cs o.after.source ∧ ∀ c ∈ cs, ∀ e, c.fault? = some e →
    o.answer = .error e ∧ ∃ m, Evolves s m ∧ Reading.readOne m = .error e o.after

theorem performed_of_done {α : Type} {op : Operation} {kind : α → Answer} {s : Reading σ}
    {r : EStateM.Result Fault (Reading σ) α} (h : Done s r) :
    op.Performed s (Outcome.ofResult kind r) := by
  obtain ⟨hevolves, hfails, cs, hcs, hraises⟩ := h
  cases r with
  | ok a t =>
    refine ⟨hevolves, fun e he => ?_, cs, hcs, fun c hc e he => ?_⟩
    · cases he
    · obtain ⟨s', hs'⟩ := hraises c hc e he
      cases hs'
  | error e t =>
    refine ⟨hevolves, fun e' he => .inr (.inr ?_), cs, hcs, fun c hc e' he => ?_⟩
    · cases he
      exact hfails e t rfl
    · obtain ⟨s', hs'⟩ := hraises c hc e' he
      cases hs'
      exact ⟨rfl, hfails e t rfl⟩

/-- **Every operation is made of steps**, and fails if a call does or if it is refused. -/
theorem performed (op : Operation) (s : Reading σ) : op.Performed s (op.perform s) := by
  cases op with
  | readOne => exact performed_of_done (done_readOne s)
  | read size => exact performed_of_done (done_read size s)
  | readLine => exact performed_of_done (done_readLine s)
  | next => exact performed_of_done (done_next s)
  | lines => exact performed_of_done (done_lines s)
  | close => exact performed_of_done (done_close s)
  | ready =>
    refine ⟨.refl s, fun e he => .inr (.inl ⟨rfl, ?_⟩), [], .nil _, by simp⟩
    simp only [perform] at he
    cases hready : s.ready <;> simp_all [Except.map]
  | readInto buffer offset length =>
    rcases done_readInto buffer offset length s with ⟨e, hrange, hread⟩ | hdone
    · simp only [perform, hread]
      refine ⟨.refl s, fun e' he => .inl ?_, [], .nil _, by simp⟩
      cases he
      exact hrange
    · have h : (readInto buffer offset length).Performed s (Outcome.ofResult .count _) :=
        performed_of_done hdone
      exact ⟨h.evolves, h.fails, h.raises⟩

/-- **Operations one after another** are made of steps. -/
theorem performAll_evolves (ops : List Operation) (s : Reading σ) :
    Evolves s (performAll ops s).2 := by
  induction ops generalizing s with
  | nil => exact .refl s
  | cons op ops ih => exact (performed op s).evolves.trans (ih _)

end Operation

end DotFraming
