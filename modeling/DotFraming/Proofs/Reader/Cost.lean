import DotFraming.Proofs.Reader.Lookahead

/-!
# What a call asks of its source

A call of `readOne` reads as far ahead as the longest terminator reaches, and hands back no more
than the last piece it read. This bounds the number of its calls on the source, whatever the source
does: it may never end, and nothing is assumed of what it answers. The bound is put together from
those of the parts of a call, in the way in which a call is put together from them.

* `Call.reads`, `Call.unreads` : how many calls of either kind there are in a record.
* `Reading.Costs` : a bound on what a computation adds to the record.
* `Reading.Costs.bind` : the bound of one computation after another.
* `Reading.costs_readOn` : **five reads and one piece handed back** are the most.
* `Reading.calls_readOne` : the same of any call, which leaves the source alone if something is
  staged.
-/

namespace DotFraming

namespace Call

/-- The call is a read. -/
def isRead : Call → Bool
  | read _ => true
  | unread _ _ => false

/-- How many reads there are in a record. -/
def reads (calls : List Call) : Nat := calls.countP isRead

/-- How many attempts there are to hand a piece back. -/
def unreads (calls : List Call) : Nat := calls.countP (!·.isRead)

@[simp] theorem reads_nil : reads [] = 0 := rfl

@[simp] theorem unreads_nil : unreads [] = 0 := rfl

@[simp] theorem reads_append (later earlier : List Call) :
    reads (later ++ earlier) = reads later + reads earlier := List.countP_append

@[simp] theorem unreads_append (later earlier : List Call) :
    unreads (later ++ earlier) = unreads later + unreads earlier := List.countP_append

end Call

namespace Reading

variable {σ α β : Type} {reads unreads reads' unreads' : Nat}

/-- A computation adds to the record of calls no more than this many reads, and no more than this
many attempts to hand a piece back. -/
def Costs (reads unreads : Nat) (x : Action (Reading (Traced σ)) α) : Prop :=
  ∀ s, ∃ cs, (stateAfter (x s)).source.calls = cs ++ s.source.calls ∧
    Call.reads cs ≤ reads ∧ Call.unreads cs ≤ unreads

namespace Costs

variable {x y : Action (Reading (Traced σ)) α} {f : α → Action (Reading (Traced σ)) β}

theorem of_calls_eq (h : ∀ s, (stateAfter (x s)).source.calls = s.source.calls) : Costs 0 0 x :=
  fun s => ⟨[], h s, Nat.le_refl 0, Nat.le_refl 0⟩

theorem mono (h : Costs reads unreads x) (hreads : reads ≤ reads') (hunreads : unreads ≤ unreads') :
    Costs reads' unreads' x := fun s =>
  have ⟨cs, hcs, hr, hu⟩ := h s
  ⟨cs, hcs, Nat.le_trans hr hreads, Nat.le_trans hu hunreads⟩

/-- **The costs of one computation after another** add up. -/
theorem bind (h : Costs reads unreads x) (h' : ∀ a, Costs reads' unreads' (f a)) :
    Costs (reads' + reads) (unreads' + unreads) (x >>= f) := by
  intro s
  obtain ⟨cs, hcs, hr, hu⟩ := h s
  rw [bind_apply]
  cases hx : x s with
  | error e m =>
    rw [hx] at hcs
    exact ⟨cs, hcs, Nat.le_add_left_of_le hr, Nat.le_add_left_of_le hu⟩
  | ok a m =>
    rw [hx, stateAfter_ok] at hcs
    obtain ⟨ds, hds, hr', hu'⟩ := h' a m
    refine ⟨ds ++ cs, by rw [hds, hcs, List.append_assoc], ?_, ?_⟩
    · rw [Call.reads_append]
      omega
    · rw [Call.unreads_append]
      omega

theorem ite {p : Prop} [Decidable p] (h : Costs reads unreads x) (h' : Costs reads' unreads' y) :
    Costs (max reads reads') (max unreads unreads') (if p then x else y) := by
  split
  · exact h.mono (Nat.le_max_left ..) (Nat.le_max_left ..)
  · exact h'.mono (Nat.le_max_right ..) (Nat.le_max_right ..)

end Costs

/-! ### The parts of a call -/

theorem costs_pure (a : α) : Costs 0 0 (pure a : Action (Reading (Traced σ)) α) :=
  .of_calls_eq fun _ => rfl

theorem costs_finish : Costs 0 0 (finish : Action (Reading (Traced σ)) Unit) :=
  .of_calls_eq fun _ => rfl

theorem costs_truncated : Costs 0 0 (truncated : Action (Reading (Traced σ)) Unit) :=
  .of_calls_eq fun _ => rfl

theorem costs_leaveBeginning : Costs 0 0 (leaveBeginning : Action (Reading (Traced σ)) Bool) :=
  .of_calls_eq fun _ => rfl

theorem costs_stage (suffix : Text) :
    Costs 0 0 (stage suffix : Action (Reading (Traced σ)) (Option Piece)) :=
  .of_calls_eq fun _ => rfl

variable [AnySource σ]

theorem costs_ask : Costs 1 0 (ask : Action (Reading (Traced σ)) (Option Piece)) := by
  intro s
  cases h : ask s with
  | ok o t => exact ⟨[.read (.ok o)], (ask_leads h).1.record.2, Nat.le_refl 1, Nat.le_refl 0⟩
  | error e t =>
    exact ⟨[.read (.error e)], (ask_error_leads h).1.record.2, Nat.le_refl 1, Nat.le_refl 0⟩

theorem costs_putBack (p : Piece) : Costs 0 1 (putBack p : Action (Reading (Traced σ)) Unit) := by
  intro s
  cases h : putBack p s with
  | ok o t =>
    exact ⟨[.unread p (.ok ())], (putBack_leads h).1.record.2, Nat.le_refl 0, Nat.le_refl 1⟩
  | error e t =>
    exact ⟨[.unread p (.error e)], (putBack_error_leads h).1.record.2, Nat.le_refl 0, Nat.le_refl 1⟩

theorem costs_skip {x : Action (Reading (Traced σ)) (Option Piece)} (h : Costs 0 0 x) :
    Costs 1 0 (do let _ ← ask; finish; x : Action (Reading (Traced σ)) _) :=
  costs_ask.bind fun _ => costs_finish.bind fun _ => h

theorem costs_afterCRLFDot :
    Costs 2 0 (afterCRLFDot : Action (Reading (Traced σ)) (Option Piece)) := by
  refine costs_ask.bind fun o => ?_
  cases o with
  | none =>
    exact (costs_truncated.bind fun _ => costs_stage []).mono (Nat.zero_le 1) (Nat.le_refl 0)
  | some p => exact (costs_stage dot).ite (costs_skip (costs_stage []))

theorem costs_afterCRLF :
    Costs 3 1 (afterCRLF : Action (Reading (Traced σ)) (Option Piece)) := by
  refine costs_ask.bind fun o => ?_
  cases o with
  | none =>
    exact (costs_truncated.bind fun _ => costs_stage []).mono (Nat.zero_le 2) (Nat.zero_le 1)
  | some p => exact costs_afterCRLFDot.ite ((costs_putBack p).bind fun _ => costs_stage [])

theorem costs_afterCR : Costs 4 1 (afterCR : Action (Reading (Traced σ)) (Option Piece)) := by
  refine costs_ask.bind fun o => ?_
  cases o with
  | none => exact (costs_truncated.bind fun _ => costs_pure _).mono (Nat.zero_le 3) (Nat.zero_le 1)
  | some p => exact costs_afterCRLF.ite ((costs_putBack p).bind fun _ => costs_pure _)

theorem costs_afterFirstDot :
    Costs 2 0 (afterFirstDot : Action (Reading (Traced σ)) (Option Piece)) := by
  refine costs_ask.bind fun o => ?_
  cases o with
  | none => exact (costs_truncated.bind fun _ => costs_pure _).mono (Nat.zero_le 1) (Nat.le_refl 0)
  | some p => exact (costs_pure _).ite (costs_skip (costs_pure _))

/-- **Five reads and one piece handed back** are the most. -/
theorem costs_readOn : Costs 5 1 (readOn : Action (Reading (Traced σ)) (Option Piece)) := by
  refine costs_ask.bind fun o => ?_
  cases o with
  | none => exact (costs_truncated.bind fun _ => costs_pure _).mono (Nat.zero_le 4) (Nat.zero_le 1)
  | some p =>
    exact costs_leaveBeginning.bind fun _ =>
      costs_afterFirstDot.ite (costs_afterCR.ite (costs_pure _))

/-! ### A call -/

/-- **A call makes no more than five reads and hands back no more than one piece.** It leaves the
source alone if something is staged. -/
theorem calls_readOne (s : Reading (Traced σ)) :
    ∃ cs, (stateAfter (readOne s)).source.calls = cs ++ s.source.calls ∧
      Call.reads cs ≤ 5 ∧ Call.unreads cs ≤ 1 ∧ (s.reader.staged ≠ [] → cs = []) := by
  rcases readOne_cases s with ⟨c, t, -, hrun⟩ | ⟨-, -, hrun⟩ | ⟨hstaged, heof, hclosed, -⟩
  · rw [hrun]
    exact ⟨[], rfl, by simp⟩
  · rw [hrun]
    exact ⟨[], rfl, by simp⟩
  · rw [readOne_eq_readOn hstaged heof hclosed]
    obtain ⟨cs, hcs, hreads, hunreads⟩ := costs_readOn s
    exact ⟨cs, hcs, hreads, hunreads, fun hne => absurd hstaged hne⟩

end Reading

end DotFraming
