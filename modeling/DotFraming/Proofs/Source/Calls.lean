import DotFraming.Source.Traced

/-!
# Calls on a source, one after another

A source notices nothing of its users but the calls they make. `Calls s cs t` says that the calls
`cs`, each with its outcome, lead from the state `s` of a source to the state `t`. What a user does
is described by such a list, and what is known of the list holds of every source.

* `Calls` : calls lead from one state of a source to another.
* `Lookahead` : the calls of a single look ahead. Every read but the last gives a piece, and the
  piece of the last one may be handed back.
* `Disciplined` : every attempt to hand a piece back comes directly after a read that gave this
  piece.
* `Lookahead.disciplined` : **looking ahead is disciplined.**
* `Calls.record` : a source that keeps a record of the calls has just these calls in it.
-/

namespace DotFraming

variable {σ : Type} [AnySource σ]

/-! ### Sequences of calls -/

namespace Call

/-- The call has this outcome in the state `s` and leaves the state `s'`. -/
def Leads (s : σ) : Call → σ → Prop
  | read (.ok o), s' => CharacterSource.read s = .ok o s'
  | read (.error e), s' => CharacterSource.read s = .error e s'
  | unread p (.ok ()), s' => CharacterSource.unread p s = .ok () s'
  | unread p (.error e), s' => CharacterSource.unread p s = .error e s'

theorem leads_read (s : σ) :
    ∃ o, (read o).Leads s (stateAfter (CharacterSource.read s : EStateM.Result Fault σ _)) := by
  cases h : (CharacterSource.read s : EStateM.Result Fault σ _) with
  | ok o t => exact ⟨.ok o, h⟩
  | error e t => exact ⟨.error e, h⟩

theorem leads_unread (p : Piece) (s : σ) :
    ∃ o, (unread p o).Leads s
      (stateAfter (CharacterSource.unread p s : EStateM.Result Fault σ _)) := by
  cases h : (CharacterSource.unread p s : EStateM.Result Fault σ _) with
  | ok o t => exact ⟨.ok (), h⟩
  | error e t => exact ⟨.error e, h⟩

/-- The state after a call. -/
def after (s : σ) : Call → σ
  | read _ => stateAfter (CharacterSource.read s : EStateM.Result Fault σ _)
  | unread p _ => stateAfter (CharacterSource.unread p s : EStateM.Result Fault σ _)

theorem Leads.after_eq {s t : σ} {c : Call} (h : c.Leads s t) : c.after s = t := by
  rcases c with (e | o) | ⟨p, e | ⟨⟩⟩
  all_goals exact congrArg stateAfter h

/-- The failure of a call that failed. -/
def fault? : Call → Option Fault
  | read (.error e) => some e
  | unread _ (.error e) => some e
  | read (.ok _) => none
  | unread _ (.ok _) => none

end Call

/-- The calls `cs`, the first one first, lead from one state of a source to another. -/
inductive Calls : σ → List Call → σ → Prop where
  /-- No call. -/
  | nil (s : σ) : Calls s [] s
  /-- A call, and others after it. -/
  | cons {s m t : σ} {c : Call} {cs : List Call} (head : c.Leads s m) (tail : Calls m cs t) :
      Calls s (c :: cs) t

namespace Calls

variable {s m t : σ} {c : Call} {cs ds : List Call}

theorem eq_of_nil (h : Calls s [] t) : t = s := by
  cases h
  rfl

theorem single (h : c.Leads s t) : Calls s [c] t := .cons h (.nil t)

theorem append (h : Calls s cs m) (h' : Calls m ds t) : Calls s (cs ++ ds) t := by
  induction h with
  | nil => exact h'
  | cons head _ ih => exact .cons head (ih h')

theorem last (h : Calls s (cs ++ [c]) t) : ∃ m, Calls s cs m ∧ c.Leads m t := by
  induction cs generalizing s with
  | nil =>
    cases h with
    | cons head tail =>
      cases tail
      exact ⟨s, .nil s, head⟩
  | cons d cs ih =>
    cases h with
    | cons head tail =>
      obtain ⟨m, hm, hlast⟩ := ih tail
      exact ⟨m, .cons head hm, hlast⟩

theorem exists_leads (h : Calls s cs t) (hc : c ∈ cs) :
    ∃ (ds : List Call) (m m' : σ), Calls s ds m ∧ c.Leads m m' := by
  induction h with
  | nil => cases hc
  | cons head _ ih =>
    rcases List.mem_cons.1 hc with rfl | hc
    · exact ⟨[], _, _, .nil _, head⟩
    · obtain ⟨ds, m, m', hm, hleads⟩ := ih hc
      exact ⟨_, m, m', .cons head hm, hleads⟩

end Calls

/-! ### Looking ahead -/

/-- The calls of one look ahead: reads that give a piece each, then one more read, and perhaps an
attempt to hand back the piece that this one gave. -/
inductive Lookahead : List Call → Prop where
  /-- A single read. -/
  | read (outcome : Except Fault (Option Piece)) : Lookahead [.read outcome]
  /-- A single read, and an attempt to hand its piece back. -/
  | back (p : Piece) (outcome : Except Fault Unit) :
      Lookahead [.read (.ok (some p)), .unread p outcome]
  /-- A read that gives a piece, and a further look ahead. -/
  | cons (p : Piece) {cs : List Call} (tail : Lookahead cs) :
      Lookahead (.read (.ok (some p)) :: cs)

/-- In a record of calls, the latest first, every attempt to hand a piece back comes directly after
a read that gave this piece. -/
def Disciplined : List Call → Prop
  | [] => True
  | .read _ :: calls => Disciplined calls
  | .unread p _ :: calls => calls.head? = some (.read (.ok (some p))) ∧ Disciplined calls

theorem Disciplined.append {later earlier : List Call} (h : Disciplined later)
    (h' : Disciplined earlier) : Disciplined (later ++ earlier) := by
  induction later with
  | nil => exact h'
  | cons c later ih =>
    cases c with
    | read o => exact ih h
    | unread p o =>
      obtain ⟨hhead, htail⟩ := h
      have hhead' : (later ++ earlier).head? = some (.read (.ok (some p))) := by
        rw [List.head?_append, hhead, Option.some_or]
      exact ⟨hhead', ih htail⟩

theorem Disciplined.head?_of_unread {later earlier : List Call} {p : Piece}
    {o : Except Fault Unit} (h : Disciplined (later ++ .unread p o :: earlier)) :
    earlier.head? = some (.read (.ok (some p))) := by
  induction later with
  | nil => exact h.1
  | cons c later ih =>
    cases c with
    | read o => exact ih h
    | unread q o => exact ih h.2

namespace Lookahead

variable {cs : List Call}

theorem ne_nil (h : Lookahead cs) : cs ≠ [] := by cases h <;> simp

/-- **Looking ahead is disciplined.** -/
theorem disciplined (h : Lookahead cs) : Disciplined cs.reverse := by
  induction h with
  | read outcome => exact trivial
  | back p outcome => exact ⟨rfl, trivial⟩
  | cons p _ ih =>
    rw [List.reverse_cons]
    exact ih.append (show Disciplined [_] from trivial)

/-- Only the last call of a look ahead can meet the end of the stream. -/
theorem not_mem_dropLast (h : Lookahead cs) : Call.read (.ok none) ∉ cs.dropLast := by
  induction h with
  | read outcome => simp
  | back p outcome => simp
  | cons p tail ih =>
    rw [List.dropLast_cons_of_ne_nil tail.ne_nil]
    simp [ih]

end Lookahead

/-! ### Records -/

theorem Call.Leads.record {s t : Traced σ} {c : Call} (h : c.Leads s t) :
    c.Leads s.source t.source ∧ t.calls = c :: s.calls := by
  rcases c with (e | o) | ⟨p, e | ⟨⟩⟩
  · change Traced.read s = .error e t at h
    unfold Traced.read at h
    split at h <;> cases h
    next hr => exact ⟨hr, rfl⟩
  · change Traced.read s = .ok o t at h
    unfold Traced.read at h
    split at h <;> cases h
    next hr => exact ⟨hr, rfl⟩
  · change Traced.unread p s = .error e t at h
    unfold Traced.unread at h
    split at h <;> cases h
    next hu => exact ⟨hu, rfl⟩
  · change Traced.unread p s = .ok () t at h
    unfold Traced.unread at h
    split at h <;> cases h
    next hu => exact ⟨hu, rfl⟩

/-- **A record has just the calls in it that were made.** -/
theorem Calls.record {s t : Traced σ} {cs : List Call} (h : Calls s cs t) :
    Calls s.source cs t.source ∧ t.calls = cs.reverse ++ s.calls := by
  induction h with
  | nil s => exact ⟨.nil _, rfl⟩
  | cons head _ ih =>
    obtain ⟨hleads, hcalls⟩ := head.record
    exact ⟨.cons hleads ih.1, by rw [ih.2, hcalls, List.reverse_cons, List.append_assoc]; rfl⟩

end DotFraming
