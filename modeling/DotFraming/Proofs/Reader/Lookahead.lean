import DotFraming.Proofs.Source.Calls
import DotFraming.Reader

/-!
# What one call of a reader may do

`readOne` looks ahead in several places. Whatever its source does, and in whatever state the reader
is, a call is of one of three kinds (`Reading.readOne_cases`): it hands out a staged character, it
finds the message over, or it looks ahead. This file says all that the last kind may do.

* `Reader.Moves` : what a look ahead may do to the reader.
* `Reader.Begins` : all it does to the reader if it fails.
* `Reading.Looks` : what it may do to the source and to the log as well, and when it fails.
* `Reading.looks_readOn` : **`readOn` looks ahead once**, and stays within these bounds.
* `Reading.over_of_readOne_none` : a call hands out nothing only when the message is over.
-/

namespace DotFraming

/-- What a look ahead may do to a reader. Either it stages nothing, or it stages a line ending,
perhaps with a dot behind, and hands out the first character of it. -/
structure Reader.Moves (r r' : Reader) : Prop where
  /-- The line ending stays. -/
  eol : r'.eol = r.eol
  /-- The reader is not closed by it. -/
  closed : r'.closed = r.closed
  /-- What has been seen of the end stays seen. -/
  eof : r.eof = true → r'.eof = true
  /-- What has begun stays so. -/
  begun : r.atBeginning = false → r'.atBeginning = false
  /-- What is staged. -/
  pending : (r'.pending = r.pending ∧ r'.cursor = r.cursor) ∨
    (r'.pending = r.eol ∨ r'.pending = r.eol ++ dot) ∧ r'.cursor = 1 ∧ r'.atBeginning = false

namespace Reader

/-- The reader is as before, but may have begun to read. -/
def Begins (r r' : Reader) : Prop := r' = r ∨ r' = { r with atBeginning := false }

theorem Moves.refl (r : Reader) : r.Moves r := ⟨rfl, rfl, id, id, .inl ⟨rfl, rfl⟩⟩

theorem Moves.trans {r r' r'' : Reader} (h : r.Moves r') (h' : r'.Moves r'') : r.Moves r'' := by
  refine ⟨h'.eol.trans h.eol, h'.closed.trans h.closed, h'.eof ∘ h.eof, h'.begun ∘ h.begun, ?_⟩
  rcases h'.pending with ⟨hp, hc⟩ | hstaged
  · rcases h.pending with ⟨hp', hc'⟩ | ⟨hp', hc', hb⟩
    · exact .inl ⟨hp.trans hp', hc.trans hc'⟩
    · exact .inr ⟨by rwa [hp], hc.trans hc', h'.begun hb⟩
  · rw [h.eol] at hstaged
    exact .inr hstaged

theorem Begins.refl (r : Reader) : r.Begins r := .inl rfl

theorem Begins.trans {r r' r'' : Reader} (h : r.Begins r') (h' : r'.Begins r'') :
    r.Begins r'' := by
  rcases h with rfl | rfl
  · exact h'
  · rcases h' with rfl | rfl
    · exact .inr rfl
    · exact .inr rfl

theorem Begins.moves {r r' : Reader} (h : r.Begins r') : r.Moves r' := by
  rcases h with rfl | rfl
  · exact .refl _
  · exact ⟨rfl, rfl, id, fun _ => rfl, .inl ⟨rfl, rfl⟩⟩

theorem Begins.eof_eq {r r' : Reader} (h : r.Begins r') : r'.eof = r.eof := by
  rcases h with rfl | rfl
  · rfl
  · rfl

theorem Begins.staged_eq {r r' : Reader} (h : r.Begins r') : r'.staged = r.staged := by
  rcases h with rfl | rfl
  · rfl
  · rfl

/-- Of the line ending and a dot, which is the most that is staged, the first character is handed
out at once. -/
theorem Moves.length_staged {r r' : Reader} (h : r.Moves r') (hstaged : r.staged = []) :
    r'.staged.length ≤ r.eol.length := by
  unfold staged at *
  rcases h.pending with ⟨hp, hc⟩ | ⟨hp | hp, hc, -⟩
  · rw [hp, hc, hstaged]
    exact Nat.zero_le _
  · rw [hp, hc, List.length_drop]
    exact Nat.sub_le _ _
  · rw [hp, hc, List.length_drop, List.length_append]
    exact Nat.le_refl _

end Reader

namespace Reading

variable {σ : Type} [AnySource σ]

/-- What the calls `cs` of a look ahead from `s` may come to: a result `r` that leaves the reader
moved. The end of the stream is the end of the message. If the end of the message is seen, the last
call was a read. It is a failure just if a call failed, which then was the last one, and the reader
is left as if it had at most begun to read. -/
structure Looks (s : Reading σ) (r : EStateM.Result Fault (Reading σ) (Option Piece))
    (cs : List Call) : Prop where
  /-- The calls are made on the source. -/
  calls : Calls s.source cs (stateAfter r).source
  /-- They are those of one look ahead. -/
  ahead : Lookahead cs
  /-- The reader moves. -/
  moves : s.reader.Moves (stateAfter r).reader
  /-- The end of the stream ends the message. -/
  ends : Call.read (.ok none) ∈ cs → (stateAfter r).reader.eof = true
  /-- The end is seen by a read. -/
  seen : (stateAfter r).reader.eof = true →
    s.reader.eof = true ∨ ∃ o, cs.getLast? = some (.read (.ok o))
  /-- What may be logged is that the stream ended. -/
  log : (stateAfter r).log = s.log ∨
    Call.read (.ok none) ∈ cs ∧ (stateAfter r).log = s.log.noteTruncated
  /-- A failure is that of the last call. -/
  fails : ∀ e s', r = .error e s' → ∃ c, cs.getLast? = some c ∧ c.fault? = some e
  /-- A failure does no more than to begin the message. -/
  halts : ∀ e s', r = .error e s' → s.reader.Begins s'.reader ∧ s'.log = s.log
  /-- A call that fails is a failure of the look ahead. -/
  raises : ∀ c ∈ cs, ∀ e, c.fault? = some e → ∃ s', r = .error e s'

variable {s s₁ s₂ : Reading σ} {r : EStateM.Result Fault (Reading σ) (Option Piece)}
  {o a : Option Piece} {p : Piece} {e : Fault} {cs : List Call}

/-! ### The calls one by one -/

theorem ask_leads (h : ask s = .ok o s₁) :
    (Call.read (.ok o)).Leads s.source s₁.source ∧ s₁.reader = s.reader ∧ s₁.log = s.log := by
  unfold ask at h
  split at h <;> cases h
  next hr => exact ⟨hr, rfl, rfl⟩

theorem ask_error_leads (h : ask s = .error e s₁) :
    (Call.read (.error e)).Leads s.source s₁.source ∧ s₁.reader = s.reader ∧ s₁.log = s.log := by
  unfold ask at h
  split at h <;> cases h
  next hr => exact ⟨hr, rfl, rfl⟩

theorem putBack_leads (h : putBack p s = .ok () s₁) :
    (Call.unread p (.ok ())).Leads s.source s₁.source ∧ s₁.reader = s.reader ∧
      s₁.log = s.log := by
  unfold putBack at h
  split at h <;> cases h
  next hu => exact ⟨hu, rfl, rfl⟩

theorem putBack_error_leads (h : putBack p s = .error e s₁) :
    (Call.unread p (.error e)).Leads s.source s₁.source ∧ s₁.reader = s.reader ∧
      s₁.log = s.log := by
  unfold putBack at h
  split at h <;> cases h
  next hu => exact ⟨hu, rfl, rfl⟩

/-! ### Looking ahead, from the last call to the first -/

theorem looks_of_failure (cs : List Call) {c : Call} (hcalls : Calls s.source (cs ++ [c]) s₁.source)
    (hahead : Lookahead (cs ++ [c])) (hsame : s₁.reader = s.reader ∧ s₁.log = s.log)
    (hfault : c.fault? = some e) (hbefore : ∀ d ∈ cs, d.fault? = none)
    (hend : Call.read (.ok none) ∉ cs) : Looks s (.error e s₁) (cs ++ [c]) := by
  obtain ⟨hreader, hlog⟩ := hsame
  refine ⟨hcalls, hahead, ?_, fun hmem => ?_, fun heof => .inl ?_, .inl hlog, fun e' s' he => ?_,
    fun e' s' he => ?_, fun d hd e' he => ?_⟩
  · exact hreader ▸ Reader.Moves.refl _
  · rcases List.mem_append.1 hmem with hmem | hmem
    · exact absurd hmem hend
    · cases List.mem_singleton.1 hmem
      cases hfault
  · exact hreader ▸ heof
  · cases he
    exact ⟨c, by simp, hfault⟩
  · cases he
    exact ⟨hreader ▸ .refl _, hlog⟩
  · rcases List.mem_append.1 hd with hd | hd
    · rw [hbefore d hd] at he
      cases he
    · cases List.mem_singleton.1 hd
      rw [hfault] at he
      cases he
      exact ⟨s₁, rfl⟩

theorem looks_of_ask_error (h : ask s = .error e s₁) :
    Looks s (.error e s₁) [.read (.error e)] := by
  obtain ⟨hleads, hsame⟩ := ask_error_leads h
  exact looks_of_failure [] (.single hleads) (.read _) hsame rfl (by simp) (by simp)

theorem looks_of_ask (h : ask s = .ok o s₁) (hsource : s₂.source = s₁.source)
    (hmoves : s.reader.Moves s₂.reader) (hend : o = none → s₂.reader.eof = true)
    (hlog : s₂.log = s₁.log ∨ o = none ∧ s₂.log = s₁.log.noteTruncated) :
    Looks s (.ok a s₂) [.read (.ok o)] := by
  obtain ⟨hleads, -, hsame⟩ := ask_leads h
  rw [hsame] at hlog
  refine ⟨.single (hsource ▸ hleads), .read _, hmoves, fun hmem => hend ?_,
    fun _ => .inr ⟨o, rfl⟩, hlog.imp_right fun hnote => ⟨?_, hnote.2⟩, fun e s' he => ?_,
    fun e s' he => ?_, fun c hc e he => ?_⟩
  · cases List.mem_singleton.1 hmem
    rfl
  · rw [hnote.1]
    exact List.mem_singleton_self _
  · cases he
  · cases he
  · cases List.mem_singleton.1 hc
    cases he

theorem Looks.cons (h : ask s = .ok (some p) s₁) (hbegins : s₁.reader.Begins s₂.reader)
    (hsource : s₂.source = s₁.source) (hlog : s₂.log = s₁.log) (hr : Looks s₂ r cs) :
    Looks s r (.read (.ok (some p)) :: cs) := by
  obtain ⟨hleads, hreader, hsame⟩ := ask_leads h
  rw [hreader] at hbegins
  rw [hsame] at hlog
  have hlast : (Call.read (.ok (some p)) :: cs).getLast? = cs.getLast? := by
    rw [List.getLast?_cons, List.getLast?_eq_some_getLast hr.ahead.ne_nil]
    rfl
  refine ⟨.cons (hsource ▸ hleads) hr.calls, .cons p hr.ahead, hbegins.moves.trans hr.moves,
    fun hmem => hr.ends ?_, ?_, ?_, ?_, fun e s' he => ?_, fun c hc e he => ?_⟩
  · simpa using hmem
  · rw [hlast, ← hbegins.eof_eq]
    exact hr.seen
  · rw [← hlog]
    exact hr.log.imp_right fun hnote => ⟨List.mem_cons_of_mem _ hnote.1, hnote.2⟩
  · rw [hlast]
    exact hr.fails
  · obtain ⟨hhalts, hkept⟩ := hr.halts e s' he
    exact ⟨hbegins.trans hhalts, hkept.trans hlog⟩
  · rcases List.mem_cons.1 hc with rfl | hc
    · cases he
    · exact hr.raises c hc e he

/-- A read whose piece is handed back. What comes after that leaves the source alone. -/
theorem looks_of_putBack (h : ask s = .ok (some p) s₁) {x : Action (Reading σ) (Option Piece)}
    (hx : ∀ s₂ : Reading σ, s₂.reader = s.reader → ∃ a s₃, x s₂ = .ok a s₃ ∧
      s₃.source = s₂.source ∧ s₃.log = s₂.log ∧ s.reader.Moves s₃.reader ∧
        s₃.reader.eof = s.reader.eof) :
    ∃ cs, Looks s ((do putBack p; x : Action (Reading σ) _) s₁) cs := by
  obtain ⟨hleads, hreader, hsame⟩ := ask_leads h
  rcases hback : putBack p s₁ with ⟨⟨⟩, s₂⟩ | ⟨e, s₂⟩
  · obtain ⟨hleads', hreader', hsame'⟩ := putBack_leads hback
    obtain ⟨a, s₃, hrun, hsource, hlog, hmoves, heof⟩ := hx s₂ (hreader'.trans hreader)
    rw [bind_of_ok hback, hrun]
    refine ⟨_, .cons hleads (.single (hsource ▸ hleads')), .back p _, hmoves, by simp,
      fun h' => .inl (heof ▸ h'), .inl ((hlog.trans hsame').trans hsame), fun e s' he => ?_,
      fun e s' he => ?_, fun c hc e he => ?_⟩
    · cases he
    · cases he
    · simp only [List.mem_cons, List.not_mem_nil, or_false] at hc
      rcases hc with rfl | rfl
      · cases he
      · cases he
  · obtain ⟨hleads', hreader', hsame'⟩ := putBack_error_leads hback
    rw [bind_of_error hback]
    exact ⟨_, looks_of_failure [_] (.cons hleads (.single hleads')) (.back p _)
      ⟨hreader'.trans hreader, hsame'.trans hsame⟩ rfl (by simp [Call.fault?]) (by simp)⟩

theorem looks_of_skip (h : ask s = .ok (some p) s₁) {x : Action (Reading σ) (Option Piece)}
    (hx : ∀ s₂ : Reading σ, s₂.reader = s.reader → ∃ a s₃,
      (do finish; x : Action (Reading σ) _) s₂ = .ok a s₃ ∧ s₃.source = s₂.source ∧
        s₃.log = s₂.log ∧ s.reader.Moves s₃.reader ∧ s₃.reader.eof = true) :
    ∃ cs, Looks s ((do let _ ← ask; finish; x : Action (Reading σ) _) s₁) cs := by
  have hreader := (ask_leads h).2.1
  rcases hskip : ask s₁ with ⟨o, s₂⟩ | ⟨e, s₂⟩
  · have hreader' := (ask_leads hskip).2.1
    obtain ⟨a, s₃, hrun, hsource, hlog, hmoves, heof⟩ := hx s₂ (hreader'.trans hreader)
    rw [bind_of_ok hskip, hrun]
    exact ⟨_, .cons h (.refl _) rfl rfl
      (looks_of_ask hskip hsource (hreader ▸ hmoves) (fun _ => heof) (.inl hlog))⟩
  · rw [bind_of_error hskip]
    exact ⟨_, .cons h (.refl _) rfl rfl (looks_of_ask_error hskip)⟩

/-! ### The places at which a reader looks ahead -/

omit [AnySource σ] in
theorem moves_stage {t : Text} (ht : t = [] ∨ t = dot) (hreader : s₁.reader = s.reader)
    (hbegun : s.reader.atBeginning = false) :
    s.reader.Moves { s₁.reader with pending := s₁.reader.eol ++ t, cursor := 1 } := by
  rw [hreader]
  refine ⟨rfl, rfl, id, id, .inr ⟨?_, rfl, hbegun⟩⟩
  rcases ht with rfl | rfl
  · exact .inl (List.append_nil _)
  · exact .inr rfl

omit [AnySource σ] in
theorem moves_stage_end (hreader : s₁.reader = s.reader)
    (hbegun : s.reader.atBeginning = false) :
    s.reader.Moves
      { s₁.reader with eof := true, pending := s₁.reader.eol ++ [], cursor := 1 } := by
  obtain ⟨heol, hclosed, -, hstays, hpending⟩ := moves_stage (.inl rfl) hreader hbegun
  exact ⟨heol, hclosed, fun _ => rfl, hstays, hpending⟩

omit [AnySource σ] in
theorem moves_finish : s.reader.Moves { s.reader with eof := true } :=
  ⟨rfl, rfl, fun _ => rfl, id, .inl ⟨rfl, rfl⟩⟩

theorem exists_looks_of_ask {k : Option Piece → Action (Reading σ) (Option Piece)}
    (hk : ∀ o s₁, ask s = .ok o s₁ → ∃ cs, Looks s (k o s₁) cs) :
    ∃ cs, Looks s ((do k (← ask) : Action (Reading σ) _) s) cs := by
  rcases h : ask s with ⟨o, s₁⟩ | ⟨e, s₁⟩
  · rw [bind_of_ok h]
    exact hk o s₁ h
  · rw [bind_of_error h]
    exact ⟨_, looks_of_ask_error h⟩

theorem looks_afterCRLFDot (hbegun : s.reader.atBeginning = false) :
    ∃ cs, Looks s (afterCRLFDot s) cs := by
  refine exists_looks_of_ask fun o s₁ h => ?_
  have hreader := (ask_leads h).2.1
  cases o with
  | none =>
    have hmoves := moves_stage_end hreader hbegun
    exact ⟨_, looks_of_ask h rfl hmoves (fun _ => rfl) (.inr ⟨rfl, rfl⟩)⟩
  | some p =>
    by_cases hp : p = dot
    · simp only [hp, ↓reduceIte]
      exact ⟨_, looks_of_ask h rfl (moves_stage (.inr rfl) hreader hbegun) (by simp) (.inl rfl)⟩
    · simp only [hp, ↓reduceIte]
      refine looks_of_skip h fun s₂ h₂ => ?_
      have hmoves := moves_stage_end h₂ hbegun
      exact ⟨_, _, rfl, rfl, rfl, hmoves, rfl⟩

theorem looks_afterCRLF (hbegun : s.reader.atBeginning = false) :
    ∃ cs, Looks s (afterCRLF s) cs := by
  refine exists_looks_of_ask fun o s₁ h => ?_
  have hreader := (ask_leads h).2.1
  cases o with
  | none =>
    have hmoves := moves_stage_end hreader hbegun
    exact ⟨_, looks_of_ask h rfl hmoves (fun _ => rfl) (.inr ⟨rfl, rfl⟩)⟩
  | some p =>
    by_cases hp : p = dot
    · simp only [hp, ↓reduceIte]
      obtain ⟨cs, hcs⟩ := looks_afterCRLFDot (hreader ▸ hbegun)
      exact ⟨_, .cons (hp ▸ h) (.refl _) rfl rfl hcs⟩
    · simp only [hp, ↓reduceIte]
      exact looks_of_putBack h fun s₂ h₂ =>
        ⟨_, _, rfl, rfl, rfl, moves_stage (.inl rfl) h₂ hbegun,
          show s₂.reader.eof = s.reader.eof from congrArg Reader.eof h₂⟩

theorem looks_afterCR (hbegun : s.reader.atBeginning = false) :
    ∃ cs, Looks s (afterCR s) cs := by
  refine exists_looks_of_ask fun o s₁ h => ?_
  have hreader := (ask_leads h).2.1
  cases o with
  | none => exact ⟨_, looks_of_ask h rfl (hreader ▸ moves_finish) (fun _ => rfl) (.inr ⟨rfl, rfl⟩)⟩
  | some p =>
    by_cases hp : p = lf
    · simp only [hp, ↓reduceIte]
      obtain ⟨cs, hcs⟩ := looks_afterCRLF (hreader ▸ hbegun)
      exact ⟨_, .cons (hp ▸ h) (.refl _) rfl rfl hcs⟩
    · simp only [hp, ↓reduceIte]
      exact looks_of_putBack h fun s₂ h₂ => ⟨_, _, rfl, rfl, rfl, h₂ ▸ .refl _, congrArg _ h₂⟩

theorem looks_afterFirstDot (s : Reading σ) : ∃ cs, Looks s (afterFirstDot s) cs := by
  refine exists_looks_of_ask fun o s₁ h => ?_
  have hreader := (ask_leads h).2.1
  cases o with
  | none => exact ⟨_, looks_of_ask h rfl (hreader ▸ moves_finish) (fun _ => rfl) (.inr ⟨rfl, rfl⟩)⟩
  | some p =>
    by_cases hp : p = dot
    · simp only [hp, ↓reduceIte]
      exact ⟨_, looks_of_ask h rfl (hreader ▸ .refl _) (by simp) (.inl rfl)⟩
    · simp only [hp, ↓reduceIte]
      exact looks_of_skip h fun s₂ h₂ => ⟨_, _, rfl, rfl, rfl, h₂ ▸ moves_finish, rfl⟩

/-- **A call that reads on looks ahead once.** -/
theorem looks_readOn (s : Reading σ) : ∃ cs, Looks s (readOn s) cs := by
  refine exists_looks_of_ask fun o s₁ h => ?_
  have hreader := (ask_leads h).2.1
  cases o with
  | none => exact ⟨_, looks_of_ask h rfl (hreader ▸ moves_finish) (fun _ => rfl) (.inr ⟨rfl, rfl⟩)⟩
  | some p =>
    -- from here on something has been read
    let s₂ : Reading σ := { s₁ with reader := { s₁.reader with atBeginning := false } }
    have hbegins : s₁.reader.Begins s₂.reader := .inr rfl
    simp only [bind_apply, leaveBeginning]
    split
    · obtain ⟨cs, hcs⟩ := looks_afterFirstDot s₂
      exact ⟨_, .cons h hbegins rfl rfl hcs⟩
    · split
      · obtain ⟨cs, hcs⟩ := looks_afterCR (s := s₂) rfl
        exact ⟨_, .cons h hbegins rfl rfl hcs⟩
      · have hsource : s₂.source = s₁.source := rfl
        exact ⟨_, looks_of_ask h hsource (hreader ▸ hbegins.moves) (by simp) (.inl rfl)⟩

/-! ### Calls -/

theorem readOne_eq_readOn (hstaged : s.reader.staged = []) (heof : s.reader.eof = false)
    (hclosed : s.reader.closed = false) : readOne s = readOn s := by
  simp [readOne, hstaged, heof, hclosed]

/-- **What a call may do.** It hands out a staged character, it finds the message over, or it looks
ahead. -/
theorem readOne_cases (s : Reading σ) :
    (∃ c t, s.reader.staged = c :: t ∧ readOne s =
        .ok (some [c]) { s with reader := { s.reader with cursor := s.reader.cursor + 1 } }) ∨
      (s.reader.staged = [] ∧ (s.reader.eof || s.reader.closed) = true ∧
        readOne s = .ok none s) ∨
      s.reader.staged = [] ∧ s.reader.eof = false ∧ s.reader.closed = false ∧
        ∃ cs, Looks s (readOne s) cs := by
  unfold readOne
  cases hst : s.reader.staged with
  | cons c t => exact .inl ⟨c, t, rfl, rfl⟩
  | nil =>
    cases hover : s.reader.eof || s.reader.closed with
    | true => exact .inr (.inl ⟨rfl, rfl, rfl⟩)
    | false =>
      obtain ⟨heof, hclosed⟩ := Bool.or_eq_false_iff.1 hover
      exact .inr (.inr ⟨rfl, heof, hclosed, looks_readOn s⟩)

theorem eol_readOne (s : Reading σ) : (stateAfter (readOne s)).reader.eol = s.reader.eol := by
  rcases readOne_cases s with ⟨c, t, -, hrun⟩ | ⟨-, -, hrun⟩ | ⟨-, -, -, cs, hlooks⟩
  · rw [hrun]
    rfl
  · rw [hrun]
    rfl
  · exact hlooks.moves.eol

/-! ### Calls that hand out nothing -/

variable {z : Reading σ}

omit [AnySource σ] in
theorem stage_ne_none {t : Text} : stage t s ≠ .ok none z := by
  intro h
  cases h

theorem afterCRLFDot_ne_none : afterCRLFDot s ≠ .ok none z := by
  intro h
  obtain ⟨o, m, -, h⟩ := exists_of_bind_ok h
  cases o with
  | none =>
    obtain ⟨-, m', -, h⟩ := exists_of_bind_ok h
    exact stage_ne_none h
  | some p =>
    simp only at h
    split at h
    · exact stage_ne_none h
    · obtain ⟨-, m', -, h⟩ := exists_of_bind_ok h
      obtain ⟨-, m'', -, h⟩ := exists_of_bind_ok h
      exact stage_ne_none h

theorem afterCRLF_ne_none : afterCRLF s ≠ .ok none z := by
  intro h
  obtain ⟨o, m, -, h⟩ := exists_of_bind_ok h
  cases o with
  | none =>
    obtain ⟨-, m', -, h⟩ := exists_of_bind_ok h
    exact stage_ne_none h
  | some p =>
    simp only at h
    split at h
    · exact afterCRLFDot_ne_none h
    · obtain ⟨-, m', -, h⟩ := exists_of_bind_ok h
      exact stage_ne_none h

theorem afterCR_ne_none : afterCR s ≠ .ok none z := by
  intro h
  obtain ⟨o, m, -, h⟩ := exists_of_bind_ok h
  cases o with
  | none =>
    obtain ⟨-, m', -, h⟩ := exists_of_bind_ok h
    cases h
  | some p =>
    simp only at h
    split at h
    · exact afterCRLF_ne_none h
    · obtain ⟨-, m', -, h⟩ := exists_of_bind_ok h
      cases h

theorem reader_of_afterFirstDot_none (h : afterFirstDot s = .ok none z) :
    z.reader = { s.reader with eof := true } := by
  obtain ⟨o, m, hm, h⟩ := exists_of_bind_ok h
  have hreader := (ask_leads hm).2.1
  cases o with
  | none =>
    obtain ⟨⟨⟩, m', hm', h⟩ := exists_of_bind_ok h
    cases hm'
    cases h
    rw [← hreader]
  | some p =>
    simp only at h
    split at h
    · cases h
    · obtain ⟨o, m', hm', h⟩ := exists_of_bind_ok h
      obtain ⟨⟨⟩, m'', hm'', h⟩ := exists_of_bind_ok h
      cases hm''
      cases h
      rw [← hreader, ← (ask_leads hm').2.1]

/-- **Reading on hands out nothing only when the message is over.** -/
theorem over_of_readOn_none (h : readOn s = .ok none z) :
    z.reader.eof = true ∧ z.reader.staged = s.reader.staged := by
  obtain ⟨o, m, hm, h⟩ := exists_of_bind_ok h
  have hstaged : m.reader.staged = s.reader.staged := congrArg Reader.staged (ask_leads hm).2.1
  cases o with
  | none =>
    obtain ⟨⟨⟩, m', hm', h⟩ := exists_of_bind_ok h
    cases hm'
    cases h
    exact ⟨rfl, hstaged⟩
  | some p =>
    obtain ⟨first, m', hm', h⟩ := exists_of_bind_ok h
    cases hm'
    split at h
    · rw [reader_of_afterFirstDot_none h]
      exact ⟨rfl, hstaged⟩
    · split at h
      · exact absurd h afterCR_ne_none
      · cases h

/-- A call hands out nothing only when nothing is staged and the message is over, or the reader is
done with its source. -/
theorem over_of_readOne_none (h : readOne s = .ok none z) :
    z.reader.staged = [] ∧ (z.reader.eof = true ∨ z.reader.closed = true) := by
  rcases readOne_cases s with ⟨c, t, -, hrun⟩ | ⟨hstaged, hover, hrun⟩ | ⟨hstaged, heof, hclosed, -⟩
  · cases hrun.symm.trans h
  · cases hrun.symm.trans h
    exact ⟨hstaged, Bool.or_eq_true_iff.1 hover⟩
  · rw [readOne_eq_readOn hstaged heof hclosed] at h
    obtain ⟨hover, hkept⟩ := over_of_readOn_none h
    exact ⟨hkept.trans hstaged, .inl hover⟩

end Reading

end DotFraming
