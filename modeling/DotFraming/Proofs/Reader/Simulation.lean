import Mathlib.Data.List.Forall2
import DotFraming.Proofs.Reader.Operations
import DotFraming.Proofs.Source.Simulation

/-!
# Readers side by side

A reader knows its source by the calls it makes, and its log by what it notes there. So two readers
in the same state, over sources and logs that stay related, do the same: they give the same answers,
and their sources and logs are related again.

* `Reading.Alike` : the same reader over related sources, writing to related logs.
* `Reading.simulates_readOne` : one call.
* `Operation.perform_alike`, `Operation.performAll_alike` : **all operations.**
-/

namespace DotFraming

variable {σ ρ : Type} {R : σ → ρ → Prop} {Q : Log → Log → Prop}

/-- The same reader over related sources, writing to related logs. -/
inductive Reading.Alike (R : σ → ρ → Prop) (Q : Log → Log → Prop) :
    Reading σ → Reading ρ → Prop where
  /-- Only the sources and the logs may differ. -/
  | intro (reader : Reader) {s : σ} {t : ρ} {l m : Log} (source : R s t) (log : Q l m) :
    Alike R Q ⟨reader, s, l⟩ ⟨reader, t, m⟩

namespace Reading

/-! ### The parts of a call -/

theorem simulates_finish : Simulates (Alike R Q) finish finish := by
  rintro _ _ ⟨r, hsource, hlog⟩
  exact .ok _ ⟨_, hsource, hlog⟩

theorem simulates_leaveBeginning : Simulates (Alike R Q) leaveBeginning leaveBeginning := by
  rintro _ _ ⟨r, hsource, hlog⟩
  exact .ok _ ⟨_, hsource, hlog⟩

theorem simulates_stage (t : Text) : Simulates (Alike R Q) (stage t) (stage t) := by
  rintro _ _ ⟨r, hsource, hlog⟩
  exact .ok _ ⟨_, hsource, hlog⟩

variable [CharacterSource σ] [CharacterSource ρ] (h : Simulation R Q)
include h

theorem simulates_truncated : Simulates (Alike R Q) truncated truncated := by
  rintro _ _ ⟨r, hsource, hlog⟩
  exact .ok _ ⟨_, hsource, h.note _ _ hlog _ _ _⟩

theorem simulates_ask : Simulates (Alike R Q) ask ask := by
  rintro _ _ (@⟨r, s, t, l, m, hsource, hlog⟩)
  cases hs : (CharacterSource.read s : EStateM.Result Fault σ _) with
  | ok o s' =>
    obtain ⟨t', ht, hrel⟩ := (h.read s t hsource).of_ok hs
    rw [ask_of_read (s := ⟨r, s, l⟩) hs, ask_of_read (s := ⟨r, t, m⟩) ht]
    exact .ok o ⟨r, hrel, hlog⟩
  | error e s' =>
    obtain ⟨t', ht, hrel⟩ := (h.read s t hsource).of_error hs
    rw [ask_of_read_error (s := ⟨r, s, l⟩) hs, ask_of_read_error (s := ⟨r, t, m⟩) ht]
    exact .error e ⟨r, hrel, hlog⟩

theorem simulates_putBack (p : Piece) : Simulates (Alike R Q) (putBack p) (putBack p) := by
  rintro _ _ (@⟨r, s, t, l, m, hsource, hlog⟩)
  cases hs : (CharacterSource.unread p s : EStateM.Result Fault σ _) with
  | ok o s' =>
    obtain ⟨t', ht, hrel⟩ := (h.unread p s t hsource).of_ok hs
    rw [putBack_of_unread (s := ⟨r, s, l⟩) hs, putBack_of_unread (s := ⟨r, t, m⟩) ht]
    exact .ok o ⟨r, hrel, hlog⟩
  | error e s' =>
    obtain ⟨t', ht, hrel⟩ := (h.unread p s t hsource).of_error hs
    rw [putBack_of_unread_error (s := ⟨r, s, l⟩) hs, putBack_of_unread_error (s := ⟨r, t, m⟩) ht]
    exact .error e ⟨r, hrel, hlog⟩

/-! ### One call -/

theorem simulates_afterCRLFDot : Simulates (Alike R Q) afterCRLFDot afterCRLFDot := by
  refine (simulates_ask h).bind fun o => ?_
  cases o with
  | none => exact (simulates_truncated h).bind fun _ => simulates_stage _
  | some p =>
    exact .ite (simulates_stage _)
      ((simulates_ask h).bind fun _ => simulates_finish.bind fun _ => simulates_stage _)

theorem simulates_afterCRLF : Simulates (Alike R Q) afterCRLF afterCRLF := by
  refine (simulates_ask h).bind fun o => ?_
  cases o with
  | none => exact (simulates_truncated h).bind fun _ => simulates_stage _
  | some p =>
    exact .ite (simulates_afterCRLFDot h)
      ((simulates_putBack h p).bind fun _ => simulates_stage _)

theorem simulates_afterCR : Simulates (Alike R Q) afterCR afterCR := by
  refine (simulates_ask h).bind fun o => ?_
  cases o with
  | none => exact (simulates_truncated h).bind fun _ => .pure _
  | some p => exact .ite (simulates_afterCRLF h) ((simulates_putBack h p).bind fun _ => .pure _)

theorem simulates_afterFirstDot : Simulates (Alike R Q) afterFirstDot afterFirstDot := by
  refine (simulates_ask h).bind fun o => ?_
  cases o with
  | none => exact (simulates_truncated h).bind fun _ => .pure _
  | some p =>
    exact .ite (.pure _)
      ((simulates_ask h).bind fun _ => simulates_finish.bind fun _ => .pure _)

theorem simulates_readOn : Simulates (Alike R Q) readOn readOn := by
  refine (simulates_ask h).bind fun o => ?_
  cases o with
  | none => exact (simulates_truncated h).bind fun _ => .pure _
  | some p =>
    exact simulates_leaveBeginning.bind fun _ =>
      .ite (simulates_afterFirstDot h) (.ite (simulates_afterCR h) (.pure _))

/-- **One call.** -/
theorem simulates_readOne : Simulates (Alike R Q) readOne readOne := by
  rintro _ _ ⟨r, hsource, hlog⟩
  unfold readOne
  cases r.staged with
  | cons c t => exact .ok _ ⟨_, hsource, hlog⟩
  | nil =>
    cases r.eof || r.closed with
    | true => exact .ok _ ⟨r, hsource, hlog⟩
    | false => exact simulates_readOn h _ _ ⟨r, hsource, hlog⟩

/-! ### The operations -/

section Loops

variable {s : Reading σ} {t : Reading ρ}

theorem collect_alike {β : Type} (wanted : β → Bool) (step : β → Piece → β) (b : β)
    (hst : Alike R Q s t) :
    (collect wanted step b t).1 = (collect wanted step b s).1 ∧
      Agree (Alike R Q) (collect wanted step b s).2 (collect wanted step b t).2 := by
  fun_induction collect wanted step b s generalizing t with
  | case1 b s hw p s' hcall ih =>
    obtain ⟨t', hcall', hst'⟩ := (simulates_readOne h s t hst).of_ok hcall
    rw [collect_of_some hw hcall']
    exact ih hst'
  | case2 b s hw s' hcall =>
    obtain ⟨t', hcall', hst'⟩ := (simulates_readOne h s t hst).of_ok hcall
    rw [collect_of_none hw hcall']
    exact ⟨rfl, .ok _ hst'⟩
  | case3 b s hw e s' hcall =>
    obtain ⟨t', hcall', hst'⟩ := (simulates_readOne h s t hst).of_error hcall
    rw [collect_of_error hw hcall']
    exact ⟨rfl, .error e hst'⟩
  | case4 b s hw =>
    rw [collect_of_enough (by simpa using hw)]
    exact ⟨rfl, .ok _ hst⟩

theorem take_alike (wanted : Collected → Bool) (hst : Alike R Q s t) :
    (take wanted t).1 = (take wanted s).1 ∧
      Agree (Alike R Q) (take wanted s).2 (take wanted t).2 :=
  collect_alike h _ _ _ hst

end Loops

theorem simulates_read (size : Int) : Simulates (Alike R Q) (read size) (read size) := by
  intro s t hst
  have htake := take_alike h (fun got => size < 0 || got.count < size) hst
  unfold read
  revert htake
  rcases take _ s with ⟨got, x⟩
  rcases take _ t with ⟨got', y⟩
  rintro ⟨rfl, ⟨_, hrel⟩ | ⟨e, hrel⟩⟩
  · exact .ok _ hrel
  · exact .error e hrel

theorem simulates_readLine : Simulates (Alike R Q) readLine readLine := by
  rintro _ _ ⟨r, hsource, hlog⟩
  have htake := take_alike h (fun got => !got.endsLine r.eol) ⟨r, hsource, hlog⟩
  unfold readLine
  revert htake
  rcases take _ ⟨r, _, _⟩ with ⟨got, x⟩
  rcases take _ ⟨r, _, _⟩ with ⟨got', y⟩
  rintro ⟨rfl, ⟨_, hrel⟩ | ⟨e, hrel⟩⟩
  · exact .ok _ hrel
  · exact .error e hrel

theorem simulates_next : Simulates (Alike R Q) next next :=
  (simulates_readLine h).bind fun _ => .pure _

theorem linesFrom_alike {s : Reading σ} {t : Reading ρ} (got : List Text) (hst : Alike R Q s t) :
    (linesFrom got t).1 = (linesFrom got s).1 ∧
      Agree (Alike R Q) (linesFrom got s).2 (linesFrom got t).2 := by
  fun_induction linesFrom got s generalizing t with
  | case1 got s s' hline =>
    obtain ⟨t', hline', hst'⟩ := (simulates_readLine h s t hst).of_ok hline
    rw [linesFrom_of_end hline']
    exact ⟨rfl, .ok _ hst'⟩
  | case2 got s line s' hline hne _ ih =>
    obtain ⟨t', hline', hst'⟩ := (simulates_readLine h s t hst).of_ok hline
    rw [linesFrom_of_line hline' hne]
    exact ih hst'
  | case3 got s e s' hline =>
    obtain ⟨t', hline', hst'⟩ := (simulates_readLine h s t hst).of_error hline
    rw [linesFrom_of_error hline']
    exact ⟨rfl, .error e hst'⟩

theorem simulates_lines : Simulates (Alike R Q) lines lines := by
  intro s t hst
  have hlines := linesFrom_alike h [] hst
  unfold lines
  revert hlines
  rcases linesFrom [] s with ⟨got, x⟩
  rcases linesFrom [] t with ⟨got', y⟩
  rintro ⟨rfl, ⟨_, hrel⟩ | ⟨e, hrel⟩⟩
  · exact .ok _ hrel
  · exact .error e hrel

theorem readInto_alike {s : Reading σ} {t : Reading ρ} (buffer : List Piece) (offset : Int)
    (length : Option Int) (hst : Alike R Q s t) :
    (readInto buffer offset length t).1 = (readInto buffer offset length s).1 ∧
      Agree (Alike R Q) (readInto buffer offset length s).2
        (readInto buffer offset length t).2 := by
  have htake := take_alike h (fun got => got.count < length.getD (buffer.length - offset)) hst
  unfold readInto
  simp only
  split
  · exact ⟨rfl, .ok _ hst⟩
  · split
    · exact ⟨rfl, .error _ hst⟩
    · split
      · exact ⟨rfl, .ok _ hst⟩
      · split
        · exact ⟨rfl, .error _ hst⟩
        · revert htake
          rcases take _ s with ⟨got, x⟩
          rcases take _ t with ⟨got', y⟩
          rintro ⟨rfl, ⟨_, hrel⟩ | ⟨e, hrel⟩⟩
          · exact ⟨rfl, .ok _ hrel⟩
          · exact ⟨rfl, .error e hrel⟩

theorem noteDiscarded_alike {s : Reading σ} {t : Reading ρ} (count : Nat) (hst : Alike R Q s t) :
    Alike R Q (noteDiscarded count s) (noteDiscarded count t) := by
  cases hst with
  | intro r hsource hlog =>
    unfold noteDiscarded
    split
    · exact ⟨r, hsource, hlog⟩
    · exact ⟨r, hsource, h.note _ _ hlog _ _ _⟩

omit h [CharacterSource σ] [CharacterSource ρ] in
theorem shut_alike {s : Reading σ} {t : Reading ρ} (hst : Alike R Q s t) :
    Alike R Q s.shut t.shut := by
  cases hst with
  | intro r hsource hlog => exact ⟨_, hsource, hlog⟩

theorem simulates_close : Simulates (Alike R Q) close close := by
  intro s t hst
  have hreader : t.reader = s.reader := by
    cases hst
    rfl
  have hdrain := collect_alike h (fun _ : Nat => true) (fun n _ => n + 1) 0 hst
  unfold close
  rw [hreader]
  split
  · exact .ok _ hst
  · split
    · exact .ok _ (shut_alike hst)
    -- the drain counts the same, so the same is noted
    · revert hdrain
      rcases collect _ _ 0 s with ⟨count, x⟩
      rcases collect _ _ 0 t with ⟨count', y⟩
      rintro ⟨rfl, ⟨_, hrel⟩ | ⟨e, hrel⟩⟩
      · exact .ok _ (shut_alike (noteDiscarded_alike h _ hrel))
      · exact .error e hrel

theorem ready_alike {s : Reading σ} {t : Reading ρ} (hst : Alike R Q s t) : t.ready = s.ready := by
  cases hst with
  | intro r hsource hlog =>
    unfold ready
    rw [h.ready _ _ hsource]

end Reading

/-! ### Requests -/

/-- The same answer, from readers that are alike. -/
structure Outcome.Alike (R : σ → ρ → Prop) (Q : Log → Log → Prop) (o : Outcome σ)
    (o' : Outcome ρ) : Prop where
  /-- The answer, or the failure. -/
  answer : o'.answer = o.answer
  /-- The buffer that came with the request. -/
  buffer : o'.buffer = o.buffer
  /-- What is left. -/
  after : Reading.Alike R Q o.after o'.after

theorem Outcome.alike_ofResult {α : Type} (kind : α → Answer)
    {r : EStateM.Result Fault (Reading σ) α} {r' : EStateM.Result Fault (Reading ρ) α}
    (h : Agree (Reading.Alike R Q) r r') :
    Outcome.Alike R Q (Outcome.ofResult kind r) (Outcome.ofResult kind r') := by
  cases h with
  | ok a hrel => exact ⟨rfl, rfl, hrel⟩
  | error e hrel => exact ⟨rfl, rfl, hrel⟩

namespace Operation

open Reading

variable [CharacterSource σ] [CharacterSource ρ] {s : Reading σ} {t : Reading ρ}

/-- **One operation** on readers that are alike. -/
theorem perform_alike (h : Simulation R Q) (op : Operation) (hst : Alike R Q s t) :
    Outcome.Alike R Q (op.perform s) (op.perform t) := by
  cases op with
  | readOne => exact Outcome.alike_ofResult _ (simulates_readOne h s t hst)
  | read size => exact Outcome.alike_ofResult _ (simulates_read h size s t hst)
  | readLine => exact Outcome.alike_ofResult _ (simulates_readLine h s t hst)
  | next => exact Outcome.alike_ofResult _ (simulates_next h s t hst)
  | lines => exact Outcome.alike_ofResult _ (simulates_lines h s t hst)
  | readInto buffer offset length =>
    obtain ⟨hbuffer, hresult⟩ := readInto_alike h buffer offset length hst
    obtain ⟨hanswer, -, hafter⟩ := Outcome.alike_ofResult .count hresult
    exact ⟨hanswer, congrArg some hbuffer, hafter⟩
  | ready => exact ⟨by rw [perform, perform, ready_alike h hst], rfl, hst⟩
  | close => exact Outcome.alike_ofResult _ (simulates_close h s t hst)

/-- **Operations one after another.** -/
theorem performAll_alike (h : Simulation R Q) (ops : List Operation) (hst : Alike R Q s t) :
    List.Forall₂ (Outcome.Alike R Q) (performAll ops s).1 (performAll ops t).1 ∧
      Alike R Q (performAll ops s).2 (performAll ops t).2 := by
  induction ops generalizing s t with
  | nil => exact ⟨.nil, hst⟩
  | cons op ops ih =>
    have hone := perform_alike h op hst
    obtain ⟨hothers, hlast⟩ := ih hone.after
    exact ⟨.cons hone hothers, hlast⟩

end Operation

end DotFraming
