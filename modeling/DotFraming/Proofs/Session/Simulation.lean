import DotFraming.Proofs.Messages
import DotFraming.Proofs.Reader.Simulation
import DotFraming.Proofs.Session.Conduct

/-!
# Messages decoded side by side

What holds of two readers over related sources holds of whole messages that are decoded there: the
same lines are written, and it ends in the same way.

* `Decoding.Alike` : related sources and logs, and the same lines written.
* `Decoding.simulates_messages`, `Decoding.simulates_interrupted` : **decoding one message or all of
  them**, also into an output that fails.
-/

namespace DotFraming

variable {σ ρ : Type} {R : σ → ρ → Prop} {Q : Log → Log → Prop}

namespace Decoding

/-- Related sources and logs, and the same lines written. -/
inductive Alike (R : σ → ρ → Prop) (Q : Log → Log → Prop) : Decoding σ → Decoding ρ → Prop where
  /-- Only the sources and the logs may differ. -/
  | intro (written : List Text) {s : σ} {t : ρ} {l m : Log} (source : R s t) (log : Q l m) :
    Alike R Q ⟨s, l, written⟩ ⟨t, m, written⟩

theorem alike_resume {s : Reading σ} {t : Reading ρ} (written : List Text)
    (h : Reading.Alike R Q s t) : Alike R Q (resume written s) (resume written t) := by
  cases h with
  | intro _ hsource hlog => exact ⟨written, hsource, hlog⟩

variable [CharacterSource σ] [CharacterSource ρ]

/-- A loop over lines that does the same with readers that are alike. -/
def SameLines (R : σ → ρ → Prop) (Q : Log → Log → Prop)
    (loop : List Text → Reading σ → List Text × EStateM.Result Fault (Reading σ) Unit)
    (loop' : List Text → Reading ρ → List Text × EStateM.Result Fault (Reading ρ) Unit) : Prop :=
  ∀ (got : List Text) (s : Reading σ) (t : Reading ρ), Reading.Alike R Q s t →
    (loop' got t).1 = (loop got s).1 ∧
      Agree (Reading.Alike R Q) (loop got s).2 (loop' got t).2

section Loops

variable (h : Simulation R Q)
include h

theorem sameLines_linesFrom : SameLines R Q Reading.linesFrom Reading.linesFrom :=
  fun got _ _ => Reading.linesFrom_alike h got

theorem sameLines_linesInto (fault : Fault) (room : Nat) :
    SameLines R Q (linesInto fault room) (linesInto fault room) := by
  intro got s t hst
  -- the line is read in either case; how it goes on depends on the room that is left
  induction room using Nat.strongRecOn generalizing got s t with
  | _ room ih =>
    unfold linesInto
    cases hs : Reading.readLine s with
    | error e s' =>
      obtain ⟨t', ht, hrel⟩ := (Reading.simulates_readLine h s t hst).of_error hs
      rw [ht]
      exact ⟨rfl, .error e hrel⟩
    | ok line s' =>
      obtain ⟨t', ht, hrel⟩ := (Reading.simulates_readLine h s t hst).of_ok hs
      simp only [ht]
      split
      · exact ⟨rfl, .ok _ hrel⟩
      · cases room with
        | zero => exact ⟨rfl, .error fault hrel⟩
        | succ room => exact ih room (Nat.lt_succ_self room) _ _ _ hrel

theorem simulates_messageBy
    {loop : List Text → Reading σ → List Text × EStateM.Result Fault (Reading σ) Unit}
    {loop' : List Text → Reading ρ → List Text × EStateM.Result Fault (Reading ρ) Unit}
    (hloop : SameLines R Q loop loop') (eol : Text) :
    Simulates (Alike R Q) (messageBy loop eol) (messageBy loop' eol) := by
  rintro _ _ (@⟨written, s, t, l, m, hsource, hlog⟩)
  unfold messageBy
  cases Reader.new? eol with
  | error e => exact .error e ⟨written, hsource, hlog⟩
  | ok r =>
    have hlines := hloop written ⟨r, s, l⟩ ⟨r, t, m⟩ ⟨r, hsource, hlog⟩
    simp only [reading]
    revert hlines
    rcases loop written ⟨r, s, l⟩ with ⟨got, x⟩
    rcases loop' written ⟨r, t, m⟩ with ⟨got', y⟩
    -- the reader is closed in any case, and a failure of that counts first
    rintro ⟨rfl, @⟨_, s', t', hrel⟩ | @⟨e, s', t', hrel⟩⟩
    · have hclose := Reading.simulates_close h s' t' hrel
      simp only
      generalize Reading.close s' = x, Reading.close t' = y at hclose
      cases hclose with
      | ok _ hrel' => exact .ok _ (alike_resume _ hrel')
      | error e hrel' => exact .error e (alike_resume _ hrel')
    · have hclose := Reading.simulates_close h s' t' hrel
      simp only
      generalize Reading.close s' = x, Reading.close t' = y at hclose
      cases hclose with
      | ok _ hrel' => exact .error e (alike_resume _ hrel')
      | error e' hrel' => exact .error e' (alike_resume _ hrel')

theorem simulates_message (eol : Text) : Simulates (Alike R Q) (message eol) (message eol) := by
  rw [← messageBy_linesFrom, ← messageBy_linesFrom]
  exact simulates_messageBy h (sameLines_linesFrom h) eol

theorem simulates_more : Simulates (Alike R Q) more more := by
  rintro _ _ (@⟨written, s, t, l, m, hsource, hlog⟩)
  have hread := h.read s t hsource
  unfold more
  cases hs : (CharacterSource.read s : EStateM.Result Fault σ _) with
  | error e s' =>
    obtain ⟨t', ht, hrel⟩ := hread.of_error hs
    simp only [ht]
    exact .error e ⟨written, hrel, hlog⟩
  | ok o s' =>
    obtain ⟨t', ht, hrel⟩ := hread.of_ok hs
    simp only [ht]
    cases o with
    | none => exact .ok false ⟨written, hrel, hlog⟩
    | some p =>
      have hback := h.unread p s' t' hrel
      simp only
      cases hu : (CharacterSource.unread p s' : EStateM.Result Fault σ _) with
      | ok _ s'' =>
        obtain ⟨t'', ht', hrel'⟩ := hback.of_ok hu
        simp only [ht']
        exact .ok true ⟨written, hrel', hlog⟩
      | error e s'' =>
        obtain ⟨t'', ht', hrel'⟩ := hback.of_error hu
        simp only [ht']
        exact .error e ⟨written, hrel', hlog⟩

theorem following_alike {s : Decoding σ} {t : Decoding ρ} (eol : Text) (count : Nat)
    (hs : ∃ p source, CharacterSource.read s.source = .ok (some p) source)
    (ht : ∃ p source, CharacterSource.read t.source = .ok (some p) source)
    (hst : Alike R Q s t) :
    Agree (Alike R Q) (following eol count s hs) (following eol count t ht) := by
  fun_induction following eol count s hs generalizing t with
  | case1 count s _ e s' hmessage =>
    obtain ⟨t', hmessage', hrel⟩ := (simulates_message h eol s t hst).of_error hmessage
    rw [following_of_error hmessage']
    exact .error e hrel
  | case2 count s _ s' hmessage e u hlook =>
    obtain ⟨t', hmessage', hrel⟩ := (simulates_message h eol s t hst).of_ok hmessage
    obtain ⟨v, hlook', hrel'⟩ := (simulates_more h s' t' hrel).of_error hlook
    rw [following_of_more_error hmessage' hlook']
    exact .error e hrel'
  | case3 count s _ s' hmessage u hlook =>
    obtain ⟨t', hmessage', hrel⟩ := (simulates_message h eol s t hst).of_ok hmessage
    obtain ⟨v, hlook', hrel'⟩ := (simulates_more h s' t' hrel).of_ok hlook
    rw [following_of_last hmessage' hlook']
    exact .ok _ hrel'
  | case4 count s _ s' hmessage u hlook _ ih =>
    obtain ⟨t', hmessage', hrel⟩ := (simulates_message h eol s t hst).of_ok hmessage
    obtain ⟨v, hlook', hrel'⟩ := (simulates_more h s' t' hrel).of_ok hlook
    rw [following_of_next hmessage' hlook']
    exact ih _ hrel'

/-- **One message or all of them.** -/
theorem simulates_messages (eol : Text) (all : Bool) :
    Simulates (Alike R Q) (messages eol all) (messages eol all) := by
  intro s t hst
  cases hs : message eol s with
  | error e s' =>
    obtain ⟨t', ht, hrel⟩ := (simulates_message h eol s t hst).of_error hs
    simp only [messages, hs, ht]
    exact .error e hrel
  | ok _ s' =>
    obtain ⟨t', ht, hrel⟩ := (simulates_message h eol s t hst).of_ok hs
    cases all with
    | false =>
      simp only [messages, hs, ht, Bool.false_eq_true, ↓reduceIte]
      exact .ok 1 hrel
    | true =>
      have hlook := simulates_more h s' t' hrel
      rcases hu : more s' with ⟨_ | _, u⟩ | ⟨e, u⟩
      · obtain ⟨v, hv, hrel'⟩ := hlook.of_ok hu
        rw [messages_of_last hs hu, messages_of_last ht hv]
        exact .ok 1 hrel'
      · obtain ⟨v, hv, hrel'⟩ := hlook.of_ok hu
        rw [messages_of_next hs hu, messages_of_next ht hv]
        exact following_alike h eol 1 _ _ hrel'
      · obtain ⟨v, hv, hrel'⟩ := hlook.of_error hu
        rw [messages_of_more_error hs hu, messages_of_more_error ht hv]
        exact .error e hrel'

/-- **Messages decoded into an output that fails.** -/
theorem simulates_interrupted (eol : Text) (fault : Fault) (room count : Nat) :
    Simulates (Alike R Q) (interrupted eol fault room count)
      (interrupted eol fault room count) := by
  induction count with
  | zero => exact simulates_messageBy h (sameLines_linesInto h fault room) eol
  | succ count ih =>
    intro s t hst
    unfold interrupted
    cases hs : message eol s with
    | error e s' =>
      obtain ⟨t', ht, hrel⟩ := (simulates_message h eol s t hst).of_error hs
      rw [ht]
      exact .error e hrel
    | ok _ s' =>
      obtain ⟨t', ht, hrel⟩ := (simulates_message h eol s t hst).of_ok hs
      have hlook := simulates_more h s' t' hrel
      simp only [ht]
      rcases hu : more s' with ⟨_ | _, u⟩ | ⟨e, u⟩
      · obtain ⟨v, hv, hrel'⟩ := hlook.of_ok hu
        simp only [hv]
        exact .ok () hrel'
      · obtain ⟨v, hv, hrel'⟩ := hlook.of_ok hu
        simp only [hv]
        exact ih u v hrel'
      · obtain ⟨v, hv, hrel'⟩ := hlook.of_error hu
        simp only [hv]
        exact .error e hrel'

end Loops

end Decoding

end DotFraming
