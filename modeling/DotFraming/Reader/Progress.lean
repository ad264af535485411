import DotFraming.Reader

/-!
# Readers make progress

Every piece that a reader hands out uses up something: a staged character, or something of the
source. Hence every loop over `readOne` ends.

* `Reading.supply`, `Reading.size` : what the source has left, and what is left in all.
* `Reading.size_readOne_add` : **a piece handed out makes what is left smaller**, and no call makes
  it larger.
* `Reading.supply_readOne` : the source never has more left than before.
* `Reading.supply_readOne_fresh` : a reader that has read nothing uses something up, if there is
  something.
-/

namespace DotFraming

namespace Reading

variable {σ : Type} [CharacterSource σ]

/-- What the source has left. -/
def supply (s : Reading σ) : Nat := CharacterSource.remaining s.source

/-- What is left for the reader. A piece of the source counts for more than a reader ever stages
in one go. -/
def size (s : Reading σ) : Nat := s.supply * (s.reader.eol.length + 2) + s.reader.staged.length

/-! ### The two calls on the source -/

theorem ask_ok {s s' : Reading σ} {o : Option Piece} (h : ask s = .ok o s') :
    s'.reader = s.reader ∧ s'.supply + o.toList.length ≤ s.supply := by
  unfold ask at h
  have hle := CharacterSource.remaining_read s.source
  split at h
  · next hr =>
    cases h
    cases o with
    | none => simpa [supply, hr] using hle
    | some p => exact ⟨rfl, CharacterSource.remaining_read_some hr⟩
  · cases h

theorem ask_error {s s' : Reading σ} {e : Fault} (h : ask s = .error e s') :
    s'.reader = s.reader ∧ s'.supply ≤ s.supply := by
  unfold ask at h
  have hle := CharacterSource.remaining_read s.source
  split at h
  · cases h
  · next hr =>
    cases h
    simpa [supply, hr] using hle

theorem putBack_bound (s : Reading σ) (p : Piece) :
    (stateAfter (putBack p s)).reader = s.reader ∧
      (stateAfter (putBack p s)).supply ≤ s.supply + 1 := by
  unfold putBack
  have hle := CharacterSource.remaining_unread s.source p
  split <;> next hu => simpa [supply, hu] using hle

/-! ### What a call may leave -/

/-- The number of pieces that a call handed out. -/
def handedOut : EStateM.Result Fault (Reading σ) (Option Piece) → Nat
  | .ok (some _) _ => 1
  | .ok none _ => 0
  | .error _ _ => 0

/-- A call that started with nothing staged has not added to the source and has kept the line
ending. If it handed something out, it staged less than the line ending and a dot, else nothing. -/
def Settled (s : Reading σ) (r : EStateM.Result Fault (Reading σ) (Option Piece)) : Prop :=
  (stateAfter r).supply ≤ s.supply ∧ (stateAfter r).reader.eol = s.reader.eol ∧
    (stateAfter r).reader.staged.length ≤ handedOut r * s.reader.eol.length

theorem Settled.of_le {s s₁ : Reading σ} {r : EStateM.Result Fault (Reading σ) (Option Piece)}
    (h : Settled s₁ r) (hs : s₁.supply ≤ s.supply) (he : s₁.reader.eol = s.reader.eol) :
    Settled s r := by
  obtain ⟨h₁, h₂, h₃⟩ := h
  exact ⟨Nat.le_trans h₁ hs, h₂.trans he, he ▸ h₃⟩

theorem settled_of_unstaged {s : Reading σ}
    {r : EStateM.Result Fault (Reading σ) (Option Piece)}
    (hs : (stateAfter r).supply ≤ s.supply) (he : (stateAfter r).reader.eol = s.reader.eol)
    (hr : (stateAfter r).reader.staged = []) : Settled s r :=
  ⟨hs, he, by simp [hr]⟩

theorem settled_stage (s : Reading σ) {t : Text} (ht : t.length ≤ 1) : Settled s (stage t s) := by
  refine ⟨Nat.le_refl _, rfl, ?_⟩
  simp only [stage, stateAfter_ok, handedOut, Reader.staged, List.length_drop,
    List.length_append]
  omega

theorem settled_finish_stage (s : Reading σ) :
    Settled s ((do finish; stage [] : Action (Reading σ) _) s) := by
  rw [bind_apply]
  exact (settled_stage _ (by simp)).of_le (Nat.le_refl _) rfl

theorem settled_truncated_stage (s : Reading σ) :
    Settled s ((do truncated; stage [] : Action (Reading σ) _) s) := by
  rw [bind_apply]
  exact (settled_stage _ (by simp)).of_le (Nat.le_refl _) rfl

theorem settled_truncated_pure {s : Reading σ} (hs : s.reader.staged = []) (o : Option Piece) :
    Settled s ((do truncated; pure o : Action (Reading σ) _) s) :=
  settled_of_unstaged (Nat.le_refl _) rfl hs

/-- Putting back what was read just before leaves the source with no more than it had. -/
theorem settled_putBack {s s₁ : Reading σ} {p : Piece} (hs : s.reader.staged = [])
    (h : ask s = .ok (some p) s₁) {x : Action (Reading σ) (Option Piece)}
    (hx : ∀ s' : Reading σ, s'.reader = s.reader → Settled s' (x s')) :
    Settled s ((do putBack p; x : Action (Reading σ) _) s₁) := by
  obtain ⟨hr, hle⟩ := ask_ok h
  have hb := putBack_bound s₁ p
  simp only [Option.toList_some, List.length_cons, List.length_nil] at hle
  rw [bind_apply]
  rcases hp : putBack p s₁ with ⟨⟨⟩, s₂⟩ | ⟨e, s₂⟩
  · rw [hp] at hb
    simp only [stateAfter_ok] at hb
    exact (hx s₂ (hb.1.trans hr)).of_le (by omega) (by rw [hb.1, hr])
  · rw [hp] at hb
    simp only [stateAfter_error] at hb
    exact settled_of_unstaged (by simp only [stateAfter_error]; omega)
      (by simp only [stateAfter_error]; rw [hb.1, hr])
      (by simp only [stateAfter_error]; rw [hb.1, hr, hs])

theorem settled_ask {s : Reading σ} (hs : s.reader.staged = [])
    {k : Option Piece → Action (Reading σ) (Option Piece)}
    (hk : ∀ o s₁, ask s = .ok o s₁ → Settled s (k o s₁)) :
    Settled s ((do k (← ask) : Action (Reading σ) _) s) := by
  rw [bind_apply]
  rcases h : ask s with ⟨o, s₁⟩ | ⟨e, s₁⟩
  · exact hk o s₁ h
  · obtain ⟨hr, hle⟩ := ask_error h
    exact settled_of_unstaged hle (by simp [hr]) (by simp [hr, hs])

theorem settled_skip {s s₁ : Reading σ} (hs : s.reader.staged = []) {o : Option Piece}
    (h : ask s = .ok o s₁) {x : Action (Reading σ) (Option Piece)}
    (hx : ∀ s' : Reading σ, s'.reader = s.reader → Settled s' (x s')) :
    Settled s ((do let _ ← ask; x : Action (Reading σ) _) s₁) := by
  obtain ⟨hr, hle⟩ := ask_ok h
  refine Settled.of_le (settled_ask (hr ▸ hs) fun o' s₂ h' => ?_) (by omega) (by rw [hr])
  obtain ⟨hr', hle'⟩ := ask_ok h'
  exact (hx s₂ (hr'.trans hr)).of_le (by omega) (by rw [hr'])

theorem settled_afterCRLFDot {s : Reading σ} (hs : s.reader.staged = []) :
    Settled s (afterCRLFDot s) := by
  refine settled_ask hs fun o s₁ h => ?_
  obtain ⟨hr, hle⟩ := ask_ok h
  cases o with
  | none => exact (settled_truncated_stage s₁).of_le (by omega) (by rw [hr])
  | some p =>
    by_cases hp : p = dot
    · simp only [hp, ↓reduceIte]
      exact (settled_stage s₁ (by decide)).of_le (by omega) (by rw [hr])
    · simp only [hp, ↓reduceIte]
      exact settled_skip hs h fun s' _ => settled_finish_stage s'

theorem settled_afterCRLF {s : Reading σ} (hs : s.reader.staged = []) :
    Settled s (afterCRLF s) := by
  refine settled_ask hs fun o s₁ h => ?_
  obtain ⟨hr, hle⟩ := ask_ok h
  cases o with
  | none => exact (settled_truncated_stage s₁).of_le (by omega) (by rw [hr])
  | some p =>
    by_cases hp : p = dot
    · simp only [hp, ↓reduceIte]
      exact (settled_afterCRLFDot (hr ▸ hs)).of_le (by omega) (by rw [hr])
    · simp only [hp, ↓reduceIte]
      exact settled_putBack hs h fun s' _ => settled_stage s' (by simp)

theorem settled_afterCR {s : Reading σ} (hs : s.reader.staged = []) : Settled s (afterCR s) := by
  refine settled_ask hs fun o s₁ h => ?_
  obtain ⟨hr, hle⟩ := ask_ok h
  cases o with
  | none => exact (settled_truncated_pure (hr ▸ hs) _).of_le (by omega) (by rw [hr])
  | some p =>
    by_cases hp : p = lf
    · simp only [hp, ↓reduceIte]
      exact (settled_afterCRLF (hr ▸ hs)).of_le (by omega) (by rw [hr])
    · simp only [hp, ↓reduceIte]
      exact settled_putBack hs h fun s' h' => settled_of_unstaged (Nat.le_refl _) rfl (h' ▸ hs)

theorem settled_afterFirstDot {s : Reading σ} (hs : s.reader.staged = []) :
    Settled s (afterFirstDot s) := by
  refine settled_ask hs fun o s₁ h => ?_
  obtain ⟨hr, hle⟩ := ask_ok h
  cases o with
  | none => exact (settled_truncated_pure (hr ▸ hs) _).of_le (by omega) (by rw [hr])
  | some p =>
    by_cases hp : p = dot
    · simp only [hp, ↓reduceIte]
      exact settled_of_unstaged (by simp only [pure_apply, stateAfter_ok]; omega)
        (by simp [pure_apply, hr]) (by simp [pure_apply, hr, hs])
    · simp only [hp, ↓reduceIte]
      exact settled_skip hs h fun s' h' =>
        settled_of_unstaged (Nat.le_refl _) rfl (show s'.reader.staged = [] from h' ▸ hs)

theorem settled_afterAsk {s : Reading σ} (hs : s.reader.staged = []) (p : Piece) :
    Settled s ((do
      let first ← leaveBeginning
      if first = true ∧ p = dot then afterFirstDot
      else if p = cr then afterCR
      else pure (some p) : Action (Reading σ) _) s) := by
  rw [bind_apply]
  simp only [leaveBeginning]
  have key : ∀ s' : Reading σ, s'.source = s.source → s'.reader.eol = s.reader.eol →
      s'.reader.staged = [] →
      Settled s ((if s.reader.atBeginning = true ∧ p = dot then afterFirstDot
        else if p = cr then afterCR else pure (some p) : Action (Reading σ) _) s') := by
    intro s' hsrc heol hst
    have hle : s'.supply ≤ s.supply := Nat.le_of_eq (by simp [supply, hsrc])
    split
    · exact (settled_afterFirstDot hst).of_le hle heol
    · split
      · exact (settled_afterCR hst).of_le hle heol
      · exact settled_of_unstaged hle heol hst
  exact key _ rfl rfl hs

theorem supply_readOn_lt {s s₁ : Reading σ} {p : Piece} (hs : s.reader.staged = [])
    (h : ask s = .ok (some p) s₁) :
    (stateAfter (readOn s)).supply < s.supply ∧
      (stateAfter (readOn s)).reader.eol = s.reader.eol ∧
      (stateAfter (readOn s)).reader.staged.length ≤
        handedOut (readOn s) * s.reader.eol.length := by
  obtain ⟨hr, hle⟩ := ask_ok h
  simp only [Option.toList_some, List.length_cons, List.length_nil] at hle
  obtain ⟨h₁, h₂, h₃⟩ := settled_afterAsk (hr ▸ hs : s₁.reader.staged = []) p
  have hrun : readOn s = (do
      let first ← leaveBeginning
      if first = true ∧ p = dot then afterFirstDot
      else if p = cr then afterCR
      else pure (some p) : Action (Reading σ) _) s₁ := by
    unfold readOn
    rw [bind_apply, h]
  rw [hrun]
  exact ⟨by omega, h₂.trans (by rw [hr]), hr ▸ h₃⟩

theorem settled_readOn {s : Reading σ} (hs : s.reader.staged = []) : Settled s (readOn s) := by
  refine settled_ask hs fun o s₁ h => ?_
  obtain ⟨hr, hle⟩ := ask_ok h
  cases o with
  | none => exact (settled_truncated_pure (hr ▸ hs) _).of_le (by omega) (by rw [hr])
  | some p => exact (settled_afterAsk (hr ▸ hs) p).of_le (by omega) (by rw [hr])

/-! ### Progress -/

theorem readOn_of_ask_none {s s₁ : Reading σ} (h : ask s = .ok none s₁) :
    readOn s = (do truncated; pure none : Action (Reading σ) _) s₁ := by
  unfold readOn
  rw [bind_apply, h]

theorem readOn_of_ask_error {s s₁ : Reading σ} {e : Fault} (h : ask s = .error e s₁) :
    readOn s = .error e s₁ := by
  unfold readOn
  rw [bind_apply, h]

/-- **A piece handed out makes what is left smaller**, and no call makes it larger. -/
theorem size_readOne_add (s : Reading σ) :
    (stateAfter (readOne s)).size + handedOut (readOne s) ≤ s.size := by
  unfold readOne
  split
  · next c cs hst =>
    simp only [size, supply, stateAfter_ok, handedOut, Reader.staged_advance hst, hst,
      List.length_cons]
    omega
  · next hst =>
    split
    · simp [handedOut]
    · rcases ha : ask s with ⟨o, s₁⟩ | ⟨e, s₁⟩
      · cases o with
        | none =>
          obtain ⟨hr, hle⟩ := ask_ok ha
          rw [readOn_of_ask_none ha]
          have hmul : s₁.supply * (s.reader.eol.length + 2) ≤
              s.supply * (s.reader.eol.length + 2) := Nat.mul_le_mul_right _ hle
          have hst₁ : s₁.reader.staged = [] := hr ▸ hst
          change s₁.supply * (s₁.reader.eol.length + 2) + s₁.reader.staged.length + 0 ≤ s.size
          rw [hst₁, hr]
          simp only [size, List.length_nil]
          omega
        | some q =>
          obtain ⟨h₁, h₂, h₃⟩ := supply_readOn_lt hst ha
          have hmul := Nat.mul_le_mul_right (s.reader.eol.length + 2) (Nat.succ_le_of_lt h₁)
          rw [Nat.succ_mul] at hmul
          have hone : handedOut (readOn s) ≤ 1 := by
            unfold handedOut
            split <;> simp
          have hmul' := Nat.mul_le_mul_right s.reader.eol.length hone
          simp only [size, h₂, hst, List.length_nil]
          omega
      · obtain ⟨hr, hle⟩ := ask_error ha
        rw [readOn_of_ask_error ha]
        have hmul : s₁.supply * (s.reader.eol.length + 2) ≤
            s.supply * (s.reader.eol.length + 2) := Nat.mul_le_mul_right _ hle
        simp only [size, stateAfter_error, handedOut, hr]
        omega

theorem size_readOne_lt {s s' : Reading σ} {p : Piece} (h : readOne s = .ok (some p) s') :
    s'.size < s.size := by
  have := size_readOne_add s
  rw [h] at this
  exact this

theorem supply_readOne (s : Reading σ) : (stateAfter (readOne s)).supply ≤ s.supply := by
  unfold readOne
  split
  · exact Nat.le_refl _
  · next hst =>
    split
    · exact Nat.le_refl _
    · exact (settled_readOn hst).1

/-- A reader that has read nothing uses something up, if its source hands out a piece. -/
theorem supply_readOne_fresh {s : Reading σ} (hst : s.reader.staged = [])
    (hopen : (s.reader.eof || s.reader.closed) = false) {p : Piece} {source : σ}
    (h : CharacterSource.read s.source = .ok (some p) source) :
    (stateAfter (readOne s)).supply < s.supply := by
  have ha : ask s = .ok (some p) { s with source } := by simp [ask, h]
  have hrun : readOne s = readOn s := by
    unfold readOne
    split
    · next hc => rw [hst] at hc; cases hc
    · simp [hopen]
  rw [hrun]
  exact (supply_readOn_lt hst ha).1

end Reading

end DotFraming
