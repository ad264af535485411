import DotFraming.Proofs.Source.Simulation

/-!
# Views of a source

A view forgets something of a source, or sums it up, and is a source itself. If the view of a source
after any call is what the same call makes of the view before, then whatever is done to the source
is done to the view as well, and with the same results.

* `Views` : a computation does to the view of a state what another does to the state.
* `SourceView`, `SourceView.simulation` : views of sources. A source and its view run side by side.
-/

namespace DotFraming

variable {σ ρ α : Type}

/-- The same result, with another state. -/
def mapState (f : σ → ρ) : EStateM.Result Fault σ α → EStateM.Result Fault ρ α
  | .ok a s => .ok a (f s)
  | .error e s => .error e (f s)

theorem eq_ok_of_mapState {f : σ → ρ} {r : EStateM.Result Fault σ α} {a : α} {t : ρ}
    (h : mapState f r = .ok a t) : ∃ s, r = .ok a s ∧ f s = t := by
  cases r with
  | ok b s =>
    cases h
    exact ⟨s, rfl, rfl⟩
  | error e s => cases h

/-- What `x` does to a state, `y` does to the view of it. -/
def Views (f : σ → ρ) (x : Action σ α) (y : Action ρ α) : Prop :=
  ∀ s, y (f s) = mapState f (x s)

theorem agree_mapState (f : σ → ρ) (r : EStateM.Result Fault σ α) :
    Agree (fun s t => t = f s) r (mapState f r) := by
  cases r with
  | ok a s => exact .ok a rfl
  | error e s => exact .error e rfl

theorem Agree.eq_mapState {f : σ → ρ} {R : σ → ρ → Prop} {r : EStateM.Result Fault σ α}
    {r' : EStateM.Result Fault ρ α} (h : Agree R r r') (hR : ∀ s t, R s t → t = f s) :
    r' = mapState f r := by
  cases h with
  | ok a hrel =>
    rw [hR _ _ hrel]
    rfl
  | error e hrel =>
    rw [hR _ _ hrel]
    rfl

theorem Views.simulates {f : σ → ρ} {x : Action σ α} {y : Action ρ α} (h : Views f x y) :
    Simulates (fun s t => t = f s) x y := by
  rintro s _ rfl
  rw [h s]
  exact agree_mapState f (x s)

/-- Calls on the view of a source do to it what they do to the source. -/
structure SourceView [CharacterSource σ] [CharacterSource ρ] (f : σ → ρ) : Prop where
  /-- Reading. -/
  read : Views f CharacterSource.read CharacterSource.read
  /-- Handing back. -/
  unread : ∀ p, Views f (CharacterSource.unread p) (CharacterSource.unread p)
  /-- Asking whether it is ready. -/
  ready : ∀ s, CharacterSource.ready (f s) = CharacterSource.ready s

/-- **A source and its view run side by side**, with one log. -/
theorem SourceView.simulation [CharacterSource σ] [CharacterSource ρ] {f : σ → ρ}
    (h : SourceView f) : Simulation (fun s t => t = f s) (fun l m => m = l) where
  read := h.read.simulates
  unread p := (h.unread p).simulates
  ready := by
    rintro s _ rfl
    exact h.ready s
  note := by
    rintro l _ rfl level message context
    rfl

end DotFraming
