import DotFraming.Proofs.Reader.Simulation
import DotFraming.Proofs.Source.View

/-!
# Readers over a view of their source

A reader over a view of a source does what it does over the source itself: it gives the same
answers, and leaves the view of what it leaves there.

* `Reading.map`, `Outcome.map` : the same over another source.
* `Reading.views_readOne`, `Reading.views_read`, `Reading.views_close` : reading and closing.
* `Operation.performAll_map` : **all operations.**
-/

namespace DotFraming

variable {σ ρ : Type} {f : σ → ρ}

/-- The same reader over another source. -/
def Reading.map (f : σ → ρ) (s : Reading σ) : Reading ρ := ⟨s.reader, f s.source, s.log⟩

/-- The same outcome, with another source. -/
def Outcome.map (f : σ → ρ) (o : Outcome σ) : Outcome ρ := ⟨o.answer, o.buffer, o.after.map f⟩

namespace Reading

/-- A reader over a source and the same one over its view are alike. -/
abbrev IsMap (f : σ → ρ) : Reading σ → Reading ρ → Prop :=
  Alike (fun s t => t = f s) (fun l m => m = l)

theorem isMap_map (f : σ → ρ) (s : Reading σ) : IsMap f s (s.map f) := ⟨s.reader, rfl, rfl⟩

theorem Alike.eq_map {s : Reading σ} {t : Reading ρ} (h : IsMap f s t) : t = s.map f := by
  cases h with
  | intro r hsource hlog =>
    cases hsource
    cases hlog
    rfl

theorem views_of_simulates {α : Type} {x : Action (Reading σ) α} {y : Action (Reading ρ) α}
    (h : Simulates (IsMap f) x y) : Views (map f) x y := fun s =>
  (h s _ (isMap_map f s)).eq_mapState fun _ _ => Alike.eq_map

variable [CharacterSource σ] [CharacterSource ρ]

theorem views_readOne (h : SourceView f) : Views (map f) readOne readOne :=
  views_of_simulates (simulates_readOne h.simulation)

theorem views_read (h : SourceView f) (size : Int) : Views (map f) (read size) (read size) :=
  views_of_simulates (simulates_read h.simulation size)

theorem views_close (h : SourceView f) : Views (map f) close close :=
  views_of_simulates (simulates_close h.simulation)

end Reading

theorem Outcome.Alike.eq_map {o : Outcome σ} {o' : Outcome ρ}
    (h : Outcome.Alike (fun s t => t = f s) (fun l m => m = l) o o') : o.map f = o' := by
  obtain ⟨answer, buffer, after⟩ := o'
  obtain ⟨rfl, rfl, hafter⟩ := h
  obtain rfl : after = o.after.map f := Reading.Alike.eq_map hafter
  rfl

namespace Operation

open Reading

variable [CharacterSource σ] [CharacterSource ρ]

/-- **Operations one after another** have the same outcomes over a view of the source. -/
theorem performAll_map (h : SourceView f) (ops : List Operation) (s : Reading σ) :
    performAll ops (s.map f) =
      ((performAll ops s).1.map (Outcome.map f), (performAll ops s).2.map f) := by
  obtain ⟨houtcomes, hlast⟩ := performAll_alike h.simulation ops (isMap_map f s)
  have hmap := houtcomes.imp fun _ _ hone => hone.eq_map
  rw [← List.forall₂_map_left_iff, List.forall₂_eq_eq_eq] at hmap
  exact Prod.ext hmap.symm (Alike.eq_map hlast)

end Operation

end DotFraming
