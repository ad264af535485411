import DotFraming.Proofs.Source.Delivery
import DotFraming.Proofs.Source.View
import DotFraming.Source.Traced

/-!
# How far a source has been read

What the calls in a record come to is summed up in two numbers: the position that the source is at,
and the furthest one that has ever been asked for. Handing a character back and reading it again
changes neither, and so what is known of sources that deliver a text holds with these numbers, too.

* `Call.position`, `Call.furthest` : the two numbers.
* `Gauged` : a source that keeps them.
* `Traced.view_gauge`, `Traced.view_source` : **a record is summed up by them**, or forgotten.
* `Delivers.gauged` : the position after a text is its length, and so is the furthest one.
-/

namespace DotFraming

/-! ### The two numbers -/

namespace Call

/-- How many pieces were read and not handed back; the latest call comes first. -/
def position : List Call → Nat
  | read (.ok (some _)) :: calls => position calls + 1
  | read (.ok none) :: calls => position calls
  | read (.error _) :: calls => position calls
  | unread _ (.ok _) :: calls => position calls - 1
  | unread _ (.error _) :: calls => position calls
  | [] => 0

/-- The number of the furthest piece that was ever asked for, counted from one. -/
def furthest : List Call → Nat
  | read _ :: calls => max (furthest calls) (position calls + 1)
  | unread _ _ :: calls => furthest calls
  | [] => 0

end Call

/-- A source, its position and the furthest one that was asked for. -/
structure Gauged (σ : Type) where
  /-- The source. -/
  source : σ
  /-- How many pieces were read and not handed back. -/
  position : Nat := 0
  /-- The number of the furthest piece that was asked for. -/
  furthest : Nat := 0

variable {σ : Type} [CharacterSource σ]

namespace Gauged

/-- Reads from the source. -/
def read : Action (Gauged σ) (Option Piece) := fun s =>
  let furthest := max s.furthest (s.position + 1)
  match CharacterSource.read s.source with
  | .ok (some p) source => .ok (some p) ⟨source, s.position + 1, furthest⟩
  | .ok none source => .ok none ⟨source, s.position, furthest⟩
  | .error e source => .error e ⟨source, s.position, furthest⟩

/-- Hands a piece back to the source. -/
def unread (p : Piece) : Action (Gauged σ) Unit := fun s =>
  match CharacterSource.unread p s.source with
  | .ok () source => .ok () ⟨source, s.position - 1, s.furthest⟩
  | .error e source => .error e ⟨source, s.position, s.furthest⟩

instance : CharacterSource (Gauged σ) where
  read := read
  unread := unread
  ready s := CharacterSource.ready s.source
  remaining s := CharacterSource.remaining s.source
  remaining_read s := by
    have h := CharacterSource.remaining_read s.source
    unfold read
    simp only
    split <;> simp_all
  remaining_read_some {s s' p} h := by
    unfold read at h
    simp only at h
    split at h <;> cases h
    next hr => exact CharacterSource.remaining_read_some hr
  remaining_unread s p := by
    have h := CharacterSource.remaining_unread s.source p
    unfold unread
    split <;> simp_all
  read_of_unread {s s' p} h := by
    unfold unread at h
    split at h
    · next hu =>
      cases h
      obtain ⟨s'', hr⟩ := CharacterSource.read_of_unread hu
      exact ⟨⟨s'', s.position - 1 + 1, max s.furthest (s.position - 1 + 1)⟩, by simp [read, hr]⟩
    · cases h

end Gauged

/-! ### Records -/

namespace Traced

/-- What a record comes to. -/
def gauge (s : Traced σ) : Gauged σ := ⟨s.source, Call.position s.calls, Call.furthest s.calls⟩

/-- **A record is summed up** by the position and the furthest one. -/
theorem view_gauge : SourceView (gauge : Traced σ → Gauged σ) where
  read s := by
    change Gauged.read (gauge s) = mapState gauge (Traced.read s)
    unfold Gauged.read Traced.read
    simp only [gauge]
    rcases (CharacterSource.read s.source : EStateM.Result Fault σ _) with ⟨_ | p, t⟩ | ⟨e, t⟩ <;>
      rfl
  unread p s := by
    change Gauged.unread p (gauge s) = mapState gauge (Traced.unread p s)
    unfold Gauged.unread Traced.unread
    simp only [gauge]
    rcases (CharacterSource.unread p s.source : EStateM.Result Fault σ _) with ⟨⟨⟩, t⟩ | ⟨e, t⟩ <;>
      rfl
  ready _ := rfl

theorem view_source : SourceView (Traced.source : Traced σ → σ) where
  read s := by
    change CharacterSource.read s.source = mapState Traced.source (Traced.read s)
    unfold Traced.read
    cases (CharacterSource.read s.source : EStateM.Result Fault σ _) <;> rfl
  unread p s := by
    change CharacterSource.unread p s.source = mapState Traced.source (Traced.unread p s)
    unfold Traced.unread
    rcases (CharacterSource.unread p s.source : EStateM.Result Fault σ _) with ⟨⟨⟩, t⟩ | ⟨e, t⟩ <;>
      rfl
  ready _ := rfl

end Traced

/-! ### Texts -/

theorem TakesBack.gauged {c : Char} {s : σ} (h : TakesBack c s) {k m : Nat} (hk : k + 1 ≤ m) :
    TakesBack c (⟨s, k + 1, m⟩ : Gauged σ) := by
  obtain ⟨back, hu, hr⟩ := h
  refine ⟨⟨back, k, m⟩, ?_, ?_⟩
  · change Gauged.unread [c] _ = _
    simp [Gauged.unread, hu]
  · change Gauged.read _ = _
    simp [Gauged.read, hr, Nat.max_eq_left hk]

/-- **The position after a text is its length**, and no one has asked for more. -/
theorem Delivers.gauged {s t : σ} {w : Text} (h : Delivers s w t) {k m : Nat} (hk : k ≤ m) :
    Delivers (⟨s, k, m⟩ : Gauged σ) w ⟨t, k + w.length, max m (k + w.length)⟩ := by
  induction h generalizing k m with
  | nil =>
    rw [List.length_nil, Nat.add_zero, Nat.max_eq_left hk]
    exact .nil _
  | @cons s s' t c w read back _ ih =>
    have hlast : (⟨t, k + 1 + w.length, max (max m (k + 1)) (k + 1 + w.length)⟩ : Gauged σ) =
        ⟨t, k + (c :: w).length, max m (k + (c :: w).length)⟩ := by
      simp only [List.length_cons, Gauged.mk.injEq, true_and]
      omega
    refine .cons ?_ (back.gauged (Nat.le_max_right m _)) (hlast ▸ ih (Nat.le_max_right m _))
    change Gauged.read _ = _
    simp [Gauged.read, read]

end DotFraming
