import DotFraming.Stream.InMemory

/-!
# What a source is known to deliver

A reader has to be judged by the text that its source delivers, and by nothing else: not by how the
source comes by that text, and not by what it does afterwards. `Delivers s w t` says just this much:
the source `s` hands out the characters of `w` one by one and is then in the state `t`, of which
nothing is assumed. It may go on, end, fail or have nothing at the moment.

* `Delivers` : one character after the other; each of them could be given back.
* `LeadsTo` : the same from one state of a source to another, if a character may have been given
  back in between.
* `Exhausts` : the text that a source delivers before it ends.
* `Pushback.delivers_ofText`, `Pushback.Holds.delivers` : a text in memory, also if its first
  character has been taken back, delivers itself.
-/

namespace DotFraming

variable {σ : Type} [CharacterSource σ]

/-- The source takes the character `c` back, and is as before when it has handed it out again. -/
def TakesBack (c : Char) (s : σ) : Prop :=
  ∃ s', CharacterSource.unread [c] s = .ok () s' ∧ CharacterSource.read s' = .ok (some [c]) s

/-- The source hands out the characters of a text one by one and is then in another state. -/
inductive Delivers : σ → Text → σ → Prop where
  /-- Nothing has been asked for yet. -/
  | nil (s : σ) : Delivers s [] s
  /-- The first character is handed out, and the source delivers the others. -/
  | cons {s s' t : σ} {c : Char} {w : Text} (read : CharacterSource.read s = .ok (some [c]) s')
      (back : TakesBack c s') (tail : Delivers s' w t) : Delivers s (c :: w) t

/-- The source hands out the characters of a text one by one and then the end of the stream. -/
def Exhausts (s : σ) (w : Text) : Prop :=
  ∃ t t', Delivers s w t ∧ CharacterSource.read t = .ok none t'

namespace Delivers

theorem append {s m t : σ} {u v : Text} (h : Delivers s u m) (h' : Delivers m v t) :
    Delivers s (u ++ v) t := by
  induction h with
  | nil => exact h'
  | cons read back _ ih => exact .cons read back (ih h')

theorem unique {s t t' : σ} {w : Text} (h : Delivers s w t) (h' : Delivers s w t') : t = t' := by
  induction h with
  | nil => cases h'; rfl
  | cons read _ _ ih =>
    cases h' with
    | cons read' _ tail' =>
      rw [read] at read'
      cases read'
      exact ih tail'

end Delivers

/-! ### Characters that were given back -/

/-- What `s'` delivers, `s` delivers after `m`. So `s'` comes after `m`, but that a character may
have been given back. -/
def LeadsTo (s : σ) (m : Text) (s' : σ) : Prop :=
  ∀ (v : Text) (t : σ), v ≠ [] → Delivers s' v t → Delivers s (m ++ v) t

theorem Delivers.leadsTo {s s' : σ} {m : Text} (h : Delivers s m s') : LeadsTo s m s' :=
  fun _ _ _ h' => h.append h'

theorem LeadsTo.trans {s s' s'' : σ} {m m' : Text} (h : LeadsTo s m s') (h' : LeadsTo s' m' s'') :
    LeadsTo s (m ++ m') s'' := by
  intro v t hv hd
  rw [List.append_assoc]
  exact h (m' ++ v) t (by simp [hv]) (h' v t hv hd)

/-- A source that has taken its last character back is as before it handed that character out. -/
theorem leadsTo_of_back {s s' back : σ} {c : Char}
    (read : CharacterSource.read s = .ok (some [c]) s') (takes : TakesBack c s')
    (again : CharacterSource.read back = .ok (some [c]) s') : LeadsTo s [] back := by
  intro v t hv hd
  cases hd with
  | nil => exact absurd rfl hv
  | cons read' _ tail =>
    -- the first character of `v` is the one that was given back
    rw [again] at read'
    cases read'
    exact .cons read takes tail

/-! ### Text in memory -/

namespace Pushback

theorem read_ofText (c : Char) (v : Text) :
    CharacterSource.read (ofText (c :: v)) = .ok (some [c]) (ofText v) := rfl

theorem read_ofText_nil : CharacterSource.read (ofText []) = .ok none (ofText []) := rfl

theorem takesBack_ofText (c : Char) (v : Text) : TakesBack c (ofText v) :=
  ⟨{ ofText v with pushed := some [c] }, rfl, rfl⟩

theorem delivers_ofText (w v : Text) : Delivers (ofText (w ++ v)) w (ofText v) := by
  induction w with
  | nil => exact .nil _
  | cons c w ih => exact .cons (read_ofText c _) (takesBack_ofText c _) ih

theorem exhausts_ofText (w : Text) : Exhausts (ofText w) w := by
  have hd := delivers_ofText w []
  rw [List.append_nil] at hd
  exact ⟨_, _, hd, read_ofText_nil⟩

/-- The source holds a text: all of it waits in the stream, or its first character has been taken
back and the others wait there. -/
def Holds (s : Pushback InMemory) (w : Text) : Prop :=
  s = ofText w ∨ ∃ c v, w = c :: v ∧ s = { ofText v with pushed := some [c] }

theorem Holds.eq_ofText {s : Pushback InMemory} (h : Holds s []) : s = ofText [] := by
  obtain rfl | ⟨c, u, hu, -⟩ := h
  · rfl
  · cases hu

theorem Holds.delivers {s : Pushback InMemory} {w v : Text} (h : Holds s (w ++ v)) (hw : w ≠ []) :
    Delivers s w (ofText v) := by
  obtain rfl | ⟨c, u, hu, rfl⟩ := h
  · exact delivers_ofText w v
  · obtain ⟨w', rfl⟩ : ∃ w', w = c :: w' := by
      obtain ⟨d, w', rfl⟩ := List.exists_cons_of_ne_nil hw
      obtain ⟨rfl, -⟩ := List.cons.inj hu
      exact ⟨w', rfl⟩
    obtain ⟨-, rfl⟩ := List.cons.inj hu
    exact .cons rfl (takesBack_ofText c _) (delivers_ofText w' v)

theorem Holds.delivers_all {s : Pushback InMemory} {w : Text} (h : Holds s w) :
    Delivers s w (ofText []) := by
  cases w with
  | nil => exact h.eq_ofText ▸ .nil _
  | cons c w =>
    rw [← List.append_nil (c :: w)] at h
    exact h.delivers (by simp)

end Pushback

end DotFraming
