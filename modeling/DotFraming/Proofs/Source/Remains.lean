import DotFraming.Proofs.Source.Pushback

/-!
# What is left in a source

What a text stream has left is told by its reads: it is what they would give if one went on reading
for ever. The stream may report its end on the way and go on after it, and fail; neither takes
anything from what is left. Nothing more is known of it than that it comes to an end, and a stream
that holds finitely much always does.

* `TextStream.gives` : the texts that a number of reads give.
* `TextStream.Remains` : the texts that all further reads give, if they are finitely many.
* `TextStream.exists_remains` : **a stream that holds finitely much** has only finitely many left.
* `Pushback.Remains` : what is left in a source: what was taken back, and what its stream has left.
* `Pushback.Remains.lookahead` : **a look ahead takes from the front** of what is left, and puts
  back no more than it took.
-/

namespace DotFraming

/-! ### Streams -/

namespace TextStream

variable {τ : Type}

/-- The text that a read gave, if it gave any. -/
def given : EStateM.Result Fault τ Text → List Text
  | .ok [] _ => []
  | .ok (c :: t) _ => [c :: t]
  | .error _ _ => []

section

variable [AnyStream τ] {m : τ} {w w' : List Text}

/-- The texts that the next `n` reads of a single character give. -/
def gives : Nat → τ → List Text
  | 0, _ => []
  | n + 1, m => given (TextStream.read 1 m) ++ gives n (stateAfter (TextStream.read 1 m))

/-- The texts `w` are all that the stream will ever give: reads give them one after the other, and
nothing else, however many reads there are. -/
def Remains (m : τ) (w : List Text) : Prop := ∃ n, ∀ k, n ≤ k → gives k m = w

theorem gives_add (n k : Nat) (m : τ) : gives (n + k) m = gives n m ++ gives k (after n m) := by
  induction n generalizing m with
  | zero => rw [Nat.zero_add, gives, List.nil_append, after]
  | succ n ih => rw [Nat.succ_add, gives, gives, after, ih, List.append_assoc]

theorem Remains.unique (h : Remains m w) (h' : Remains m w') : w = w' := by
  obtain ⟨n, hn⟩ := h
  obtain ⟨k, hk⟩ := h'
  rw [← hn (max n k) (Nat.le_max_left ..), hk (max n k) (Nat.le_max_right ..)]

theorem Remains.next (h : Remains m w) :
    ∃ v, w = given (TextStream.read 1 m) ++ v ∧
      Remains (stateAfter (TextStream.read 1 m)) v := by
  obtain ⟨n, hn⟩ := h
  have hnext (k : Nat) (hk : n ≤ k) :
      given (TextStream.read 1 m) ++ gives k (stateAfter (TextStream.read 1 m)) = w :=
    hn (k + 1) (Nat.le_succ_of_le hk)
  refine ⟨gives n (stateAfter (TextStream.read 1 m)), (hnext n (Nat.le_refl n)).symm, n,
    fun k hk => ?_⟩
  exact List.append_cancel_left ((hnext k hk).trans (hnext n (Nat.le_refl n)).symm)

end

variable [TextStream τ]

theorem remaining_after (n : Nat) (m : τ) :
    remaining (after n m) + (gives n m).length ≤ remaining m := by
  induction n generalizing m with
  | zero => exact Nat.le_refl _
  | succ n ih =>
    have hrest := ih (stateAfter (TextStream.read 1 m))
    have hread : remaining (stateAfter (TextStream.read 1 m)) +
        (given (TextStream.read 1 m)).length ≤ remaining m := by
      have hle := TextStream.remaining_read m
      cases h : TextStream.read 1 m with
      | error e m' => rwa [h] at hle
      | ok t m' =>
        cases t with
        | nil => rwa [h] at hle
        | cons c t => exact TextStream.remaining_read_cons h
    rw [after, gives, List.length_append]
    omega

/-- **A stream that holds finitely much** has only finitely many texts left. -/
theorem exists_remains (m : τ) : ∃ w, Remains m w := by
  -- either no read gives anything any more, or one does and less is left after it
  induction hn : remaining m using Nat.strongRecOn generalizing m with
  | _ n ih =>
    by_cases hsome : ∃ k, gives k m ≠ []
    · obtain ⟨k, hk⟩ := hsome
      have hless : remaining (after k m) < n := by
        have hafter := remaining_after k m
        have hpos := List.length_pos_iff.2 hk
        omega
      obtain ⟨w, l, hl⟩ := ih _ hless (after k m) rfl
      refine ⟨gives k m ++ w, k + l, fun j hj => ?_⟩
      obtain ⟨i, rfl⟩ := Nat.exists_eq_add_of_le (Nat.le_trans (Nat.le_add_right k l) hj)
      rw [gives_add, hl i (by omega)]
    · exact ⟨[], 0, fun k _ => Decidable.not_not.1 fun hk => hsome ⟨k, hk⟩⟩

end TextStream

theorem InMemory.remains (t : Text) : TextStream.Remains (⟨t⟩ : InMemory) (t.map ([·])) := by
  have hgives (n : Nat) : TextStream.gives n (⟨t⟩ : InMemory) = (t.take n).map ([·]) := by
    induction n generalizing t with
    | zero => rfl
    | succ n ih =>
      cases t with
      | nil =>
        have hnothing := ih []
        rw [List.take_nil] at hnothing ⊢
        exact hnothing
      | cons c t => exact congrArg ([c] :: ·) (ih t)
  exact ⟨t.length, fun k hk => by rw [hgives, List.take_of_length_le hk]⟩

/-! ### Sources -/

namespace Pushback

variable {τ : Type}

section

variable [AnyStream τ] {s t : Pushback τ} {w w' : List Piece} {p : Piece} {cs : List Call}

/-- What is left in a source: what was taken back, and then what is left in its stream. -/
def Remains (s : Pushback τ) (w : List Piece) : Prop :=
  ∃ v, TextStream.Remains s.stream v ∧ w = s.pushed.toList ++ v

theorem Remains.unique (h : s.Remains w) (h' : s.Remains w') : w = w' := by
  obtain ⟨v, hv, rfl⟩ := h
  obtain ⟨v', hv', rfl⟩ := h'
  rw [hv.unique hv']

theorem Remains.read_some (h : s.Remains w) (hread : (Call.read (.ok (some p))).Leads s t) :
    ∃ v, w = p :: v ∧ t.Remains v := by
  obtain ⟨v, hv, rfl⟩ := h
  rcases read_cases hread with ⟨q, hq, hp, rfl⟩ | ⟨hnone, hempty, ⟨u, hu, hp⟩ | ⟨e, -, he⟩⟩
  · cases hp
    exact ⟨v, by rw [hq]; rfl, v, hv, rfl⟩
  · obtain ⟨v', rfl, hv'⟩ := hv.next
    rw [hu] at hv' ⊢
    cases u with
    | nil => cases hp
    | cons c u =>
      cases hp
      exact ⟨v', by rw [hnone]; rfl, v', hv', by rw [hempty]; rfl⟩
  · cases he

theorem Remains.read_other {o : Except Fault (Option Piece)} (h : s.Remains w)
    (hread : (Call.read o).Leads s t) (ho : ∀ p, o ≠ .ok (some p)) : t.Remains w := by
  obtain ⟨v, hv, rfl⟩ := h
  rcases read_cases hread with ⟨q, -, hp, -⟩ | ⟨hnone, hempty, hstream⟩
  · exact absurd hp (ho q)
  · have hskipped : TextStream.given (TextStream.read 1 s.stream) = [] ∧
        stateAfter (TextStream.read 1 s.stream) = t.stream := by
      rcases hstream with ⟨u, hu, hp⟩ | ⟨e, he, -⟩
      · cases u with
        | nil => rw [hu]; exact ⟨rfl, rfl⟩
        | cons c u => exact absurd hp (ho (c :: u))
      · rw [he]
        exact ⟨rfl, rfl⟩
    obtain ⟨v', rfl, hv'⟩ := hv.next
    rw [hskipped.2] at hv'
    exact ⟨v', hv', by rw [hskipped.1, hnone, hempty, List.nil_append]⟩

theorem Remains.unread {o : Except Fault Unit} (h : s.Remains w)
    (hunread : (Call.unread p o).Leads s t) : t.Remains (p :: w) ∨ t.Remains w := by
  have hafter : t = stateAfter (Pushback.unread p s) := hunread.after_eq.symm
  unfold Pushback.unread at hafter
  split at hafter
  · exact .inr (hafter ▸ h)
  · split at hafter
    · exact .inr (hafter ▸ h)
    · next hnone =>
      obtain ⟨v, hv, rfl⟩ := h
      rw [hafter, hnone]
      exact .inl ⟨v, hv, rfl⟩

/-- **A look ahead takes from the front** of what is left, and puts back no more than it took. -/
theorem Remains.lookahead (h : s.Remains w) (hahead : Lookahead cs) (hcalls : Calls s cs t) :
    ∃ v, t.Remains v ∧ v <:+ w := by
  induction hahead generalizing s w with
  | read o =>
    obtain _ | ⟨hread, _ | _⟩ := hcalls
    by_cases ho : ∃ p, o = .ok (some p)
    · obtain ⟨p, rfl⟩ := ho
      obtain ⟨v, rfl, hv⟩ := h.read_some hread
      exact ⟨v, hv, List.suffix_cons p v⟩
    · exact ⟨w, h.read_other hread fun p hp => ho ⟨p, hp⟩, List.suffix_refl w⟩
  | back p o =>
    obtain _ | ⟨hread, _ | ⟨hunread, _ | _⟩⟩ := hcalls
    obtain ⟨v, rfl, hv⟩ := h.read_some hread
    rcases hv.unread hunread with hback | hlost
    · exact ⟨p :: v, hback, List.suffix_refl _⟩
    · exact ⟨v, hlost, List.suffix_cons p v⟩
  | cons p _ ih =>
    obtain _ | ⟨hread, hrest⟩ := hcalls
    obtain ⟨v, rfl, hv⟩ := h.read_some hread
    obtain ⟨u, hu, hsuffix⟩ := ih hv hrest
    exact ⟨u, hu, hsuffix.trans (List.suffix_cons p v)⟩

end

theorem exists_remains [TextStream τ] (s : Pushback τ) : ∃ w, s.Remains w := by
  obtain ⟨v, hv⟩ := TextStream.exists_remains s.stream
  exact ⟨_, v, hv, rfl⟩

theorem remains_ofText (t : Text) : (ofText t).Remains (t.map ([·])) :=
  ⟨_, InMemory.remains t, rfl⟩

end Pushback

end DotFraming
