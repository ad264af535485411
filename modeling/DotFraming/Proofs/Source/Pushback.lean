import DotFraming.Proofs.Source.Calls
import DotFraming.Stream.InMemory

/-!
# Handing back one character

A text stream with pushback has room for one character. Whoever hands back what was read just before
always finds this room empty, whatever others have handed back before.

* `TextStream.Single`, `TextStream.Fails` : what a stream does when it is read one character at a
  time.
* `Pushback.Sound` : what waits is a single character. It stays so, whatever calls are made.
* `Pushback.takes_back` : **disciplined calls are taken back without fail.**
* `Pushback.pushed_of_read` : after a read nothing waits.
-/

namespace DotFraming

namespace TextStream

variable {τ : Type} [AnyStream τ]

/-- The stream after a number of reads of a single character. -/
def after : Nat → τ → τ
  | 0, m => m
  | n + 1, m => after n (stateAfter (TextStream.read 1 m))

theorem after_succ (n : Nat) (m : τ) :
    after (n + 1) m = stateAfter (TextStream.read 1 (after n m)) := by
  induction n generalizing m with
  | zero => rfl
  | succ n ih => exact ih _

/-- Whenever the stream is asked for one character, it gives at most one. -/
def Single (m : τ) : Prop :=
  ∀ n t m', TextStream.read 1 (after n m) = .ok t m' → t.length ≤ 1

/-- At some time the stream fails with `e`, when it is read or asked whether it is ready. -/
def Fails (m : τ) (e : Fault) : Prop :=
  ∃ n, (∃ m', TextStream.read 1 (after n m) = .error e m') ∨
    TextStream.ready? (after n m) = some (.error e)

end TextStream

namespace Pushback

variable {τ : Type} [AnyStream τ]

/-- The stream is the one given, after some reads, and what waits is a single character. -/
structure Sound (stream : τ) (s : Pushback τ) : Prop where
  /-- The stream has been read one character at a time. -/
  stream : ∃ n, s.stream = TextStream.after n stream
  /-- What waits is a single character. -/
  pushed : ∀ p, s.pushed = some p → p.length = 1

variable {stream : τ} {s t : Pushback τ} {c : Call} {cs : List Call} {o : Option Piece} {p : Piece}
  {e : Fault}

/-- **What a read does**: it hands out what waits, or reads one character of the stream. -/
theorem read_cases {o : Except Fault (Option Piece)} (h : (Call.read o).Leads s t) :
    (∃ p, s.pushed = some p ∧ o = .ok (some p) ∧ t = { s with pushed := none }) ∨
      s.pushed = none ∧ t.pushed = none ∧
        ((∃ u, TextStream.read 1 s.stream = .ok u t.stream ∧
            o = .ok (if u = [] then none else some u)) ∨
          ∃ e, TextStream.read 1 s.stream = .error e t.stream ∧ o = .error e) := by
  rcases o with e | o
  all_goals
    change Pushback.read s = _ at h
    unfold Pushback.read at h
    split at h
  · cases h
  · next hnone =>
    split at h <;> cases h
    next hr => exact .inr ⟨hnone, hnone, .inr ⟨e, hr, rfl⟩⟩
  · next p hp =>
    cases h
    exact .inl ⟨p, hp, rfl, rfl⟩
  · next hnone =>
    split at h <;> cases h <;> next hr => exact .inr ⟨hnone, hnone, .inl ⟨_, hr, rfl⟩⟩

theorem pushed_of_read (h : (Call.read (.ok o)).Leads s t) : t.pushed = none := by
  rcases read_cases h with ⟨p, -, -, rfl⟩ | ⟨-, hnone, -⟩
  · rfl
  · exact hnone

theorem length_of_read (hsingle : TextStream.Single stream) (hs : s.Sound stream)
    (h : (Call.read (.ok (some p))).Leads s t) : p.length = 1 := by
  rcases read_cases h with ⟨q, hq, hp, -⟩ | ⟨-, -, ⟨u, hr, hu⟩ | ⟨e, -, he⟩⟩
  · cases hp
    exact hs.pushed p hq
  · obtain ⟨n, hn⟩ := hs.stream
    have hle := hsingle n u t.stream (hn ▸ hr)
    cases u with
    | nil => cases hu
    | cons c u =>
      cases hu
      simp only [List.length_cons] at hle ⊢
      omega
  · cases he

theorem fails_of_read (hs : s.Sound stream) (h : (Call.read (.error e)).Leads s t) :
    TextStream.Fails stream e := by
  obtain ⟨n, hn⟩ := hs.stream
  rcases read_cases h with ⟨p, -, hp, -⟩ | ⟨-, -, ⟨u, -, hu⟩ | ⟨e', hr, he⟩⟩
  · cases hp
  · cases hu
  · cases he
    exact ⟨n, .inl ⟨t.stream, hn ▸ hr⟩⟩

theorem fails_of_ready (hs : s.Sound stream) (h : CharacterSource.ready s = .error e) :
    TextStream.Fails stream e := by
  obtain ⟨n, hn⟩ := hs.stream
  change Pushback.ready s = .error e at h
  unfold Pushback.ready at h
  split at h
  · cases h
  · split at h
    · next answer hready => exact ⟨n, .inr (by rw [← hn, hready, h])⟩
    · cases h

theorem sound_of_stream (stream : τ) : Sound stream { stream } := ⟨⟨0, rfl⟩, nofun⟩

theorem Sound.read (hs : s.Sound stream) :
    (stateAfter (Pushback.read s)).Sound stream := by
  obtain ⟨⟨n, hn⟩, hpushed⟩ := hs
  unfold Pushback.read
  split
  · exact ⟨⟨n, hn⟩, nofun⟩
  · have hnext : stateAfter (TextStream.read 1 s.stream) = TextStream.after (n + 1) stream := by
      rw [TextStream.after_succ, hn]
    split <;> next hr => exact ⟨⟨n + 1, by rw [← hnext, hr]; rfl⟩, hpushed⟩

theorem Sound.unread (hs : s.Sound stream) (p : Piece) :
    (stateAfter (Pushback.unread p s)).Sound stream := by
  unfold Pushback.unread
  split
  · exact hs
  · next hlen =>
    split
    · exact hs
    · refine ⟨hs.stream, fun q hq => ?_⟩
      cases hq
      exact Decidable.not_not.1 hlen

theorem Sound.leads (hs : s.Sound stream) (h : c.Leads s t) : t.Sound stream := by
  rw [← h.after_eq]
  cases c with
  | read => exact hs.read
  | unread p => exact hs.unread p

theorem Sound.calls (hs : s.Sound stream) (h : Calls s cs t) : t.Sound stream := by
  induction h with
  | nil => exact hs
  | cons head _ ih => exact ih (hs.leads head)

theorem ok_of_unread {o : Except Fault Unit} (hp : p.length = 1) (hs : s.pushed = none)
    (h : (Call.unread p o).Leads s t) : o = .ok () := by
  have hrun : Pushback.unread p s = .ok () { s with pushed := some p } := by
    simp [Pushback.unread, hp, hs]
  rcases o with e | ⟨⟩
  · cases hrun.symm.trans h
  · rfl

/-- **Disciplined calls are taken back without fail.** -/
theorem takes_back (hsingle : TextStream.Single stream) {rs : List Call} (hs : s.Sound stream)
    (hdisc : Disciplined rs) (h : Calls s rs.reverse t) {o : Except Fault Unit}
    (hmem : .unread p o ∈ rs) : o = .ok () := by
  induction rs generalizing t with
  | nil => cases hmem
  | cons c rs ih =>
    rw [List.reverse_cons] at h
    obtain ⟨m, hm, hlast⟩ := h.last
    rcases List.mem_cons.1 hmem with rfl | hearlier
    -- the call before gave this piece, and nothing waits after it
    · obtain ⟨hhead, -⟩ := hdisc
      obtain ⟨rs', rfl⟩ : ∃ rs', rs = .read (.ok (some p)) :: rs' := by
        cases rs with
        | nil => cases hhead
        | cons d rs' => exact ⟨rs', by rw [Option.some.inj hhead]⟩
      rw [List.reverse_cons] at hm
      obtain ⟨m', hm', hread⟩ := hm.last
      exact ok_of_unread (length_of_read hsingle (hs.calls hm') hread) (pushed_of_read hread) hlast
    · cases c with
      | read => exact ih hdisc hm hearlier
      | unread => exact ih hdisc.2 hm hearlier

end Pushback

theorem InMemory.single (m : InMemory) : TextStream.Single m := by
  intro n t m' h
  obtain ⟨rfl, -⟩ := EStateM.Result.ok.inj h
  exact Nat.le_trans (List.length_take_le ..) (Nat.le_refl 1)

end DotFraming
