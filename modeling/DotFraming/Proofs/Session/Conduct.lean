import DotFraming.Messages
import DotFraming.Proofs.Reader.Steps

/-!
# How a source is treated

Readers and the loop over whole messages make calls on a source for other users, who do not see
them. What these users may count on is said here: a piece is only ever handed back directly after it
was read.

* `Orderly` : disciplined calls lead from one state of a source to another, perhaps to a failure.
* `Decoding.Accounts` : what is told of readers and of looks for more can be told of whole messages,
  and of all of them (`Decoding.Accounts.messages`).
* `Reading.Evolves.orderly`, `Operation.orderly` : **the calls of readers are orderly.**
* `Decoding.interrupted` : messages decoded into an output that fails at some point.
* `Decoding.orderly_messages`, `Decoding.orderly_interrupted` : **the calls of decoding are
  orderly.**
-/

namespace DotFraming

/-- The fault is about a piece that was handed back. -/
def Fault.ofPushback : Fault → Bool
  | notOneCharacter _ => true
  | pushbackOccupied => true
  | _ => false

theorem Fault.ofPushback_of_ofRange {e : Fault} (h : e.ofRange = true) : e.ofPushback = false := by
  cases e with
  | offsetOutside => rfl
  | rangeOutside => rfl
  | _ => cases h

theorem Fault.ofPushback_of_new {eol : Text} {e : Fault} (h : Reader.new? eol = .error e) :
    e.ofPushback = false := by
  unfold Reader.new? at h
  split at h <;> cases h
  rfl

/-- The failure of a computation that failed. -/
def failureOf {σ α : Type} : EStateM.Result Fault σ α → Option Fault
  | .ok _ _ => none
  | .error e _ => some e

variable {σ : Type} [CharacterSource σ]

/-- Disciplined calls lead from the state `s` of a source to the state `t`. If there is a failure
that is about a piece handed back, then a call failed so, or the source when asked whether it is
ready. -/
def Orderly (s : σ) (f : Option Fault) (t : σ) : Prop :=
  ∃ cs, Calls s cs t ∧ Disciplined cs.reverse ∧ ∀ e, f = some e → e.ofPushback = true →
    (∃ ds m, Calls s ds m ∧ CharacterSource.ready m = .error e) ∨ ∃ c ∈ cs, c.fault? = some e

namespace Orderly

variable {s m t : σ} {e : Fault} {f g k : Option Fault}

theorem refl (s : σ) : Orderly s none s := ⟨[], .nil s, trivial, nofun⟩

/-- One set of calls after another. The failure in the end is one of theirs. -/
theorem trans (h : Orderly s f m) (h' : Orderly m g t)
    (hk : ∀ e, k = some e → f = some e ∨ g = some e) : Orderly s k t := by
  obtain ⟨cs, hcs, hdisc, hf⟩ := h
  obtain ⟨ds, hds, hdisc', hg⟩ := h'
  refine ⟨cs ++ ds, hcs.append hds, ?_, fun e he hback => ?_⟩
  · rw [List.reverse_append]
    exact hdisc'.append hdisc
  · rcases hk e he with he | he
    · exact (hf e he hback).imp_right fun ⟨c, hc, hfault⟩ => ⟨c, by simp [hc], hfault⟩
    · exact (hg e he hback).imp (fun ⟨es, n, hes, hready⟩ => ⟨cs ++ es, n, hcs.append hes, hready⟩)
        fun ⟨c, hc, hfault⟩ => ⟨c, by simp [hc], hfault⟩

theorem next (h : Orderly s f m) (h' : Orderly m g t) : Orderly s g t :=
  h.trans h' fun _ => .inr

theorem of_ok {ρ α : Type} {view : ρ → σ} {r : EStateM.Result Fault ρ α} {a : α} {t : ρ}
    (h : Orderly s (failureOf r) (view (stateAfter r))) (hr : r = .ok a t) :
    Orderly s none (view t) := by
  rw [hr] at h
  exact h

theorem of_error {ρ α : Type} {view : ρ → σ} {r : EStateM.Result Fault ρ α} {t : ρ}
    (h : Orderly s (failureOf r) (view (stateAfter r))) (hr : r = .error e t) :
    Orderly s (some e) (view t) := by
  rw [hr] at h
  exact h

theorem fail (h : Orderly s f t) (he : e.ofPushback = false) : Orderly s (some e) t := by
  obtain ⟨cs, hcs, hdisc, -⟩ := h
  refine ⟨cs, hcs, hdisc, fun e' he' hback => ?_⟩
  cases he'
  rw [he] at hback
  cases hback

end Orderly

/-! ### Readers -/

namespace Reading

theorem Looks.orderly {s : Reading σ} {r : EStateM.Result Fault (Reading σ) (Option Piece)}
    {cs : List Call} (h : Looks s r cs) :
    Orderly s.source (failureOf r) (stateAfter r).source := by
  refine ⟨cs, h.calls, h.ahead.disciplined, fun e he _ => .inr ?_⟩
  cases r with
  | ok a t => cases he
  | error e' t =>
    cases he
    obtain ⟨c, hlast, hfault⟩ := h.fails e t rfl
    exact ⟨c, List.mem_of_getLast? hlast, hfault⟩

theorem orderly_readOne (s : Reading σ) :
    Orderly s.source (failureOf (readOne s)) (stateAfter (readOne s)).source := by
  rcases readOne_cases s with ⟨c, t, -, hrun⟩ | ⟨-, -, hrun⟩ | ⟨-, -, -, cs, hlooks⟩
  · rw [hrun]
    exact .refl _
  · rw [hrun]
    exact .refl _
  · exact hlooks.orderly

/-- **A reader treats its source in an orderly way**, whatever it does. -/
theorem Evolves.orderly {s t : Reading σ} (h : Evolves s t) : Orderly s.source none t.source :=
  h.source_invariant (.refl _) fun m hm => hm.trans (orderly_readOne m) nofun

theorem Done.orderly {α : Type} {s : Reading σ} {r : EStateM.Result Fault (Reading σ) α}
    (h : Done s r) : Orderly s.source (failureOf r) (stateAfter r).source := by
  cases r with
  | ok a t => exact h.evolves.orderly
  | error e t =>
    obtain ⟨m, hm, hcall⟩ := h.fails e t rfl
    have hlast := orderly_readOne m
    rw [hcall] at hlast
    exact hm.orderly.next hlast

theorem ready_error {s : Reading σ} {e : Fault} (h : s.ready = .error e) :
    CharacterSource.ready s.source = .error e := by
  unfold ready at h
  split at h
  · cases h
  · split at h
    · cases h
    · exact h

end Reading

/-- The failure of a request that failed. -/
def Outcome.fault? (o : Outcome σ) : Option Fault :=
  match o.answer with
  | .ok _ => none
  | .error e => some e

/-- **The calls of an operation are orderly.** -/
theorem Operation.orderly (op : Operation) (s : Reading σ) :
    Orderly s.source (op.perform s).fault? (op.perform s).after.source := by
  obtain ⟨hevolves, hfails, -⟩ := op.performed s
  unfold Outcome.fault?
  split
  · exact hevolves.orderly
  · next e he =>
    rcases hfails e he with hrange | ⟨-, hready⟩ | ⟨m, hm, hcall⟩
    · exact hevolves.orderly.fail (Fault.ofPushback_of_ofRange hrange)
    · obtain ⟨cs, hcs, hdisc, -⟩ := hevolves.orderly
      refine ⟨cs, hcs, hdisc, fun e' he' _ => .inl ⟨[], s.source, .nil _, ?_⟩⟩
      cases he'
      exact Reading.ready_error hready
    · have hlast := Reading.orderly_readOne m
      rw [hcall] at hlast
      exact hm.orderly.next hlast

/-! ### Whole messages -/

namespace Decoding

/-- Decodes one message, with its lines taken by a loop of any kind. -/
def messageBy (loop : List Text → Reading σ → List Text × EStateM.Result Fault (Reading σ) Unit)
    (eol : Text) : Action (Decoding σ) Unit := fun s =>
  match Reader.new? eol with
  | .error e => .error e s
  | .ok r =>
    match loop s.written (s.reading r) with
    | (written, .ok () t) =>
      match Reading.close t with
      | .ok () u => .ok () (resume written u)
      | .error e u => .error e (resume written u)
    | (written, .error e t) =>
      match Reading.close t with
      | .ok () u => .error e (resume written u)
      | .error e' u => .error e' (resume written u)

theorem messageBy_linesFrom (eol : Text) :
    (messageBy Reading.linesFrom eol : Action (Decoding σ) Unit) = message eol := rfl

/-- Takes lines as long as the output has room for them, and fails with `fault` at the first one
that it has no room for. -/
def linesInto (fault : Fault) : Nat → List Text → Reading σ →
    List Text × EStateM.Result Fault (Reading σ) Unit
  | room, got, s =>
    match Reading.readLine s with
    | .error e t => (got, .error e t)
    | .ok line t =>
      if line = [] then (got, .ok () t)
      else
        match room with
        | 0 => (got, .error fault t)
        | room + 1 => linesInto fault room (line :: got) t

/-- Decodes messages into an output that fails with `fault`: after `count` messages it has room for
`room` lines more. -/
def interrupted (eol : Text) (fault : Fault) (room : Nat) : Nat → Action (Decoding σ) Unit
  | 0, s => messageBy (linesInto fault room) eol s
  | count + 1, s =>
    match message eol s with
    | .error e t => .error e t
    | .ok () t =>
      match more t with
      | .error e u => .error e u
      | .ok false u => .ok () u
      | .ok true u => interrupted eol fault room count u

variable {eol : Text} {fault : Fault} {s : Decoding σ}

theorem orderly_linesInto (hfault : fault.ofPushback = false) (room : Nat) (got : List Text)
    (s : Reading σ) :
    Orderly s.source (failureOf (linesInto fault room got s).2)
      (stateAfter (linesInto fault room got s).2).source := by
  induction room using Nat.strongRecOn generalizing got s with
  | _ room ih =>
    have hline := (Reading.done_readLine s).orderly
    unfold linesInto
    split
    · next h => exact hline.of_error h
    · next h =>
      split
      · exact hline.of_ok h
      · cases room with
        | zero => exact (hline.of_ok h).fail hfault
        | succ room => exact (hline.of_ok h).next (ih room (Nat.lt_succ_self room) _ _)

/-! ### From readers to whole messages -/

/-- What `T` tells of the source before and after a computation, and of how this failed, goes from
one computation to the next. It is told of all that readers do, and of looking for more. -/
structure Accounts (T : σ → Option Fault → σ → Prop) : Prop where
  /-- One computation after another. -/
  next : ∀ {s m t : σ} {g : Option Fault}, T s none m → T m g t → T s g t
  /-- A computation after one that failed. Its own failure counts first. -/
  cover : ∀ {s m t : σ} {e : Fault} {g : Option Fault}, T s (some e) m → T m g t →
    T s (g.or (some e)) t
  /-- What readers do. -/
  done : ∀ {α : Type} {s : Reading σ} {r : EStateM.Result Fault (Reading σ) α}, Reading.Done s r →
    T s.source (failureOf r) (stateAfter r).source
  /-- Looking for more. -/
  more : ∀ s : Decoding σ, T s.source (failureOf (more s)) (stateAfter (more s)).source

namespace Accounts

variable {T : σ → Option Fault → σ → Prop}

/-- One message. The reader is closed whatever became of the lines. -/
theorem messageBy (h : Accounts T)
    {loop : List Text → Reading σ → List Text × EStateM.Result Fault (Reading σ) Unit}
    (hloop : ∀ (got : List Text) (s : Reading σ),
      T s.source (failureOf (loop got s).2) (stateAfter (loop got s).2).source)
    (hnew : ∀ e, Reader.new? eol = .error e → ∀ s, T s (some e) s) (s : Decoding σ) :
    T s.source (failureOf (messageBy loop eol s)) (stateAfter (messageBy loop eol s)).source := by
  unfold Decoding.messageBy
  split
  · next e he => exact hnew e he _
  · next r _ =>
    have hlines := hloop s.written (s.reading r)
    split
    · next written t ht =>
      have hclose := h.done (Reading.done_close t)
      rw [ht] at hlines
      split <;> next hu => rw [hu] at hclose; exact h.next hlines hclose
    · next written e t ht =>
      have hclose := h.done (Reading.done_close t)
      rw [ht] at hlines
      -- the failure of the loop counts if closing does not fail as well
      split <;> next hu => rw [hu] at hclose; exact h.cover hlines hclose

variable (h : Accounts T) (hnew : ∀ e, Reader.new? eol = .error e → ∀ s, T s (some e) s)
include h hnew

theorem message (s : Decoding σ) :
    T s.source (failureOf (message eol s)) (stateAfter (message eol s)).source := by
  rw [← messageBy_linesFrom]
  exact h.messageBy (fun got s => h.done (Reading.done_linesFrom got s)) hnew s

theorem following (count : Nat) (s : Decoding σ)
    (hmore : ∃ p source, CharacterSource.read s.source = .ok (some p) source) :
    T s.source (failureOf (following eol count s hmore))
      (stateAfter (following eol count s hmore)).source := by
  fun_induction Decoding.following eol count s hmore with
  | case1 count s _ e s' hs =>
    have hmessage := h.message hnew s
    rwa [hs] at hmessage
  | case2 count s _ s' hs e t ht =>
    have hmessage := h.message hnew s
    have hlook := h.more s'
    rw [hs] at hmessage
    rw [ht] at hlook
    exact h.next hmessage hlook
  | case3 count s _ s' hs t ht =>
    have hmessage := h.message hnew s
    have hlook := h.more s'
    rw [hs] at hmessage
    rw [ht] at hlook
    exact h.next hmessage hlook
  | case4 count s _ s' hs t ht _ ih =>
    have hmessage := h.message hnew s
    have hlook := h.more s'
    rw [hs] at hmessage
    rw [ht] at hlook
    exact h.next (h.next hmessage hlook) ih

/-- **What is told of readers is told of decoding**, be it one message or all of them. -/
theorem messages (all : Bool) (s : Decoding σ) :
    T s.source (failureOf (messages eol all s)) (stateAfter (messages eol all s)).source := by
  have hmessage := h.message hnew s
  unfold Decoding.messages
  split
  · next hs => rwa [hs] at hmessage
  · next s' hs =>
    have hlook := h.more s'
    rw [hs] at hmessage
    split
    · split
      · next ht => rw [ht] at hlook; exact h.next hmessage hlook
      · next ht => rw [ht] at hlook; exact h.next hmessage hlook
      · next ht =>
        rw [ht] at hlook
        exact h.next (h.next hmessage hlook) (h.following hnew _ _ _)
    · exact hmessage

end Accounts

theorem orderly_more (s : Decoding σ) :
    Orderly s.source (failureOf (more s)) (stateAfter (more s)).source := by
  unfold more
  split
  · next e source hr =>
    exact ⟨[.read (.error e)], .single hr, trivial, fun _ he _ => .inr ⟨_, List.mem_cons_self, he⟩⟩
  · next source hr => exact ⟨[.read (.ok none)], .single hr, trivial, fun _ he => by cases he⟩
  · next p source hr =>
    have hread : (Call.read (.ok (some p))).Leads s.source source := hr
    split
    · next source' hu =>
      have hback : (Call.unread p (.ok ())).Leads source source' := hu
      exact ⟨_, .cons hread (.single hback), (Lookahead.back p _).disciplined,
        fun _ he => by cases he⟩
    · next e source' hu =>
      have hback : (Call.unread p (.error e)).Leads source source' := hu
      exact ⟨_, .cons hread (.single hback), (Lookahead.back p _).disciplined,
        fun _ he _ => .inr ⟨_, List.mem_cons_of_mem _ List.mem_cons_self, he⟩⟩

theorem accounts_orderly : Accounts (Orderly : σ → Option Fault → σ → Prop) where
  next h h' := h.next h'
  cover {_ _ _ e g} h h' := h.trans h' fun e' he' => by cases g <;> simp_all
  done h := h.orderly
  more := orderly_more

theorem orderly_of_new {e : Fault} (h : Reader.new? eol = .error e) (s : σ) :
    Orderly s (some e) s :=
  (Orderly.refl s).fail (Fault.ofPushback_of_new h)

theorem orderly_message (eol : Text) (s : Decoding σ) :
    Orderly s.source (failureOf (message eol s)) (stateAfter (message eol s)).source :=
  accounts_orderly.message (fun _ => orderly_of_new) s

/-- **The calls of decoding are orderly**, be it one message or all of them. -/
theorem orderly_messages (eol : Text) (all : Bool) (s : Decoding σ) :
    Orderly s.source (failureOf (messages eol all s)) (stateAfter (messages eol all s)).source :=
  accounts_orderly.messages (fun _ => orderly_of_new) all s

/-- **The calls of decoding are orderly** also if the output fails. -/
theorem orderly_interrupted (hfault : fault.ofPushback = false) (eol : Text) (room count : Nat)
    (s : Decoding σ) :
    Orderly s.source (failureOf (interrupted eol fault room count s))
      (stateAfter (interrupted eol fault room count s)).source := by
  induction count generalizing s with
  | zero =>
    exact accounts_orderly.messageBy (orderly_linesInto hfault room) (fun _ => orderly_of_new) s
  | succ count ih =>
    have hmessage := orderly_message eol s
    unfold interrupted
    split
    · next h => exact hmessage.of_error h
    · next s' h =>
      have hlook := orderly_more s'
      split
      · next hm => exact (hmessage.of_ok h).next (hlook.of_error hm)
      · next hm => exact (hmessage.of_ok h).next (hlook.of_ok hm)
      · next hm => exact ((hmessage.of_ok h).next (hlook.of_ok hm)).next (ih _)

end Decoding

end DotFraming
