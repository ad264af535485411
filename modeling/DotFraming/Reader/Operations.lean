import DotFraming.Reader.Progress

/-!
# Operations of a reader

All operations take their pieces from `readOne`, in one loop.

* `Reading.collect` : the loop. It goes on while more is wanted, and ends with the message or with
  the first failure.
* `Reading.read`, `Reading.readLine`, `Reading.next`, `Reading.lines`, `Reading.readInto` : up to a
  number of characters, a line, the next of the lines, all of them, and characters into a buffer.
* `Reading.close` : reads the rest of the message, so that the source is left right after it.
* `Reading.ready` : whether something can be had without waiting.
-/

namespace DotFraming

/-- Logs how much of the message was left unread. -/
def Log.noteDiscarded (log : Log) (count : Nat) : Log :=
  log.note .debug "Discarded unread message remainder" [("count", .number (.int count))]

/-- The pieces an operation has got so far. -/
structure Collected where
  /-- The pieces, the latest first. -/
  pieces : List Piece := []
  /-- How many they are. -/
  count : Nat := 0

namespace Collected

/-- One more piece. -/
def push (got : Collected) (p : Piece) : Collected := ⟨p :: got.pieces, got.count + 1⟩

/-- The text of the pieces. -/
def text (got : Collected) : Text := got.pieces.reverse.flatten

/-- Whether the pieces end with the line ending `eol`, its last character being a piece and the
others making up as many pieces as they are. -/
def endsLine (eol : Text) (got : Collected) : Bool :=
  got.pieces.head? == eol.getLast?.map ([·]) && eol.length ≤ got.count &&
    (got.pieces.take eol.length).reverse.flatten == eol

end Collected

namespace Reading

variable {σ : Type} [CharacterSource σ]

/-- Reads pieces as long as more is `wanted` of what `step` has made of them, starting from `b`.
What has been made of them by then is the first component of the answer. -/
def collect {β : Type} (wanted : β → Bool) (step : β → Piece → β) (b : β) (s : Reading σ) :
    β × EStateM.Result Fault (Reading σ) Unit :=
  if wanted b then
    match _h : readOne s with
    | .ok (some p) s' => collect wanted step (step b p) s'
    | .ok none s' => (b, .ok () s')
    | .error e s' => (b, .error e s')
  else (b, .ok () s)
termination_by s.size
decreasing_by exact size_readOne_lt _h

/-- Collects pieces while more is wanted. -/
def take (wanted : Collected → Bool) (s : Reading σ) :
    Collected × EStateM.Result Fault (Reading σ) Unit :=
  collect wanted Collected.push {} s

/-- Up to `size` characters, all that are left if `size` is negative. -/
def read (size : Int) : Action (Reading σ) Text := fun s =>
  match take (fun got => size < 0 || got.count < size) s with
  | (got, .ok () s') => .ok got.text s'
  | (_, .error e s') => .error e s'

/-- The text up to the end of the next line ending, or to the end of the message. -/
def readLine : Action (Reading σ) Text := fun s =>
  match take (fun got => !got.endsLine s.reader.eol) s with
  | (got, .ok () s') => .ok got.text s'
  | (_, .error e s') => .error e s'

/-- The next line, unless it is empty. -/
def next : Action (Reading σ) (Option Text) := do
  let line ← readLine
  pure (if line = [] then none else some line)

/-! ### What the loop leaves -/

/-- The loop either read nothing or made what is left smaller. -/
theorem collect_eq_or_size_lt {β : Type} (wanted : β → Bool) (step : β → Piece → β) (b : β)
    (s : Reading σ) :
    (stateAfter (collect wanted step b s).2).size ≤ s.size ∧
      ((collect wanted step b s).1 = b ∨
        (stateAfter (collect wanted step b s).2).size < s.size) := by
  fun_induction collect wanted step b s with
  | case1 b s _ p s' h ih =>
    have := size_readOne_lt h
    exact ⟨by omega, .inr (by omega)⟩
  | case2 b s _ s' h =>
    have := size_readOne_add s
    simp only [h, stateAfter_ok] at this ⊢
    exact ⟨by omega, .inl trivial⟩
  | case3 b s _ e s' h =>
    have := size_readOne_add s
    simp only [h, stateAfter_error] at this ⊢
    exact ⟨by omega, .inl trivial⟩
  | case4 => exact ⟨Nat.le_refl _, .inl rfl⟩

theorem size_readLine {s s' : Reading σ} {line : Text} (h : readLine s = .ok line s')
    (hne : line ≠ []) : s'.size < s.size := by
  unfold readLine take at h
  have hb := collect_eq_or_size_lt (fun got => !got.endsLine s.reader.eol) Collected.push {} s
  split at h
  · next got s₁ hc =>
    cases h
    simp only [hc, stateAfter_ok] at hb
    rcases hb.2 with hg | hlt
    · exact absurd (by rw [hg]; rfl) hne
    · exact hlt
  · cases h

/-- All lines that are left, the latest first and after those in `got`. A failure ends them. -/
def linesFrom (got : List Text) (s : Reading σ) :
    List Text × EStateM.Result Fault (Reading σ) Unit :=
  match h : readLine s with
  | .ok line s' =>
    if hne : line = [] then (got, .ok () s')
    else
      have := size_readLine h hne
      linesFrom (line :: got) s'
  | .error e s' => (got, .error e s')
termination_by s.size

/-- All lines that are left. -/
def lines : Action (Reading σ) (List Text) := fun s =>
  match linesFrom [] s with
  | (got, .ok () s') => .ok got.reverse s'
  | (_, .error e s') => .error e s'

/-- The buffer with `items` in place of what is there from `offset` on. -/
def overwrite (buffer : List Piece) (offset : Nat) (items : List Piece) : List Piece :=
  buffer.take offset ++ items ++ buffer.drop (offset + items.length)

/-- Reads up to `length` pieces into a buffer from `offset` on, by default as many as there is room
for. The first component of the answer is the buffer afterwards, which holds what was read before a
failure too. The count is missing if the message had ended before. -/
def readInto (buffer : List Piece) (offset : Int) (length : Option Int) (s : Reading σ) :
    List Piece × EStateM.Result Fault (Reading σ) (Option Nat) :=
  let room : Int := buffer.length - offset
  let wanted := length.getD room
  if length.isSome ∧ wanted < 1 then (buffer, .ok (some 0) s)
  else if offset < 0 ∨ buffer.length < offset then
    (buffer, .error (.offsetOutside offset buffer.length) s)
  else if wanted < 1 then (buffer, .ok (some 0) s)
  else if room < wanted then
    (buffer, .error (.rangeOutside wanted offset buffer.length) s)
  else
    match take (fun got => got.count < wanted) s with
    | (got, .ok () s') =>
      (overwrite buffer offset.toNat got.pieces.reverse,
        .ok (if got.count = 0 then none else some got.count) s')
    | (got, .error e s') => (overwrite buffer offset.toNat got.pieces.reverse, .error e s')

/-- The reader is done with its source and has nothing to hand out. -/
def shut (s : Reading σ) : Reading σ :=
  { s with
    reader :=
      { s.reader with
        eof := true
        atBeginning := false
        pending := []
        cursor := 0
        closed := true } }

/-- Notes in the log how much of the message was left unread. -/
def noteDiscarded (count : Nat) (s : Reading σ) : Reading σ :=
  if count = 0 then s else { s with log := s.log.noteDiscarded count }

/-- Reads the rest of the message unless its end has been seen, and closes the reader. A failure
leaves it open. -/
def close : Action (Reading σ) Unit := fun s =>
  if s.reader.closed then .ok () s
  else if s.reader.eof then .ok () s.shut
  else
    match collect (fun _ => true) (fun n _ => n + 1) 0 s with
    | (count, .ok () s') => .ok () (noteDiscarded count s').shut
    | (_, .error e s') => .error e s'

/-- Whether something can be had without waiting. -/
def ready (s : Reading σ) : Except Fault Bool :=
  if s.reader.staged ≠ [] then .ok true
  else if s.reader.closed then .ok false
  else CharacterSource.ready s.source

/-! ### What the operations leave to the source -/

theorem supply_collect {β : Type} (wanted : β → Bool) (step : β → Piece → β) (b : β)
    (s : Reading σ) : (stateAfter (collect wanted step b s).2).supply ≤ s.supply := by
  fun_induction collect wanted step b s with
  | case1 b s _ p s' h ih =>
    have := supply_readOne s
    rw [h] at this
    exact Nat.le_trans ih this
  | case2 b s _ s' h =>
    have := supply_readOne s
    rwa [h] at this
  | case3 b s _ e s' h =>
    have := supply_readOne s
    rwa [h] at this
  | case4 => exact Nat.le_refl _

/-- If something is wanted, the source has no more left than after one read. -/
theorem supply_collect_of_wanted {β : Type} {wanted : β → Bool} {step : β → Piece → β} {b : β}
    (s : Reading σ) (hw : wanted b = true) :
    (stateAfter (collect wanted step b s).2).supply ≤ (stateAfter (readOne s)).supply := by
  unfold collect
  simp only [hw, ↓reduceIte]
  split
  · next h =>
    rw [h]
    exact supply_collect _ _ _ _
  · next h =>
    rw [h]
    exact Nat.le_refl _
  · next h =>
    rw [h]
    exact Nat.le_refl _

theorem not_endsLine_empty {eol : Text} (h : eol ≠ []) : Collected.endsLine eol {} = false := by
  cases eol with
  | nil => exact absurd rfl h
  | cons c t => simp [Collected.endsLine, List.getLast?_cons]

theorem supply_readLine (s : Reading σ) :
    (stateAfter (readLine s)).supply ≤ (stateAfter (readOne s)).supply := by
  have h := @supply_collect_of_wanted σ _ Collected (fun got => !got.endsLine s.reader.eol)
    Collected.push {} s (by rw [not_endsLine_empty s.reader.eol_ne_nil]; rfl)
  unfold readLine take
  split <;> next hc => rwa [hc] at h

theorem supply_linesFrom (got : List Text) (s : Reading σ) :
    (stateAfter (linesFrom got s).2).supply ≤ (stateAfter (readOne s)).supply := by
  fun_induction linesFrom got s with
  | case1 got s s' h =>
    have := supply_readLine s
    rwa [h] at this
  | case2 got s line s' h _ _ ih =>
    have h₁ := supply_readLine s
    have h₂ := supply_readOne s'
    rw [h] at h₁
    exact Nat.le_trans ih (Nat.le_trans h₂ h₁)
  | case3 got s e s' h =>
    have := supply_readLine s
    rwa [h] at this

theorem supply_close (s : Reading σ) : (stateAfter (close s)).supply ≤ s.supply := by
  have h := supply_collect (fun _ : Nat => true) (fun n _ => n + 1) 0 s
  unfold close
  split
  · exact Nat.le_refl _
  · split
    · exact Nat.le_refl _
    · split
      · next count s' hc =>
        rw [hc] at h
        have hn : (noteDiscarded count s').supply = s'.supply := by
          unfold noteDiscarded
          split <;> rfl
        exact Nat.le_trans (Nat.le_of_eq hn) h
      · next hc => rwa [hc] at h

end Reading

end DotFraming
