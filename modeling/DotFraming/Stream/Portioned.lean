import DotFraming.Encoding.Decoder
import DotFraming.Source.Pushback

/-!
# Text streams over files

A `PortionedText` decodes the bytes of a file, or of the standard input, in portions of a fixed size
as they are asked for. A CR at the end of a portion is handed out with what follows it, so that no
portion ends between CR and LF. Every portion but the last is full: input that trickles in, of which
a portion may hold less, is not modelled.

* `PortionedText.holdBack` : what becomes of a CR at the end of a portion, which by
  `PortionedText.holdBack_append` changes nothing but the time at which it is handed out.
* `PortionedText.advance` : decodes one portion. One that cannot be decoded is lost. The end of the
  bytes is met anew by every read, and so are the bytes of an unfinished character before it.
* `PortionedText.readSome`, `PortionedText.read` : reads characters.
-/

namespace DotFraming

/-- A text stream over bytes that are all there. -/
structure PortionedText where
  /-- The bytes that have not been read yet. -/
  bytes : List UInt8
  /-- The decoder, which keeps the bytes of an unfinished character. -/
  decoder : Decoder
  /-- A CR has been held back. -/
  heldCR : Bool := false
  /-- Characters that have not been read yet. -/
  buffered : Text := []

namespace PortionedText

/-- How many bytes are decoded at a time, unless fewer are left. -/
def portion : Nat := 8192

/-- The CR that is held back, if there is one. -/
def crIf (held : Bool) : Text := if held then ['\r'] else []

/-- Holds back a CR that comes last, unless these characters are the `final` ones. -/
def retain (final : Bool) (t : Text) : Text × Bool :=
  if !final && t.getLast? == some '\r' then (t.dropLast, true) else (t, false)

/-- Puts a CR that was held back in front of what came after it, and holds back a CR that comes
last. While nothing has come a CR stays held back. -/
def holdBack (held final : Bool) (t : Text) : Text × Bool :=
  if held && !final && t.isEmpty then ([], true) else retain final (crIf held ++ t)

/-- Decodes the next portion, the empty one when no byte is left. -/
def advance : Action PortionedText Unit := fun s =>
  let data := s.bytes.take portion
  let bytes := s.bytes.drop portion
  match s.decoder.feed data data.isEmpty with
  | .error e => .error (.undecodable e) { s with bytes }
  | .ok (t, decoder) =>
    let (buffered, heldCR) := holdBack s.heldCR data.isEmpty t
    .ok () { bytes, decoder, heldCR, buffered }

/-! ### What is left -/

/-- What is left: characters, a CR that was held back, bytes of an unfinished character, and bytes
that have not been read. -/
def remaining (s : PortionedText) : Nat :=
  s.buffered.length + s.heldCR.toNat + s.decoder.kept.length + s.bytes.length

/-- How far the end of the bytes is, as a bound on the number of portions. -/
def distance (s : PortionedText) : Nat :=
  2 * s.bytes.length + s.decoder.kept.length + s.heldCR.toNat

/-! ### Holding back changes nothing -/

theorem retain_append (final : Bool) (t : Text) :
    (retain final t).1 ++ crIf (retain final t).2 = t := by
  unfold retain
  split
  · next h =>
    simp only [Bool.and_eq_true, beq_iff_eq] at h
    obtain ⟨front, rfl⟩ := List.getLast?_eq_some_iff.1 h.2
    simp [crIf]
  · simp [crIf]

/-- **What was held back, what came, what goes on and what is held back now** make up the same
text. -/
theorem holdBack_append (held final : Bool) (t : Text) :
    (holdBack held final t).1 ++ crIf (holdBack held final t).2 = crIf held ++ t := by
  unfold holdBack
  split
  · next h =>
    simp only [Bool.and_eq_true, List.isEmpty_iff] at h
    simp [h.1.1, h.2]
  · exact retain_append _ _

theorem length_crIf (held : Bool) : (crIf held).length = held.toNat := by cases held <;> rfl

theorem length_holdBack (held final : Bool) (t : Text) :
    (holdBack held final t).1.length + (holdBack held final t).2.toNat = t.length + held.toNat := by
  have := congrArg List.length (holdBack_append held final t)
  simp only [List.length_append, length_crIf] at this
  omega

/-! ### Portions use something up -/

theorem advance_ok {s s' : PortionedText} (h : advance s = .ok () s') :
    s'.bytes = s.bytes.drop portion ∧
      s'.buffered.length + s'.heldCR.toNat + s'.decoder.kept.length ≤
        s.heldCR.toNat + s.decoder.kept.length + (s.bytes.take portion).length := by
  unfold advance at h
  dsimp only at h
  split at h
  · cases h
  · next t decoder hf =>
    cases h
    have h₁ := Decoder.length_feed hf
    have h₂ := length_holdBack s.heldCR (s.bytes.take portion).isEmpty t
    exact ⟨rfl, by dsimp only; omega⟩

theorem remaining_advance (s : PortionedText) :
    (stateAfter (advance s)).remaining ≤ s.remaining := by
  cases h : advance s with
  | ok _ s' =>
    obtain ⟨hb, hl⟩ := advance_ok h
    simp only [remaining, stateAfter_ok, hb, List.length_take, List.length_drop] at hl ⊢
    omega
  | error e s' =>
    unfold advance at h
    dsimp only at h
    split at h
    · cases h
      simp only [remaining, stateAfter_error, List.length_drop]
      omega
    · cases h

/-- A portion brings the end nearer if it holds a byte or gives a character. -/
theorem distance_advance {s s' : PortionedText} (h : advance s = .ok () s')
    (hmore : ¬(s.bytes = [] ∧ s'.buffered = [])) : s'.distance < s.distance := by
  obtain ⟨hb, hl⟩ := advance_ok h
  simp only [distance, hb, List.length_take, List.length_drop] at hl ⊢
  by_cases hs : s.bytes = []
  · have hp : 0 < s'.buffered.length := List.length_pos_iff.2 fun hn => hmore ⟨hs, hn⟩
    simp only [hs, List.length_nil] at hl ⊢
    omega
  · have hp : 0 < s.bytes.length := List.length_pos_iff.2 hs
    simp only [portion] at hl ⊢
    omega

/-! ### Reading -/

/-- Reads `n` characters, fewer only at the end. -/
def readSome (n : Nat) (s : PortionedText) : EStateM.Result Fault PortionedText Text :=
  let got := s.buffered.take n
  let t := { s with buffered := s.buffered.drop n }
  if got.length = n then .ok got t
  else
    match _h : advance t with
    | .error e t' => .error e t'
    | .ok () t' =>
      if _hend : t.bytes = [] ∧ t'.buffered = [] then .ok got t'
      else
        match readSome (n - got.length) t' with
        | .ok more u => .ok (got ++ more) u
        | .error e u => .error e u
termination_by s.distance
decreasing_by
  have := distance_advance _h _hend
  exact this

theorem remaining_drop (n : Nat) (s : PortionedText) :
    { s with buffered := s.buffered.drop n }.remaining + (s.buffered.take n).length =
      s.remaining := by
  simp only [remaining, List.length_drop, List.length_take]
  omega

theorem remaining_readSome (n : Nat) (s : PortionedText) :
    (stateAfter (readSome n s)).remaining ≤ s.remaining ∧
      ∀ {c : Text} {s' : PortionedText}, readSome n s = .ok c s' →
        s'.remaining + c.length ≤ s.remaining := by
  fun_induction readSome n s with
  | case1 n s got t h =>
    have h₁ : t.remaining + got.length = s.remaining := remaining_drop n s
    exact ⟨by rw [stateAfter_ok]; omega, fun hc => by cases hc; omega⟩
  | case2 n s got t h e t' ha =>
    have h₁ : t.remaining + got.length = s.remaining := remaining_drop n s
    have h₂ := remaining_advance t
    rw [ha, stateAfter_error] at h₂
    exact ⟨by rw [stateAfter_error]; omega, fun hc => by cases hc⟩
  | case3 n s got t h t' ha hend =>
    have h₁ : t.remaining + got.length = s.remaining := remaining_drop n s
    have h₂ := remaining_advance t
    rw [ha, stateAfter_ok] at h₂
    exact ⟨by rw [stateAfter_ok]; omega, fun hc => by cases hc; omega⟩
  | case4 n s got t h t' ha hend more u hu ih =>
    have h₁ : t.remaining + got.length = s.remaining := remaining_drop n s
    have h₂ := remaining_advance t
    rw [ha, stateAfter_ok] at h₂
    have h₃ := ih.2 hu
    exact ⟨by rw [stateAfter_ok]; omega, fun hc => by cases hc; rw [List.length_append]; omega⟩
  | case5 n s got t h t' ha hend e u hu ih =>
    have h₁ : t.remaining + got.length = s.remaining := remaining_drop n s
    have h₂ := remaining_advance t
    rw [ha, stateAfter_ok] at h₂
    have h₃ := ih.1
    rw [hu, stateAfter_error] at h₃
    exact ⟨by rw [stateAfter_error]; omega, fun hc => by cases hc⟩

/-- Reads up to `size` characters, all that are left if `size` is negative. -/
def read (size : Int) : Action PortionedText Text := fun s =>
  match size with
  | .ofNat n => readSome n s
  | .negSucc _ => readSome (s.remaining + 1) s

instance : TextStream PortionedText where
  read := read
  ready? _ := none
  readable? _ := some true
  remaining := remaining
  remaining_read s := (remaining_readSome 1 s).1
  remaining_read_cons {s s' c t} h := by
    have := (remaining_readSome 1 s).2 h
    simp only [List.length_cons] at this
    omega

end PortionedText

end DotFraming
