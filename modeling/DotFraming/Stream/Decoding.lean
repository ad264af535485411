import DotFraming.Bytes
import DotFraming.Encoding.Lookup
import DotFraming.Source.Pushback

/-!
# Text streams over byte streams

A `DecodingStream` reads bytes in chunks and decodes them as they come. It keeps decoded characters
that have not been read, so it knows that they are ready although no byte is waiting.

* `DecodingStream.fill` : reads bytes until there is a character, or the end.
* `DecodingStream.read` : reads characters.
* `DecodingStream.ready` : whether characters can be read without waiting.
-/

namespace DotFraming

/-- A text stream over a byte stream. -/
structure DecodingStream (ρ : Type) where
  /-- The byte stream. -/
  raw : ρ
  /-- The decoder, which keeps the bytes of an unfinished character. -/
  decoder : Decoder
  /-- How many bytes are asked for at a time. -/
  chunk : Int := 4096
  /-- Characters that have not been read yet. -/
  buffered : Text := []
  /-- The byte stream has ended. -/
  eof : Bool := false

namespace DecodingStream

variable {ρ : Type} [ByteStream ρ]

/-- A stream over bytes in the encoding with the given name, or in the encoding `fallback` if the
name is missing or empty. -/
def new? (raw : ρ) (encoding : Option String) (fallback : String) (chunk : Int) :
    Except Fault (DecodingStream ρ) :=
  let name := match encoding with
    | none => fallback
    | some written => if written = "" then fallback else written
  match Encoding.ofName name with
  | .ok e => .ok { raw, decoder := ⟨e, []⟩, chunk }
  | .error fault => .error fault

/-- What is left: characters, bytes of an unfinished one, and bytes that have not been read. -/
def remaining (s : DecodingStream ρ) : Nat :=
  s.buffered.length + s.decoder.kept.length + ByteStream.remaining s.raw

/-- How far the end of the byte stream is, as a bound on the number of reads. -/
def distance (s : DecodingStream ρ) : Nat :=
  if s.eof then 0 else ByteStream.remaining s.raw + 1

/-- Reads bytes until there is a character, or the end. A chunk that cannot be decoded is lost. -/
def fill (s : DecodingStream ρ) : EStateM.Result Fault (DecodingStream ρ) Unit :=
  if _hopen : (s.eof || !s.buffered.isEmpty) = true then .ok () s
  else
    match _h : ByteStream.read (ByteStream.style s.raw) s.chunk s.raw with
    | .error e raw => .error e { s with raw }
    | .ok none raw => .error .noDataYet { s with raw }
    | .ok (some data) raw =>
      match s.decoder.feed data data.isEmpty with
      | .error e => .error (.undecodable e) { s with raw, eof := data.isEmpty }
      | .ok (buffered, decoder) =>
        fill { s with raw, decoder, buffered, eof := data.isEmpty }
termination_by s.distance
decreasing_by
  have := ByteStream.remaining_read _h
  have heof : s.eof = false := by
    rw [Bool.or_eq_true, not_or, Bool.not_eq_true] at _hopen
    exact _hopen.1
  cases data with
  | nil => simp [distance, heof]
  | cons b bs =>
    simp only [List.length_cons] at this
    simp only [distance, heof, List.isEmpty_cons, Bool.false_eq_true, ↓reduceIte]
    omega

theorem fill_of_ready {s : DecodingStream ρ} (h : (s.eof || !s.buffered.isEmpty) = true) :
    fill s = .ok () s := by
  rw [fill, dif_pos h]

theorem fill_of_open {s : DecodingStream ρ} (h : (s.eof || !s.buffered.isEmpty) = false) :
    fill s =
      match ByteStream.read (ByteStream.style s.raw) s.chunk s.raw with
      | .error e raw => .error e { s with raw }
      | .ok none raw => .error .noDataYet { s with raw }
      | .ok (some data) raw =>
        match s.decoder.feed data data.isEmpty with
        | .error e => .error (.undecodable e) { s with raw, eof := data.isEmpty }
        | .ok (buffered, decoder) =>
          fill { s with raw, decoder, buffered, eof := data.isEmpty } := by
  rw [fill, dif_neg (Bool.eq_false_iff.1 h)]
  split <;> next hread => rw [hread]

/-- Reads up to `n` characters, waiting for the first of them only. -/
def readSome (n : Nat) : Action (DecodingStream ρ) Text := fun s =>
  if n = 0 then .ok [] s
  else
    match fill s with
    | .ok () s' => .ok (s'.buffered.take n) { s' with buffered := s'.buffered.drop n }
    | .error e s' => .error e s'

/-! ### What is left -/

theorem remaining_fill (s : DecodingStream ρ) : (stateAfter (fill s)).remaining ≤ s.remaining := by
  fun_induction fill s with
  | case1 => exact Nat.le_refl _
  | case2 s _ e raw h =>
    have := ByteStream.remaining_le (ByteStream.style s.raw) s.chunk s.raw
    simp only [h, stateAfter_error] at this
    simpa [remaining] using this
  | case3 s _ raw h =>
    have := ByteStream.remaining_le (ByteStream.style s.raw) s.chunk s.raw
    simp only [h, stateAfter_ok] at this
    simpa [remaining] using this
  | case4 s _ data raw h e hd =>
    have := ByteStream.remaining_read h
    simp only [remaining, stateAfter_error]
    omega
  | case5 s _ data raw h buffered decoder hd ih =>
    have h₁ := ByteStream.remaining_read h
    have h₂ := Decoder.length_feed hd
    refine Nat.le_trans ih ?_
    simp only [remaining]
    omega

theorem remaining_readSome (n : Nat) (s : DecodingStream ρ) :
    (stateAfter (readSome n s)).remaining ≤ s.remaining ∧
      ∀ {t : Text} {s' : DecodingStream ρ}, readSome n s = .ok t s' →
        s'.remaining + t.length ≤ s.remaining := by
  unfold readSome
  split
  · refine ⟨Nat.le_refl _, fun h => ?_⟩
    cases h
    simp
  · have hf := remaining_fill s
    split
    · next s₁ h =>
      rw [h] at hf
      simp only [stateAfter_ok] at hf
      constructor
      · simp only [stateAfter_ok, remaining, List.length_drop] at hf ⊢
        omega
      · intro t s' hc
        cases hc
        simp only [remaining, List.length_drop, List.length_take] at hf ⊢
        omega
    · next e s₁ h =>
      rw [h] at hf
      exact ⟨hf, fun hc => by cases hc⟩

/-- Reads chunk by chunk until nothing comes any more. `got` is what came before. -/
def readAllFrom (got : Text) (s : DecodingStream ρ) :
    EStateM.Result Fault (DecodingStream ρ) Text :=
  match h : readSome s.chunk.toNat s with
  | .error e s' => .error e s'
  | .ok [] s' => .ok got s'
  | .ok (c :: t) s' =>
    have : s'.remaining < s.remaining := by
      have := (remaining_readSome s.chunk.toNat s).2 h
      simp only [List.length_cons] at this
      omega
    readAllFrom (got ++ c :: t) s'
termination_by s.remaining

/-- Reads up to `size` characters, all that are left if `size` is negative. -/
def read (size : Int) : Action (DecodingStream ρ) Text :=
  match size with
  | .ofNat n => readSome n
  | .negSucc _ => readAllFrom []

/-- Characters that are kept are ready, and so is the end. Otherwise the descriptor is asked;
without one nothing is ever waited for. -/
def ready (s : DecodingStream ρ) : Bool :=
  if s.eof || !s.buffered.isEmpty then true
  else (ByteStream.readable? s.raw).getD true

instance : TextStream (DecodingStream ρ) where
  read := read
  ready? s := some (.ok s.ready)
  readable? _ := none
  remaining := remaining
  remaining_read s := (remaining_readSome 1 s).1
  remaining_read_cons {s s' c t} h := by
    have := (remaining_readSome 1 s).2 h
    simp only [List.length_cons] at this
    omega

/-- The stream in words, given the byte stream in words. -/
def describe (raw : String) (s : DecodingStream ρ) : String :=
  "DecodingStream(" ++ raw ++ ", pending=" ++ toString s.buffered.length ++ ")"

end DecodingStream

end DotFraming
