import DotFraming.Encoding.Decoder

/-!
# The characters of an encoding

* `Encoding.Has` : the encoding has bytes for a character.
* `Encoding.has_of_decodeAll` : **what comes from decoding can be encoded again.**
* `latin1Text`, `decodeAll_latin1`, `latin1Text_encode` : **in Latin-1 every byte is a character**,
  and the bytes of a text are its characters.
-/

namespace DotFraming

namespace Encoding

variable {e : Encoding} {b : UInt8} {rest bytes : List UInt8} {c : Char} {T : Text}

/-- The encoding has bytes for a character. -/
def Has (e : Encoding) (c : Char) : Prop := ∃ bytes, e.encodeChar? c = some bytes

theorem toNat_ofNat_byte (b : UInt8) : (Char.ofNat b.toNat).toNat = b.toNat := by
  have hlt : b.toNat < 256 := b.toNat_lt
  have hvalid : b.toNat.isValidChar := .inl (by omega)
  rw [Char.ofNat, dif_pos hvalid]
  rfl

theorem has_of_scan {extra : Nat} (h : e.scan b rest = .char c extra) : e.Has c := by
  cases e with
  | latin1 =>
    obtain ⟨rfl, -⟩ := Scan.char.inj h
    refine ⟨_, if_pos ?_⟩
    rw [toNat_ofNat_byte]
    exact b.toNat_lt
  | ascii =>
    unfold scan at h
    simp only at h
    split at h
    · next hlt =>
      obtain ⟨rfl, -⟩ := Scan.char.inj h
      refine ⟨_, if_pos ?_⟩
      rwa [toNat_ofNat_byte]
    · cases h
  | utf8 => exact ⟨_, rfl⟩
  | utf16le => exact ⟨_, rfl⟩
  | utf16be => exact ⟨_, rfl⟩

theorem has_of_decode {final : Bool} {pos : Nat} {kept : List UInt8}
    (h : e.decode final pos bytes = .ok (T, kept)) : ∀ c ∈ T, e.Has c := by
  fun_induction decode e final pos bytes generalizing T kept with
  | case1 =>
    cases h
    exact fun c hc => by cases hc
  | case2 pos b rest c extra hscan cs kept' hd ih =>
    cases h
    intro d hd'
    rcases List.mem_cons.1 hd' with rfl | hmem
    · exact has_of_scan hscan
    · exact ih hd d hmem
  | case3 => cases h
  | case4 => cases h
  | case5 => cases h
  | case6 =>
    cases h
    exact fun c hc => by cases hc

/-- **What comes from decoding can be encoded again.** -/
theorem has_of_decodeAll (h : e.decodeAll bytes = .ok T) : ∀ c ∈ T, e.Has c := by
  unfold decodeAll at h
  split at h <;> cases h
  next hd => exact has_of_decode hd

theorem has_of_ascii (e : Encoding) (h : c.toNat < 128) : e.Has c := by
  cases e with
  | latin1 => exact ⟨_, if_pos (Nat.lt_trans h (by decide))⟩
  | ascii => exact ⟨_, if_pos h⟩
  | utf8 => exact ⟨_, rfl⟩
  | utf16le => exact ⟨_, rfl⟩
  | utf16be => exact ⟨_, rfl⟩

end Encoding

/-! ### Bytes that are characters -/

/-- The text of bytes each of which is a character. -/
def latin1Text (bytes : List UInt8) : Text := bytes.map fun b => Char.ofNat b.toNat

theorem decode_latin1 (final : Bool) (pos : Nat) (bytes : List UInt8) :
    Encoding.latin1.decode final pos bytes = .ok (latin1Text bytes, []) := by
  induction bytes generalizing pos with
  | nil => simp [Encoding.decode, latin1Text]
  | cons b bytes ih => simp [Encoding.decode, Encoding.scan, ih, latin1Text]

/-- **All bytes are valid.** -/
theorem decodeAll_latin1 (bytes : List UInt8) :
    Encoding.latin1.decodeAll bytes = .ok (latin1Text bytes) := by
  rw [Encoding.decodeAll, decode_latin1]

theorem latin1Text_encode {t : Text} (h : ∀ c ∈ t, Encoding.latin1.Has c) :
    latin1Text (Encoding.latin1.encode t) = t := by
  induction t with
  | nil => rfl
  | cons c t ih =>
    have hrest := ih fun d hd => h d (List.mem_cons_of_mem _ hd)
    obtain ⟨bytes, hbytes⟩ := h c List.mem_cons_self
    have hlt : c.toNat < 256 := by
      simp only [Encoding.encodeChar?] at hbytes
      split at hbytes
      · assumption
      · cases hbytes
    have hfront : Encoding.latin1.encodeChar? c = some [UInt8.ofNat c.toNat] := if_pos hlt
    have hbyte : (UInt8.ofNat c.toNat).toNat = c.toNat := by simp [Nat.mod_eq_of_lt hlt]
    simp only [latin1Text, Encoding.encode, List.flatMap_cons, hfront, Option.getD_some,
      List.cons_append, List.nil_append, List.map_cons, hbyte, Char.ofNat_toNat] at hrest ⊢
    rw [hrest]

end DotFraming
