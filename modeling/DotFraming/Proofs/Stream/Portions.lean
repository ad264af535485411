import DotFraming.Proofs.Encoding.Portions
import DotFraming.Proofs.Source.Simulation
import DotFraming.Stream.InMemory
import DotFraming.Stream.Portioned

/-!
# Portions do not show

A stream over a file decodes its bytes portion by portion, each of a fixed size but the last. A
portion may end in the middle of a character, whose bytes are kept then, and after a CR, which is
held back then. Whoever reads from the stream gets the text of all the bytes nevertheless.

* `PortionedText.Yields` : the text that a stream has still to give.
* `PortionedText.advance_of_yields` : **a portion changes nothing** about it.
* `PortionedText.readSome_of_yields` : reading takes it from the front.
* `Pushback.simulation_sameText` : **a source over a file and one over the text of its bytes** run
  side by side.
-/

namespace DotFraming

namespace PortionedText

variable {s : PortionedText} {T : Text}

/-- The text that a stream has still to give: what has been decoded, a CR that was held back, and
what the bytes stand for that have not been decoded. -/
def Yields (s : PortionedText) (T : Text) : Prop :=
  ∃ later, T = s.buffered ++ crIf s.heldCR ++ later ∧ s.decoder.Gives s.bytes later

theorem yields_of_decodeAll {e : Encoding} {bytes : List UInt8} (h : e.decodeAll bytes = .ok T) :
    Yields { bytes, decoder := ⟨e, []⟩ } T :=
  ⟨T, rfl, Decoder.gives_of_decodeAll h⟩

/-- **A portion changes nothing** about the text that is still to come. When no byte is left, all of
it has been decoded. -/
theorem advance_of_yields (h : s.Yields T) (hb : s.buffered = []) :
    ∃ s', advance s = .ok () s' ∧ s'.Yields T ∧ (s.bytes = [] → s'.buffered = T) := by
  obtain ⟨later, rfl, hgives⟩ := h
  rw [hb, List.nil_append]
  cases hbytes : s.bytes with
  | nil =>
    rw [hbytes] at hgives
    have hhold : holdBack s.heldCR true later = (crIf s.heldCR ++ later, false) := by
      simp [holdBack, retain]
    have hrun : advance s =
        .ok () ⟨[], { s.decoder with kept := [] }, false, crIf s.heldCR ++ later⟩ := by
      simp [advance, hbytes, hgives.final, hhold]
    refine ⟨_, hrun, ⟨[], by simp [crIf], ?_⟩, fun _ => rfl⟩
    show Encoding.decode _ true 0 [] = _
    rw [Encoding.decode]
  | cons b rest =>
    have hdata : (s.bytes.take portion).isEmpty = false := by simp [hbytes, portion]
    rw [← List.take_append_drop portion s.bytes] at hgives
    obtain ⟨cs, d', later', hfeed, rfl, hgives'⟩ := hgives.feed
    have hheld := holdBack_append s.heldCR false cs
    have hrun : advance s =
        .ok () ⟨s.bytes.drop portion, d', (holdBack s.heldCR false cs).2,
          (holdBack s.heldCR false cs).1⟩ := by
      simp only [advance, hdata, hfeed]
    refine ⟨_, hrun, ⟨later', ?_, hgives'⟩, by simp⟩
    simp only
    rw [hheld, List.append_assoc]

theorem Yields.drop (h : s.Yields T) {n : Nat} (hn : n ≤ s.buffered.length) :
    T.take n = s.buffered.take n ∧
      Yields { s with buffered := s.buffered.drop n } (T.drop n) := by
  obtain ⟨later, rfl, hgives⟩ := h
  rw [List.append_assoc, List.take_append_of_le_length hn, List.drop_append_of_le_length hn]
  exact ⟨rfl, later, (List.append_assoc ..).symm, hgives⟩

/-- If too little has been decoded, all of it is read, and the rest of the text is still to come. -/
theorem Yields.drop_all (h : s.Yields T) {n : Nat} (hn : ¬(s.buffered.take n).length = n) :
    ∃ T', T = s.buffered.take n ++ T' ∧ s.buffered.drop n = [] ∧
      Yields { s with buffered := s.buffered.drop n } T' := by
  have hle : s.buffered.length ≤ n := by
    rw [List.length_take] at hn
    omega
  obtain ⟨later, rfl, hgives⟩ := h
  rw [List.take_of_length_le hle, List.drop_of_length_le hle]
  exact ⟨crIf s.heldCR ++ later, List.append_assoc .., rfl, later, rfl, hgives⟩

/-- **Reading takes the text from the front**, fewer characters than asked for only at its end. -/
theorem readSome_of_yields (n : Nat) (h : s.Yields T) :
    ∃ s', readSome n s = .ok (T.take n) s' ∧ s'.Yields (T.drop n) := by
  fun_induction readSome n s generalizing T with
  | case1 n s got t =>
    rename_i hlen
    obtain ⟨htake, hdrop⟩ := h.drop (hlen ▸ List.length_take_le' n s.buffered)
    rw [htake]
    exact ⟨t, rfl, hdrop⟩
  | case2 n s got t hlen e t' =>
    rename_i hrun
    obtain ⟨T', rfl, hnil, hyields⟩ := h.drop_all hlen
    obtain ⟨u, hadvance, -⟩ := advance_of_yields hyields hnil
    cases hadvance.symm.trans hrun
  | case3 n s got t hlen t' hrun =>
    rename_i hend
    obtain ⟨T', rfl, hnil, hyields⟩ := h.drop_all hlen
    obtain ⟨u, hadvance, hyields', hlast⟩ := advance_of_yields hyields hnil
    cases hadvance.symm.trans hrun
    -- the last portion has given nothing: the text ends here
    obtain rfl : T' = [] := (hlast hend.1).symm.trans hend.2
    rw [List.append_nil, List.take_take, Nat.min_self, List.drop_take, Nat.sub_self, List.take_zero]
    exact ⟨t', rfl, hyields'⟩
  | case4 n s got t hlen t' hrun _ more u hread =>
    rename_i ih
    obtain ⟨T', rfl, hnil, hyields⟩ := h.drop_all hlen
    obtain ⟨u', hadvance, hyields', -⟩ := advance_of_yields hyields hnil
    cases hadvance.symm.trans hrun
    obtain ⟨v, hmore, hyields''⟩ := ih hyields'
    cases hmore.symm.trans hread
    rw [List.take_append, List.drop_append, List.take_take, Nat.min_self,
      List.drop_take, Nat.sub_self, List.take_zero, List.nil_append]
    exact ⟨u, rfl, hyields''⟩
  | case5 n s got t hlen t' hrun _ e u hread =>
    rename_i ih
    obtain ⟨T', rfl, hnil, hyields⟩ := h.drop_all hlen
    obtain ⟨u', hadvance, hyields', -⟩ := advance_of_yields hyields hnil
    cases hadvance.symm.trans hrun
    obtain ⟨v, hmore, -⟩ := ih hyields'
    cases hmore.symm.trans hread

end PortionedText

/-! ### Sources -/

namespace Pushback

/-- The same character waits, and the stream over a file has yet to give what is left in memory. -/
inductive SameText : Pushback PortionedText → Pushback InMemory → Prop where
  /-- Only where the text comes from differs. -/
  | intro (pushed : Option Piece) {file : PortionedText} {T : Text} (yields : file.Yields T) :
    SameText ⟨file, pushed⟩ ⟨⟨T⟩, pushed⟩

theorem simulates_read_sameText :
    Simulates SameText (CharacterSource.read : Action _ _) CharacterSource.read := by
  rintro _ _ (@⟨pushed, file, T, hyields⟩)
  cases pushed with
  | some p => exact .ok _ ⟨none, hyields⟩
  | none =>
    obtain ⟨file', hfile, hyields'⟩ := PortionedText.readSome_of_yields 1 hyields
    have hread : TextStream.read 1 file = .ok (T.take 1) file' := hfile
    show Agree SameText (Pushback.read _) (Pushback.read _)
    cases T with
    | nil =>
      simp only [Pushback.read, hread]
      exact .ok none ⟨none, hyields'⟩
    | cons c T =>
      simp only [Pushback.read, hread]
      exact .ok (some [c]) ⟨none, hyields'⟩

theorem simulates_unread_sameText (p : Piece) :
    Simulates SameText (CharacterSource.unread p : Action _ _) (CharacterSource.unread p) := by
  rintro _ _ (@⟨pushed, file, T, hyields⟩)
  show Agree SameText (Pushback.unread p _) (Pushback.unread p _)
  unfold Pushback.unread
  split
  · exact .error _ ⟨pushed, hyields⟩
  · cases pushed with
    | some q => exact .error _ ⟨some q, hyields⟩
    | none => exact .ok () ⟨some p, hyields⟩

/-- **A source over a file and one over the text of its bytes** run side by side. -/
theorem simulation_sameText : Simulation SameText (fun l m => m = l) where
  read := simulates_read_sameText
  unread := simulates_unread_sameText
  ready := by
    rintro _ _ (@⟨pushed, file, T, hyields⟩)
    rfl
  note := by
    rintro l _ rfl level message context
    rfl

end Pushback

end DotFraming
