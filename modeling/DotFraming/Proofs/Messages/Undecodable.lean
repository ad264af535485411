import DotFraming.Proofs.Encoding.Kept
import DotFraming.Proofs.Messages.Failure
import DotFraming.Proofs.Source.Pushback
import DotFraming.Stream.Portioned

/-!
# Messages in bytes that cannot be decoded

A stream over a file decodes its bytes portion by portion, and fails at a portion that cannot be
decoded. Decoding messages passes this failure on. So it can only go well if all the portions that
it came to can be decoded, and it comes to all of them if it goes on to the end of the file.

* `PortionedText.Decodable` : what a stream has still to decode can be decoded.
* `PortionedText.decodable_readSome` : **a read that succeeds has passed nothing over**: what was
  there before it can be decoded if what it left can.
* `Decoding.calls_messages` : the last failure of the source is the failure of decoding.
* `Decoding.undecodable_of_messages` : **decoding fails only because of the bytes.**
* `Decoding.decodable_of_messages`, `Decoding.messages_of_undecodable` : if all messages could be
  decoded, all bytes can, and **if they cannot, decoding fails.**
* `Decoding.messages_of_unreadable` : one message is enough if its first character cannot be read.
-/

namespace DotFraming

/-! ### The stream -/

namespace PortionedText

variable {s s' : PortionedText} {n : Nat} {t : Text} {e : Fault}

theorem undecodable_of_readSome (h : readSome n s = .error e s') :
    ∃ err, e = .undecodable err := by
  fun_induction readSome n s with
  | case1 => cases h
  | case2 n s got u hgot d u' hadvance =>
    cases h
    unfold advance at hadvance
    dsimp only at hadvance
    split at hadvance
    · next err _ =>
      cases hadvance
      exact ⟨err, rfl⟩
    · cases hadvance
  | case3 => cases h
  | case4 => cases h
  | case5 n s got u hgot u' hadvance hend d w hread ih =>
    cases h
    exact ih hread

theorem undecodable_of_fails (h : TextStream.Fails s e) : ∃ err, e = .undecodable err := by
  obtain ⟨n, ⟨m, hread⟩ | hready⟩ := h
  · exact undecodable_of_readSome (n := 1) hread
  · cases hready

theorem readSome_of_advance_error (hb : s.buffered = []) (h : advance s = .error e s') :
    readSome (n + 1) s = .error e s' := by
  have hs : { s with buffered := s.buffered.drop (n + 1) } = s := by
    rw [hb, List.drop_nil, ← hb]
  unfold readSome
  rw [hs]
  simp only [hb, List.take_nil, List.length_nil]
  rw [if_neg (Nat.succ_ne_zero n).symm]
  split
  · next hadvance =>
    rw [h] at hadvance
    cases hadvance
    rfl
  · next hadvance => cases h.symm.trans hadvance

theorem readSome_of_undecodable {encoding : Encoding} {bytes : List UInt8} {err : DecodingError}
    (h : encoding.decode false 0 (bytes.take portion) = .error err) (n : Nat) :
    ∃ s', readSome (n + 1) { bytes, decoder := ⟨encoding, []⟩ } = .error (.undecodable err) s' := by
  have hdata : (bytes.take portion).isEmpty = false := by
    cases hb : bytes.take portion with
    | nil =>
      rw [hb, Encoding.decode] at h
      cases h
    | cons => rfl
  obtain ⟨s', hadvance⟩ : ∃ s', advance { bytes, decoder := ⟨encoding, []⟩ } =
      .error (.undecodable err) s' := by
    simp only [advance, hdata, Decoder.feed, List.nil_append, h]
    exact ⟨_, rfl⟩
  exact ⟨s', readSome_of_advance_error rfl hadvance⟩

theorem length_readSome (h : readSome n s = .ok t s') : t.length ≤ n := by
  fun_induction readSome n s generalizing t with
  | case1 n s got u =>
    rename_i hgot
    obtain ⟨rfl, -⟩ := EStateM.Result.ok.inj h
    exact Nat.le_of_eq hgot
  | case2 => cases h
  | case3 n s got u hgot u' hadvance =>
    rename_i hend
    cases h
    exact List.length_take_le n s.buffered
  | case4 n s got u hgot u' hadvance hend more w hread =>
    rename_i ih
    cases h
    have hmore := ih hread
    have hle : got.length ≤ n := List.length_take_le n s.buffered
    rw [List.length_append]
    omega
  | case5 => cases h

theorem single (s : PortionedText) : TextStream.Single s :=
  fun _ _ _ h => length_readSome (n := 1) h

/-- What the stream has still to decode can be decoded. -/
def Decodable (s : PortionedText) : Prop :=
  ∃ T, s.decoder.Gives s.bytes T

theorem not_decodable_of_decodeAll {encoding : Encoding} {bytes : List UInt8}
    {err : DecodingError} (h : encoding.decodeAll bytes = .error err) :
    ¬Decodable { bytes, decoder := ⟨encoding, []⟩ } := by
  rintro ⟨T, hgives⟩
  have hall : encoding.decode true 0 bytes = .ok (T, []) := hgives
  rw [Encoding.decodeAll, hall] at h
  cases h

/-- A portion that was decoded, and the rest of the bytes if they can be decoded too, make up bytes
that can be decoded. The rest is nothing if the portion is the empty one at the end. -/
theorem decodable_advance (h : advance s = .ok () s') :
    (s'.Decodable → s.Decodable) ∧ (s.bytes = [] → s'.Decodable) := by
  unfold advance at h
  dsimp only at h
  split at h
  · cases h
  · next cs decoder hfeed =>
    cases h
    cases hbytes : s.bytes with
    | nil =>
      rw [hbytes] at hfeed
      obtain ⟨hgives, hrest⟩ := Decoder.gives_of_final hfeed
      exact ⟨fun _ => ⟨cs, hbytes ▸ hgives⟩, fun _ => ⟨[], hrest⟩⟩
    | cons b rest =>
      have hdata : (s.bytes.take portion).isEmpty = false := by simp [hbytes, portion]
      rw [hdata] at hfeed
      refine ⟨fun ⟨T, hgives⟩ => ⟨cs ++ T, ?_⟩, nofun⟩
      have hall := Decoder.Gives.of_feed hfeed (hbytes ▸ hgives)
      rwa [List.take_append_drop] at hall

/-- **A read that succeeds has passed nothing over.** One that gives fewer characters than asked for
has come to the end. -/
theorem decodable_readSome (h : readSome n s = .ok t s') :
    (s'.Decodable → s.Decodable) ∧ (t.length < n → s'.Decodable) := by
  fun_induction readSome n s generalizing t with
  | case1 n s got u =>
    rename_i hgot
    obtain ⟨rfl, rfl⟩ := EStateM.Result.ok.inj h
    exact ⟨id, fun hlt => absurd hlt (by rw [hgot]; exact Nat.lt_irrefl n)⟩
  | case2 => cases h
  | case3 n s got u hgot u' hadvance =>
    rename_i hend
    cases h
    obtain ⟨hback, hlast⟩ := decodable_advance hadvance
    exact ⟨hback, fun _ => hlast hend.1⟩
  | case4 n s got u hgot u' hadvance hend more w hread =>
    rename_i ih
    cases h
    obtain ⟨hback, hlast⟩ := ih hread
    refine ⟨fun hw => (decodable_advance hadvance).1 (hback hw), fun hlt => hlast ?_⟩
    rw [List.length_append] at hlt
    omega
  | case5 => cases h

end PortionedText

/-! ### The source -/

namespace Pushback

variable {s t : Pushback PortionedText} {c : Call} {cs : List Call}

theorem decodable_of_leads (h : c.Leads s t) (hc : c.fault? = none) (ht : t.stream.Decodable) :
    s.stream.Decodable := by
  rcases c with (e | o) | ⟨p, e | ⟨⟩⟩
  · cases hc
  · rcases read_cases h with ⟨p, -, -, rfl⟩ | ⟨-, -, ⟨u, hread, -⟩ | ⟨e, -, he⟩⟩
    · exact ht
    · exact (PortionedText.decodable_readSome (n := 1) hread).1 ht
    · cases he
  · cases hc
  · change Pushback.unread p s = .ok () t at h
    unfold Pushback.unread at h
    split at h
    · cases h
    · split at h <;> cases h
      exact ht

/-- **Calls that succeed have passed nothing over.** -/
theorem decodable_of_calls (h : Calls s cs t) (hcs : ∀ c ∈ cs, c.fault? = none)
    (ht : t.stream.Decodable) : s.stream.Decodable := by
  induction h with
  | nil => exact ht
  | cons head _ ih =>
    obtain ⟨hc, hrest⟩ := List.forall_mem_cons.1 hcs
    exact decodable_of_leads head hc (ih hrest ht)

theorem decodable_of_end (h : CharacterSource.read s = .ok none t) : t.stream.Decodable := by
  have hlead : (Call.read (.ok none)).Leads s t := h
  rcases read_cases hlead with ⟨p, -, hp, -⟩ | ⟨-, -, ⟨u, hread, hu⟩ | ⟨e, -, he⟩⟩
  · cases hp
  · split at hu
    · next hnil =>
      subst hnil
      exact (PortionedText.decodable_readSome (n := 1) hread).2 Nat.one_pos
    · cases hu
  · cases he

end Pushback

/-! ### Messages -/

namespace Decoding

variable {σ : Type} [CharacterSource σ] {eol : Text}

/-- Messages are decoded by disciplined calls, and **the last call that failed** tells how decoding
failed. -/
theorem calls_messages (heol : eol ≠ []) (all : Bool) (source : σ) (log : Log) :
    let r := messages eol all ⟨source, log, []⟩
    ∃ cs, Calls source cs (stateAfter r).source ∧ Disciplined cs.reverse ∧
      cs.reverse.findSome? Call.fault? = failureOf r := by
  intro r
  obtain ⟨cs, hcs, hdisc, -⟩ := orderly_messages eol all ⟨({ source } : Traced σ), log, []⟩
  obtain ⟨ds, hds, hlast⟩ := failed_messages heol all ⟨({ source } : Traced σ), log, []⟩
  obtain ⟨hcalls, hrecord⟩ := hcs.record
  obtain rfl : cs.reverse = ds := by
    rw [hds, List.append_nil, List.append_nil] at hrecord
    exact hrecord.symm
  have hplain : r = mapState unrecorded (messages eol all ⟨({ source } : Traced σ), log, []⟩) :=
    messages_unrecorded eol all ⟨({ source } : Traced σ), log, []⟩
  rw [hplain]
  generalize messages eol all ⟨({ source } : Traced σ), log, []⟩ = q at hcalls hlast ⊢
  cases q <;> exact ⟨cs, hcalls, hdisc, hlast⟩

/-- Over a text stream that gives one character at a time, **decoding fails only as the stream
does.** -/
theorem fails_of_messages {τ : Type} [TextStream τ] {stream : τ}
    (hsingle : TextStream.Single stream) (heol : eol ≠ []) {all : Bool} {log : Log} {e : Fault}
    {t : Decoding (Pushback τ)} (h : messages eol all ⟨{ stream }, log, []⟩ = .error e t) :
    TextStream.Fails stream e := by
  have hs := Pushback.sound_of_stream stream
  obtain ⟨cs, hcs, hdisc, hlast⟩ := calls_messages heol all ({ stream } : Pushback τ) log
  rw [h] at hcs hlast
  obtain ⟨c, hc, hfault⟩ := List.exists_of_findSome?_eq_some hlast
  obtain ⟨ds, m, m', hds, hleads⟩ := hcs.exists_leads (List.mem_reverse.1 hc)
  rcases c with (e' | o) | ⟨p, o⟩
  · cases hfault
    exact Pushback.fails_of_read (hs.calls hds) hleads
  · cases hfault
  -- what is handed back is taken
  · have htaken := Pushback.takes_back hsingle hs hdisc (by rwa [List.reverse_reverse]) hc
    subst htaken
    cases hfault

variable {stream : PortionedText} {log : Log}

/-- **Decoding fails only because of the bytes.** -/
theorem undecodable_of_messages (heol : eol ≠ []) {all : Bool} {e : Fault}
    {t : Decoding (Pushback PortionedText)}
    (h : messages eol all ⟨{ stream }, log, []⟩ = .error e t) : ∃ err, e = .undecodable err :=
  PortionedText.undecodable_of_fails (fails_of_messages stream.single heol h)

theorem read_of_more_false {s t : Decoding σ} (h : more s = .ok false t) :
    CharacterSource.read s.source = .ok none t.source := by
  unfold more at h
  split at h
  · cases h
  · next hread =>
    cases h
    exact hread
  · split at h <;> cases h

theorem end_of_following {count n : Nat} {s t : Decoding σ}
    {hmore : ∃ p source, CharacterSource.read s.source = .ok (some p) source}
    (h : following eol count s hmore = .ok n t) :
    ∃ m, CharacterSource.read m = .ok none t.source := by
  fun_induction following eol count s hmore with
  | case1 => cases h
  | case2 => cases h
  | case3 count s _ s' hs u hu =>
    cases h
    exact ⟨s'.source, read_of_more_false hu⟩
  | case4 count s _ s' hs u hu _ ih => exact ih h

/-- When all messages have been decoded, the source has come to its end. -/
theorem end_of_messages {n : Nat} {s t : Decoding σ} (h : messages eol true s = .ok n t) :
    ∃ m, CharacterSource.read m = .ok none t.source := by
  unfold messages at h
  split at h
  · cases h
  · next s' hs =>
    rw [if_pos rfl] at h
    split at h
    · cases h
    · next hlook =>
      cases h
      exact ⟨s'.source, read_of_more_false hlook⟩
    · exact end_of_following h

/-- **If all messages could be decoded, so can all bytes.** -/
theorem decodable_of_messages (heol : eol ≠ []) {n : Nat} {t : Decoding (Pushback PortionedText)}
    (h : messages eol true ⟨{ stream }, log, []⟩ = .ok n t) : stream.Decodable := by
  obtain ⟨m, hend⟩ := end_of_messages h
  obtain ⟨cs, hcs, -, hnone⟩ := calls_messages heol true ({ stream } : Pushback _) log
  rw [h] at hcs hnone
  refine Pushback.decodable_of_calls hcs (fun c hc => ?_) (Pushback.decodable_of_end hend)
  exact List.findSome?_eq_none_iff.1 hnone c (List.mem_reverse.2 hc)

/-- **Bytes that cannot be decoded** make decoding all messages fail. -/
theorem messages_of_undecodable (heol : eol ≠ []) (h : ¬stream.Decodable) (log : Log) :
    ∃ err t, messages eol true ⟨({ stream } : Pushback PortionedText), log, []⟩ =
      .error (.undecodable err) t := by
  cases hrun : messages eol true ⟨({ stream } : Pushback PortionedText), log, []⟩ with
  | ok n t => exact absurd (decodable_of_messages heol hrun) h
  | error e t =>
    obtain ⟨err, rfl⟩ := undecodable_of_messages heol hrun
    exact ⟨err, t, rfl⟩

/-- If the first character of a message cannot be read, decoding fails, whatever can be read past
then. -/
theorem message_of_read_error (eol : Text) {s : Decoding σ} {e : Fault} {source : σ}
    (h : CharacterSource.read s.source = .error e source) :
    ∃ e' t, message eol s = .error e' t := by
  unfold message
  split
  · exact ⟨_, _, rfl⟩
  · next r hr =>
    obtain ⟨-, hs⟩ := Reading.open_of_new hr s.source s.log
    have hcall : Reading.readOne (s.reading r) = .error e { s.reading r with source } := by
      have hask := Reading.ask_of_read_error (s := s.reading r) h
      rw [reading, Reading.readOne_of_open hs, Reading.readOn]
      exact bind_of_error hask
    obtain ⟨ls, -, hlines⟩ := Reading.linesFrom_of_failure s.written (.nil _) hcall
    rw [hlines]
    dsimp only
    split <;> exact ⟨_, _, rfl⟩

/-- **One message is enough** for decoding to fail if not even the first character can be read. -/
theorem messages_of_unreadable (heol : eol ≠ []) (all : Bool) {e : Fault} {s' : PortionedText}
    (h : stream.readSome 1 = .error e s') (log : Log) :
    ∃ err t, messages eol all ⟨({ stream } : Pushback PortionedText), log, []⟩ =
      .error (.undecodable err) t := by
  have hread : TextStream.read 1 stream = .error e s' := h
  have hsource : CharacterSource.read ({ stream } : Pushback PortionedText) =
      .error e ⟨s', none⟩ := by
    change Pushback.read _ = _
    simp only [Pushback.read, hread]
  obtain ⟨e', t, hmessage⟩ := message_of_read_error eol
    (s := (⟨{ stream }, log, []⟩ : Decoding (Pushback PortionedText))) hsource
  have hrun : messages eol all ⟨({ stream } : Pushback PortionedText), log, []⟩ = .error e' t := by
    unfold messages
    rw [hmessage]
  obtain ⟨err, rfl⟩ := undecodable_of_messages heol hrun
  exact ⟨err, t, hrun⟩

end Decoding

end DotFraming
