import Mathlib
import DotFraming.CommandLine.Run
import DotFraming.FileTree
import DotFraming.Proofs.Encoding.Repertoire
import DotFraming.Proofs.Messages.Text
import DotFraming.Proofs.Session.Simulation
import DotFraming.Proofs.Stream.Portions

/-!
# What the command line writes

The command line reads bytes, portion by portion, and writes bytes. In between it decodes messages
as `Decoding.messages` does, which is known for texts in memory. This file says that nothing is lost
on the way.

* `CommandLine.parse_spelling` : every choice of options can be made.
* `CommandLine.decode_eq` : a run on bytes that can be decoded is one on their text.
* `CommandLine.run_decodes_text` : **the command line writes what decoding the text writes**,
  wherever the bytes come from and wherever the output goes.
-/

namespace DotFraming

namespace CommandLine

/-! ### Options -/

/-- The words that name an input. -/
def pathArgs : Option Text → List String
  | some p => ["--", String.ofList p]
  | none => []

/-- The word that asks for all messages. -/
def allArgs (all : Bool) : List String := if all then ["--all"] else []

/-- A command line that asks for a line ending, an encoding, one message or all, and an input. -/
def spelling (l : LineEnding) (name : String) (all : Bool) (path : Option Text) : List String :=
  ("--eol=" ++ l.name) :: ("--encoding=" ++ name) :: (allArgs all ++ pathArgs path)

theorem classify_eol (value : Text) :
    Word.classify ("--eol=".toList ++ value) = .ok (.switches (.ok ⟨[], .has .eol value⟩)) := rfl

theorem classify_encoding (value : Text) :
    Word.classify ("--encoding=".toList ++ value) =
      .ok (.switches (.ok ⟨[], .has .encoding value⟩)) := rfl

theorem classify_all :
    Word.classify "--all".toList = .ok (.switches (.ok ⟨[.all], .nothing⟩)) := rfl

theorem words_cons {w : Text} {ws : List Text} {word : Word} {rest : List Word}
    (hne : w ≠ ['-', '-']) (hw : Word.classify w = .ok word) (hws : words ws = .ok rest) :
    words (w :: ws) = .ok (word :: rest) := by
  rw [words, if_neg hne, hw]
  simp only [hws]

/-- What the words are that name an input. -/
def pathWords : Option Text → List Word
  | some p => [.divider, .operand p]
  | none => []

/-- What the word is that asks for all messages. -/
def allWords (all : Bool) : List Word := if all then [.switches (.ok ⟨[.all], .nothing⟩)] else []

theorem words_pathArgs (path : Option Text) :
    words ((pathArgs path).map String.toList) = .ok (pathWords path) := by
  cases path with
  | none => rfl
  | some p => simp [words, pathArgs, pathWords]

theorem words_allArgs (all : Bool) (path : Option Text) :
    words ((allArgs all ++ pathArgs path).map String.toList) =
      .ok (allWords all ++ pathWords path) := by
  cases all with
  | false => exact words_pathArgs path
  | true => exact words_cons (by decide) classify_all (words_pathArgs path)

theorem words_spelling (l : LineEnding) (name : String) (all : Bool) (path : Option Text) :
    words ((spelling l name all path).map String.toList) =
      .ok (.switches (.ok ⟨[], .has .eol l.name.toList⟩) ::
        .switches (.ok ⟨[], .has .encoding name.toList⟩) :: (allWords all ++ pathWords path)) := by
  have heol : ("--eol=" ++ l.name).toList = "--eol=".toList ++ l.name.toList :=
    String.toList_append
  have hencoding : ("--encoding=" ++ name).toList = "--encoding=".toList ++ name.toList :=
    String.toList_append
  rw [spelling, List.map_cons, List.map_cons, heol, hencoding]
  exact words_cons (by simp) (classify_eol _)
    (words_cons (by simp) (classify_encoding _) (words_allArgs all path))

theorem find?_name (l : LineEnding) :
    LineEnding.all.find? (fun x => x.name.toList == l.name.toList) = some l := by
  cases l <;> decide

/-- **Every choice of options can be made.** -/
theorem parse_spelling (default : String) (l : LineEnding) {name : String} (all : Bool)
    (path : Option Text) (hname : name ≠ "--") :
    parse default (spelling l name all path) =
      .ok { eol := l, encoding := some name, all, path } := by
  have hname' : name.toList ≠ ['-', '-'] := fun h => hname (String.toList_injective h)
  have hl : l.name.toList ≠ ['-', '-'] := by cases l <;> decide
  rw [parse, words_spelling]
  cases all <;> cases path <;>
    simp [Draft.take, Draft.apply, Draft.flags, Draft.flag, Draft.set, Draft.operand,
      Draft.divider, allWords, pathWords, hl, hname', find?_name]

theorem ne_locale_of_ofName {name : String} {e : Encoding} (h : Encoding.ofName name = .ok e) :
    name ≠ "locale" ∧ name ≠ "--" := by
  have hnone : Encoding.named? "locale" = none ∧ Encoding.named? "--" = none := by decide
  obtain ⟨-, hnamed⟩ := Encoding.ofName_eq_ok_iff.1 h
  constructor
  · rintro rfl
    cases hnone.1.symm.trans hnamed
  · rintro rfl
    cases hnone.2.symm.trans hnamed

/-- **Every choice can be made** on the command line. -/
theorem exists_options (target : Destination) (default : String) (l : LineEnding) {name : String}
    {e : Encoding} (all : Bool) (path : Option Text) (hname : Encoding.ofName name = .ok e) :
    ∃ o, parse default (spelling l name all path) = .ok o ∧ encodingOf target o = .ok e ∧
      o.eol = l ∧ o.all = all ∧ o.path = path := by
  obtain ⟨hlocale, hdashes⟩ := ne_locale_of_ofName hname
  refine ⟨_, parse_spelling default l all path hdashes, ?_, rfl, rfl, rfl⟩
  rw [encodingOf]
  simp only [hlocale, if_false, hname]

/-! ### Runs -/

/-- The bytes of the input: those of the file with the given path, or the standard input. -/
def Options.content (o : Options) (files : FileTree) (stdin : List UInt8) :
    Except Fault (List UInt8) :=
  match o.input with
  | some path => files.read path
  | none => .ok stdin

/-- **A run on bytes that can be decoded** is one on their text. -/
theorem decode_eq (o : Options) {e : Encoding} {bytes : List UInt8} {T : Text} (log : Log)
    (htext : e.decodeAll bytes = .ok T) :
    ∃ count d, Decoding.messages o.eol.text o.all ⟨Pushback.ofText T, log, []⟩ = .ok count d ∧
      d.output = Decoding.decodedText o.eol.text o.all T ∧
      decode o e bytes log = ⟨d.output, e,
        d.log.note .info "Decoded messages" [("count", .number (.int count))], .ok 0⟩ := by
  obtain ⟨count, d, hrun, hout⟩ := Decoding.messages_of_holds (s := ⟨Pushback.ofText T, log, []⟩)
    o.eol.text_ne_nil o.all (.inl rfl)
  refine ⟨count, d, hrun, hout, ?_⟩
  have hside := Decoding.simulates_messages Pushback.simulation_sameText o.eol.text o.all
    ⟨source e bytes, log, []⟩ _ ⟨[], ⟨none, PortionedText.yields_of_decodeAll htext⟩, rfl⟩
  rw [Pushback.ofText] at hrun
  rw [hrun] at hside
  unfold decode
  generalize Decoding.messages o.eol.text o.all ⟨source e bytes, log, []⟩ = x at hside
  cases hside with
  | ok _ hrel =>
    obtain ⟨written, hsource, hlog⟩ := hrel
    cases hlog
    rfl

/-- What is written in the encoding of the input can be encoded in it. -/
theorem has_of_mem_decodedText (l : LineEnding) {all : Bool} {e : Encoding} {bytes : List UInt8}
    {T : Text} (htext : e.decodeAll bytes = .ok T) :
    ∀ c ∈ Decoding.decodedText l.text all T, e.Has c := by
  intro c hc
  rcases Decoding.mem_decodedText hc with hmem | hmem
  · exact Encoding.has_of_decodeAll htext c hmem
  · have hascii : ∀ d ∈ l.text, d.toNat < 128 := by cases l <;> simp [LineEnding.text]
    exact Encoding.has_of_ascii e (hascii c hmem)

/-- **The command line writes what decoding the text writes.** Whatever the options are: if they
ask for an encoding that there is, if the input can be read, and if its bytes can be decoded, then
the run ends with status `0`. What it has written is what decoding the text of the bytes writes,
although they are decoded in portions of `PortionedText.portion` bytes, which may end within a
character or a line ending; the standard output gets it in the encoding of the input, which has all
its characters. In Latin-1 all bytes can be decoded, and the bytes that are
written are the decoded messages, character by character. And every line ending, every name of an
encoding, one message or all, and any path or none can be asked for. -/
theorem run_decodes_text (target : Destination) (files : FileTree) (stdin : List UInt8)
    (log : Log) :
    (∀ (o : Options) (e : Encoding) (bytes : List UInt8) (T : Text), encodingOf target o = .ok e →
      o.content files stdin = .ok bytes → e.decodeAll bytes = .ok T →
        ∃ count d,
          Decoding.messages o.eol.text o.all ⟨Pushback.ofText T, log, []⟩ = .ok count d ∧
          let report := run target o (o.content files stdin) log
          report.outcome = .ok 0 ∧ report.text = d.output ∧
            report.bytes = e.encode d.output ∧ ∀ c ∈ d.output, e.Has c) ∧
      (∀ (o : Options) (bytes : List UInt8), encodingOf target o = .ok .latin1 →
        o.content files stdin = .ok bytes →
          let report := run target o (o.content files stdin) log
          report.outcome = .ok 0 ∧ latin1Text report.bytes =
            if o.all then (Wire.messages o.eol.text (latin1Text bytes)).flatten
            else Wire.decode o.eol.text (latin1Text bytes)) ∧
      ∀ (default : String) (l : LineEnding) (name : String) (e : Encoding) (all : Bool)
        (path : Option Text), Encoding.ofName name = .ok e →
          ∃ o, parse default (spelling l name all path) = .ok o ∧ encodingOf target o = .ok e ∧
            o.eol = l ∧ o.all = all ∧ o.path = path := by
  have hrun : ∀ (o : Options) (e : Encoding) (bytes : List UInt8), encodingOf target o = .ok e →
      o.content files stdin = .ok bytes →
        run target o (o.content files stdin) log = decode o e bytes log := by
    intro o e bytes hencoding hcontent
    simp only [run, hencoding, hcontent]
  refine ⟨fun o e bytes T hencoding hcontent htext => ?_, fun o bytes hencoding hcontent => ?_,
    fun default l name e all path => exists_options target default l all path⟩
  · obtain ⟨count, d, hmessages, hout, hdecode⟩ := decode_eq o log htext
    refine ⟨count, d, hmessages, ?_⟩
    rw [hrun o e bytes hencoding hcontent, hdecode]
    exact ⟨rfl, rfl, rfl, hout ▸ has_of_mem_decodedText o.eol htext⟩
  · have htext := decodeAll_latin1 bytes
    obtain ⟨count, d, -, hout, hdecode⟩ := decode_eq o log htext
    rw [hrun o .latin1 bytes hencoding hcontent, hdecode, hout]
    exact ⟨rfl, latin1Text_encode (has_of_mem_decodedText o.eol htext)⟩

/-- A file in UTF-8 with two messages. And a message on the standard input, in Latin-1, of which a
portion ends between CR and LF. -/
theorem run_decodes_text_across_portions :
    let bytes : List UInt8 :=
      [0xc3, 0xa9, 0x0d, 0x0a, 0x2e, 0x0d, 0x0a, 0x2e, 0x2e, 0x0d, 0x0a, 0x2e, 0x0d, 0x0a]
    let files : FileTree := ⟨[(["in".toList], .file bytes)]⟩
    let size : Nat := PortionedText.portion - 1
    let stdin : List UInt8 := List.replicate size 0x61 ++ [0x0d, 0x0a, 0x2e, 0x0d, 0x0a]
    (∃ o, parse "latin-1" (spelling .cr "utf8" true (some "in".toList)) = .ok o ∧
      let report := run .text o (o.content files stdin) {}
      report.outcome = .ok 0 ∧ report.text = "é\r.\r".toList) ∧
      ∃ o, parse "latin-1" [] = .ok o ∧
        let report := run .standard o (o.content files stdin) {}
        report.outcome = .ok 0 ∧ latin1Text report.bytes = List.replicate size 'a' ++ ['\n'] := by
  intro bytes files size stdin
  constructor
  · obtain ⟨htext, -, hoptions⟩ := run_decodes_text .text files stdin {}
    obtain ⟨o, hparse, hencoding, heol, hall, hpath⟩ :=
      hoptions "latin-1" .cr "utf8" .utf8 true (some "in".toList) (by decide)
    have hcontent : o.content files stdin = .ok bytes := by
      rw [Options.content, Options.input, hpath]
      decide
    obtain ⟨count, d, hrun, houtcome, hreport, -⟩ :=
      htext o .utf8 bytes "é\r\n.\r\n..\r\n.\r\n".toList hencoding hcontent (by cbv)
    obtain ⟨count', d', hrun', hout, -⟩ :=
      decode_eq o {} (by cbv : Encoding.utf8.decodeAll bytes = .ok "é\r\n.\r\n..\r\n.\r\n".toList)
    cases hrun.symm.trans hrun'
    have hdecoded : Decoding.decodedText LineEnding.cr.text true "é\r\n.\r\n..\r\n.\r\n".toList =
        "é\r.\r".toList := by
      cbv
    rw [heol, hall, hdecoded] at hout
    exact ⟨o, hparse, houtcome, hreport.trans hout⟩
  · obtain ⟨-, hlatin1, -⟩ := run_decodes_text .standard files stdin {}
    obtain ⟨houtcome, hbytes⟩ := hlatin1 { encoding := some "latin-1" } stdin (by decide) rfl
    have htext : latin1Text stdin = Wire.encode [List.replicate size 'a'] := by
      have hstuff : Wire.stuff (List.replicate size 'a') = List.replicate size 'a' := rfl
      simp only [Wire.encode, List.flatMap_singleton, hstuff]
      simp [stdin, latin1Text, crlf]
    have hline : ∀ l ∈ [List.replicate size 'a'], ¬crlf <:+: l := by
      intro l hl hinfix
      obtain rfl := List.mem_singleton.1 hl
      have hmem : '\r' ∈ List.replicate size 'a' := hinfix.subset List.mem_cons_self
      exact absurd (List.eq_of_mem_replicate hmem) (by decide)
    have hdecode := @Wire.decodeFrom_encode LineEnding.native.text _ hline []
    rw [List.append_nil, Wire.decodeFrom_true, List.flatMap_singleton] at hdecode
    refine ⟨{ encoding := some "latin-1" }, by decide, houtcome, ?_⟩
    rw [hbytes, if_neg (by decide), htext, hdecode]
    rfl

end CommandLine

end DotFraming
