import Mathlib
import DotFraming.CommandLine.Run
import DotFraming.FileTree
import DotFraming.Proofs.Log.Printable
import DotFraming.Proofs.Messages.Undecodable
import DotFraming.Proofs.Reader.Truncation

/-!
# What the command line logs

The command line logs what readers tell about the messages, and at the end how the run went. If the
run failed, the entry shows the failure and the path of the input, neither of which can be trusted:
the path may be any text, and the failure may show it.

* `Log.Grows` : a log to which printable entries were added that are about no error.
* `Decoding.log_invariant` : what is known of the entries of readers is known of decoding.
* `Fault.printable_undecodable`, `Fault.printable_file` : the wording of a failure is printable.
* `CommandLine.Reported` : a run has failed and says why.
* `CommandLine.no_entry_forged` : **every entry is one line**, whatever the values in it, the path
  and the bytes of the input are. A path that cannot be opened is reported, and so are bytes that
  cannot be decoded.
-/

namespace DotFraming

/-! ### Logs -/

theorem Level.le_error (l : Level) : l ≤ .error := by cases l <;> decide

namespace Log

/-- The log `log'` is `log`, but for printable entries that were added, none of which is about an
error. -/
structure Grows (log log' : Log) : Prop where
  /-- The origin of entries that name none. -/
  origin : log'.origin = log.origin
  /-- The entries. -/
  entries : ∃ new, log'.entries = log.entries ++ new ∧ ∀ e ∈ new, e.Printable ∧ e.level ≠ .error

variable {log log' : Log}

theorem Grows.refl (log : Log) : Grows log log := ⟨rfl, [], by simp, nofun⟩

theorem Grows.send (h : Grows log log') {e : Entry} (he : e.Printable ∧ e.level ≠ .error) :
    Grows log (log'.send e) := by
  obtain ⟨horigin, new, hnew, hprintable⟩ := h
  refine ⟨by rw [send_eq, horigin], new ++ (if log'.level ≤ e.level then [e] else []), ?_, ?_⟩
  · rw [entries_send, hnew, List.append_assoc]
  · intro d hd
    rcases List.mem_append.1 hd with hd | hd
    · exact hprintable d hd
    · split at hd
      · obtain rfl := List.mem_singleton.1 hd
        exact he
      · cases hd

variable (horigin : Printable log.origin.plain)
include horigin

theorem Grows.note (h : Grows log log') (level : Level) (hlevel : level ≠ .error)
    {message : String} {context : List (String × Value)} (hmessage : Printable message)
    (hnames : ∀ name ∈ (Value.record context).names, Printable name) :
    Grows log (log'.note level message context) := by
  have hvalue : Printable (Value.plain .null) := by decide
  refine h.send ⟨⟨?_, fun m hm => ?_, hvalue, hnames⟩, hlevel⟩
  · rw [h.origin]
    exact horigin
  · cases hm
    exact hmessage

theorem Grows.noteTruncated (h : Grows log log') : Grows log log'.noteTruncated :=
  h.note horigin _ (by decide) (by decide) nofun

theorem Grows.noteDiscarded (h : Grows log log') (count : Nat) :
    Grows log (log'.noteDiscarded count) :=
  h.note horigin _ (by decide) (by decide) (by simp [Value.names, Value.namesInFields]; decide)

end Log

/-! ### Decoding -/

namespace Decoding

variable {σ : Type} [CharacterSource σ] {eol : Text}

section Log

variable {P : Log → Prop} (htruncated : ∀ log, P log → P log.noteTruncated)
  (hdiscarded : ∀ log count, P log → P (log.noteDiscarded count))
include htruncated hdiscarded

theorem log_message (eol : Text) (s : Decoding σ) (h : P s.log) :
    P (stateAfter (message eol s)).log := by
  have hsteps {x y : Reading σ} (hxy : Reading.Evolves x y) (hx : P x.log) : P y.log :=
    Reading.Evolves.log_invariant hxy hx htruncated hdiscarded
  unfold message
  split
  · exact h
  · next r _ =>
    have hlines := hsteps (Reading.done_linesFrom s.written (s.reading r)).evolves h
    split
    · next written t ht =>
      rw [ht] at hlines
      have hclose := hsteps (Reading.done_close t).evolves hlines
      split <;> next hu => rw [hu] at hclose; exact hclose
    · next written e t ht =>
      rw [ht] at hlines
      have hclose := hsteps (Reading.done_close t).evolves hlines
      split <;> next hu => rw [hu] at hclose; exact hclose

omit htruncated hdiscarded in
theorem log_more (s : Decoding σ) : (stateAfter (more s)).log = s.log := by
  unfold more
  split
  · rfl
  · rfl
  · split <;> rfl

theorem log_following (eol : Text) (count : Nat) (s : Decoding σ)
    (hmore : ∃ p source, CharacterSource.read s.source = .ok (some p) source) (h : P s.log) :
    P (stateAfter (following eol count s hmore)).log := by
  fun_induction following eol count s hmore with
  | case1 count s _ e s' hs =>
    have hmessage := log_message htruncated hdiscarded eol s h
    rwa [hs] at hmessage
  | case2 count s _ s' hs e t ht =>
    have hmessage := log_message htruncated hdiscarded eol s h
    have hlook := log_more s'
    rw [hs] at hmessage
    rw [ht] at hlook
    exact hlook ▸ hmessage
  | case3 count s _ s' hs t ht =>
    have hmessage := log_message htruncated hdiscarded eol s h
    have hlook := log_more s'
    rw [hs] at hmessage
    rw [ht] at hlook
    exact hlook ▸ hmessage
  | case4 count s _ s' hs t ht _ ih =>
    have hmessage := log_message htruncated hdiscarded eol s h
    have hlook := log_more s'
    rw [hs] at hmessage
    rw [ht] at hlook
    exact ih (hlook ▸ hmessage)

/-- **What both entries of a reader keep** is kept by decoding. -/
theorem log_invariant (eol : Text) (all : Bool) (s : Decoding σ) (h : P s.log) :
    P (stateAfter (messages eol all s)).log := by
  have hmessage := log_message htruncated hdiscarded eol s h
  unfold messages
  split
  · next hs => rwa [hs] at hmessage
  · next s' hs =>
    rw [hs] at hmessage
    have hlook := log_more s'
    split
    · split
      · next ht =>
        rw [ht] at hlook
        exact hlook ▸ hmessage
      · next ht =>
        rw [ht] at hlook
        exact hlook ▸ hmessage
      · next t ht =>
        rw [ht] at hlook
        exact log_following htruncated hdiscarded eol 1 t _ (hlook ▸ hmessage)
    · exact hmessage

end Log

end Decoding

/-! ### Wordings -/

namespace Fault

/-- **The wording of a failure is printable** if it is that of bytes which cannot be decoded. -/
theorem printable_undecodable (err : DecodingError) : Printable (undecodable err).message := by
  obtain ⟨encoding, start, bytes, reason⟩ := err
  have hname : Printable encoding.messageName := by cases encoding <;> decide
  have hreason : Printable reason.text := by cases reason <;> decide
  have hcodec : Printable "' codec can't decode " ∧ Printable "'" ∧ Printable ": " := by decide
  have hone : Printable "byte 0x" ∧ Printable " in position " := by decide
  have hseveral : Printable "bytes in position " ∧ Printable "-" := by decide
  have hhex : ∀ b : UInt8, Text.Printable (Text.hex 2 b.toNat) := fun b => Text.printable_hex 2 _
  change Printable (DecodingError.message _)
  simp only [DecodingError.message, printable_append]
  refine ⟨⟨⟨⟨⟨hcodec.2.1, hname⟩, hcodec.1⟩, ?_⟩, hcodec.2.2⟩, hreason⟩
  split
  · simp [hone, hhex]
  · simp [hseveral]

theorem printable_file {f : FileFault} (hf : Printable f.text) (path : String) :
    Printable (file f path).message := by
  have hquoted : Printable (quoted path) := by
    rw [quoted, printable_ofList]
    exact Text.printable_quote path.toList
  have hopen : Printable "[Errno " := by decide
  have hclose : Printable "] " := by decide
  have hcolon : Printable ": " := by decide
  change Printable ("[Errno " ++ toString f.number ++ "] " ++ f.text ++ ": " ++ quoted path)
  simp only [printable_append]
  exact ⟨⟨⟨⟨⟨hopen, printable_repr _⟩, hclose⟩, hf⟩, hcolon⟩, hquoted⟩

end Fault

/-! ### Files -/

theorem FileFault.printable_reportName (f : FileFault) : Printable f.reportName := by
  cases f with
  | other number text =>
    change Printable "OSError"
    decide
  | _ => decide

namespace FileTree

theorem printable_step {t : FileTree} {place : Place} {name : Text} {f : FileFault}
    (h : t.step place name = .error f) : Printable f.text := by
  unfold step at h
  split at h
  · cases h
    decide
  · split at h
    · cases h
    · split at h <;> cases h <;> decide
  · split at h
    · cases h
    · split at h
      · cases h
      · split at h
        · cases h
          decide
        · split at h <;> cases h
          decide

theorem printable_walk {t : FileTree} {place : Place} {names : List Text} {f : FileFault}
    (h : t.walk place names = .error f) : Printable f.text := by
  fun_induction walk t place names with
  | case1 => cases h
  | case2 place name rest place' hstep ih => exact ih h
  | case3 place name rest d hstep =>
    cases h
    exact printable_step hstep

/-- **A path that cannot be opened** is refused with one of the known wordings. -/
theorem printable_open {t : FileTree} {path : Text} {f : FileFault}
    (h : t.open? path = .error f) : Printable f.text := by
  unfold open? at h
  split at h
  · cases h
    decide
  · split at h
    · next d hwalk =>
      cases h
      exact printable_walk hwalk
    · cases h
    · cases h
      decide

end FileTree

/-! ### Runs -/

namespace CommandLine

/-- What is known of the input: it could be read, or its path does not lead to a file that can be
read. The operating system says why, in printable characters. -/
def Legible : Except Fault (List UInt8) → Prop
  | .ok _ => True
  | .error (.file f _) => Printable f.text
  | .error .nullInPath => True
  | .error _ => False

/-- In a tree of files, every path can be read or leads to no such file. -/
theorem legible_read (files : FileTree) (path : Text) : Legible (files.read path) := by
  unfold FileTree.read
  split
  · trivial
  · split
    · trivial
    · next f hopen => exact FileTree.printable_open hopen

variable {o : Options} {log log' : Log} {fault : Fault}

theorem printable_faultEntry (horigin : Printable log.origin.plain) {name : String}
    (hname : Printable name) (hmessage : Printable fault.message) :
    (faultEntry o log name fault).Printable := by
  have hintro : Printable "Could not decode message: " := by decide
  have hpath : Printable "path" := by decide
  refine ⟨horigin, fun m hm => ?_, hname, fun n hn => ?_⟩
  · cases hm
    exact printable_append.2 ⟨hintro, hmessage⟩
  · obtain rfl : n = "path" := by
      simpa [faultEntry, Entry.contextValue, Value.names, Value.namesInFields] using hn
    exact hpath

/-- The run has failed with `fault` and reports it. -/
structure Reported (o : Options) (log : Log) (report : Report) (fault : Fault) : Prop where
  /-- The status says so. -/
  status : report.outcome = .ok 1
  /-- The last new entry, and no other, is about an error, which is this failure. -/
  entry : ∃ name before, fault.reportName? = some name ∧
    report.log.entries = log.entries ++ before ++ [faultEntry o log name fault] ∧
      ∀ e ∈ before, e.level ≠ .error

/-- What a run has added to the log: printable entries, the last of which is about the failure if
the run failed. -/
structure Adds (o : Options) (log : Log) (report : Report) (new : List Entry) : Prop where
  /-- The entries are new. -/
  entries : report.log.entries = log.entries ++ new
  /-- They are printable. -/
  printable : ∀ e ∈ new, e.Printable
  /-- The last one is about the failure. -/
  failure : report.outcome = .ok 1 → ∃ fault, Reported o log report fault

theorem entries_of_failed {e : Option Encoding} {text : Text} {name : String}
    (hname : fault.reportName? = some name) :
    (failed o e text log fault).log.entries = log.entries ++ [faultEntry o log name fault] := by
  have hwritten : log.level ≤ (faultEntry o log name fault).level := log.level.le_error
  unfold failed
  rw [hname]
  simp only [Log.entries_send, if_pos hwritten]

theorem faultEntry_of_grows (h : log.Grows log') (name : String) :
    faultEntry o log' name fault = faultEntry o log name fault := by
  rw [faultEntry, h.origin, faultEntry]

/-- **A failure that has a name for reports is reported.** -/
theorem reported_of_failed (h : log.Grows log') {name : String}
    (hname : fault.reportName? = some name) (e : Option Encoding) (text : Text) :
    Reported o log (failed o e text log' fault) fault := by
  obtain ⟨new, hnew, hother⟩ := h.entries
  refine ⟨by rw [failed, hname], name, new, hname, ?_, fun d hd => (hother d hd).2⟩
  rw [entries_of_failed hname, faultEntry_of_grows h, hnew]

theorem adds_of_failed (horigin : Printable log.origin.plain) (h : log.Grows log')
    (hfault : ∀ name, fault.reportName? = some name → Printable name ∧ Printable fault.message)
    (e : Option Encoding) (text : Text) :
    ∃ new, Adds o log (failed o e text log' fault) new := by
  obtain ⟨new, hnew, hprintable⟩ := h.entries
  cases hname : fault.reportName? with
  | none =>
    refine ⟨new, ?_, fun d hd => (hprintable d hd).1, ?_⟩ <;> unfold failed <;> rw [hname]
    · exact hnew
    · nofun
  | some name =>
    obtain ⟨hreport, hmessage⟩ := hfault name hname
    refine ⟨new ++ [faultEntry o log name fault], ?_, fun d hd => ?_, fun _ =>
      ⟨fault, reported_of_failed h hname e text⟩⟩
    · rw [entries_of_failed hname, faultEntry_of_grows h, hnew, List.append_assoc]
    · rcases List.mem_append.1 hd with hd | hd
      · exact (hprintable d hd).1
      · obtain rfl := List.mem_singleton.1 hd
        exact printable_faultEntry horigin hreport hmessage

theorem grows_messages (horigin : Printable log.origin.plain) (o : Options) (e : Encoding)
    (bytes : List UInt8) :
    log.Grows (stateAfter (Decoding.messages o.eol.text o.all ⟨source e bytes, log, []⟩)).log :=
  Decoding.log_invariant (fun _ h => h.noteTruncated horigin)
    (fun _ count h => h.noteDiscarded horigin count) o.eol.text o.all _ (.refl log)

/-- **Decoding that fails is reported**, and it fails only because of the bytes. -/
theorem reported_of_decode (horigin : Printable log.origin.plain) {e : Encoding}
    {bytes : List UInt8} {d : Decoding (Pushback PortionedText)}
    (h : Decoding.messages o.eol.text o.all ⟨source e bytes, log, []⟩ = .error fault d) :
    (∃ err, fault = .undecodable err) ∧ Reported o log (decode o e bytes log) fault := by
  have hlog := grows_messages horigin o e bytes
  rw [h] at hlog
  obtain ⟨err, rfl⟩ := Decoding.undecodable_of_messages o.eol.text_ne_nil h
  have hrun : decode o e bytes log = failed o e d.output d.log (.undecodable err) := by
    rw [decode, h]
  rw [hrun]
  exact ⟨⟨err, rfl⟩, reported_of_failed hlog rfl e d.output⟩

theorem adds_of_decode (horigin : Printable log.origin.plain) (e : Encoding)
    (bytes : List UInt8) : ∃ new, Adds o log (decode o e bytes log) new := by
  have hlog := grows_messages horigin o e bytes
  unfold decode
  split
  · next count d hrun =>
    rw [hrun] at hlog
    have hcount : ∀ n ∈ (Value.record [("count", .number (.int count))]).names, Printable n := by
      simp only [Value.names, Value.namesInFields]
      decide
    have hmessage : Printable "Decoded messages" := by decide
    obtain ⟨-, new, hnew, hprintable⟩ :=
      hlog.note horigin .info (by decide) hmessage hcount
    exact ⟨new, hnew, fun d hd => (hprintable d hd).1, nofun⟩
  · next fault d hrun =>
    rw [hrun] at hlog
    obtain ⟨err, rfl⟩ := Decoding.undecodable_of_messages o.eol.text_ne_nil hrun
    refine adds_of_failed horigin hlog (fun name hname => ?_) e d.output
    cases hname
    exact ⟨by decide, Fault.printable_undecodable err⟩

/-- A name that no encoding has is a mistake of the caller. -/
theorem reportName_of_encodingOf {target : Destination} (h : encodingOf target o = .error fault) :
    fault.reportName? = none := by
  unfold encodingOf at h
  split at h
  · cases h
    rfl
  · split at h
    · cases h
    · unfold Encoding.ofName at h
      split at h
      · cases h
        rfl
      · split at h <;> cases h
        rfl

theorem adds_of_run (horigin : Printable log.origin.plain) (target : Destination) (o : Options)
    {content : Except Fault (List UInt8)} (hcontent : Legible content) :
    ∃ new, Adds o log (run target o content log) new := by
  have hread : ∀ fault, content = .error fault → ∀ name, fault.reportName? = some name →
      Printable name ∧ Printable fault.message := by
    rintro fault rfl name hname
    cases fault with
    | file f path =>
      cases hname
      exact ⟨f.printable_reportName, Fault.printable_file hcontent path⟩
    | nullInPath => cases hname
    | _ => exact hcontent.elim
  unfold run
  split
  · exact adds_of_decode horigin _ _
  · exact adds_of_failed horigin (.refl log) (hread _ rfl) _ []
  · exact adds_of_failed horigin (.refl log) (hread _ rfl) none []
  · next hencoding =>
    refine adds_of_failed horigin (.refl log) (fun name hname => ?_) none []
    rw [reportName_of_encodingOf hencoding] at hname
    cases hname

/-- **No value passes for an entry.** Without colours, values are printable in the data of an entry,
to any depth and whatever the texts in them hold, if the names in them are. So an entry whose
origin, code, message and names are printable is written as one line. This is so for all that a run
of the command line logs, whatever its input is. If the run failed, the last entry, and no other, is
about an error, which is the failure.

If the input could not be opened, this is the only entry, whatever the path is. If decoding the
input fails, which it does for no other reason than that the bytes cannot be decoded, then this
failure is reported. It fails if all messages are asked for and the bytes cannot be decoded as a
whole, and whatever is asked for if they cannot be decoded up to the end of the first portion. Where
only the first message is asked for, what comes in later portions need not be looked at. -/
theorem no_entry_forged :
    (∀ v : Value, (∀ name ∈ v.names, Printable name) → Printable (v.brief ⟨false⟩)) ∧
    (∀ (log : Log) (e : Entry), e.Printable → OneLine (e.line ⟨false⟩) ∧
      (log.send e).text ⟨false⟩ =
        log.text ⟨false⟩ ++ if log.level ≤ e.level then e.line ⟨false⟩ else "") ∧
    (∀ (target : Destination) (o : Options) (content : Except Fault (List UInt8)) (log : Log),
      Printable log.origin.plain → Legible content →
        let report := run target o content log
        ∃ new, report.log.entries = log.entries ++ new ∧ (∀ e ∈ new, OneLine (e.line ⟨false⟩)) ∧
          (report.outcome = .ok 1 → ∃ fault, Reported o log report fault) ∧
          (∀ e f path, encodingOf target o = .ok e → content = .error (.file f path) →
            report.outcome = .ok 1 ∧ new = [faultEntry o log f.reportName (.file f path)]) ∧
          ∀ e bytes, encodingOf target o = .ok e → content = .ok bytes →
            (∀ fault d,
              Decoding.messages o.eol.text o.all ⟨source e bytes, log, []⟩ = .error fault d →
                (∃ err, fault = .undecodable err) ∧ Reported o log report fault) ∧
            (∀ err, e.decodeAll bytes = .error err → o.all = true →
              ∃ err', Reported o log report (.undecodable err')) ∧
            ∀ err, e.decode false 0 (bytes.take PortionedText.portion) = .error err →
              ∃ err', Reported o log report (.undecodable err')) ∧
    ∀ (files : FileTree) (path : Text), Legible (files.read path) := by
  refine ⟨Value.printable_brief, fun log e he => ⟨e.oneLine he, log.text_send e ⟨false⟩⟩,
    fun target o content log horigin hcontent => ?_, legible_read⟩
  obtain ⟨new, hnew, hprintable, hfailure⟩ := adds_of_run horigin target o hcontent
  refine ⟨new, hnew, fun e he => e.oneLine (hprintable e he), hfailure, ?_, ?_⟩
  · intro e f path hencoding hread
    have hrun : run target o content log = failed o e [] log (.file f path) := by
      simp only [run, hencoding, hread]
    have hname : (Fault.file f path).reportName? = some f.reportName := rfl
    rw [hrun, entries_of_failed hname] at hnew
    refine ⟨by rw [hrun]; rfl, (List.append_cancel_left hnew).symm⟩
  · intro e bytes hencoding hread
    have hrun : run target o content log = decode o e bytes log := by
      simp only [run, hencoding, hread]
    rw [hrun]
    refine ⟨fun fault d => reported_of_decode horigin, fun err herr hall => ?_, fun err herr => ?_⟩
    · obtain ⟨err', d, hmessages⟩ := Decoding.messages_of_undecodable o.eol.text_ne_nil
        (PortionedText.not_decodable_of_decodeAll herr) log
      rw [← hall] at hmessages
      exact ⟨err', (reported_of_decode horigin hmessages).2⟩
    · obtain ⟨s', hfirst⟩ := PortionedText.readSome_of_undecodable herr 0
      obtain ⟨err', d, hmessages⟩ :=
        Decoding.messages_of_unreadable o.eol.text_ne_nil o.all hfirst log
      exact ⟨err', (reported_of_decode horigin hmessages).2⟩

/-- A path that holds a line of its own, for a file that is not there. And two files with a whole
message, behind which comes a byte that is no character, or the first byte of one. -/
theorem no_entry_forged_by_path :
    let path := "x\n[dotstream] forged"
    let o : Options := { encoding := some "utf-8", path := some path.toList }
    let content := FileTree.read ⟨[]⟩ path.toList
    let value : Value := .record [("path", .list [.text path, .null])]
    let report := run .text o content {}
    (∀ name ∈ value.names, Printable name) ∧ Printable (value.brief ⟨false⟩) ∧
      value.brief ⟨false⟩ = "path='x\\n[dotstream] forged',◌" ∧
        content = .error (.file .notFound path) ∧ report.outcome = .ok 1 ∧
          (∃ e, report.log.entries = [e] ∧ OneLine (e.line ⟨false⟩)) ∧
    let message : List UInt8 := [0x61, 0x0d, 0x0a, 0x2e, 0x0d, 0x0a]
    let o' : Options := { o with all := true }
    (∃ err, Encoding.utf8.decode false 0 ((message ++ [0xff]).take PortionedText.portion) =
        .error err) ∧
      (∃ err, Reported o {} (run .text o (.ok (message ++ [0xff])) {}) (.undecodable err)) ∧
        (∃ err, Encoding.utf8.decodeAll (message ++ [0xc3]) = .error err) ∧
          ∃ err, Reported o' {} (run .text o' (.ok (message ++ [0xc3])) {}) (.undecodable err) := by
  intro path o content value report
  obtain ⟨hbrief, -, hruns, hfiles⟩ := no_entry_forged
  have hnames : ∀ name ∈ value.names, Printable name := by decide
  have hopen : FileTree.open? ⟨[]⟩ path.toList = .error .notFound := by decide
  have hcontent : content = .error (.file .notFound path) := by
    have hnull : path.toList.contains '\x00' = false := by decide
    simp only [content, FileTree.read, hnull, hopen, Bool.false_eq_true, ↓reduceIte,
      String.ofList_toList]
  obtain ⟨new, hnew, hlines, -, hfailed, -⟩ :=
    hruns .text o content {} (by decide) (hfiles ⟨[]⟩ path.toList)
  obtain ⟨houtcome, rfl⟩ := hfailed .utf8 .notFound path (by decide) hcontent
  refine ⟨hnames, hbrief value hnames, by decide, hcontent, houtcome,
    ⟨_, hnew, hlines _ (by simp)⟩, ?_⟩
  intro message o'
  obtain ⟨err, herr⟩ : ∃ err, Encoding.utf8.decode false 0
      ((message ++ [0xff]).take PortionedText.portion) = .error err := ⟨_, by cbv⟩
  obtain ⟨err', herr'⟩ : ∃ err, Encoding.utf8.decodeAll (message ++ [0xc3]) = .error err :=
    ⟨_, by cbv⟩
  obtain ⟨_, -, -, -, -, hfront⟩ :=
    hruns .text o (.ok (message ++ [0xff])) {} (by decide) trivial
  obtain ⟨_, -, -, -, -, hwhole⟩ :=
    hruns .text o' (.ok (message ++ [0xc3])) {} (by decide) trivial
  exact ⟨⟨err, herr⟩, (hfront .utf8 _ (by decide) rfl).2.2 err herr, ⟨err', herr'⟩,
    (hwhole .utf8 _ (by decide) rfl).2.1 err' herr' rfl⟩

end CommandLine

end DotFraming
