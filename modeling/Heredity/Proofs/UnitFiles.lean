import Heredity.Proofs.Reading
import Heredity.UnitFile

/-!
# Reading unit files

A unit file is decoded, parsed in the format that the ending of its name stands for, and read unit
by unit.  How YAML is parsed is left open.

* `Error.IsForeign` — an error that is not about definitions and has no text.
* `Definitions.Units`, `Definitions.Refused` — what the units of a document are, and what is wrong
  with it; `ofDocument_cases` says that reading finds out.
* `UnitFile.Legible` — the bytes are a text, and the text is a document of its format.
* `UnitFile.read_documented_iff` — reading gives definitions, or an error about definitions, exactly
  if the file is legible and what is wrong with its first unit that is not read can be reported.

**The errors of the parsers are handed on.**  They are foreign, as is that of bytes that are no
text.  So whoever expects definitions, or errors about definitions, is surprised by every file that
is not legible (`brace_not_refused`).

**Documents that are no values.**  A parser may find data that no value stands for, such as a text
with half of a pair of surrogates.  Nothing is said about these files.
-/

namespace Heredity

/-! ## Parsing -/

/-- An error that is not about definitions and has no text: it was not raised here. -/
def Error.IsForeign (e : Error) : Prop := e.message? = .ok none ∧ ∀ cause, e ≠ .definition cause

namespace Document

/-- The parsers fail with errors of their own. -/
theorem Failure.isForeign_error (format : Format) (failure : Failure) :
    (failure.error format).IsForeign := by
  cases failure <;> exact ⟨rfl, nofun⟩

/-- Bytes that are no text fail with an error of the decoder. -/
theorem decode_eq_error {content : ByteArray} {e : Error} (h : decode content = .error e) :
    e = .file .undecodable := by
  unfold decode at h
  split at h
  · cases h
  · cases h
    rfl

end Document

/-! ## The units of a document -/

namespace Definitions

/-- A unit was read from an entry of a document. -/
def EntryRead (file : Path) (entry : Value × Value) (unit : String × Definition) : Prop :=
  entry.1 = .text unit.1 ∧ Definition.parse unit.1 entry.2 file = .ok unit.2

/-- An entry of a document is refused: its unit is, or it has no name that a unit could have. -/
def EntryRefused (file : Path) (entry : Value × Value) (e : Error) : Prop :=
  (∃ name, entry.1 = .text name ∧ Definition.parse name entry.2 file = .error e) ∨
    (∀ name, entry.1 ≠ .text name) ∧ e = .definition (.unitNameNotText entry.1.kind)

/-- The definitions of the entries of a document, in order. -/
def Units (file : Path) (entries : List (Value × Value)) (ds : Definitions) : Prop :=
  ∃ units, List.Forall₂ (EntryRead file) entries units ∧ ds = Table.ofList units

/-- A document is refused: it is no map, or its first entry that is not a unit is refused. -/
def Refused (file : Path) (document : Value) (e : Error) : Prop :=
  (∃ before entry after units, document = .map (before ++ entry :: after) ∧
      List.Forall₂ (EntryRead file) before units ∧ EntryRefused file entry e) ∨
    (∀ entries, document ≠ .map entries) ∧ e = .definition (.documentNotAMap document.kind)

/-- Entries that can be read are read before the others. -/
theorem ofEntries_of_read {file : Path} {before : List (Value × Value)}
    {units : List (String × Definition)} (each : List.Forall₂ (EntryRead file) before units)
    (start : Definitions) (rest : List (Value × Value)) :
    ofEntries file start (before ++ rest) = ofEntries file (start.insertAll units) rest := by
  induction each generalizing start with
  | nil => rfl
  | @cons entry unit before units first _ ih =>
    obtain ⟨key, v⟩ := entry
    obtain ⟨isName, isUnit⟩ := first
    cases isName
    show (Definition.parse unit.1 v file >>= fun d =>
      ofEntries file (start.insert unit.1 d) (before ++ rest)) = _
    rw [isUnit]
    exact ih (start.insert unit.1 unit.2)

/-- Reading stops at an entry that is refused. -/
theorem ofEntries_of_refused {file : Path} {entry : Value × Value} {e : Error}
    (refused : EntryRefused file entry e) (start : Definitions) (after : List (Value × Value)) :
    ofEntries file start (entry :: after) = .error e := by
  obtain ⟨key, v⟩ := entry
  rcases refused with ⟨name, isName, failed⟩ | ⟨noName, rfl⟩
  · cases isName
    show (Definition.parse name v file >>= fun d =>
      ofEntries file (start.insert name d) after) = _
    rw [failed]
    rfl
  · cases key with
    | text name => exact (noName name rfl).elim
    | _ => rfl

/-- Entries are read one after the other, up to the first that is refused. -/
theorem ofEntries_cases (file : Path) (entries : List (Value × Value)) :
    (∃ units, List.Forall₂ (EntryRead file) entries units) ∨
    ∃ before entry after units e, entries = before ++ entry :: after ∧
      List.Forall₂ (EntryRead file) before units ∧ EntryRefused file entry e := by
  induction entries with
  | nil => exact .inl ⟨[], .nil⟩
  | cons entry entries ih =>
    have refused : ∀ e, EntryRefused file entry e →
        ∃ before entry' after units e, entry :: entries = before ++ entry' :: after ∧
          List.Forall₂ (EntryRead file) before units ∧ EntryRefused file entry' e :=
      fun e isRefused => ⟨[], _, entries, [], e, rfl, .nil, isRefused⟩
    obtain ⟨key, v⟩ := entry
    cases key with
    | text name =>
      cases outcome : Definition.parse name v file with
      | error e => exact .inr (refused e (.inl ⟨name, rfl, outcome⟩))
      | ok d =>
        have unit : EntryRead file (.text name, v) (name, d) := ⟨rfl, outcome⟩
        rcases ih with ⟨units, each⟩ | ⟨before, entry, after, units, e, rfl, each, isRefused⟩
        · exact .inl ⟨_ :: units, .cons unit each⟩
        · exact .inr ⟨_ :: before, entry, after, _ :: units, e, rfl, .cons unit each, isRefused⟩
    | _ => exact .inr (refused _ (.inr ⟨nofun, rfl⟩))

/-- What is refused is what reading fails with. -/
theorem ofDocument_of_refused {file : Path} {document : Value} {e : Error}
    (refused : Refused file document e) : ofDocument file document = .error e := by
  rcases refused with ⟨before, entry, after, units, rfl, each, isRefused⟩ | ⟨noMap, rfl⟩
  · show ofEntries file ∅ (before ++ entry :: after) = _
    rw [ofEntries_of_read each]
    exact ofEntries_of_refused isRefused _ _
  · cases document with
    | map entries => exact (noMap entries rfl).elim
    | _ => rfl

/-- **The units of a document** are read in its order, or it is refused. -/
theorem ofDocument_cases (file : Path) (document : Value) :
    (∃ entries ds, document = .map entries ∧ Units file entries ds ∧
      ofDocument file document = .ok ds) ∨
    ∃ e, Refused file document e ∧ ofDocument file document = .error e := by
  cases document with
  | map entries =>
    rcases ofEntries_cases file entries with
      ⟨units, each⟩ | ⟨before, entry, after, units, e, rfl, each, isRefused⟩
    · refine .inl ⟨entries, _, rfl, ⟨units, each, rfl⟩, ?_⟩
      have done := ofEntries_of_read each ∅ []
      rwa [List.append_nil] at done
    · have refused : Refused file (.map (before ++ entry :: after)) e :=
        .inl ⟨before, entry, after, units, rfl, each, isRefused⟩
      exact .inr ⟨e, refused, ofDocument_of_refused refused⟩
  | _ => exact .inr ⟨_, .inr ⟨nofun, rfl⟩, rfl⟩

/-- What is wrong with a document is reported, unless the error is about the text in which its data
are to be shown, or about a date or a time that is taken apart. -/
theorem Refused.reported {file : Path} {document : Value} {e : Error}
    (refused : Refused file document e) :
    (∃ cause, e = .definition cause) ∨
      e = .unshown ∧ document.HoldsLong ∨ e = .fault .unsupported ∧ document.HoldsMoment := by
  rcases refused with ⟨before, entry, after, units, rfl, -, ⟨name, -, failed⟩ | ⟨-, rfl⟩⟩ | ⟨-, rfl⟩
  · have part : entry.2 ∈ (Value.map (before ++ entry :: after)).parts :=
      List.mem_cons_of_mem _ (Value.mem_entryParts.2
        ⟨entry, List.mem_append_right _ List.mem_cons_self, .inr entry.2.self_mem_parts⟩)
    have fails := (Definition.failsFrom_ofValue name entry.2 file).of_part part
    exact (fails.seen_cases failed).imp_left fun ⟨cause, same, _⟩ => ⟨cause, same⟩
  · exact .inl ⟨_, rfl⟩
  · exact .inl ⟨_, rfl⟩

end Definitions

/-! ## Files -/

namespace UnitFile

open Document (decode parse readerOf)

variable (yaml : Document.Reader) (file : Path) (content : ByteArray)

/-- **Legible.**  The bytes of the file are a text, and if its name has the ending of a format, the
text is a document of that format, be it one of data that are no values. -/
def Legible : Prop :=
  ∃ text, decode content = .ok text ∧ ∀ format, Format.ofFileName? file.fileName = some format →
    ∀ failure, readerOf yaml format text = .error failure → failure = .fault .unrepresented

/-- The data in a file are values. -/
def Represented : Prop :=
  ∀ text format, decode content = .ok text → Format.ofFileName? file.fileName = some format →
    readerOf yaml format text ≠ .error (.fault .unrepresented)

/-- The document in a file. -/
def Holds (document : Value) : Prop :=
  ∃ text format, decode content = .ok text ∧ Format.ofFileName? file.fileName = some format ∧
    parse yaml format text = .ok document

/-- What is wrong with a legible file. -/
inductive Refuses : Error → Prop where
  /-- The ending of its name stands for no format. -/
  | format (isText : ∃ text, decode content = .ok text)
      (unknown : Format.ofFileName? file.fileName = none) :
      Refuses (.definition (.unknownFormat file.fileName))
  /-- Its document is refused. -/
  | document {document : Value} {e : Error} (holds : Holds yaml file content document)
      (refused : Definitions.Refused file document e) : Refuses e

/-- The definitions in a file. -/
inductive Gives (ds : Definitions) : Prop where
  /-- They are the units of its document. -/
  | units {entries : List (Value × Value)} (holds : Holds yaml file content (.map entries))
      (units : Definitions.Units file entries ds)

variable {yaml file content}

/-- The units of a file with a document are those of the document. -/
theorem read_of_holds {document : Value} (holds : Holds yaml file content document) :
    read yaml file content = Definitions.ofDocument file document := by
  obtain ⟨text, format, isText, isFormat, isDocument⟩ := holds
  unfold read
  rw [isText, isFormat]
  show (parse yaml format text >>= Definitions.ofDocument file) = _
  rw [isDocument]
  rfl

/-- What is wrong with a file is what reading it fails with. -/
theorem read_of_refuses {e : Error} (refuses : Refuses yaml file content e) :
    read yaml file content = .error e := by
  cases refuses with
  | format isText unknown =>
    obtain ⟨text, isText⟩ := isText
    unfold read
    rw [isText, unknown]
    rfl
  | document holds refused =>
    rw [read_of_holds holds]
    exact Definitions.ofDocument_of_refused refused

/-- **Reading a file** gives its definitions, or refuses it, or hands on a foreign error, and the
last exactly if the file is not legible. -/
theorem read_cases (represented : Represented yaml file content) :
    (∃ ds, read yaml file content = .ok ds ∧ Legible yaml file content ∧
      Gives yaml file content ds) ∨
    (∃ e, read yaml file content = .error e ∧ Legible yaml file content ∧
      Refuses yaml file content e) ∨
    ∃ e, read yaml file content = .error e ∧ ¬Legible yaml file content ∧ e.IsForeign := by
  cases isText : decode content with
  | error e =>
    refine .inr (.inr ⟨e, ?_, ?_, ?_⟩)
    · unfold read
      rw [isText]
      rfl
    · rintro ⟨text, isText', -⟩
      cases isText.symm.trans isText'
    · rw [Document.decode_eq_error isText]
      exact ⟨rfl, nofun⟩
  | ok text =>
    cases isFormat : Format.ofFileName? file.fileName with
    | none =>
      have refuses : Refuses yaml file content (.definition (.unknownFormat file.fileName)) :=
        .format ⟨text, isText⟩ isFormat
      refine .inr (.inl ⟨_, read_of_refuses refuses, ⟨text, isText, fun format isFormat' => ?_⟩,
        refuses⟩)
      cases isFormat.symm.trans isFormat'
    | some format =>
      cases outcome : readerOf yaml format text with
      | error failure =>
        refine .inr (.inr ⟨failure.error format, ?_, ?_, failure.isForeign_error format⟩)
        · unfold read parse
          rw [isText, isFormat]
          show ((readerOf yaml format text).mapError _ >>= Definitions.ofDocument file) = _
          rw [outcome]
          rfl
        · rintro ⟨text', isText', documents⟩
          cases isText.symm.trans isText'
          cases documents format isFormat failure outcome
          exact represented text format isText isFormat outcome
      | ok document =>
        have legible : Legible yaml file content := by
          refine ⟨text, isText, fun format' isFormat' failure failed => ?_⟩
          cases isFormat.symm.trans isFormat'
          cases outcome.symm.trans failed
        have holds : Holds yaml file content document := by
          refine ⟨text, format, isText, isFormat, ?_⟩
          rw [parse, outcome]
          rfl
        rw [read_of_holds holds]
        rcases Definitions.ofDocument_cases file document with
          ⟨entries, ds, rfl, units, done⟩ | ⟨e, refused, failed⟩
        · exact .inl ⟨ds, done, legible, .units holds units⟩
        · exact .inr (.inl ⟨e, failed, legible, .document holds refused⟩)

/-- What is wrong with a legible file is reported, unless what is wrong with its document is not. -/
theorem Refuses.reported {e : Error} (refuses : Refuses yaml file content e) :
    (∃ cause, e = .definition cause) ∨
      ∃ document, Holds yaml file content document ∧
        (e = .unshown ∧ document.HoldsLong ∨ e = .fault .unsupported ∧ document.HoldsMoment) := by
  cases refuses with
  | format => exact .inl ⟨_, rfl⟩
  | @document document _ holds refused =>
    exact refused.reported.imp_right fun unreported => ⟨document, holds, unreported⟩

/-- **What is documented of reading a file** is true of the legible files whose first unit that is
not read, if there is one, is refused with an error about definitions, and of no others.  What is
returned are the definitions in the file, in the order of the document; a legible file fails with
what is wrong with its name or with the first unit that is not of the documented form; and if that
is no error about definitions, the document holds an integer with too many digits, or a date or a
time.  Reading any other file fails with a foreign error. -/
theorem read_documented_iff (yaml : Document.Reader) (file : Path) (content : ByteArray)
    (represented : Represented yaml file content) :
    (((∃ ds, read yaml file content = .ok ds) ∨
        ∃ cause, read yaml file content = .error (.definition cause)) ↔
      Legible yaml file content ∧
        ∀ e, Refuses yaml file content e → ∃ cause, e = .definition cause) ∧
    (∀ ds, read yaml file content = .ok ds → Gives yaml file content ds) ∧
    (∀ e, read yaml file content = .error e → Legible yaml file content →
      Refuses yaml file content e) ∧
    (∀ e, Refuses yaml file content e → (∃ cause, e = .definition cause) ∨
      ∃ document, Holds yaml file content document ∧
        (e = .unshown ∧ document.HoldsLong ∨ e = .fault .unsupported ∧ document.HoldsMoment)) ∧
    (¬Legible yaml file content →
      ∃ e, read yaml file content = .error e ∧ e.IsForeign) := by
  rcases read_cases represented with
    ⟨ds, done, legible, gives⟩ | ⟨e, failed, legible, refuses⟩ | ⟨e, failed, illegible, foreign⟩
  · refine ⟨⟨fun _ => ⟨legible, fun e refuses => ?_⟩, fun _ => .inl ⟨ds, done⟩⟩, ?_, ?_,
      fun e refuses => refuses.reported, fun h => (h legible).elim⟩
    · cases done.symm.trans (read_of_refuses refuses)
    · intro ds' done'
      cases done.symm.trans done'
      exact gives
    · intro e failed
      cases done.symm.trans failed
  · refine ⟨⟨?_, fun h => ?_⟩, ?_, ?_, fun e refuses => refuses.reported,
      fun h => (h legible).elim⟩
    · rintro (⟨ds, done⟩ | ⟨cause, failed'⟩)
      · cases failed.symm.trans done
      · refine ⟨legible, fun e' refuses' => ⟨cause, ?_⟩⟩
        cases (read_of_refuses refuses').symm.trans failed'
        rfl
    · obtain ⟨cause, rfl⟩ := h.2 e refuses
      exact .inr ⟨cause, failed⟩
    · intro ds done
      cases failed.symm.trans done
    · intro e' failed' _
      cases failed.symm.trans failed'
      exact refuses
  · refine ⟨⟨?_, fun h => (illegible h.1).elim⟩, ?_, fun _ _ legible => (illegible legible).elim,
      fun e refuses => refuses.reported, fun _ => ⟨e, failed, foreign⟩⟩
    · rintro (⟨ds, done⟩ | ⟨cause, failed'⟩)
      · cases failed.symm.trans done
      · cases failed.symm.trans failed'
        exact (foreign.2 cause rfl).elim
    · intro ds done
      cases failed.symm.trans done

/-- A reader of the one YAML text that is an empty mapping in braces. -/
def bracesOnly : Document.Reader := fun text =>
  if text = "\x7b\x7d" then .ok (.map []) else .error .malformed

/-- A document without units is legible, and read. -/
theorem read_documented_empty :
    Legible bracesOnly ["a.unit.yaml"] "\x7b\x7d".toUTF8 ∧
      Gives bracesOnly ["a.unit.yaml"] "\x7b\x7d".toUTF8 ∅ := by
  have done : read bracesOnly ["a.unit.yaml"] "\x7b\x7d".toUTF8 = .ok ∅ := rfl
  have represented : Represented bracesOnly ["a.unit.yaml"] "\x7b\x7d".toUTF8 := by
    rintro text format - isFormat
    cases (rfl : Format.ofFileName? "a.unit.yaml" = some .yaml).symm.trans isFormat
    show bracesOnly text ≠ _
    unfold bracesOnly
    split <;> exact nofun
  obtain ⟨documented, gives, -⟩ :=
    read_documented_iff bracesOnly ["a.unit.yaml"] "\x7b\x7d".toUTF8 represented
  exact ⟨(documented.1 (.inl ⟨∅, done⟩)).1, gives ∅ done⟩

/-- **A file that is not refused.**  It holds an opening brace and nothing else, which is no
document; what is raised is the error of the parser and not one about definitions. -/
theorem brace_not_refused :
    read bracesOnly ["a.unit.json"] "\x7b".toUTF8 = .error (.file (.malformed .json)) ∧
      ¬((∃ ds, read bracesOnly ["a.unit.json"] "\x7b".toUTF8 = .ok ds) ∨
        ∃ cause, read bracesOnly ["a.unit.json"] "\x7b".toUTF8 = .error (.definition cause)) := by
  have failed : read bracesOnly ["a.unit.json"] "\x7b".toUTF8 =
      .error (.file (.malformed .json)) := rfl
  refine ⟨failed, ?_⟩
  rw [failed]
  rintro (⟨ds, done⟩ | ⟨cause, same⟩)
  · cases done
  · cases same

end UnitFile

end Heredity
