import LexiconCompiler.Input.Load
import LexiconCompiler.Proofs.Outcome

set_option autoImplicit false
set_option relaxedAutoImplicit false

/-!
What the name of a file has to do with its documents. The ending tells archives from single
documents. Apart from that a name is only a label: of the sources of documents, and of a problem
that knows no document. Names are recognized whatever the case of their endings is, but an archive
is only read as one if its ending is in small letters.
-/

namespace LexiconCompiler

open LexiconCompiler.Text

/-- What a text holds, whatever file it is in: documents or the first problem, each with what its
label has behind the name of the file. -/
abbrev Contents := Except (String × Problem) (List (String × Document))

namespace Contents

def entry (rest text : String) : Except (String × Problem) (String × Document) :=
  ((Document.parse text).mapError fun problem => (rest, problem)).map fun document =>
    (rest, document)

def ofText (bundled : Bool) (text : String) : Contents :=
  if bundled then
    ((Archive.members text).filter fun member => isRecognized member.name).mapM fun member =>
      entry (":" ++ member.name) member.content
  else (entry "" text).map List.singleton

def failure (path : String) (labelled : String × Problem) : Failure :=
  .problem (labelled.2.labelled (path ++ labelled.1))

def document (path : String) (labelled : String × Document) : Document :=
  { labelled.2 with source := path ++ labelled.1 }

/-- What a file has to do with its contents. -/
def labelled (path : String) (contents : Contents) : Except Failure (List Document) :=
  (contents.mapError (failure path)).map (List.map (document path))

end Contents

variable {path text : String}

private theorem ofSource_eq (path rest text : String) :
    Document.ofSource (path ++ rest) text =
      ((Contents.entry rest text).mapError (Contents.failure path)).map
        (Contents.document path) := by
  unfold Document.ofSource Contents.entry
  cases Document.parse text <;> rfl

private theorem bundleDocuments_eq (path text : String) :
    bundleDocuments path text = (Contents.ofText true text).labelled path := by
  rw [bundleDocuments, Contents.ofText, if_pos rfl, Contents.labelled, Outcome.mapM_mapError]
  refine Outcome.mapM_map fun member _ => ?_
  rw [String.append_assoc, ofSource_eq]

private theorem document_eq (path text : String) :
    (Document.ofSource path text).map List.singleton =
      (Contents.ofText false text).labelled path := by
  have hsource := ofSource_eq path "" text
  rw [String.append_empty] at hsource
  rw [hsource, Contents.ofText, if_neg (by decide), Contents.labelled]
  cases Contents.entry "" text <;> rfl

/-- The ending of an archive is in small letters. -/
def HasPlainEnding (path : String) : Prop :=
  lower (Path.ext path) = bundleExtension → Path.ext path = bundleExtension

namespace FileSystem

variable {fs : FileSystem}

private theorem loadFile_fault {fault : FileFault} (h : fs.read path = .error fault) :
    fs.loadFile path = .error (.within ("read " ++ path) (.plain fault.message)) := by
  rw [loadFile, h]
  rfl

private theorem loadFile_bundle (h : fs.read path = .ok text)
    (hext : Path.ext path = bundleExtension) :
    fs.loadFile path = bundleDocuments path text := by
  have hbeq : (Path.ext path == bundleExtension) = true := by simpa using hext
  rw [loadFile, h]
  simp only [Except.mapError, bind, Except.bind, hbeq, if_true]

private theorem loadFile_document (h : fs.read path = .ok text)
    (hext : Path.ext path ≠ bundleExtension) :
    fs.loadFile path = (Document.ofSource path text).map List.singleton := by
  have hbeq : (Path.ext path == bundleExtension) = false := by simpa using hext
  rw [loadFile, h]
  simp only [Except.mapError, bind, Except.bind, hbeq]
  cases Document.ofSource path text <;> rfl

/-- The ending alone decides how a text is read, and the name labels what comes of it. -/
private theorem loadFile_eq (h : fs.read path = .ok text) :
    fs.loadFile path =
      (Contents.ofText (Path.ext path == bundleExtension) text).labelled path := by
  by_cases hext : Path.ext path = bundleExtension
  · have hbeq : (Path.ext path == bundleExtension) = true := by simpa using hext
    rw [loadFile_bundle h hext, bundleDocuments_eq, hbeq]
  · have hbeq : (Path.ext path == bundleExtension) = false := by simpa using hext
    rw [loadFile_document h hext, document_eq, hbeq]

/-- A file that is recognized is read as an archive or as a document as its ending says, in
whatever case the ending is, except that endings of archives have to be in small letters. Where the
case does not tell two files of one text apart, only the labels differ. -/
theorem loadFile_classified (fs : FileSystem) (hrecognized : isRecognized path = true) :
    (∀ fault, fs.read path = .error fault →
      fs.loadFile path = .error (.within ("read " ++ path) (.plain fault.message))) ∧
    (∀ text, fs.read path = .ok text → HasPlainEnding path →
      (lower (Path.ext path) = bundleExtension ∧
        fs.loadFile path = bundleDocuments path text) ∨
      (lower (Path.ext path) ∈ documentExtensions ∧
        fs.loadFile path = (Document.ofSource path text).map List.singleton)) ∧
    (∀ text, fs.read path = .ok text → ¬ HasPlainEnding path →
      fs.loadFile path = (Document.ofSource path text).map List.singleton) ∧
    (∀ (gs : FileSystem) other text, lower (Path.ext other) = lower (Path.ext path) →
      HasPlainEnding path → HasPlainEnding other →
      fs.read path = .ok text → gs.read other = .ok text →
      ∃ contents : Contents,
        fs.loadFile path = contents.labelled path ∧
        gs.loadFile other = contents.labelled other) := by
  have hbundle : lower bundleExtension = bundleExtension := by decide
  have hsmall {name : String} (hext : Path.ext name = bundleExtension) :
      lower (Path.ext name) = bundleExtension := (congrArg lower hext).trans hbundle
  refine ⟨fun fault => loadFile_fault, ?_, ?_, ?_⟩
  · intro text htext hplain
    by_cases hext : Path.ext path = bundleExtension
    · exact Or.inl ⟨hsmall hext, loadFile_bundle htext hext⟩
    · refine Or.inr ⟨?_, loadFile_document htext hext⟩
      have hother : lower (Path.ext path) ≠ bundleExtension := mt hplain hext
      simpa [isRecognized, hother] using hrecognized
  · intro text htext hplain
    exact loadFile_document htext fun hext => hplain fun _ => hext
  · intro gs other text hlower hpath hother hread hgread
    have hsame : (Path.ext other == bundleExtension) = (Path.ext path == bundleExtension) := by
      rw [Bool.eq_iff_iff, beq_iff_eq, beq_iff_eq]
      exact ⟨fun hext => hpath (hlower.symm.trans (hsmall hext)),
        fun hext => hother (hlower.trans (hsmall hext))⟩
    exact ⟨_, loadFile_eq hread, hsame ▸ loadFile_eq hgread⟩

def tokenText : String := "lexicon: 1\nid: a.b.c\ndefs: \x7bmain: \x7btype: token\x7d\x7d\n"

/-- The text of an archive with that document. -/
def archiveText : String := "-- a.yaml --\n" ++ tokenText

/-- A document and an archive, each under two names. -/
def spelledTree : FileSystem :=
  { entries :=
      [("/", { FileEntry.directory with
          members := some ["/a.TXTAR", "/a.txtar", "/b.YAML", "/b.yaml"] }),
        ("/a.TXTAR", .file archiveText 0o644),
        ("/a.txtar", .file archiveText 0o644),
        ("/b.YAML", .file tokenText 0o644),
        ("/b.yaml", .file tokenText 0o644)]
    workingDirectory := none }

theorem loadFile_classified_yaml :
    isRecognized "/b.YAML" = true ∧
    spelledTree.loadFile "/b.YAML" =
      (Document.ofSource "/b.YAML" tokenText).map List.singleton ∧
    ∃ contents : Contents,
      spelledTree.loadFile "/b.YAML" = contents.labelled "/b.YAML" ∧
      spelledTree.loadFile "/b.yaml" = contents.labelled "/b.yaml" := by
  have hrecognized : isRecognized "/b.YAML" = true := by decide
  have hcapital : lower (Path.ext "/b.YAML") = ".yaml" := by decide
  have hsmall : lower (Path.ext "/b.yaml") = ".yaml" := by decide
  have hplain {path : String} (h : lower (Path.ext path) = ".yaml") : HasPlainEnding path := by
    intro hbundle
    exact absurd (h.symm.trans hbundle) (by decide)
  have hread : spelledTree.read "/b.YAML" = .ok tokenText := by decide +kernel
  have hother : spelledTree.read "/b.yaml" = .ok tokenText := by decide +kernel
  obtain ⟨-, hkind, -, hsame⟩ := loadFile_classified spelledTree hrecognized
  refine ⟨hrecognized, ?_, hsame spelledTree _ _ (hsmall.trans hcapital.symm) (hplain hcapital)
    (hplain hsmall) hread hother⟩
  rcases hkind _ hread (hplain hcapital) with ⟨hbundle, -⟩ | ⟨-, hdocument⟩
  · exact absurd (hcapital.symm.trans hbundle) (by decide)
  · exact hdocument

private theorem bundleDocuments_archiveText (path : String) :
    ∃ document, bundleDocuments path archiveText = .ok [document] := by
  have hmembers : (Archive.members archiveText).filter (fun member => isRecognized member.name) =
      [⟨"a.yaml", tokenText⟩] := by
    decide +kernel
  have hparses : (Document.parse tokenText).toBool = true := by decide +kernel
  obtain ⟨document, hdocument⟩ : ∃ document,
      Document.ofSource (path ++ ":" ++ "a.yaml") tokenText = .ok document := by
    unfold Document.ofSource
    cases hparse : Document.parse tokenText with
    | error problem =>
      rw [hparse] at hparses
      cases hparses
    | ok document => exact ⟨_, rfl⟩
  refine ⟨document, ?_⟩
  rw [bundleDocuments, hmembers, List.mapM_cons, List.mapM_nil, hdocument]
  rfl

/-- An archive whose ending is in capital letters is recognized, but it is read as one document,
which it is not. -/
theorem loadFile_refuses_archive :
    isRecognized "/a.TXTAR" = true ∧
    lower (Path.ext "/a.TXTAR") = bundleExtension ∧
    spelledTree.read "/a.TXTAR" = .ok archiveText ∧
    spelledTree.read "/a.txtar" = .ok archiveText ∧
    (∃ document, bundleDocuments "/a.TXTAR" archiveText = .ok [document]) ∧
    spelledTree.loadFile "/a.TXTAR" = .error (.problem (.unreadable "/a.TXTAR")) ∧
    ¬ ∃ contents : Contents,
      spelledTree.loadFile "/a.TXTAR" = contents.labelled "/a.TXTAR" ∧
      spelledTree.loadFile "/a.txtar" = contents.labelled "/a.txtar" := by
  have hcapital : spelledTree.read "/a.TXTAR" = .ok archiveText := by decide +kernel
  have hsmall : spelledTree.read "/a.txtar" = .ok archiveText := by decide +kernel
  have hunreadable : Markup.Node.parse? archiveText = none := by decide +kernel
  have hrefused : spelledTree.loadFile "/a.TXTAR" =
      .error (.problem (.unreadable "/a.TXTAR")) := by
    rw [loadFile_document hcapital (by decide)]
    unfold Document.ofSource Document.parse
    rw [hunreadable]
    rfl
  refine ⟨by decide, by decide, hcapital, hsmall, bundleDocuments_archiveText "/a.TXTAR",
    hrefused, ?_⟩
  rintro ⟨contents, hfailed, hloaded⟩
  obtain ⟨document, hdocument⟩ := bundleDocuments_archiveText "/a.txtar"
  rw [loadFile_bundle hsmall (by decide), hdocument] at hloaded
  rw [hrefused] at hfailed
  cases contents with
  | error labelled => cases hloaded
  | ok documents => cases hfailed

end FileSystem

end LexiconCompiler
