import LexiconCompiler.Output.Delivery
import LexiconCompiler.Proofs.Compilation.Failures
import LexiconCompiler.Proofs.Compilation.Names
import LexiconCompiler.Proofs.Output.UnitPath

set_option autoImplicit false
set_option relaxedAutoImplicit false

/-!
Runs whose files are kept in memory. A run that fails leaves the files as they were; otherwise none
of its writes fails, and each of its files is found afterwards. A document without an end lets a run
do neither.
-/

namespace LexiconCompiler

open LexiconCompiler.Code LexiconCompiler.Emission LexiconCompiler.Text

namespace MemorySink

variable {path : String} {file : File} {files : List File} (s : MemorySink)

private theorem path_replace (file old : File) :
    (if old.path == file.path then file else old).path = old.path := by
  split
  · rename_i h
    exact (eq_of_beq h).symm
  · rfl

private theorem find?_put (path : String) (file : File) :
    (s.put file).find? path = if file.path = path then some file else s.find? path := by
  unfold put
  split
  · rename_i hsome
    simp only [find?, List.find?_map, Function.comp_def, path_replace]
    by_cases hpath : file.path = path
    · obtain ⟨old, hold⟩ := Option.isSome_iff_exists.mp hsome
      have hsame : old.path = file.path := by simpa using List.find?_some hold
      rw [if_pos hpath, ← hpath]
      rw [find?] at hold
      simp [hold, hsame]
    · rw [if_neg hpath]
      cases hold : s.files.find? fun old => old.path == path with
      | none => rfl
      | some old =>
        have hsame : old.path = path := by simpa using List.find?_some hold
        have hother : old.path ≠ file.path := fun he => hpath (he.symm.trans hsame)
        simp [hother]
  · rename_i hnone
    have hnone : s.find? file.path = none := by simpa using hnone
    simp only [find?, List.find?_append]
    by_cases hpath : file.path = path
    · rw [if_pos hpath, ← hpath]
      rw [find?] at hnone
      simp [hnone]
    · simp [hpath]

private theorem nodup_put (h : (s.files.map File.path).Nodup) :
    ((s.put file).files.map File.path).Nodup := by
  unfold put
  split
  · simpa only [List.map_map, Function.comp_def, path_replace] using h
  · rename_i hnone
    have hnew : ∀ old ∈ s.files, old.path ≠ file.path := by
      simpa [find?, List.find?_eq_none] using hnone
    rw [List.map_append, List.nodup_append]
    refine ⟨h, by simp, ?_⟩
    intro path hpath other ho
    obtain ⟨old, hold, rfl⟩ := List.mem_map.mp hpath
    rw [List.map_singleton, List.mem_singleton] at ho
    rw [ho]
    exact hnew old hold

private theorem find?_foldl_put (h : (files.map File.path).Nodup) (path : String) :
    (files.foldl put s).find? path =
      (files.find? fun file => file.path == path).or (s.find? path) := by
  induction files generalizing s with
  | nil => rfl
  | cons file rest ih =>
    rw [List.map_cons, List.nodup_cons] at h
    rw [List.foldl_cons, ih _ h.2, find?_put, List.find?_cons]
    by_cases hpath : file.path = path
    · have hrest : rest.find? (fun other => other.path == path) = none := by
        rw [List.find?_eq_none]
        intro other ho hsame
        rw [hpath, ← eq_of_beq hsame] at h
        exact h.1 (List.mem_map_of_mem ho)
      simp [hpath, hrest]
    · have hbeq : (file.path == path) = false := by simpa using hpath
      simp [hpath, hbeq]

private theorem nodup_foldl_put (h : (s.files.map File.path).Nodup) :
    ((files.foldl put s).files.map File.path).Nodup := by
  induction files generalizing s with
  | nil => exact h
  | cons file rest ih => exact ih (s.put file) (s.nodup_put h)

private theorem writeAll_eq_ok (h : ∀ file ∈ files, OutputPath.fault? file.path = none) :
    writeAll (write false) files s = (.ok ⟨⟩, files.foldl put s) := by
  induction files generalizing s with
  | nil => rfl
  | cons file rest ih =>
    rw [List.forall_mem_cons] at h
    have hwrite : write false file s = (.ok ⟨⟩, s.put file) := by
      simp [write, writeRefusal?, h.1]
    rw [writeAll, hwrite]
    exact ih (s.put file) h.2

end MemorySink

section Run

variable {settings : Settings} {documents : List Document} {values : List RawValue}

private theorem Document.ofValue_eq_ok {value : RawValue} {document : Document}
    (h : Document.ofValue value = .ok document) : ∃ node, Document.ofNode node = .ok document := by
  unfold Document.ofValue at h
  split at h
  · cases h
  · split at h
    · cases h
    · exact ⟨_, h⟩

private theorem Document.ofValues_eq_ok {index : Nat} {read : List Document}
    (h : Document.ofValuesFrom index values = .ok read) :
    read.length = values.length ∧
      ∀ document ∈ read, ∃ node, Document.ofNode node = .ok document := by
  induction values generalizing index read with
  | nil =>
    obtain rfl := Except.ok.inj h
    simp
  | cons value rest ih =>
    unfold Document.ofValuesFrom at h
    split at h
    · cases h
    · rename_i document hvalue
      obtain ⟨others, hothers, rfl⟩ : ∃ others,
          Document.ofValuesFrom (index + 1) rest = .ok others ∧ document :: others = read := by
        cases hrest : Document.ofValuesFrom (index + 1) rest with
        | error problem =>
          rw [hrest] at h
          cases h
        | ok others =>
          rw [hrest] at h
          exact ⟨others, rfl, Except.ok.inj h⟩
      obtain ⟨hlength, hread⟩ := ih hothers
      refine ⟨by simp [hlength], List.forall_mem_cons.mpr ⟨?_, hread⟩⟩
      exact Document.ofValue_eq_ok hvalue

private theorem generateFrom_eq_ok {generated : Generated}
    (h : generateFrom settings (documents.map some) values = .ok generated)
    (hlive : settings.canceled = false) :
    ∃ read b c, Document.ofValues values = .ok read ∧
      Batch.analyze ((documents ++ read).map some) = .ok b ∧
      b.compile settings.skipGuards false = .ok c ∧
      List.Forall₂ (fun u file => settings.backend.file u = .ok file) c.units generated.files := by
  simp only [generateFrom, generate, Compilation.render, Outcome.bind_eq_ok,
    Outcome.mapError_eq_ok, Outcome.pure_eq_ok, hlive] at h
  obtain ⟨read, hread, b, hb, c, hc, files, hfiles, rfl⟩ := h
  rw [← List.map_append] at hb
  exact ⟨read, b, c, hread, hb, hc, Outcome.mapM_eq_ok hfiles⟩

private theorem Backend.isOverflow_file {backend : Backend} {u : SourceUnit} {failure : Failure}
    (h : backend.file u = .error failure) : failure.isOverflow = false := by
  cases backend with
  | typescript options =>
    simp only [Backend.file, Backend.content, Outcome.bind_eq_error, Outcome.mapError_eq_error,
      Outcome.pure_ne_error, and_false, exists_false, or_false] at h
    obtain ⟨_, _, rfl⟩ := h
    rfl
  | recorder => cases h

private theorem endless_of_generateFrom {failure : Failure}
    (h : generateFrom settings (documents.map some) values = .error failure)
    (hover : failure.isOverflow = true) :
    ∃ read, Document.ofValues values = .ok read ∧
      ∃ document ∈ documents ++ read, document.raw.Endless := by
  simp only [generateFrom, generate, Compilation.render, Outcome.bind_eq_error,
    Outcome.mapError_eq_error, Outcome.mapError_eq_ok, Outcome.pure_ne_error, and_false,
    exists_false, or_false] at h
  rcases h with ⟨_, _, rfl⟩ | ⟨read, hread, ⟨_, _, rfl⟩ | ⟨b, hb, hc | ⟨_, _, failure, hf, rfl⟩⟩⟩
  · cases hover
  · cases hover
  · rw [← List.map_append] at hb
    obtain ⟨document, hm, hendless⟩ := Batch.endless_of_compile hc hover
    rw [(Batch.analyze_eq_ok_iff.mp hb).2.2.2.1] at hm
    exact ⟨read, hread, document, hm, hendless⟩
  · obtain ⟨u, _, hfile⟩ := Outcome.mapM_eq_error hf
    rw [Failure.isOverflow, Backend.isOverflow_file hfile] at hover
    cases hover

end Run

section Delivered

private theorem Backend.path_of_file {backend : Backend} {u : SourceUnit} {file : File}
    (h : backend.file u = .ok file) : file.path = u.path ++ backend.ext := by
  simp only [Backend.file, Outcome.bind_eq_ok, Outcome.pure_eq_ok] at h
  obtain ⟨_, _, rfl⟩ := h
  rfl

/-- The files of units, and what a sink holds once they are written. -/
structure Delivered (backend : Backend) (units : List SourceUnit) (files : List File)
    (before after : MemorySink) : Prop where
  rendered : List.Forall₂ (fun u file => backend.file u = .ok file) units files
  distinct : (files.map fun file => lower file.path).Nodup
  accepted : ∀ file ∈ files, OutputPath.fault? file.path = none
  apart : ∀ file ∈ files, ∀ other ∈ files,
    ¬ (file.path ++ "/").toList <+: other.path.toList
  found : ∀ path, after.find? path =
    (files.find? fun file => file.path == path).or (before.find? path)
  once : (before.files.map File.path).Nodup → (after.files.map File.path).Nodup

namespace Compiled

variable {documents : List Document} {skipGuards : Bool} {tree : NamespaceTree}
  {tokens : TokenGroups} {c : Compilation} {own : List SourceUnit} {lexicons index : SourceUnit}

private theorem unit_names (h : Compiled documents skipGuards tree tokens c own lexicons index) :
    c.units.map SourceUnit.name =
      documents.map (fun document => document.id) ++ [lexiconsName, indexName] := by
  rw [h.units, List.map_append, h.own_names, List.map_cons, List.map_singleton,
    (lexiconsUnit_bound h.lexicons).1, (indexUnit_grows h.sound h.index).1]

private theorem isValid_ids (h : Compiled documents skipGuards tree tokens c own lexicons index) :
    ∀ id ∈ documents.map (fun document => document.id), Nsid.isValid id = true := by
  intro id hid
  obtain ⟨document, hd, rfl⟩ := List.mem_map.mp hid
  exact h.identified.isValid hd

variable {backend : Backend} {files : List File}

private theorem file_paths (h : Compiled documents skipGuards tree tokens c own lexicons index)
    (hfiles : List.Forall₂ (fun u file => backend.file u = .ok file) c.units files) :
    files.map File.path = (documents.map (fun document => document.id) ++
      [lexiconsName, indexName]).map fun name => pathOf name ++ backend.ext := by
  rw [← h.unit_names, List.map_map, ← List.forall₂_eq_eq_eq, List.forall₂_map_left_iff,
    List.forall₂_map_right_iff]
  exact (hfiles.imp fun _ _ hfile => Backend.path_of_file hfile).flip

private theorem path_eq_of_mem (h : Compiled documents skipGuards tree tokens c own lexicons index)
    (hfiles : List.Forall₂ (fun u file => backend.file u = .ok file) c.units files) {file : File}
    (hf : file ∈ files) : ∃ name, IsUnitName name ∧ file.path = pathOf name ++ backend.ext := by
  have hpath : file.path ∈ files.map File.path := List.mem_map_of_mem hf
  rw [h.file_paths hfiles] at hpath
  obtain ⟨name, hname, heq⟩ := List.mem_map.mp hpath
  refine ⟨name, ?_, heq.symm⟩
  rw [List.mem_append] at hname
  obtain hid | hword := hname
  · exact Or.inr (Or.inr (h.isValid_ids name hid))
  · have hword : name = lexiconsName ∨ name = indexName := by simpa using hword
    exact hword.imp_right Or.inl

private theorem nodup_lower_paths
    (h : Compiled documents skipGuards tree tokens c own lexicons index)
    (hfiles : List.Forall₂ (fun u file => backend.file u = .ok file) c.units files) :
    ((files.map File.path).map lower).Nodup := by
  have hids : ((documents.map fun document => document.id).map lower).Nodup := by
    rw [List.map_map]
    exact h.distinct
  rw [h.file_paths hfiles, List.map_map]
  exact nodup_paths backend h.isValid_ids hids

/-- What is rendered of a compilation is written without a failure, whatever was there before. -/
private theorem delivered (h : Compiled documents skipGuards tree tokens c own lexicons index)
    (hfiles : List.Forall₂ (fun u file => backend.file u = .ok file) c.units files)
    (before : MemorySink) :
    ∃ after, writeAll (MemorySink.write false) files before = (.ok ⟨⟩, after) ∧
      Delivered backend c.units files before after := by
  have haccepted : ∀ file ∈ files, OutputPath.fault? file.path = none := by
    intro file hf
    obtain ⟨name, hname, hpath⟩ := h.path_eq_of_mem hfiles hf
    rw [hpath]
    exact hname.accepted backend
  have hdistinct := h.nodup_lower_paths hfiles
  refine ⟨_, before.writeAll_eq_ok haccepted, hfiles, ?_, haccepted, ?_, ?_, ?_⟩
  · rwa [List.map_map] at hdistinct
  · intro file hf other ho
    obtain ⟨name, hname, hpath⟩ := h.path_eq_of_mem hfiles hf
    obtain ⟨name', hname', hpath'⟩ := h.path_eq_of_mem hfiles ho
    rw [hpath, hpath']
    exact IsUnitName.not_directory backend hname hname'
  · exact before.find?_foldl_put hdistinct.of_map
  · exact before.nodup_foldl_put

end Compiled

/-- A run ends as it would without a sink. If it fails, the sink is as it was, and there is no error
only if a document has no end; otherwise the sink is updated with one file for each unit. -/
theorem deliver_memory {settings : Settings} {documents : List Document} {values : List RawValue}
    {run : Except Failure Generated}
    (hread : ∀ document ∈ documents, ∃ node, Document.ofNode node = .ok document)
    (hlive : settings.canceled = false)
    (hrun : generateFrom settings (documents.map some) values = run) (before : MemorySink) :
    ∃ after, deliver (MemorySink.write settings.canceled) run before = (run, after) ∧
      match run with
      | .error failure =>
        after = before ∧
        (failure.isOverflow = true → ∃ read, Document.ofValues values = .ok read ∧
          ∃ document ∈ documents ++ read, document.raw.Endless)
      | .ok generated =>
        generated.files.length = documents.length + values.length + 2 ∧
        ∃ read b c, Document.ofValues values = .ok read ∧
          Batch.analyze ((documents ++ read).map some) = .ok b ∧
          b.compile settings.skipGuards false = .ok c ∧
          Delivered settings.backend c.units generated.files before after := by
  cases run with
  | error failure => exact ⟨before, rfl, rfl, endless_of_generateFrom hrun⟩
  | ok generated =>
    obtain ⟨read, b, c, hvalues, hb, hc, hfiles⟩ := generateFrom_eq_ok hrun hlive
    obtain ⟨hlength, hparsed⟩ := Document.ofValues_eq_ok hvalues
    have hid : Identified (documents ++ read) :=
      identified_of_read fun document hd =>
        (List.mem_append.mp hd).elim (hread document) (hparsed document)
    obtain ⟨own, lexicons, index, h⟩ := Compiled.of_compile hid hb hc
    obtain ⟨after, hwritten, hdelivered⟩ := h.delivered hfiles before
    refine ⟨after, ?_, ?_, read, b, c, hvalues, hb, hc, hdelivered⟩
    · rw [hlive, deliver, hwritten]
    · have hunits := congrArg List.length h.unit_names
      simp only [List.length_map, List.length_append, List.length_cons, List.length_nil] at hunits
      rw [← hfiles.length_eq]
      omega

theorem deliver_memory_likes :
    ∃ generated after,
      generateFrom ⟨false, false, .recorder⟩ (Batch.likes.map some) [] = .ok generated ∧
      deliver (MemorySink.write false) (.ok generated) ⟨[⟨"index.txt", ""⟩, ⟨"notes.txt", ""⟩]⟩ =
        (.ok generated, after) ∧
      generated.files.map File.path =
        ["types/com/example/getLikes.txt", "types/com/example/defs.txt", "lexicons.txt",
          "index.txt"] ∧
      after.find? "notes.txt" = some ⟨"notes.txt", ""⟩ := by
  have hpaths : (generateFrom ⟨false, false, .recorder⟩ (Batch.likes.map some) []).toOption.map
      (fun generated => generated.files.map File.path) =
        some ["types/com/example/getLikes.txt", "types/com/example/defs.txt", "lexicons.txt",
          "index.txt"] := by
    decide +kernel
  obtain ⟨generated, hrun, hpaths⟩ := Option.map_eq_some_iff.mp hpaths
  have hrun := Outcome.toOption_eq_some.mp hrun
  obtain ⟨after, hdeliver, _, _, _, _, _, _, _, hdelivered⟩ :=
    deliver_memory Batch.likes_read rfl hrun ⟨[⟨"index.txt", ""⟩, ⟨"notes.txt", ""⟩]⟩
  have hnotes : generated.files.find? (fun file => file.path == "notes.txt") = none := by
    rw [List.find?_eq_none]
    intro file hf hsame
    have hmem : "notes.txt" ∈ generated.files.map File.path :=
      List.mem_map.mpr ⟨file, hf, eq_of_beq hsame⟩
    rw [hpaths] at hmem
    revert hmem
    decide
  refine ⟨generated, after, hrun, hdeliver, hpaths, ?_⟩
  rw [hdelivered.found, hnotes]
  rfl

/-- A document with a list of itself under a key of no meaning. -/
def knottedText : String :=
  "lexicon: 1\nid: com.example.thing\ndefs:\n  main:\n    type: token\nx: &a [*a]\n"

/-- A document may be accepted and yet let a run end neither with an error nor with files. -/
theorem deliver_knotted :
    ∃ document failure, Document.parse knottedText = .ok document ∧
      deliver (MemorySink.write false)
          (generateFrom ⟨false, false, .typescript .default⟩ [some document] []) .empty =
        (.error failure, .empty) ∧
      failure.isOverflow = true := by
  have hends : ((Document.parse knottedText).toOption.bind fun document =>
      match generateFrom ⟨false, false, .typescript .default⟩ [some document] [] with
      | .ok _ => none
      | .error failure => some failure.isOverflow) = some true := by
    decide +kernel
  obtain ⟨document, hdocument, hfailure⟩ := Option.bind_eq_some_iff.mp hends
  split at hfailure
  · cases hfailure
  · rename_i failure hrun
    refine ⟨document, failure, Outcome.toOption_eq_some.mp hdocument, ?_, Option.some.inj hfailure⟩
    rw [hrun]
    rfl

end Delivered

end LexiconCompiler
