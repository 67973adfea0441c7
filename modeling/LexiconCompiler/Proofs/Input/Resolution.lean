import LexiconCompiler.Proofs.Input.Walk
import LexiconCompiler.Proofs.Text.Distinct

set_option autoImplicit false
set_option relaxedAutoImplicit false

/-!
Inputs resolved one after the other. Each input stands for the same files wherever it stands, so a
longer list of inputs adds to the files of a shorter one those that are new. Files are given by
clean paths, each once; those of directories and patterns are documents or archives, and no hidden
directory stands between a directory and a file of it.
-/

namespace LexiconCompiler

open LexiconCompiler.Text
open LexiconCompiler.Path (Below IsName clean isHidden join)

section Recognized

variable {path : String}

private theorem isRecognized_congr {other : String} (h : Path.base path = Path.base other) :
    isRecognized path = isRecognized other := by
  rw [isRecognized, isRecognized, Path.ext_congr h]

private theorem isName_base (h : isRecognized path = true) : IsName (Path.base path) := by
  have hne {segment : String} (hbase : Path.base segment = segment)
      (hrefused : isRecognized segment = false) : Path.base path ≠ segment := by
    intro heq
    rw [isRecognized_congr (heq.trans hbase.symm), hrefused] at h
    cases h
  exact ⟨hne (by decide) (by decide), hne (by decide) (by decide), hne (by decide) (by decide),
    Path.slash_notMem_base path⟩

private theorem isRecognized_clean (h : isRecognized path = true) : isRecognized
    (clean path) = true := by
  rw [isRecognized_congr (Path.base_clean (isName_base h)), h]

private theorem isRecognized_join (root : String) (h : isRecognized path = true) :
    isRecognized (join root path) = true := by
  by_cases hroot : root = ""
  · have hpath : path ≠ "" := by
      rintro rfl
      exact absurd h (by decide)
    rw [join, hroot]
    simpa [hpath] using isRecognized_clean h
  · have hbase : Path.base (root ++ "/" ++ path) = Path.base path := by
      rcases Path.eq_base_or_exists_front path with hpath | ⟨front, hpath⟩
      · conv_lhs => rw [hpath]
        exact Path.base_append_slash root (Path.slash_notMem_base path)
      · conv_lhs => rw [hpath, ← String.append_assoc, ← String.append_assoc]
        exact Path.base_append_slash _ (Path.slash_notMem_base path)
    have hempty : root.isEmpty = false := by simpa using hroot
    rw [join, hempty, if_neg (by decide)]
    refine isRecognized_clean ?_
    rw [isRecognized_congr hbase, h]

end Recognized

namespace FileSystem

variable {fs : FileSystem} {input : String} {inputs files : List String}

theorem resolve_eq_ok :
    fs.resolve inputs = .ok files ↔
      ∃ found, inputs.mapM fs.expandInput = .ok found ∧
        distinct (found.flatten.map clean) = files := by
  rw [resolve, Outcome.bind_eq_ok]
  simp only [Outcome.pure_eq_ok]

/-- The files of a longer list of inputs are those of its front, and then those of its back that
are new. -/
private theorem resolve_append (fs : FileSystem) (front back : List String) :
    fs.resolve (front ++ back) = (do
      let files ← fs.resolve front
      let more ← fs.resolve back
      return files ++ more.filter fun file => !files.contains file) := by
  rw [resolve, resolve, resolve, List.mapM_append]
  cases front.mapM fs.expandInput with
  | error failure => rfl
  | ok found =>
    cases back.mapM fs.expandInput with
    | error failure => rfl
    | ok more =>
      have happend := distinct_append (found.flatten.map clean) (more.flatten.map clean)
      rw [← List.map_append, ← List.flatten_append] at happend
      exact congrArg Except.ok happend

theorem mem_resolve_single (h : fs.resolve [input] = .ok files) :
    ∃ found, fs.expandInput input = .ok found ∧
      ∀ file, file ∈ files ↔ ∃ path ∈ found, file = clean path := by
  obtain ⟨parts, hparts, rfl⟩ := resolve_eq_ok.mp h
  rw [List.mapM_cons, List.mapM_nil] at hparts
  simp only [Outcome.bind_eq_ok, Outcome.pure_eq_ok] at hparts
  obtain ⟨found, hfound, _, rfl, rfl⟩ := hparts
  refine ⟨found, hfound, fun file => ?_⟩
  simp only [mem_distinct, List.flatten_cons, List.flatten_nil, List.append_nil, List.mem_map,
    eq_comm]

theorem resolve_single {found : List String} (h : fs.expandInput input = .ok found) :
    fs.resolve [input] = .ok (distinct (found.map clean)) := by
  refine resolve_eq_ok.mpr ⟨[found], ?_, by simp⟩
  rw [List.mapM_cons, h, List.mapM_nil]
  rfl

theorem exists_resolve_single (h : fs.resolve inputs = .ok files) :
    ∀ file ∈ files, ∃ input ∈ inputs, ∃ own, fs.resolve [input] = .ok own ∧ file ∈ own := by
  obtain ⟨parts, hparts, rfl⟩ := resolve_eq_ok.mp h
  intro file hfile
  obtain ⟨path, hpath, rfl⟩ := List.mem_map.mp (mem_distinct.mp hfile)
  obtain ⟨found, hfound, hpath⟩ := List.mem_flatten.mp hpath
  obtain ⟨input, hinput, hexpand⟩ := Outcome.exists_of_mem_mapM hparts hfound
  exact ⟨input, hinput, _, resolve_single hexpand, mem_distinct.mpr (List.mem_map_of_mem hpath)⟩

private theorem expandInput_empty : fs.expandInput "" = .ok [] := rfl

theorem expandInput_pattern (hpattern : Glob.isPattern input = true) :
    fs.expandInput input = (fs.glob input).bind fun found =>
      if found.isEmpty then .error (.plain ("no files match pattern: " ++ input))
      else .ok found := by
  have hempty : input.isEmpty = false := by
    rw [Bool.eq_false_iff, ne_eq, String.isEmpty_iff]
    rintro rfl
    exact absurd hpattern (by decide)
  rw [expandInput, hempty, if_neg (by decide), if_pos hpattern]
  rfl

theorem expandInput_file (hempty : input ≠ "") (hpattern : Glob.isPattern input = false)
    (hfile : fs.isDirectory input = .ok false) : fs.expandInput input = .ok [input] := by
  have hfull : input.isEmpty = false := by simpa using hempty
  rw [expandInput, hfull, if_neg (by decide), hpattern, if_neg (by decide), hfile]

theorem expandInput_directory (hempty : input ≠ "") (hpattern : Glob.isPattern input = false)
    (hdirectory : fs.isDirectory input = .ok true) :
    fs.expandInput input = (fs.documentsBelow fs.depthBound input).mapError fun fault =>
      .within ("walk " ++ input) (.plain fault.message) := by
  have hfull : input.isEmpty = false := by simpa using hempty
  rw [expandInput, hfull, if_neg (by decide), hpattern, if_neg (by decide), hdirectory]

theorem ne_empty_of_mem {found : List String} {path : String}
    (h : fs.expandInput input = .ok found) (hpath : path ∈ found) : input ≠ "" := by
  rintro rfl
  obtain rfl := Except.ok.inj (expandInput_empty.symm.trans h)
  cases hpath

theorem exists_found {found : List String} (hpattern : Glob.isPattern input = false)
    (hdirectory : fs.isDirectory input = .ok true) (h : fs.expandInput input = .ok found) :
    ∀ path ∈ found, isRecognized path = true ∧ ∃ around name,
      fs.Entered input around ∧ fs.Lists around name ∧ path = join around name := by
  intro path hpath
  rw [expandInput_directory (ne_empty_of_mem h hpath) hpattern hdirectory] at h
  exact exists_entered .start (Outcome.mapError_eq_ok.mp h) path hpath

theorem exists_match {found : List String} (hpattern : Glob.isPattern input = true)
    (h : fs.expandInput input = .ok found) :
    ∃ names, (Glob.Place.below fs (Glob.splitPattern input).1).matches?
        (Glob.splitPattern input).2 = some names ∧
      ∀ path ∈ found, ∃ name ∈ names, isRecognized name = true ∧
        path = join (Glob.splitPattern input).1 name := by
  rw [expandInput_pattern hpattern] at h
  obtain ⟨matched, hmatched, h⟩ := Outcome.bind_eq_ok.mp h
  split at h
  · cases h
  obtain rfl := Except.ok.inj h
  simp only [glob] at hmatched
  split at hmatched
  · cases hmatched
  next names hnames =>
  obtain rfl := Except.ok.inj hmatched
  refine ⟨names, hnames, fun path hpath => ?_⟩
  obtain ⟨name, hname, rfl⟩ := List.mem_map.mp (List.mem_mergeSort.mp hpath)
  obtain ⟨hname, hrecognized⟩ := List.mem_filter.mp hname
  exact ⟨name, hname, hrecognized, rfl⟩

/-- Resolution of inputs composes, and gives each document or archive that directories and patterns
stand for once. -/
theorem resolve_composes (fs : FileSystem) :
    (∀ front back, (∃ failure, fs.resolve (front ++ back) = .error failure) ↔
      (∃ failure, fs.resolve front = .error failure) ∨
        ∃ failure, fs.resolve back = .error failure) ∧
    (∀ front back files more, fs.resolve front = .ok files → fs.resolve back = .ok more →
      fs.resolve (front ++ back) =
        .ok (files ++ more.filter fun file => !files.contains file)) ∧
    (∀ inputs files, fs.resolve inputs = .ok files →
      files.Nodup ∧ (∀ file ∈ files, clean file = file) ∧
      ∀ file ∈ files, ∃ input ∈ inputs, ∃ own, fs.resolve [input] = .ok own ∧ file ∈ own) ∧
    (∀ input files, Glob.isPattern input = true → fs.resolve [input] = .ok files →
      ∀ file ∈ files, isRecognized file = true) ∧
    (∀ input files, Glob.isPattern input = false → fs.isDirectory input = .ok true →
      fs.resolve [input] = .ok files →
      ∀ file ∈ files, isRecognized file = true ∧
        ∀ directory, Below input directory → Below directory file →
          isHidden directory = false) := by
  refine ⟨?_, ?_, ?_, ?_, ?_⟩
  · intro front back
    rw [resolve_append]
    cases fs.resolve front with
    | error failure => simp [bind, Except.bind]
    | ok files => cases fs.resolve back <;> simp [bind, Except.bind, pure, Except.pure]
  · intro front back files more hfront hback
    rw [resolve_append, hfront, hback]
    rfl
  · intro inputs files h
    refine ⟨?_, ?_, exists_resolve_single h⟩
    · obtain ⟨found, -, rfl⟩ := resolve_eq_ok.mp h
      exact nodup_distinct _
    · obtain ⟨found, -, rfl⟩ := resolve_eq_ok.mp h
      intro file hfile
      obtain ⟨path, -, rfl⟩ := List.mem_map.mp (mem_distinct.mp hfile)
      exact Path.clean_clean path
  · intro input files hpattern h file hfile
    obtain ⟨found, hfound, hmem⟩ := mem_resolve_single h
    obtain ⟨names, -, hall⟩ := exists_match hpattern hfound
    obtain ⟨path, hpath, rfl⟩ := (hmem file).mp hfile
    obtain ⟨name, -, hname, rfl⟩ := hall path hpath
    exact isRecognized_clean (isRecognized_join _ hname)
  · intro input files hpattern hdirectory h file hfile
    obtain ⟨found, hfound, hmem⟩ := mem_resolve_single h
    obtain ⟨path, hpath, rfl⟩ := (hmem file).mp hfile
    have hempty := ne_empty_of_mem hfound hpath
    obtain ⟨hrecognized, around, name, hentered, hlists, rfl⟩ :=
      exists_found hpattern hdirectory hfound path hpath
    refine ⟨isRecognized_clean hrecognized, fun directory hbelow hfile => ?_⟩
    rw [Path.clean_join (hentered.ne_empty hempty)] at hfile
    exact hentered.not_isHidden hempty hlists hbelow hfile

/-- Two documents, and one in a hidden directory. -/
def cacheTree : FileSystem :=
  { entries :=
      [("/", { FileEntry.directory with members := some ["/lex"] }),
        ("/lex", { FileEntry.directory with
          members := some ["/lex/.cache", "/lex/ping.json", "/lex/post.yaml"] }),
        ("/lex/.cache", { FileEntry.directory with members := some ["/lex/.cache/stale.json"] }),
        ("/lex/.cache/stale.json", .file "" 0o644),
        ("/lex/ping.json", .file "" 0o644),
        ("/lex/post.yaml", .file "" 0o644)]
    workingDirectory := none }

theorem documentsBelow_cacheTree :
    cacheTree.documentsBelow cacheTree.depthBound "/lex" =
      .ok ["/lex/ping.json", "/lex/post.yaml"] := by
  have hchildren : cacheTree.children? "/lex" = cacheTree.listing? "/lex" :=
    children?_of_pairwise (by decide +kernel)
  have hdepth : cacheTree.depthBound = 5 + 1 := rfl
  rw [hdepth, documentsBelow, hchildren]
  decide +kernel

theorem resolve_composes_cache :
    cacheTree.resolve ["/lex/post.yaml"] = .ok ["/lex/post.yaml"] ∧
    cacheTree.resolve ["/lex"] = .ok ["/lex/ping.json", "/lex/post.yaml"] ∧
    cacheTree.resolve (["/lex/post.yaml"] ++ ["/lex"]) =
      .ok (["/lex/post.yaml"] ++ ["/lex/ping.json"]) ∧
    (∀ file ∈ ["/lex/ping.json", "/lex/post.yaml"], isRecognized file = true ∧
      ∀ directory, Below "/lex" directory → Below directory file → isHidden directory = false) := by
  obtain ⟨-, happend, -, -, hdirectory⟩ := resolve_composes cacheTree
  have hfile : cacheTree.resolve ["/lex/post.yaml"] = .ok ["/lex/post.yaml"] :=
    resolve_single (expandInput_file (by decide) (by decide) (by decide +kernel))
  have hlex : cacheTree.isDirectory "/lex" = .ok true := by decide +kernel
  have hexpand : cacheTree.expandInput "/lex" = .ok ["/lex/ping.json", "/lex/post.yaml"] := by
    rw [expandInput_directory (by decide) (by decide) hlex, documentsBelow_cacheTree]
    rfl
  have hclean : distinct (["/lex/ping.json", "/lex/post.yaml"].map clean) =
      ["/lex/ping.json", "/lex/post.yaml"] := by
    decide
  have hwalk := resolve_single hexpand
  rw [hclean] at hwalk
  exact ⟨hfile, hwalk, happend _ _ _ _ hfile hwalk,
    hdirectory "/lex" _ (by decide) hlex hwalk⟩

end FileSystem

end LexiconCompiler
