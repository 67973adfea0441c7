import LexiconCompiler.Proofs.Input.Resolution

set_option autoImplicit false
set_option relaxedAutoImplicit false

/-!
The paths that hold the files of inputs. A root is cleaned from the directory that an input searches
before any file is known, and covers what is found there later: walks lead down from it, unless a
directory lists a way up, and so do the names of a pattern.
-/

namespace LexiconCompiler

open LexiconCompiler.Text
open LexiconCompiler.Path (AtOrBelow Below IsName clean isAbsolute join ofSegments segments)

/-- A root covers itself and what starts with it and a slash. The working directory covers relative
paths that do not start with a way up, and `/` covers all paths from the root. -/
def Covers (root file : String) : Prop :=
  file = root ∨
  (root = "." ∧ isAbsolute file = false ∧ (split '/' file).head? ≠ some "..") ∨
  (root = "/" ∧ isAbsolute file = true) ∨
  startsWith file.toList (root ++ "/").toList = true

def IsPlainMatch (name : String) : Prop :=
  clean name = name ∧ isAbsolute name = false ∧ ".." ∉ split '/' name

variable {directory file name : String}

private theorem Path.AtOrBelow.clean_eq (h : AtOrBelow directory file) : clean file = file := by
  rcases h with rfl | hbelow
  · exact Path.clean_clean directory
  · exact hbelow.clean_eq

private theorem covers_of_below (h : Below directory file) : Covers (clean directory) file := by
  have habsolute := h.isAbsolute_eq
  obtain ⟨names, hne, hnames, hfile⟩ := h
  have hreduced := (Path.reduced_segments directory).append_names hnames
  by_cases hroot : segments directory = []
  · rw [hroot, List.nil_append] at hfile hreduced
    rw [clean, hroot]
    cases hrooted : isAbsolute directory with
    | true => exact Or.inr (Or.inr (Or.inl ⟨rfl, habsolute.trans hrooted⟩))
    | false =>
      rw [hrooted] at hreduced
      refine Or.inr (Or.inl ⟨rfl, habsolute.trans hrooted, ?_⟩)
      rw [hfile, hrooted, Path.split_ofSegments hreduced hne]
      intro hhead
      exact (hnames ".." (List.mem_of_mem_head? hhead)).ne_dots rfl
  · refine Or.inr (Or.inr (Or.inr ?_))
    have hpieces : Path.pieces (isAbsolute directory) (segments directory) ≠ [] := by
      cases isAbsolute directory with
      | true => exact List.cons_ne_nil _ _
      | false => exact hroot
    have happend : Path.pieces (isAbsolute directory) (segments directory ++ names) =
        Path.pieces (isAbsolute directory) (segments directory) ++ names := by
      cases isAbsolute directory <;> rfl
    have hjoin : file = clean directory ++ "/" ++ joinWith "/" names := by
      rw [hfile, ← Path.joinWith_pieces (List.append_ne_nil_of_right_ne_nil _ hne), happend,
        joinWith_append "/" hpieces hne, Path.joinWith_pieces hroot, clean]
    rw [hjoin, String.toList_append]
    exact List.isPrefixOf_iff_prefix.mpr (List.prefix_append _ _)

private theorem covers_of_atOrBelow (h : AtOrBelow directory file) : Covers
    (clean directory) file := by
  rcases h with rfl | hbelow
  · exact Or.inl rfl
  · exact covers_of_below hbelow

private theorem IsPlainMatch.atOrBelow (h : IsPlainMatch name) (directory : String) :
    AtOrBelow directory (join directory name) := by
  obtain ⟨hclean, hrelative, hup⟩ := h
  by_cases hdot : name = "."
  · left
    rw [hdot]
    exact OutputPath.join_dot directory
  · right
    have hempty : name ≠ "" := by
      rintro rfl
      exact absurd hclean (by decide)
    have haccepted : OutputPath.Accepted name := ⟨hempty, hrelative, hup, hclean⟩
    exact haccepted.below hdot directory

def searched (input : String) : String :=
  if Glob.isPattern input then (Glob.splitPattern input).1 else input

namespace FileSystem

variable {fs : FileSystem} {input : String} {inputs files found : List String}

/-- A pattern is only matched with plain names below the directory that it searches. -/
def MatchesPlainly (fs : FileSystem) (pattern : String) : Prop :=
  ∀ names, (Glob.Place.below fs (Glob.splitPattern pattern).1).matches?
    (Glob.splitPattern pattern).2 = some names → ∀ name ∈ names, IsPlainMatch name

private theorem atOrBelow_of_pattern (hpattern : Glob.isPattern input = true)
    (hplain : fs.MatchesPlainly input) (h : fs.expandInput input = .ok found) :
    ∀ path ∈ found, AtOrBelow (Glob.splitPattern input).1 path := by
  intro path hpath
  obtain ⟨names, hnames, hall⟩ := exists_match hpattern h
  obtain ⟨name, hname, -, rfl⟩ := hall path hpath
  exact (hplain names hnames name hname).atOrBelow (Glob.splitPattern input).1

private theorem atOrBelow_of_directory (hdown : ∀ around, ¬ fs.Lists around "..")
    (hpattern : Glob.isPattern input = false) (hdirectory : fs.isDirectory input = .ok true)
    (h : fs.expandInput input = .ok found) : ∀ path ∈ found, AtOrBelow input path := by
  intro path hpath
  have hempty := ne_empty_of_mem h hpath
  obtain ⟨-, around, name, hentered, hlists, rfl⟩ := exists_found hpattern hdirectory h path hpath
  exact (hentered.atOrBelow hempty hdown).join (hentered.ne_empty hempty) hlists.slash_notMem
    fun hup => hdown around (hup ▸ hlists)

private theorem atOrBelow_of_expandInput (hdown : ∀ around, ¬ fs.Lists around "..")
    (hplain : Glob.isPattern input = true → fs.MatchesPlainly input)
    (h : fs.expandInput input = .ok found) :
    ∀ path ∈ found, AtOrBelow (searched input) (clean path) := by
  intro path hpath
  unfold searched
  cases hpattern : Glob.isPattern input with
  | true =>
    have hmatch := atOrBelow_of_pattern hpattern (hplain hpattern) h path hpath
    rw [hmatch.clean_eq]
    exact hmatch
  | false =>
    have hempty := ne_empty_of_mem h hpath
    cases hdirectory : fs.isDirectory input with
    | error fault =>
      rw [expandInput, if_neg (by simpa using hempty), hpattern, if_neg (by decide),
        hdirectory] at h
      cases h
    | ok isDirectory =>
      cases isDirectory with
      | false =>
        rw [expandInput_file hempty hpattern hdirectory] at h
        obtain rfl := Except.ok.inj h
        obtain rfl := List.mem_singleton.mp hpath
        exact Or.inl rfl
      | true =>
        have hfile := atOrBelow_of_directory hdown hpattern hdirectory h path hpath
        rw [hfile.clean_eq]
        exact hfile

private theorem exists_covering (hdown : ∀ around, ¬ fs.Lists around "..")
    (hplain : ∀ input ∈ inputs, Glob.isPattern input = true → fs.MatchesPlainly input)
    (h : fs.resolve inputs = .ok files) :
    ∀ file ∈ files, ∃ root ∈ inputRoots inputs, Covers root file := by
  intro file hfile
  obtain ⟨input, hinput, own, hown, hfile⟩ := exists_resolve_single h file hfile
  obtain ⟨found, hfound, hmem⟩ := mem_resolve_single hown
  obtain ⟨path, hpath, rfl⟩ := (hmem file).mp hfile
  have hempty := ne_empty_of_mem hfound hpath
  have hat := atOrBelow_of_expandInput hdown (hplain input hinput) hfound path hpath
  refine ⟨inputRoot input, ?_, covers_of_atOrBelow hat⟩
  refine mem_distinct.mpr (List.mem_map_of_mem (List.mem_filter.mpr ⟨hinput, ?_⟩))
  simpa using hempty

/-- Every file that inputs stand for is covered by one of their roots, which are all different. -/
theorem roots_cover (hdown : ∀ around, ¬ fs.Lists around "..")
    (hplain : ∀ input ∈ inputs, Glob.isPattern input = true → fs.MatchesPlainly input)
    (h : fs.resolve inputs = .ok files) :
    (∀ file ∈ files, ∃ root ∈ inputRoots inputs, Covers root file) ∧
      (inputRoots inputs).Nodup :=
  ⟨exists_covering hdown hplain h, nodup_distinct _⟩

/-- No directory lists a way up in a tree that is made of files, so its files are covered: with a
working directory whatever paths they were added by, without one if the paths had no ways up. -/
theorem roots_cover_of_files {workingDirectory : Option String} {added : List (String × String)}
    (hworking : ∀ directory, workingDirectory = some directory →
      isAbsolute directory = true ∧ clean directory = directory)
    (hadded : workingDirectory = none → ∀ file ∈ added, Path.Descends file.1)
    (hfs : added.foldl (fun fs file => fs.addFile file.1 file.2) (empty workingDirectory) = fs)
    (hplain : ∀ input ∈ inputs, Glob.isPattern input = true → fs.MatchesPlainly input)
    (h : fs.resolve inputs = .ok files) :
    ∀ file ∈ files, ∃ root ∈ inputRoots inputs, Covers root file := by
  have hdown : fs.LeadsDown := hfs ▸ leadsDown_of_files hworking hadded
  exact exists_covering hdown.not_lists hplain h

private theorem matches_cacheTree :
    (Glob.Place.below cacheTree (Glob.splitPattern "/lex/\x7bping,pong\x7d.json").1).matches?
      (Glob.splitPattern "/lex/\x7bping,pong\x7d.json").2 = some ["ping.json"] := by
  decide +kernel

private theorem resolve_cacheTree :
    cacheTree.resolve ["/lex/\x7bping,pong\x7d.json", "/lex"] =
      .ok ["/lex/ping.json", "/lex/post.yaml"] := by
  have hpaths : (["ping.json"].filter isRecognized).map
      (join (Glob.splitPattern "/lex/\x7bping,pong\x7d.json").1) = ["/lex/ping.json"] := by
    decide
  have hpattern : cacheTree.expandInput "/lex/\x7bping,pong\x7d.json" =
      .ok ["/lex/ping.json"] := by
    rw [expandInput_pattern (by decide)]
    simp only [glob, matches_cacheTree, hpaths, List.mergeSort_singleton]
    rfl
  have hdirectory : cacheTree.expandInput "/lex" = .ok ["/lex/ping.json", "/lex/post.yaml"] := by
    rw [expandInput_directory (by decide) (by decide) (by decide +kernel), documentsBelow_cacheTree]
    rfl
  refine resolve_eq_ok.mpr
    ⟨[["/lex/ping.json"], ["/lex/ping.json", "/lex/post.yaml"]], ?_, by decide⟩
  rw [List.mapM_cons, List.mapM_cons, List.mapM_nil, hpattern, hdirectory]
  rfl

theorem roots_cover_cache :
    (∀ file ∈ ["/lex/ping.json", "/lex/post.yaml"],
      ∃ root ∈ inputRoots ["/lex/\x7bping,pong\x7d.json", "/lex"], Covers root file) ∧
    (inputRoots ["/lex/\x7bping,pong\x7d.json", "/lex"]).Nodup := by
  have hdown : cacheTree.LeadsDown := by decide +kernel
  refine roots_cover hdown.not_lists (fun input hinput hpattern => ?_) resolve_cacheTree
  rw [List.mem_cons, List.mem_singleton] at hinput
  rcases hinput with rfl | rfl
  · intro names hnames
    obtain rfl := Option.some.inj (matches_cacheTree.symm.trans hnames)
    intro name hname
    rw [List.mem_singleton.mp hname]
    exact ⟨by decide, by decide, by decide⟩
  · exact absurd hpattern (by decide)

/-- A tree without a working directory. Its root lists a way up, since `../..` is a member of it. -/
def relativeTree : FileSystem :=
  { entries :=
      [("/", { FileEntry.directory with members := some ["../..", "../x.json", "x.json"] }),
        ("../../y.txt", .file "" 0o644),
        ("../..", { FileEntry.directory with members := some ["../../y.txt"] }),
        ("../x.json", .file "" 0o644),
        ("x.json", .file "" 0o644)]
    workingDirectory := none }

private theorem walk_relativeTree :
    relativeTree.documentsBelow relativeTree.depthBound "." =
      .ok ["../x.json", "../x.json", "x.json", "x.json"] := by
  have hup : relativeTree.documentsBelow 4 (join "." "..") = .ok ["../x.json", "../x.json"] := by
    have hchildren : relativeTree.children? (join "." "..") =
        relativeTree.listing? (join "." "..") :=
      children?_of_pairwise (by decide +kernel)
    rw [documentsBelow, hchildren]
    decide +kernel
  have hchildren : relativeTree.children? "." =
      some [("..", { FileEntry.directory with members := some ["../../y.txt"] }),
        ("x.json", .file "" 0o644), ("x.json", .file "" 0o644)] := by
    rw [children?_of_pairwise (by decide +kernel)]
    decide +kernel
  have hroot : relativeTree.entry? (join "." "..") = some
      { FileEntry.directory with members := some ["../..", "../x.json", "x.json"] } := by
    decide +kernel
  have hfile : relativeTree.entry? (join "." "x.json") = some (.file "" 0o644) := by
    decide +kernel
  have hshown : startsWith (Path.base (relativeTree.key (join "." ".."))).toList ['.'] = false := by
    decide +kernel
  have hrec : isRecognized (join "." "x.json") = true := by decide +kernel
  have hname : join "." "x.json" = "x.json" := by decide
  have hdepth : relativeTree.depthBound = 4 + 1 := rfl
  rw [hdepth, documentsBelow, hchildren]
  simp only [Option.getD_some, List.mapM_cons, List.mapM_nil, hroot, hfile, hshown, hup, hrec]
  rw [hname]
  rfl

theorem roots_miss :
    relativeTree = (((empty none).addFile "../../y.txt" "").addFile "../x.json" "").addFile
      "x.json" "" ∧
    Glob.isPattern "." = false ∧
    relativeTree.resolve ["."] = .ok ["../x.json", "x.json"] ∧
    ¬ ∃ root ∈ inputRoots ["."], Covers root "../x.json" := by
  have hdirectory : relativeTree.isDirectory "." = .ok true := by decide +kernel
  have hexpand : relativeTree.expandInput "." =
      .ok ["../x.json", "../x.json", "x.json", "x.json"] := by
    rw [expandInput_directory (by decide) (by decide) hdirectory, walk_relativeTree]
    rfl
  refine ⟨by decide +kernel, by decide, ?_, ?_⟩
  · rw [resolve_single hexpand]
    exact congrArg Except.ok (by decide)
  · have hroots : inputRoots ["."] = ["."] := by decide
    rintro ⟨root, hroot, hcovers⟩
    rw [hroots, List.mem_singleton] at hroot
    rw [hroot, Covers] at hcovers
    revert hcovers
    decide

end FileSystem

end LexiconCompiler
