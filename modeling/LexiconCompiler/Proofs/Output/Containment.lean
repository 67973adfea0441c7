import LexiconCompiler.Proofs.Output.FileSink

set_option autoImplicit false
set_option relaxedAutoImplicit false

/-!
Where a file sink writes. An accepted path names something below the root of the sink: behind the
clean root stand one or more names, so the file lies inside, and so does the temporary one beside
it. The one exception is the path of the root itself, which is accepted too.
-/

namespace LexiconCompiler

open LexiconCompiler.Text

namespace Path

/-- A path that a directory starts: behind the clean directory stand one or more names. -/
def Below (directory path : String) : Prop :=
  ∃ names, names ≠ [] ∧ (∀ name ∈ names, IsName name) ∧
    path = ofSegments (isAbsolute directory) (segments directory ++ names)

/-- The clean directory itself, or a path below it. -/
def AtOrBelow (directory path : String) : Prop := path = clean directory ∨ Below directory path

variable {directory path : String}

section Below

private theorem reduced_below {names : List String} (directory : String)
    (hnames : ∀ name ∈ names, IsName name) :
    Reduced (isAbsolute directory) (segments directory ++ names) :=
  (reduced_segments directory).append_names hnames

theorem Below.isAbsolute_eq (h : Below directory path) :
    isAbsolute path = isAbsolute directory := by
  obtain ⟨names, -, hnames, rfl⟩ := h
  exact isAbsolute_ofSegments (reduced_below directory hnames)

theorem Below.clean_eq (h : Below directory path) : clean path = path := by
  obtain ⟨names, -, hnames, rfl⟩ := h
  have hreduced := reduced_below directory hnames
  rw [clean, isAbsolute_ofSegments hreduced, segments_ofSegments hreduced]

private theorem Below.ne (h : Below directory path) : path ≠ clean directory := by
  obtain ⟨names, hne, hnames, rfl⟩ := h
  intro heq
  have hsegments := congrArg segments heq
  rw [segments_ofSegments (reduced_below directory hnames), segments_clean] at hsegments
  exact hne (List.append_right_eq_self.mp hsegments)

private theorem Below.exists_name (h : Below directory path) :
    ∃ name ∈ segments path, IsName name := by
  obtain ⟨names, hne, hnames, rfl⟩ := h
  obtain ⟨name, hname⟩ := List.exists_mem_of_ne_nil names hne
  rw [segments_ofSegments (reduced_below directory hnames)]
  exact ⟨name, List.mem_append_right _ hname, hnames name hname⟩

private theorem Below.ne_of_segments (h : Below directory path) {other : String}
    (hother : ∀ segment ∈ segments other, segment = "..") : path ≠ other := by
  rintro rfl
  obtain ⟨name, hmem, hname⟩ := h.exists_name
  exact hname.ne_dots (hother name hmem)

private theorem Below.dir (h : Below directory path) : AtOrBelow directory (dir path) := by
  obtain ⟨names, hne, hnames, rfl⟩ := h
  have hdir : Path.dir (ofSegments (isAbsolute directory) (segments directory ++ names)) =
      ofSegments (isAbsolute directory) (segments directory ++ names.dropLast) := by
    rw [dir_ofSegments (reduced_below directory hnames), List.dropLast_append_of_ne_nil hne]
  by_cases hone : names.dropLast = []
  · left
    rw [hdir, hone, List.append_nil]
    rfl
  · have hkept : ∀ name ∈ names.dropLast, IsName name := fun name hname =>
      hnames name (List.mem_of_mem_dropLast hname)
    exact Or.inr ⟨names.dropLast, hone, hkept, hdir⟩

private theorem dropShared_append (front rest : List String) :
    dropShared front (front ++ rest) = ([], rest) := by
  induction front with
  | nil => simp [dropShared]
  | cons first more ih => simp [dropShared, ih]

private theorem Below.relative? (h : Below directory path) :
    ∃ way, relative? directory path = some way ∧ way ≠ ".." ∧
      startsWith way.toList ['.', '.', '/'] = false := by
  have habsolute := h.isAbsolute_eq
  obtain ⟨names, hne, hnames, rfl⟩ := h
  have hsegments := segments_ofSegments (reduced_below directory hnames)
  refine ⟨ofSegments false names, ?_, ?_⟩
  · simp [Path.relative?, habsolute, hsegments, dropShared_append]
  have hnil : Reduced false [] := .nil
  have hreduced : Reduced false names := hnil.append_names hnames
  have hsplit : split '/' (ofSegments false names) = names := split_ofSegments hreduced hne
  -- A way up would be the first of the names.
  have hup : ".." ∉ split '/' (ofSegments false names) := by
    rw [hsplit]
    exact fun hmem => (hnames ".." hmem).ne_dots rfl
  constructor
  · intro hdots
    rw [hdots] at hup
    exact hup (by decide)
  · rw [Bool.eq_false_iff]
    intro hstart
    obtain ⟨rest, hrest⟩ := List.isPrefixOf_iff_prefix.mp hstart
    refine hup ?_
    rw [split, ← hrest]
    exact List.mem_cons_self

end Below

section Join

variable {rooted : Bool}

theorem reduce_up (before rest : List String) {name : String} (hname : name ≠ "..") :
    reduce rooted (name :: before) (".." :: rest) = reduce rooted before rest := by
  rw [reduce.eq_def]
  simp [hname]

/-- Segments may be reduced before they are taken from a directory. -/
private theorem reduce_reduce (before : List String) {kept : List String} (hkept : Kept false kept)
    (segments : List String) (hs : ∀ segment ∈ segments, '/' ∉ segment.toList) :
    reduce rooted before (reduce false kept segments) =
      reduce rooted before (kept.reverse ++ segments) := by
  fun_induction reduce false kept segments with
  | case1 kept => rw [List.append_nil]
  | case2 kept segment rest hidle ih =>
    rw [Bool.or_eq_true, String.isEmpty_iff, beq_iff_eq] at hidle
    rw [ih hkept (List.forall_mem_cons.mp hs).2, reduce_append, reduce_append (segment :: rest),
      reduce_idle hidle]
  | case3 segment rest hidle hup hroot ih => cases hroot
  | case4 segment rest hidle hup hroot ih =>
    obtain rfl := eq_of_beq hup
    exact ih (.up rfl (List.forall_mem_nil _)) (List.forall_mem_cons.mp hs).2
  | case5 segment rest hidle hup last earlier hlast ih =>
    obtain rfl := eq_of_beq hup
    obtain rfl := eq_of_beq hlast
    have hall : Kept false (".." :: ".." :: earlier) := by
      cases hkept with
      | name hname _ => exact absurd rfl hname.ne_dots
      | up _ hall => exact .up rfl (List.forall_mem_cons.mpr ⟨rfl, hall⟩)
    rw [ih hall (List.forall_mem_cons.mp hs).2, List.reverse_cons, List.append_assoc,
      List.singleton_append]
  | case6 segment rest hidle hup last earlier hlast ih =>
    obtain rfl := eq_of_beq hup
    have hearlier : Kept false ([last] ++ earlier) := hkept
    have hname : IsName last := hkept.isName List.mem_cons_self (by simpa using hlast)
    rw [ih hearlier.of_append (List.forall_mem_cons.mp hs).2, List.reverse_cons, List.append_assoc,
      List.singleton_append, reduce_append, reduce_append (last :: _), reduce_name hname,
      reduce_up _ _ hname.ne_dots]
  | case7 kept segment rest hidle hup ih =>
    rw [Bool.or_eq_true, String.isEmpty_iff, beq_iff_eq, not_or] at hidle
    rw [List.forall_mem_cons] at hs
    have hname : IsName segment := ⟨hidle.1, hidle.2, by simpa using hup, hs.1⟩
    rw [ih (.name hname hkept) hs.2, List.reverse_cons, List.append_assoc, List.singleton_append]

private theorem join_eq_segments (hdirectory : directory ≠ "") (hpath : isAbsolute path = false) :
    join directory path = ofSegments (isAbsolute directory)
      (reduce (isAbsolute directory) (segments directory).reverse (segments path)) := by
  have hsegments : segments path = reduce false [] (split '/' path) := by
    rw [segments, hpath]
  rw [join_eq hdirectory, hsegments, reduce_reduce _ .nil _ (split_slash_notMem path),
    List.reverse_nil, List.nil_append]

theorem segments_join (hdirectory : directory ≠ "") (hpath : isAbsolute path = false) :
    segments (join directory path) =
      reduce (isAbsolute directory) (segments directory).reverse (segments path) := by
  rw [join_eq_segments hdirectory hpath]
  have hkept : Kept (isAbsolute directory) (segments directory).reverse :=
    reduced_segments directory
  exact segments_ofSegments (kept_reduce hkept (reduced_segments path).slash_notMem)

private theorem Below.of_clean (h : Below directory path) : Below (clean directory) path := by
  obtain ⟨names, hne, hnames, rfl⟩ := h
  exact ⟨names, hne, hnames, by rw [isAbsolute_clean, segments_clean]⟩

private theorem Below.join {around : String} (haround : around ≠ "")
    (hdirectory : isAbsolute directory = false) (h : Below directory path) :
    Below (join around directory) (join around path) := by
  have hpath : isAbsolute path = false := h.isAbsolute_eq.trans hdirectory
  obtain ⟨names, hne, hnames, rfl⟩ := h
  refine ⟨names, hne, hnames, ?_⟩
  rw [join_eq_segments haround hpath, segments_ofSegments (reduced_below directory hnames),
    reduce_append, reduce_names hnames, List.reverse_reverse, segments_join haround hdirectory,
    isAbsolute_join haround]

end Join

end Path

namespace OutputPath

open LexiconCompiler.Path

variable {path : String}

/-- What the check of a path makes sure of. -/
structure Accepted (path : String) : Prop where
  ne_empty : path ≠ ""
  relative : isAbsolute path = false
  no_way_up : ".." ∉ split '/' path
  clean : Path.clean path = path

private theorem accepted_of_fault? (h : fault? path = none) : Accepted path := by
  unfold fault? at h
  split at h
  · cases h
  next hempty =>
  split at h
  · cases h
  next habsolute =>
  split at h
  · cases h
  split at h
  · cases h
  next hup =>
  split at h
  · cases h
  next hclean =>
  rw [Bool.or_eq_true, not_or, Bool.not_eq_true] at habsolute
  exact ⟨by simpa using hempty, habsolute.1, by simpa using hup, by simpa using hclean⟩

private theorem Accepted.isName (h : Accepted path) (hdot : path ≠ ".") :
    ∀ name ∈ split '/' path, IsName name := by
  have hreduced := reduced_segments path
  have hclean : ofSegments false (segments path) = path := by
    rw [← h.relative]
    exact h.clean
  have hne : segments path ≠ [] := by
    intro hnil
    rw [hnil] at hclean
    exact hdot hclean.symm
  have hsplit : split '/' path = segments path := by
    rw [h.relative] at hreduced
    conv_lhs => rw [← hclean]
    exact split_ofSegments hreduced hne
  intro name hname
  refine hreduced.isName (hsplit ▸ hname) ?_
  rintro rfl
  exact h.no_way_up hname

/-- Joined to a root, an accepted path lies below it, unless it is the path of the root. -/
theorem Accepted.below (h : Accepted path) (hdot : path ≠ ".") (root : String) :
    Below root (join root path) := by
  have hnames := h.isName hdot
  refine ⟨split '/' path, by simp [split, splitList_ne_nil], hnames, ?_⟩
  by_cases hroot : root = ""
  · subst hroot
    have hsegments : segments path = split '/' path := by
      rw [segments, reduce_names hnames, List.reverse_nil, List.nil_append]
    have hjoin : join "" path = Path.clean path := by
      simp [join, h.ne_empty]
    rw [hjoin, Path.clean, h.relative, hsegments]
    rfl
  · rw [join_eq hroot, reduce_names hnames, List.reverse_reverse]

theorem join_dot (root : String) : join root "." = Path.clean root := by
  by_cases hroot : root = ""
  · subst hroot
    decide
  · have hsplit : split '/' "." = ["."] := by decide
    rw [join_eq hroot, hsplit, reduce_idle (Or.inr rfl), reduce, List.reverse_reverse]
    rfl

end OutputPath

namespace FileSystem

open LexiconCompiler.Path

variable {fs : FileSystem} {root path : String}

/-- The directory that a root stands for, taken from the working directory if there is one. -/
def base (fs : FileSystem) (root : String) : String :=
  if fs.workingDirectory.isSome then fs.key root else root

private theorem base_of_some {directory : String} (h : fs.workingDirectory = some directory) :
    fs.base root = fs.key root := by
  rw [base, h]
  rfl

private theorem base_of_none (h : fs.workingDirectory = none) : fs.base root = root := by
  rw [base, h]
  rfl

private theorem key_of_below (hwd : fs.workingDirectory = none) (h : Below root path) :
    fs.key path = path := by
  have hdot : path ≠ "." := h.ne_of_segments (by decide)
  have hdots : path ≠ ".." := h.ne_of_segments (by decide)
  rw [key_of_none hwd, h.clean_eq]
  simp [hdot, hdots]

private theorem below_key (hfs : fs.Grounded) (h : Below root path) :
    Below (fs.base root) (fs.key path) := by
  cases hwd : fs.workingDirectory with
  | some directory =>
    rw [base_of_some hwd, key_of_some hwd, key_of_some hwd, h.isAbsolute_eq]
    split
    · rw [h.clean_eq]
      exact h.of_clean
    next hroot => exact h.join (hfs.ne_empty hwd) (by simpa using hroot)
  | none =>
    rw [base_of_none hwd, key_of_below hwd h]
    exact h

private theorem key_ne_of_below (hfs : fs.Grounded) (h : Below root path) :
    fs.key path ≠ fs.key root := by
  cases hwd : fs.workingDirectory with
  | some directory =>
    have hne := (below_key hfs h).ne
    rwa [base_of_some hwd, clean_key hfs] at hne
  | none =>
    have hslash : path ≠ "/" := h.ne_of_segments (by decide)
    rw [key_of_below hwd h, key_of_none hwd]
    split
    · exact hslash
    · exact h.ne

end FileSystem

namespace FileSink

open LexiconCompiler.Path

variable (sink : FileSink) {path : String}

private theorem escapes_of_accepted (h : OutputPath.Accepted path) : sink.escapes path = false := by
  by_cases hdot : path = "."
  · have hshared := dropShared_append (segments sink.root) []
    rw [List.append_nil] at hshared
    have hway : relative? sink.root (clean sink.root) = some "." := by
      simp [relative?, isAbsolute_clean, segments_clean, hshared, ofSegments]
    rw [hdot, escapes, OutputPath.join_dot, hway]
    decide
  · obtain ⟨way, hway, hdots, hstart⟩ := (h.below hdot sink.root).relative?
    rw [escapes, hway]
    simp [hdots, hstart]

/-- A write whose file lies below the root, on a tree of files. -/
structure Inside (fs : FileSystem) (call : WriteCall) : Prop where
  target : Below (fs.base sink.root) call.target
  target_ne_root : call.target ≠ fs.key sink.root
  directory : AtOrBelow (fs.base sink.root) call.directory
  temp : ∀ now tries number, dir (call.freeTemp now tries number) = call.directory

private theorem inside_of_below {fs : FileSystem} (hfs : fs.Grounded) (file : File)
    (h : Below sink.root (join sink.root file.path)) : sink.Inside fs (sink.call fs file) := by
  have hbelow : Below (fs.base sink.root) (sink.call fs file).target :=
    FileSystem.below_key hfs h
  refine ⟨hbelow, FileSystem.key_ne_of_below hfs h, hbelow.dir, fun now tries number => ?_⟩
  obtain ⟨found, hfound⟩ := (sink.call fs file).exists_freeTemp now tries number
  rw [hfound]
  exact WriteCall.dir_tempName _ found

/-- The path of a file that is written is never refused for leading out of the root. All files but
one are written below the root, through temporary files at or below the root. The exception is `.`,
the path of the root itself. -/
theorem stays_inside (h : OutputPath.fault? path = none) :
    sink.escapes path = false ∧
    (∀ canceled, sink.start canceled path =
      if canceled then .finished (some .canceled) else .makeDirs) ∧
    (path = "." → join sink.root path = clean sink.root) ∧
    (path ≠ "." →
      Below sink.root (join sink.root path) ∧
      AtOrBelow sink.root (dir (join sink.root path)) ∧
      ∀ fs : FileSystem, fs.Grounded →
        ∀ content, sink.Inside fs (sink.call fs ⟨path, content⟩)) := by
  have haccepted := OutputPath.accepted_of_fault? h
  have hescapes := sink.escapes_of_accepted haccepted
  refine ⟨hescapes, ?_, ?_, ?_⟩
  · intro canceled
    cases canceled <;> simp [start, writeRefusal?, h, hescapes]
  · rintro rfl
    exact OutputPath.join_dot sink.root
  · intro hdot
    have hbelow := haccepted.below hdot sink.root
    exact ⟨hbelow, hbelow.dir, fun fs hfs content =>
      sink.inside_of_below hfs ⟨path, content⟩ hbelow⟩

theorem stays_inside_types :
    OutputPath.fault? "types/post.ts" = none ∧
    (FileSystem.empty (some "/srv")).Grounded ∧
    join "../out/" "types/post.ts" = "../out/types/post.ts" ∧
    (FileSink.into "../out/").Inside (FileSystem.empty (some "/srv"))
      ((FileSink.into "../out/").call (FileSystem.empty (some "/srv")) ⟨"types/post.ts", "x"⟩) := by
  have haccepted : OutputPath.fault? "types/post.ts" = none := by decide
  have hgrounded : (FileSystem.empty (some "/srv")).Grounded :=
    (FileSystem.rooted_empty fun directory hdirectory => by
      rw [← Option.some.inj hdirectory]
      decide).grounded
  obtain ⟨-, -, -, hinside⟩ := (FileSink.into "../out/").stays_inside haccepted
  exact ⟨haccepted, hgrounded, by decide,
    (hinside (by decide)).2.2 (FileSystem.empty (some "/srv")) hgrounded "x"⟩

/-- The path `.` is accepted, and the file takes the place of the root: it is written at the root,
and the temporary one outside. -/
theorem replaces_root :
    OutputPath.fault? "." = none ∧
    ¬ Below "/out" (join "/out" ".") ∧
    ((FileSink.into "/out").call (FileSystem.empty none) ⟨".", "x"⟩).target = "/out" ∧
    ((FileSink.into "/out").call (FileSystem.empty none) ⟨".", "x"⟩).directory = "/" ∧
    ((FileSink.into "/out").write false (fun _ => .smooth) ⟨".", "x"⟩
      (FileSystem.empty none)).2.isFileAt "/out" = true := by
  refine ⟨by decide, fun h => h.ne (by decide), by decide, by decide, by decide⟩

end FileSink

end LexiconCompiler
