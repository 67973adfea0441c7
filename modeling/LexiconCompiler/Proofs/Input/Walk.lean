import LexiconCompiler.Input.Sources
import LexiconCompiler.Proofs.Files.Descending
import LexiconCompiler.Proofs.Outcome
import LexiconCompiler.Proofs.Output.Containment

set_option autoImplicit false
set_option relaxedAutoImplicit false

/-!
The files that a walk of a directory finds. They stand in directories that are entered one from the
other, each by a name that the one before lists. A name stays in its directory, leads one segment
further, or leads up; only the root of a walk is entered whatever its name is.
-/

namespace LexiconCompiler

open LexiconCompiler.Text

namespace Path

/-- Whether the last segment of a path starts with a dot. -/
def isHidden (path : String) : Bool := startsWith (base path).toList ['.']

variable {directory name : String}

/-- Where a directory, a slash and one more segment lead. -/
inductive Leads (directory name : String) : Prop
  | idle : segments (join directory name) = segments directory → name ≠ ".." →
      Leads directory name
  | further : IsName name → segments (join directory name) = segments directory ++ [name] →
      Leads directory name
  | up : name = ".." → segments (join directory name) <+: segments directory →
      Leads directory name
  | outside : name = ".." → segments (join directory name) = segments directory ++ [".."] →
      Leads directory name

private theorem reduce_dots (rooted : Bool) (list : List String) :
    reduce rooted list.reverse [".."] <+: list ∨
      reduce rooted list.reverse [".."] = list ++ [".."] := by
  induction list using List.reverseRecOn with
  | nil => cases rooted <;> decide
  | append_singleton front last _ =>
    rw [List.reverse_append, List.reverse_singleton, List.singleton_append]
    by_cases hlast : last = ".."
    · right
      rw [hlast, reduce.eq_def]
      simp [reduce]
    · left
      rw [reduce_up _ _ hlast, reduce, List.reverse_reverse]
      exact List.prefix_append front [last]

private theorem leads_of_notMem (hdirectory : directory ≠ "") (hname : '/' ∉ name.toList) :
    Leads directory name := by
  have hempty : directory.isEmpty = false := by simpa using hdirectory
  have hjoin : segments (join directory name) =
      reduce (isAbsolute directory) (segments directory).reverse [name] := by
    rw [join, hempty, if_neg (by decide), segments_clean, segments_append hdirectory, split,
      splitList_of_notMem hname, List.map_singleton, String.ofList_toList]
  by_cases hidle : name = "" ∨ name = "."
  · rw [reduce_idle hidle, reduce, List.reverse_reverse] at hjoin
    refine .idle hjoin ?_
    rintro rfl
    exact absurd hidle (by decide)
  by_cases hup : name = ".."
  · rw [hup] at hjoin ⊢
    rcases reduce_dots (isAbsolute directory) (segments directory) with hstarts | houtside
    · exact .up rfl (hjoin ▸ hstarts)
    · exact .outside rfl (hjoin.trans houtside)
  · rw [not_or] at hidle
    have hname : IsName name := ⟨hidle.1, hidle.2, hup, hname⟩
    rw [reduce_name hname, reduce, List.reverse_cons, List.reverse_reverse] at hjoin
    exact .further hname hjoin

theorem AtOrBelow.join {start : String} (h : AtOrBelow start (clean directory))
    (hdirectory : directory ≠ "") (hname : '/' ∉ name.toList) (hup : name ≠ "..") :
    AtOrBelow start (join directory name) := by
  have hclean : Path.join directory name =
      ofSegments (isAbsolute directory) (segments (Path.join directory name)) := by
    rw [← isAbsolute_join hdirectory name]
    exact (clean_join hdirectory name).symm
  cases leads_of_notMem hdirectory hname with
  | idle hsegments _ =>
    rw [hclean, hsegments]
    exact h
  | up hdots _ => exact absurd hdots hup
  | outside hdots _ => exact absurd hdots hup
  | further hlast hsegments =>
    right
    rw [hclean, hsegments]
    rcases h with heq | ⟨names, -, hnames, heq⟩
    · refine ⟨[name], by simp, by simpa using hlast, ?_⟩
      rw [← isAbsolute_clean directory, ← segments_clean directory, heq, isAbsolute_clean,
        segments_clean]
    · have hreduced := (reduced_segments start).append_names hnames
      refine ⟨names ++ [name], by simp, ?_, ?_⟩
      · intro other hother
        rcases List.mem_append.mp hother with hother | hother
        · exact hnames other hother
        · rw [List.mem_singleton.mp hother]
          exact hlast
      · rw [← isAbsolute_clean directory, ← segments_clean directory, heq,
          isAbsolute_ofSegments hreduced, segments_ofSegments hreduced, List.append_assoc]

end Path

namespace FileSystem

open LexiconCompiler.Path

variable {fs : FileSystem} {start directory name path : String}

private theorem base_key (fs : FileSystem) {front : List String} (hname : IsName name)
    (h : segments path = front ++ [name]) : Path.base (fs.key path) = name := by
  have hclean : Path.base (clean path) = name := base_clean_of_segments h
  cases hwd : fs.workingDirectory with
  | none =>
    have hdot : clean path ≠ "." := fun he => hname.ne_dot (by rw [← hclean, he]; decide)
    have hdots : clean path ≠ ".." := fun he => hname.ne_dots (by rw [← hclean, he]; decide)
    rw [key_of_none hwd, if_neg (by simp [hdot, hdots]), hclean]
  | some around =>
    rw [key_of_some hwd]
    split
    · exact hclean
    next hrelative =>
    by_cases hempty : around = ""
    · have hpath : path ≠ "" := by
        rintro rfl
        rw [show segments "" = [] by decide] at h
        exact absurd h.symm (by simp)
      rw [hempty, join]
      simpa [hpath] using hclean
    · have hsegments := segments_join hempty (by simpa using hrelative : isAbsolute path = false)
      rw [h, reduce_append, reduce_name hname, reduce, List.reverse_cons,
        List.reverse_reverse] at hsegments
      rw [← clean_join hempty]
      exact base_clean_of_segments hsegments

/-- The members of a directory by their last segments, in the order they are kept in. -/
def listing? (fs : FileSystem) (directory : String) : Option (List (String × FileEntry)) :=
  (fs.entry? directory).bind fun entry => entry.members.map fun members =>
    members.filterMap fun member => (fs.at? member).map fun entry => (Path.base member, entry)

private theorem children?_eq (fs : FileSystem) (directory : String) :
    fs.children? directory = (fs.listing? directory).map fun found =>
      found.mergeSort fun a b => !(b.1 < a.1) := by
  unfold children? listing?
  cases fs.entry? directory with
  | none => rfl
  | some entry =>
    cases hmembers : entry.members <;> simp [hmembers]

theorem children?_of_pairwise
    (h : ∀ found ∈ fs.listing? directory, found.Pairwise fun a b => !(b.1 < a.1)) :
    fs.children? directory = fs.listing? directory := by
  rw [children?_eq]
  cases hlisting : fs.listing? directory with
  | none => rfl
  | some found => rw [Option.map_some, List.mergeSort_of_pairwise (h found hlisting)]

/-- A directory lists a name if one of its members has it as its last segment. -/
def Lists (fs : FileSystem) (directory name : String) : Prop :=
  ∃ children, fs.children? directory = some children ∧ name ∈ children.map Prod.fst

/-- The directories that a walk from a directory enters. -/
inductive Entered (fs : FileSystem) (start : String) : String → Prop
  | start : Entered fs start start
  | member {directory name : String} : Entered fs start directory → fs.Lists directory name →
      fs.isDirectory (join directory name) = .ok true →
      isHidden (fs.key (join directory name)) = false →
      Entered fs start (join directory name)

private theorem Lists.exists_member (h : fs.Lists directory name) :
    ∃ entry, fs.entry? directory = some entry ∧
      ∃ member ∈ entry.members.getD [], Path.base member = name := by
  obtain ⟨children, hchildren, hname⟩ := h
  rw [children?_eq] at hchildren
  obtain ⟨found, hfound, rfl⟩ := Option.map_eq_some_iff.mp hchildren
  obtain ⟨entry, hentry, hfound⟩ := Option.bind_eq_some_iff.mp hfound
  obtain ⟨members, hmembers, rfl⟩ := Option.map_eq_some_iff.mp hfound
  obtain ⟨child, hchild, rfl⟩ := List.mem_map.mp hname
  obtain ⟨member, hmember, hat⟩ := List.mem_filterMap.mp (List.mem_mergeSort.mp hchild)
  obtain ⟨_, _, rfl⟩ := Option.map_eq_some_iff.mp hat
  refine ⟨entry, hentry, member, ?_, rfl⟩
  rw [hmembers]
  exact hmember

theorem Lists.slash_notMem (h : fs.Lists directory name) : '/' ∉ name.toList := by
  obtain ⟨_, _, member, _, rfl⟩ := h.exists_member
  exact slash_notMem_base member

theorem LeadsDown.not_lists (h : fs.LeadsDown) (around : String) : ¬ fs.Lists around ".." := by
  intro hlists
  obtain ⟨entry, hentry, member, hmember, hbase⟩ := hlists.exists_member
  exact h.of_entry? hentry member hmember hbase

theorem Entered.ne_empty (h : fs.Entered start directory) (hstart : start ≠ "") :
    directory ≠ "" := by
  induction h with
  | start => exact hstart
  | member _ _ _ _ ih =>
    rw [← clean_join ih]
    exact clean_ne_empty _

theorem exists_entered {depth : Nat} {found : List String} (hentered : fs.Entered start directory)
    (h : fs.documentsBelow depth directory = .ok found) :
    ∀ path ∈ found, isRecognized path = true ∧
      ∃ around name, fs.Entered start around ∧ fs.Lists around name ∧ path = join around name := by
  induction depth generalizing directory found with
  | zero =>
    rw [documentsBelow, Except.ok.injEq] at h
    intro path hpath
    rw [← h] at hpath
    cases hpath
  | succ depth ih =>
    rw [documentsBelow, Outcome.bind_eq_ok] at h
    obtain ⟨parts, hparts, hfound⟩ := h
    obtain rfl := Outcome.pure_eq_ok.mp hfound
    intro path hpath
    obtain ⟨part, hpart, hpath⟩ := List.mem_flatten.mp hpath
    obtain ⟨⟨name, entry⟩, hchild, hread⟩ := Outcome.exists_of_mem_mapM hparts hpart
    have hlists : fs.Lists directory name := by
      cases hchildren : fs.children? directory with
      | none =>
        rw [hchildren] at hchild
        cases hchild
      | some children =>
        rw [hchildren] at hchild
        exact ⟨children, hchildren, List.mem_map_of_mem hchild⟩
    dsimp only at hread
    cases hentry : fs.entry? (join directory name) with
    | none =>
      rw [hentry] at hread
      cases hread
    | some child =>
      rw [hentry] at hread
      dsimp only at hread
      cases hdirectory : child.isDirectory with
      | false =>
        rw [hdirectory] at hread
        obtain rfl := Except.ok.inj hread
        split at hpath
        next hrecognized =>
          obtain rfl := List.mem_singleton.mp hpath
          exact ⟨hrecognized, directory, name, hentered, hlists, rfl⟩
        · cases hpath
      | true =>
        rw [hdirectory] at hread
        split at hread
        · contradiction
        split at hread
        · obtain rfl := Except.ok.inj hread
          cases hpath
        next hvisible =>
          have hshown : isHidden (fs.key (join directory name)) = false := by
            simpa [isHidden] using hvisible
          refine ih (.member hentered hlists ?_ hshown) hread path hpath
          simp only [isDirectory, hentry, hdirectory]

private theorem Entered.visible (h : fs.Entered start directory) (hstart : start ≠ "")
    {front : List String} (hname : IsName name)
    (hstarts : segments start ++ front ++ [name] <+: segments directory) :
    startsWith name.toList ['.'] = false := by
  induction h with
  | start =>
    have hlength := hstarts.length_le
    simp only [List.length_append, List.length_singleton] at hlength
    omega
  | member hentered hlists _ hshown ih =>
    cases leads_of_notMem (hentered.ne_empty hstart) hlists.slash_notMem with
    | idle hsegments _ => exact ih (hsegments ▸ hstarts)
    | up _ hup => exact ih (hstarts.trans hup)
    | further hlast hsegments =>
      rw [isHidden, base_key fs hlast hsegments] at hshown
      rw [hsegments, List.prefix_concat_iff] at hstarts
      rcases hstarts with heq | hstarts
      · obtain rfl := List.singleton_inj.mp (List.append_inj_right' heq rfl)
        exact hshown
      · exact ih hstarts
    | outside _ hsegments =>
      rw [hsegments, List.prefix_concat_iff] at hstarts
      rcases hstarts with heq | hstarts
      · obtain rfl := List.singleton_inj.mp (List.append_inj_right' heq rfl)
        exact absurd rfl hname.ne_dots
      · exact ih hstarts

theorem Entered.not_isHidden (h : fs.Entered start path) (hstart : start ≠ "")
    (hlists : fs.Lists path name) (hbelow : Below start directory)
    (hfound : Below directory (join path name)) : isHidden directory = false := by
  obtain ⟨names, hne, hnames, rfl⟩ := hbelow
  obtain ⟨front, last, rfl⟩ : ∃ front last, names = front ++ [last] :=
    ⟨_, _, (List.dropLast_append_getLast hne).symm⟩
  have hlast : IsName last := hnames last (by simp)
  have hreduced := (reduced_segments start).append_names hnames
  rw [← List.append_assoc] at hreduced hfound ⊢
  obtain ⟨more, hmore, hkept, hjoin⟩ := hfound
  have hsegments : segments (join path name) = segments start ++ front ++ [last] ++ more := by
    have hall := (reduced_segments (ofSegments (isAbsolute start)
      (segments start ++ front ++ [last]))).append_names hkept
    rw [hjoin, segments_ofSegments hall, segments_ofSegments hreduced]
  -- The found path may be one segment longer than where it stands, but so it is than the directory.
  have hstarts : segments start ++ front ++ [last] <+: segments path := by
    have hconcat {next : String} (hnext : segments (join path name) = segments path ++ [next]) :
        segments start ++ front ++ [last] <+: segments path := by
      refine ⟨more.dropLast, ?_⟩
      rw [hsegments] at hnext
      have hdrop := congrArg List.dropLast hnext
      rwa [List.dropLast_append_of_ne_nil hmore, List.dropLast_concat] at hdrop
    cases leads_of_notMem (h.ne_empty hstart) hlists.slash_notMem with
    | idle hsame _ => exact ⟨more, hsegments.symm.trans hsame⟩
    | up _ hup => exact (hsegments ▸ List.prefix_append _ more).trans hup
    | further _ hnext => exact hconcat hnext
    | outside _ hnext => exact hconcat hnext
  rw [isHidden, base_ofSegments hreduced]
  exact h.visible hstart hlast hstarts

/-- Unless a directory lists a way up, a walk only leads down. -/
theorem Entered.atOrBelow (h : fs.Entered start directory) (hstart : start ≠ "")
    (hdown : ∀ around, ¬ fs.Lists around "..") : AtOrBelow start (clean directory) := by
  induction h with
  | start => exact Or.inl rfl
  | member hentered hlists _ _ ih =>
    have hne := hentered.ne_empty hstart
    rw [clean_join hne]
    exact ih.join hne hlists.slash_notMem fun hup => hdown _ (hup ▸ hlists)

end FileSystem

end LexiconCompiler
