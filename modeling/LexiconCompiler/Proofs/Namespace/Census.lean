import LexiconCompiler.Namespace
import LexiconCompiler.Proofs.Outcome
import LexiconCompiler.Proofs.Text.Pieces
import Mathlib.Data.List.Induction

set_option autoImplicit false
set_option relaxedAutoImplicit false

/-!
The namespaces of a batch in closed form. Entering the prefixes of one document after the other
gives each prefix once, in the order of first occurrence, with the methods of its documents in input
order; it fails exactly if two namespaces of one parent differ in case only. What decides is the set
of prefixes, not the order in which they are met.
-/

namespace LexiconCompiler

open LexiconCompiler.Text

private theorem mem_beginnings {beginning segments : List String} :
    beginning ∈ beginnings segments ↔ beginning ≠ [] ∧ beginning <+: segments := by
  simp only [beginnings, List.mem_map, List.mem_range]
  constructor
  · rintro ⟨i, hi, rfl⟩
    refine ⟨?_, List.take_prefix _ _⟩
    rw [Ne, List.take_eq_nil_iff]
    rintro (hzero | hnil)
    · omega
    · simp [hnil] at hi
  · rintro ⟨hne, hfront⟩
    have hpos := List.length_pos_iff.mpr hne
    have hle := hfront.length_le
    have hlength : beginning.length - 1 + 1 = beginning.length := by omega
    refine ⟨beginning.length - 1, by omega, ?_⟩
    rw [hlength]
    exact (List.prefix_iff_eq_take.mp hfront).symm

namespace NamespaceTree

theorem mem_childrenOf {t : NamespaceTree} {child : Namespace} {segments : List String} :
    child ∈ t.childrenOf segments ↔ child ∈ t.namespaces ∧ child.parent = segments := by
  simp [childrenOf]

private theorem enter_eq_ok {id : String} {t next : NamespaceTree} {segments : List String} :
    t.enter id segments = .ok next ↔
      ((∃ n ∈ t.namespaces, n.segments = segments) ∧ next = t) ∨
        ((∀ n ∈ t.namespaces, n.segments ≠ segments) ∧
          (∀ n ∈ t.namespaces, n.parent = segments.dropLast →
            lower n.segment ≠ lower (segments.getLastD "")) ∧
          next = ⟨t.namespaces ++ [⟨segments, []⟩]⟩) := by
  have hany : (t.namespaces.any fun n => n.segments == segments) = true ↔
      ∃ n ∈ t.namespaces, n.segments = segments := by simp
  have hsibling (sibling : Namespace) : sibling ∈ t.childrenOf segments.dropLast ↔
      sibling ∈ t.namespaces ∧ sibling.parent = segments.dropLast := by simp [childrenOf]
  simp only [enter]
  by_cases hknown : ∃ n ∈ t.namespaces, n.segments = segments
  · rw [if_pos (hany.mpr hknown), Except.ok.injEq]
    constructor
    · rintro rfl
      exact Or.inl ⟨hknown, rfl⟩
    · rintro (⟨_, rfl⟩ | ⟨hnew, _⟩)
      · rfl
      · obtain ⟨n, hn, hs⟩ := hknown
        exact absurd hs (hnew n hn)
  · have hnew : ∀ n ∈ t.namespaces, n.segments ≠ segments := fun n hn hs => hknown ⟨n, hn, hs⟩
    rw [if_neg fun h => hknown (hany.mp h), and_iff_right hnew]
    simp only [hknown, false_and, false_or]
    split
    · rename_i sibling hfound
      obtain ⟨hmem, hparent⟩ := (hsibling sibling).mp (List.mem_of_find?_eq_some hfound)
      have hwanted := List.find?_some hfound
      have hlower : lower sibling.segment = lower (segments.getLastD "") := eq_of_beq hwanted
      simp only [reduceCtorEq, false_iff, not_and]
      exact fun hdiffer => absurd hlower (hdiffer sibling hmem hparent)
    · rename_i hnone
      have hdiffer : ∀ n ∈ t.namespaces, n.parent = segments.dropLast →
          lower n.segment ≠ lower (segments.getLastD "") := by
        intro n hn hparent hlower
        have hfalse := List.find?_eq_none.mp hnone n ((hsibling n).mpr ⟨hn, hparent⟩)
        exact hfalse (beq_iff_eq.mpr hlower)
      rw [and_iff_right hdiffer, Except.ok.injEq, eq_comm]

def authorityPrefixes (documents : List Document) : List (List String) :=
  documents.flatMap fun document => beginnings document.nsid.authoritySegments

def methodsAt (documents : List Document) (segments : List String) : List Nsid :=
  (documents.filter fun document =>
    document.isMethod && document.nsid.authoritySegments == segments).map fun document =>
      document.nsid

/-- A namespace for each prefix of a list, with given methods. -/
def ofPrefixes (prefixes : List (List String)) (methods : List String → List Nsid) :
    NamespaceTree :=
  ⟨(distinct prefixes).map fun segments => ⟨segments, methods segments⟩⟩

/-- The namespaces of documents. -/
def census (documents : List Document) : NamespaceTree :=
  ofPrefixes (authorityPrefixes documents) (methodsAt documents)

/-- Prefixes that differ only in the case of their last segments are the same. -/
def SiblingsDiffer (prefixes : List (List String)) : Prop :=
  ∀ p ∈ prefixes, ∀ q ∈ prefixes, p.dropLast = q.dropLast →
    lower (p.getLastD "") = lower (q.getLastD "") → p = q

private theorem siblingsDiffer_append_single {prefixes : List (List String)} {p : List String} :
    SiblingsDiffer (prefixes ++ [p]) ↔ SiblingsDiffer prefixes ∧
      ∀ q ∈ prefixes, q.dropLast = p.dropLast →
        lower (q.getLastD "") = lower (p.getLastD "") → q = p := by
  constructor
  · intro h
    refine ⟨fun q hq r hr => h q (List.mem_append_left _ hq) r (List.mem_append_left _ hr), ?_⟩
    intro q hq
    exact h q (List.mem_append_left _ hq) p (by simp)
  · rintro ⟨hall, hp⟩ q hq r hr hparent hlast
    simp only [List.mem_append, List.mem_singleton] at hq hr
    rcases hq with hq | rfl
    · rcases hr with hr | rfl
      · exact hall q hq r hr hparent hlast
      · exact hp q hq hparent hlast
    · rcases hr with hr | rfl
      · exact (hp r hr hparent.symm hlast.symm).symm
      · rfl

private theorem SiblingsDiffer.mono {prefixes more : List (List String)} (h : SiblingsDiffer more)
    (hs : prefixes ⊆ more) : SiblingsDiffer prefixes :=
  fun p hp q hq => h p (hs hp) q (hs hq)

section Entering

variable {prefixes : List (List String)} {methods : List String → List Nsid} {id : String}
  {t : NamespaceTree}

@[simp] theorem mem_ofPrefixes {n : Namespace} :
    n ∈ (ofPrefixes prefixes methods).namespaces ↔
      ∃ segments ∈ prefixes, ⟨segments, methods segments⟩ = n := by
  simp [ofPrefixes]

@[simp] theorem segments_ofPrefixes :
    (ofPrefixes prefixes methods).namespaces.map Namespace.segments = distinct prefixes := by
  simp [ofPrefixes, Function.comp_def]

private theorem ofPrefixes_append_of_mem {p : List String} (h : p ∈ prefixes) :
    ofPrefixes (prefixes ++ [p]) methods = ofPrefixes prefixes methods := by
  rw [ofPrefixes, distinct_append_of_mem h, ofPrefixes]

private theorem ofPrefixes_append_of_notMem {p : List String} (h : p ∉ prefixes)
    (hm : methods p = []) :
    ofPrefixes (prefixes ++ [p]) methods =
      ⟨(ofPrefixes prefixes methods).namespaces ++ [⟨p, []⟩]⟩ := by
  rw [ofPrefixes, distinct_append_of_notMem h, ofPrefixes]
  simp [hm]

private theorem enter_ofPrefixes_eq_ok {p : List String} (hs : SiblingsDiffer prefixes)
    (hp : p ∉ prefixes → methods p = []) :
    (ofPrefixes prefixes methods).enter id p = .ok t ↔
      SiblingsDiffer (prefixes ++ [p]) ∧ t = ofPrefixes (prefixes ++ [p]) methods := by
  have hknown : (∃ n ∈ (ofPrefixes prefixes methods).namespaces, n.segments = p) ↔
      p ∈ prefixes := by simp
  rw [enter_eq_ok]
  by_cases hmem : p ∈ prefixes
  · have hsame : SiblingsDiffer (prefixes ++ [p]) := hs.mono (by simp [hmem])
    obtain ⟨n, hn, hsegments⟩ := hknown.mpr hmem
    rw [ofPrefixes_append_of_mem hmem, and_iff_right hsame]
    constructor
    · rintro (⟨_, ht⟩ | ⟨hnew, _⟩)
      · exact ht
      · exact absurd hsegments (hnew n hn)
    · exact fun ht => Or.inl ⟨⟨n, hn, hsegments⟩, ht⟩
  · rw [ofPrefixes_append_of_notMem hmem (hp hmem), siblingsDiffer_append_single, and_iff_right hs]
    constructor
    · rintro (⟨hold, _⟩ | ⟨_, hdiffer, ht⟩)
      · exact absurd (hknown.mp hold) hmem
      · refine ⟨fun q hq hparent hlast => ?_, ht⟩
        exact absurd hlast (hdiffer ⟨q, methods q⟩ (mem_ofPrefixes.mpr ⟨q, hq, rfl⟩) hparent)
    · rintro ⟨hsiblings, ht⟩
      refine Or.inr ⟨fun n hn hsegments => hmem (hknown.mp ⟨n, hn, hsegments⟩), ?_, ht⟩
      intro n hn hparent hlast
      obtain ⟨q, hq, rfl⟩ := mem_ofPrefixes.mp hn
      exact hmem (hsiblings q hq hparent hlast ▸ hq)

private theorem foldlM_enter_ofPrefixes_eq_ok {more : List (List String)}
    (hs : SiblingsDiffer prefixes) (hm : ∀ p ∈ more, p ∉ prefixes → methods p = []) :
    more.foldlM (enter id) (ofPrefixes prefixes methods) = .ok t ↔
      SiblingsDiffer (prefixes ++ more) ∧ t = ofPrefixes (prefixes ++ more) methods := by
  -- The closed form is its own invariant: what has entered so far is that of `prefixes`.
  induction more generalizing prefixes with
  | nil => rw [List.foldlM_nil, Outcome.pure_eq_ok, List.append_nil, and_iff_right hs, eq_comm]
  | cons p rest ih =>
    rw [List.forall_mem_cons] at hm
    have hassoc : prefixes ++ p :: rest = prefixes ++ [p] ++ rest := by simp
    have hrest : ∀ q ∈ rest, q ∉ prefixes ++ [p] → methods q = [] := by
      intro q hq hnew
      exact hm.2 q hq fun hold => hnew (List.mem_append_left _ hold)
    rw [List.foldlM_cons, Outcome.bind_eq_ok, hassoc]
    constructor
    · rintro ⟨entered, hfirst, hothers⟩
      obtain ⟨hsiblings, rfl⟩ := (enter_ofPrefixes_eq_ok hs hm.1).mp hfirst
      exact (ih hsiblings hrest).mp hothers
    · rintro ⟨hsiblings, ht⟩
      have hfirst : SiblingsDiffer (prefixes ++ [p]) :=
        hsiblings.mono (List.subset_append_left _ _)
      exact ⟨_, (enter_ofPrefixes_eq_ok hs hm.1).mpr ⟨hfirst, rfl⟩,
        (ih hfirst hrest).mpr ⟨hsiblings, ht⟩⟩

private theorem addMethod_ofPrefixes (method : Nsid) :
    (ofPrefixes prefixes methods).addMethod method =
      ofPrefixes prefixes fun segments =>
        if segments == method.authoritySegments then methods segments ++ [method]
        else methods segments := by
  simp only [addMethod, ofPrefixes, List.map_map, NamespaceTree.mk.injEq]
  refine List.map_congr_left fun segments _ => ?_
  simp only [Function.comp_apply]
  split <;> rfl

end Entering

section Documents

variable {documents : List Document} {document : Document} {t : NamespaceTree}

theorem mem_authorityPrefixes {segments : List String} :
    segments ∈ authorityPrefixes documents ↔
      segments ≠ [] ∧ ∃ document ∈ documents, segments <+: document.nsid.authoritySegments := by
  simp only [authorityPrefixes, List.mem_flatMap, mem_beginnings]
  constructor
  · rintro ⟨document, hd, hne, hp⟩
    exact ⟨hne, document, hd, hp⟩
  · rintro ⟨hne, document, hd, hp⟩
    exact ⟨document, hd, hne, hp⟩

theorem mem_methodsAt {segments : List String} {method : Nsid} :
    method ∈ methodsAt documents segments ↔ ∃ document ∈ documents,
      document.isMethod = true ∧ document.nsid.authoritySegments = segments ∧
        document.nsid = method := by
  simp only [methodsAt, List.mem_map, List.mem_filter, Bool.and_eq_true, beq_iff_eq, and_assoc]

private theorem methodsAt_eq_nil {segments : List String} (hne : segments ≠ [])
    (h : segments ∉ authorityPrefixes documents) : methodsAt documents segments = [] := by
  rw [List.eq_nil_iff_forall_not_mem]
  intro method hm
  obtain ⟨document, hd, _, rfl, _⟩ := mem_methodsAt.mp hm
  exact h (mem_authorityPrefixes.mpr ⟨hne, document, hd, List.prefix_refl _⟩)

private theorem methodsAt_append_single (segments : List String) :
    methodsAt (documents ++ [document]) segments =
      if document.isMethod && segments == document.nsid.authoritySegments then
        methodsAt documents segments ++ [document.nsid]
      else methodsAt documents segments := by
  have hcomm : (segments == document.nsid.authoritySegments) =
      (document.nsid.authoritySegments == segments) := BEq.comm
  rw [hcomm, methodsAt, List.filter_append, List.map_append, methodsAt]
  split <;> simp_all

private theorem insert_census_eq_ok (hs : SiblingsDiffer (authorityPrefixes documents)) :
    (census documents).insert document = .ok t ↔
      SiblingsDiffer (authorityPrefixes (documents ++ [document])) ∧
        t = census (documents ++ [document]) := by
  have hprefixes : authorityPrefixes (documents ++ [document]) =
      authorityPrefixes documents ++ beginnings document.nsid.authoritySegments := by
    simp [authorityPrefixes]
  -- Prefixes enter without methods, and a prefix that was not there has none.
  have hnew : ∀ p ∈ beginnings document.nsid.authoritySegments,
      p ∉ authorityPrefixes documents → methodsAt documents p = [] :=
    fun p hp => methodsAt_eq_nil (mem_beginnings.mp hp).1
  have hadd : (if document.isMethod then
      (ofPrefixes (authorityPrefixes (documents ++ [document]))
        (methodsAt documents)).addMethod document.nsid
      else ofPrefixes (authorityPrefixes (documents ++ [document])) (methodsAt documents)) =
        census (documents ++ [document]) := by
    rw [addMethod_ofPrefixes, census, funext methodsAt_append_single]
    cases document.isMethod <;> simp
  simp only [insert, census, Outcome.bind_eq_ok, Outcome.pure_eq_ok,
    foldlM_enter_ofPrefixes_eq_ok hs hnew, ← hprefixes]
  constructor
  · rintro ⟨_, ⟨hsiblings, rfl⟩, ht⟩
    exact ⟨hsiblings, ht.symm.trans hadd⟩
  · rintro ⟨hsiblings, ht⟩
    exact ⟨_, ⟨hsiblings, rfl⟩, hadd.trans ht.symm⟩

private theorem foldlM_insert_eq_ok :
    documents.foldlM insert empty = .ok t ↔
      SiblingsDiffer (authorityPrefixes documents) ∧ t = census documents := by
  -- From the back: the census of more documents is that of the first ones after one insertion.
  induction documents using List.reverseRecOn generalizing t with
  | nil =>
    have hempty : census [] = empty := rfl
    have hnone : SiblingsDiffer (authorityPrefixes []) := by
      simp [authorityPrefixes, SiblingsDiffer]
    rw [List.foldlM_nil, Outcome.pure_eq_ok, hempty, and_iff_right hnone, eq_comm]
  | append_singleton front document ih =>
    have hfront : SiblingsDiffer (authorityPrefixes (front ++ [document])) →
        SiblingsDiffer (authorityPrefixes front) := by
      intro h
      exact h.mono (by simp [authorityPrefixes])
    rw [List.foldlM_append, Outcome.bind_eq_ok]
    simp only [List.foldlM_cons, List.foldlM_nil, bind_pure]
    constructor
    · rintro ⟨before, hbefore, hlast⟩
      obtain ⟨hs, rfl⟩ := ih.mp hbefore
      exact (insert_census_eq_ok hs).mp hlast
    · rintro ⟨hsiblings, ht⟩
      exact ⟨_, ih.mpr ⟨hfront hsiblings, rfl⟩,
        (insert_census_eq_ok (hfront hsiblings)).mpr ⟨hsiblings, ht⟩⟩

/-- No method of a namespace is named like another one, or like a namespace right inside. -/
def MembersDiffer (documents : List Document) : Prop :=
  ∀ segments ∈ authorityPrefixes documents,
    ((methodsAt documents segments).map fun method => memberKey method.name).Nodup ∧
      ∀ method ∈ methodsAt documents segments, ∀ child ∈ authorityPrefixes documents,
        child.dropLast = segments → memberKey (child.getLastD "") ≠ memberKey method.name

private theorem clash?_eq_none {scope : String} {taken : List (String × String)}
    {methods : List Nsid} :
    clash? scope taken methods = none ↔
      Fresh (taken.map Prod.fst) (methods.map fun method => memberKey method.name) := by
  induction methods generalizing taken with
  | nil => simp [clash?]
  | cons method rest ih =>
    rw [List.map_cons, fresh_cons, ← lookup_eq_none_iff_notMem, clash?]
    cases hl : taken.lookup (memberKey method.name) with
    | some other => simp
    | none => exact ih.trans (and_iff_right rfl).symm

private theorem memberProblem?_census {segments : List String} :
    (census documents).memberProblem? ⟨segments, methodsAt documents segments⟩ = none ↔
      ((methodsAt documents segments).map fun method => memberKey method.name).Nodup ∧
        ∀ method ∈ methodsAt documents segments, ∀ child ∈ authorityPrefixes documents,
          child.dropLast = segments → memberKey (child.getLastD "") ≠ memberKey method.name := by
  rw [memberProblem?, clash?_eq_none, Fresh]
  refine and_congr_right fun _ => ?_
  simp only [List.map_reverse, List.map_map, List.mem_reverse, List.mem_map, mem_childrenOf, census,
    mem_ofPrefixes, Function.comp_apply, not_exists, not_and]
  constructor
  · rintro hnew method hm child hc hparent hkey
    exact hnew _ ⟨method, hm, rfl⟩ ⟨child, methodsAt documents child⟩ ⟨⟨child, hc, rfl⟩, hparent⟩
      hkey
  · rintro hdiffer key ⟨method, hm, rfl⟩ n ⟨⟨child, hc, rfl⟩, hparent⟩ hkey
    exact hdiffer method hm child hc hparent hkey

/-- The namespaces of documents are built exactly if neither siblings nor members clash, and then
they are the census. -/
theorem build_eq_ok_iff :
    build documents = .ok t ↔
      (SiblingsDiffer (authorityPrefixes documents) ∧ MembersDiffer documents) ∧
        t = census documents := by
  have hmembers : (census documents).namespaces.findSome? (census documents).memberProblem? = none ↔
      MembersDiffer documents := by
    rw [List.findSome?_eq_none_iff, MembersDiffer]
    constructor
    · intro h segments hs
      exact memberProblem?_census.mp (h _ (mem_ofPrefixes.mpr ⟨segments, hs, rfl⟩))
    · intro h n hn
      obtain ⟨segments, hs, rfl⟩ := mem_ofPrefixes.mp hn
      exact memberProblem?_census.mpr (h segments hs)
  rw [build, Outcome.bind_eq_ok]
  simp only [foldlM_insert_eq_ok, and_assoc, exists_and_left, exists_eq_left, ← hmembers]
  refine and_congr_right fun _ => ?_
  cases hp : (census documents).namespaces.findSome? (census documents).memberProblem? with
  | some problem => simp
  | none => simp [eq_comm]

end Documents

section Order

variable {documents permuted : List Document}

theorem mem_authorityPrefixes_of_perm (h : documents.Perm permuted) {segments : List String} :
    segments ∈ authorityPrefixes documents ↔ segments ∈ authorityPrefixes permuted :=
  (h.flatMap_right _).mem_iff

theorem methodsAt_perm (h : documents.Perm permuted) (segments : List String) :
    (methodsAt documents segments).Perm (methodsAt permuted segments) :=
  (h.filter _).map _

private theorem MembersDiffer.of_perm (h : documents.Perm permuted) (hm : MembersDiffer documents) :
    MembersDiffer permuted := by
  intro segments hs
  obtain ⟨hnodup, hdiffer⟩ := hm segments ((mem_authorityPrefixes_of_perm h).mpr hs)
  have hmethods := methodsAt_perm h segments
  refine ⟨(hmethods.map _).nodup_iff.mp hnodup, fun method hmethod child hc => ?_⟩
  exact hdiffer method (hmethods.mem_iff.mpr hmethod) child
    ((mem_authorityPrefixes_of_perm h).mpr hc)

theorem build_of_perm (h : documents.Perm permuted) {t : NamespaceTree}
    (ht : build documents = .ok t) : build permuted = .ok (census permuted) := by
  obtain ⟨⟨hs, hm⟩, _⟩ := build_eq_ok_iff.mp ht
  refine build_eq_ok_iff.mpr ⟨⟨hs.mono fun segments hp => ?_, hm.of_perm h⟩, rfl⟩
  exact (mem_authorityPrefixes_of_perm h).mpr hp

theorem census_segments_perm (h : documents.Perm permuted) :
    ((census documents).namespaces.map Namespace.segments).Perm
      ((census permuted).namespaces.map Namespace.segments) := by
  rw [census, census, segments_ofPrefixes, segments_ofPrefixes]
  exact distinct_perm fun segments => mem_authorityPrefixes_of_perm h

end Order

end NamespaceTree

end LexiconCompiler
