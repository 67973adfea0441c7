import LexiconCompiler.Batch
import LexiconCompiler.Proofs.Address
import LexiconCompiler.Proofs.Outcome
import LexiconCompiler.Proofs.Schema.Parts

set_option autoImplicit false
set_option relaxedAutoImplicit false

/-!
When a batch of documents is a registry. Every reference of a document is checked, wherever it
stands, and what is found for it is found again under its absolute address. A batch adds to that
what its namespaces and its tokens ask for.
-/

namespace LexiconCompiler

open LexiconCompiler.Text

/-- A type is the given reference, or a union with it among its members. -/
inductive SchemaType.Cites : SchemaType -> String -> Prop
  | ref {d target : String} : Cites (.ref d target) target
  | union {d : String} {targets : List String} {target : String} :
      target ∈ targets → Cites (.union d targets) target

/-- A reference occurs somewhere in a document. -/
def Draft.Mentions (d : Draft) (ref : String) : Prop :=
  ∃ definition ∈ d.defs, ∃ t : SchemaType, t.Inside definition.type ∧ t.Cites ref

private theorem Visit.mem_refs (visit : Visit) (site : RefSite) :
    site ∈ visit.refs ↔ visit.type.Cites site.ref ∧ site.path = visit.path := by
  rcases visit with ⟨type, path⟩
  rcases site with ⟨ref, place⟩
  cases type with
  | ref d target =>
    simp only [Visit.refs, List.mem_singleton, RefSite.mk.injEq]
    constructor
    · rintro ⟨rfl, rfl⟩
      exact ⟨.ref, rfl⟩
    · rintro ⟨⟨⟩, rfl⟩
      exact ⟨rfl, rfl⟩
  | union d targets =>
    simp only [Visit.refs, List.mem_map, RefSite.mk.injEq]
    constructor
    · rintro ⟨target, ht, rfl, rfl⟩
      exact ⟨.union ht, rfl⟩
    · rintro ⟨⟨⟩, rfl⟩
      exact ⟨ref, ‹_›, rfl, rfl⟩
  | _ =>
    simp only [Visit.refs, List.not_mem_nil, false_iff]
    rintro ⟨⟨⟩, _⟩

/-- The walk of a document meets every reference that occurs in it, and no other. -/
private theorem Draft.mem_refs (d : Draft) (ref : String) :
    (∃ site ∈ d.refs, site.ref = ref) ↔ d.Mentions ref := by
  simp only [Draft.refs, Draft.visits, Draft.Mentions, List.mem_flatMap]
  constructor
  · rintro ⟨site, ⟨visit, ⟨definition, hd, hv⟩, hs⟩, rfl⟩
    have ht := (definition.type.mem_visits visit.type _).mp ⟨visit, hv, rfl⟩
    exact ⟨definition, hd, visit.type, ht, ((visit.mem_refs site).mp hs).1⟩
  · rintro ⟨definition, hd, t, ht, hc⟩
    obtain ⟨visit, hv, rfl⟩ :=
      (definition.type.mem_visits t (joinPath "defs" definition.name)).mpr ht
    have hs := (visit.mem_refs ⟨ref, visit.path⟩).mpr ⟨hc, rfl⟩
    exact ⟨⟨ref, visit.path⟩, ⟨visit, ⟨definition, hd, hv⟩, hs⟩, rfl⟩

/-- The identifiers of documents differ in more than case. -/
def DistinctIds (documents : List Document) : Prop :=
  (documents.map fun document => lower document.id).Nodup

private theorem DistinctIds.of_append {front back : List Document}
    (h : DistinctIds (front ++ back)) :
    DistinctIds front := by
  rw [DistinctIds, List.map_append] at h
  exact (List.nodup_append.mp h).1

theorem DistinctIds.eq_of_id_eq {documents : List Document} (h : DistinctIds documents)
    {a b : Document} (ha : a ∈ documents) (hb : b ∈ documents) (hid : a.id = b.id) : a = b :=
  List.inj_on_of_nodup_map h ha hb (by rw [hid])

/-- Documents whose parsed identifiers are those of their texts. -/
def Identified (documents : List Document) : Prop :=
  ∀ document ∈ documents, Nsid.parse document.id = .ok document.nsid

theorem Identified.isValid {documents : List Document} (h : Identified documents)
    {document : Document} (hd : document ∈ documents) : Nsid.isValid document.id = true :=
  (Nsid.isValid_iff document.id).mpr ⟨document.nsid, h document hd⟩

/-- A reference found in a document leads to a definition of the batch that may be referenced. -/
structure Leads (documents : List Document) (document : Document) (ref : String)
    (address : Address) (target : SchemaType) : Prop where
  parsed : Address.parse ref document.id = .ok address
  found : ∃ other ∈ documents, other.id = address.nsid ∧ other.def? address.fragment = some target
  allowed : target.kind.isPrimary = false

theorem Leads.mono {documents more : List Document} {document : Document} {ref : String}
    {address : Address} {target : SchemaType} (h : Leads documents document ref address target)
    (hsub : documents ⊆ more) : Leads more document ref address target := by
  obtain ⟨other, ho, hfound⟩ := h.found
  exact ⟨h.parsed, ⟨other, hsub ho, hfound⟩, h.allowed⟩

/-- Why a reference found in a document does not lead to such a definition. -/
inductive Misleads (documents : List Document) (document : Document) (site : RefSite) :
    Problem -> Prop
  | malformed {fault : AddressFault} : Address.parse site.ref document.id = .error fault →
      Misleads documents document site (.malformedReference document.id site.path fault)
  | missing {address : Address} : Address.parse site.ref document.id = .ok address →
      (∀ other ∈ documents, other.id = address.nsid → other.def? address.fragment = none) →
      Misleads documents document site (.missingTarget document.id site.path address)
  | primary {address : Address} {target : SchemaType} :
      Address.parse site.ref document.id = .ok address →
      (∃ other ∈ documents, other.id = address.nsid ∧
        other.def? address.fragment = some target) →
      target.kind.isPrimary = true →
      Misleads documents document site
        (.primaryTarget document.id site.path address target.kind)

/-- Every reference in a batch, wherever it stands, leads to a definition that may be referenced. -/
def Linked (documents : List Document) : Prop :=
  ∀ document ∈ documents, ∀ ref, document.Mentions ref →
    ∃ address target, Leads documents document ref address target

/-- The first reference in document order and walk order that leads nowhere. -/
def FirstMisleads (documents : List Document) (problem : Problem) : Prop :=
  ∃ before document after earlier site later,
    documents = before ++ document :: after ∧ document.refs = earlier ++ site :: later ∧
    (∀ other ∈ before, ∀ place ∈ other.refs,
      ∃ address target, Leads documents other place.ref address target) ∧
    (∀ place ∈ earlier, ∃ address target, Leads documents document place.ref address target) ∧
    Misleads documents document site problem

/-- What is wrong with an entry of a batch, given the documents in front of it. -/
inductive Unfit (seen : List Document) : Option Document -> Problem -> Prop
  | gap : Unfit seen none (.notADocument seen.length)
  | taken {document earlier : Document} {index : Nat} : seen[index]? = some earlier →
      lower earlier.id = lower document.id →
      Unfit seen (some document) (Registry.repeated seen.length document index earlier)

namespace Registry

private theorem sameId?_eq_none {id : String} {documents : List Document} :
    sameId? id documents = none ↔ ∀ document ∈ documents, lower document.id ≠ lower id := by
  simp only [sameId?, Option.map_eq_none_iff, List.find?_eq_none]
  constructor
  · intro h document hd
    obtain ⟨i, hi, rfl⟩ := List.mem_iff_getElem.mp hd
    simpa using h (documents[i], i) (List.mk_mem_zipIdx_iff_getElem?.mpr (by simp [hi]))
  · rintro h ⟨document, i⟩ hm
    have hd := List.mem_of_getElem? (List.mk_mem_zipIdx_iff_getElem?.mp hm)
    simpa using h document hd

private theorem sameId?_eq_some {id : String} {documents : List Document} {index : Nat}
    {earlier : Document} (h : sameId? id documents = some (index, earlier)) :
    documents[index]? = some earlier ∧ lower earlier.id = lower id := by
  obtain ⟨⟨document, i⟩, hf, he⟩ := Option.map_eq_some_iff.mp h
  obtain ⟨rfl, rfl⟩ := Prod.mk.inj he
  refine ⟨List.mk_mem_zipIdx_iff_getElem?.mp (List.mem_of_find?_eq_some hf), ?_⟩
  simpa using List.find?_some hf

private theorem distinctIds_append_single {seen : List Document} {document : Document} :
    DistinctIds (seen ++ [document]) ↔ DistinctIds seen ∧ sameId? document.id seen = none := by
  rw [sameId?_eq_none, DistinctIds, List.map_append, List.nodup_append]
  simp [DistinctIds]

private theorem collect_of_distinctIds {seen rest : List Document}
    (h : DistinctIds (seen ++ rest)) :
    collect seen (rest.map some) = .ok (seen ++ rest) := by
  induction rest generalizing seen with
  | nil => simp [collect]
  | cons document rest ih =>
    have hassoc : seen ++ document :: rest = (seen ++ [document]) ++ rest := by simp
    rw [hassoc] at h ⊢
    have hnone := (distinctIds_append_single.mp h.of_append).2
    simp only [List.map_cons, collect, hnone]
    exact ih h

private theorem collect_cases {seen : List Document} (inputs : List (Option Document))
    (h : DistinctIds seen) :
    (∃ rest, inputs = rest.map some ∧ DistinctIds (seen ++ rest)) ∨
      ∃ before input after problem, inputs = before.map some ++ input :: after ∧
        DistinctIds (seen ++ before) ∧ Unfit (seen ++ before) input problem ∧
        collect seen inputs = .error problem := by
  induction inputs generalizing seen with
  | nil => exact Or.inl ⟨[], rfl, by simpa using h⟩
  | cons input inputs ih =>
    cases input with
    | none =>
      exact Or.inr ⟨[], none, inputs, _, rfl, by simpa using h, by simpa using Unfit.gap, rfl⟩
    | some document =>
      cases hsame : sameId? document.id seen with
      | some found =>
        rcases found with ⟨index, earlier⟩
        obtain ⟨hindex, hid⟩ := sameId?_eq_some hsame
        refine Or.inr ⟨[], some document, inputs, _, rfl, by simpa using h,
          by simpa using Unfit.taken hindex hid, ?_⟩
        simp [collect, hsame]
      | none =>
        have hstep : collect seen (some document :: inputs) =
            collect (seen ++ [document]) inputs := by
          simp [collect, hsame]
        -- The rest is collected behind the documents seen so far and this one.
        have hassoc (rest : List Document) :
            (seen ++ [document]) ++ rest = seen ++ document :: rest := by simp
        rcases ih (distinctIds_append_single.mpr ⟨h, hsame⟩) with
          ⟨rest, rfl, hd⟩ | ⟨before, input, after, problem, rfl, hd, hu, hc⟩
        · rw [hassoc] at hd
          exact Or.inl ⟨document :: rest, rfl, hd⟩
        · rw [hassoc] at hd hu
          exact Or.inr ⟨document :: before, input, after, problem, rfl, hd, hu, hstep.trans hc⟩

private theorem document?_eq_some {documents : List Document} (h : DistinctIds documents)
    {id : String} {document : Document} :
    (Registry.mk documents).document? id = some document ↔
      document ∈ documents ∧ document.id = id := by
  constructor
  · intro hf
    exact ⟨List.mem_of_find?_eq_some hf, by simpa using List.find?_some hf⟩
  · rintro ⟨hd, rfl⟩
    refine find?_eq_some_of_unique hd (by simp) fun other ho hid => ?_
    exact h.eq_of_id_eq ho hd (by simpa using hid)

theorem find?_eq_some {documents : List Document} (h : DistinctIds documents)
    {address : Address} {target : SchemaType} :
    (Registry.mk documents).find? address = some target ↔
      ∃ other ∈ documents, other.id = address.nsid ∧
        other.def? address.fragment = some target := by
  simp only [find?, Option.bind_eq_some_iff, document?_eq_some h, and_assoc]

private theorem find?_eq_none {documents : List Document} (h : DistinctIds documents)
    {address : Address} :
    (Registry.mk documents).find? address = none ↔
      ∀ other ∈ documents, other.id = address.nsid → other.def? address.fragment = none := by
  simp only [find?, Option.bind_eq_none_iff, document?_eq_some h, and_imp]

private theorem refProblem?_eq_none {documents : List Document} (h : DistinctIds documents)
    (document : Document) (site : RefSite) :
    (Registry.mk documents).refProblem? document site = none ↔
      ∃ address target, Leads documents document site.ref address target := by
  constructor
  · intro hnone
    unfold refProblem? at hnone
    split at hnone
    · cases hnone
    · rename_i address hp
      split at hnone
      · cases hnone
      · rename_i target hf
        split at hnone
        · cases hnone
        · rename_i hk
          exact ⟨address, target, hp, (find?_eq_some h).mp hf, by simpa using hk⟩
  · rintro ⟨address, target, hl⟩
    have hf := (find?_eq_some h).mpr hl.found
    simp [refProblem?, hl.parsed, hf, hl.allowed]

private theorem refProblem?_eq_some {documents : List Document} (h : DistinctIds documents)
    {document : Document} {site : RefSite} {problem : Problem}
    (hp : (Registry.mk documents).refProblem? document site = some problem) :
    Misleads documents document site problem := by
  unfold refProblem? at hp
  split at hp
  · rename_i fault hparse
    obtain rfl := Option.some.inj hp
    exact .malformed hparse
  · rename_i address hparse
    split at hp
    · rename_i hf
      obtain rfl := Option.some.inj hp
      exact .missing hparse ((find?_eq_none h).mp hf)
    · rename_i target hf
      split at hp
      · rename_i hk
        obtain rfl := Option.some.inj hp
        exact .primary hparse ((find?_eq_some h).mp hf) hk
      · cases hp

private theorem problem?_cases {documents : List Document} (h : DistinctIds documents) :
    ((Registry.mk documents).problem? = none ∧ Linked documents) ∨
      ∃ problem, (Registry.mk documents).problem? = some problem ∧
        FirstMisleads documents problem := by
  cases hp : (Registry.mk documents).problem? with
  | none =>
    simp only [problem?, List.findSome?_eq_none_iff, refProblem?_eq_none h] at hp
    refine Or.inl ⟨rfl, fun document hd ref hm => ?_⟩
    obtain ⟨site, hs, rfl⟩ := (document.mem_refs ref).mpr hm
    exact hp document hd site hs
  | some problem =>
    obtain ⟨before, document, after, hdocuments, hfirst, hbefore⟩ :=
      List.findSome?_eq_some_iff.mp hp
    obtain ⟨earlier, site, later, hrefs, hsite, hearlier⟩ := List.findSome?_eq_some_iff.mp hfirst
    simp only [List.findSome?_eq_none_iff, refProblem?_eq_none h] at hbefore
    simp only [refProblem?_eq_none h] at hearlier
    exact Or.inr ⟨problem, rfl, before, document, after, earlier, site, later, hdocuments, hrefs,
      hbefore, hearlier, refProblem?_eq_some h hsite⟩

private theorem problem?_eq_none {documents : List Document} (h : DistinctIds documents)
    (hl : Linked documents) : (Registry.mk documents).problem? = none := by
  simp only [problem?, List.findSome?_eq_none_iff, refProblem?_eq_none h]
  intro document hd site hs
  exact hl document hd site.ref ((document.mem_refs site.ref).mp ⟨site, hs, rfl⟩)

private theorem lookup_of_leads {documents : List Document} (h : DistinctIds documents)
    {document : Document} {ref : String} {address : Address} {target : SchemaType}
    (hl : Leads documents document ref address target) :
    (Registry.mk documents).lookup address.full = .ok target ∧
      (Registry.mk documents).lookup address.text = .ok target := by
  have hproper := Address.parse_eq_ok hl.parsed
  have hf := (find?_eq_some h).mpr hl.found
  simp [lookup, hproper.parse_full, hproper.parse_text, locate, hf]

private theorem build_of_collect {inputs : List (Option Document)} {documents : List Document}
    (h : collect [] inputs = .ok documents) :
    build inputs = match (Registry.mk documents).problem? with
      | some problem => .error problem
      | none => .ok ⟨documents⟩ := by
  simp only [build, h]
  rfl

/-- A batch is a registry exactly if it has no gaps, its identifiers differ in more than case and
all references in it lead somewhere. -/
theorem build_eq_ok_iff {inputs : List (Option Document)} {r : Registry} :
    build inputs = .ok r ↔
      inputs = r.documents.map some ∧ DistinctIds r.documents ∧ Linked r.documents := by
  constructor
  · intro h
    have hnil : DistinctIds [] := List.nodup_nil
    rcases collect_cases inputs hnil with
      ⟨documents, rfl, hd⟩ | ⟨before, input, after, problem, rfl, _, _, hc⟩
    · have hbuild := build_of_collect (collect_of_distinctIds hd)
      rw [List.nil_append] at hd hbuild
      rcases problem?_cases hd with ⟨hnone, hlinked⟩ | ⟨problem, hsome, _⟩
      · rw [hnone] at hbuild
        obtain rfl : ⟨documents⟩ = r := by simpa [hbuild] using h
        exact ⟨rfl, hd, hlinked⟩
      · simp [hbuild, hsome] at h
    · simp [build, hc, bind, Except.bind] at h
  · rintro ⟨rfl, hd, hl⟩
    rcases r with ⟨documents⟩
    have hcollect : collect [] (documents.map some) = .ok ([] ++ documents) :=
      collect_of_distinctIds hd
    rw [build_of_collect hcollect, List.nil_append, problem?_eq_none hd hl]

/-- Otherwise the first unfit entry is reported, and if there is none the first reference that leads
nowhere. -/
private theorem build_eq_error {inputs : List (Option Document)} {problem : Problem}
    (h : build inputs = .error problem) :
    (∃ before input after, inputs = before.map some ++ input :: after ∧ DistinctIds before ∧
        Unfit before input problem) ∨
      ∃ documents, inputs = documents.map some ∧ DistinctIds documents ∧
        FirstMisleads documents problem := by
  have hnil : DistinctIds [] := List.nodup_nil
  rcases collect_cases inputs hnil with
    ⟨documents, rfl, hd⟩ | ⟨before, input, after, first, rfl, hd, hu, hc⟩
  · have hbuild := build_of_collect (collect_of_distinctIds hd)
    rw [List.nil_append] at hd hbuild
    rcases problem?_cases hd with ⟨hnone, _⟩ | ⟨first, hsome, hfirst⟩
    · simp [hbuild, hnone] at h
    · obtain rfl : first = problem := by simpa [hbuild, hsome] using h
      exact Or.inr ⟨documents, rfl, hd, hfirst⟩
  · rw [List.nil_append] at hd hu
    obtain rfl : first = problem := by simpa [build, hc, bind, Except.bind] using h
    exact Or.inl ⟨before, input, after, rfl, hd, hu⟩

/-- What a registry says about the documents that it was built from. -/
structure Represents (r : Registry) (documents : List Document) : Prop where
  kept : r.documents = documents
  identified : ∀ id document, r.document? id = some document ↔
    document ∈ documents ∧ document.id = id
  resolved : ∀ document ∈ documents, ∀ ref, document.Mentions ref →
    ∃ address target, Leads documents document ref address target ∧
      r.find? address = some target ∧ r.lookup address.full = .ok target ∧
      r.lookup address.text = .ok target

private theorem represents {documents : List Document} (h : DistinctIds documents)
    (hl : Linked documents) : (Registry.mk documents).Represents documents := by
  refine ⟨rfl, fun id document => document?_eq_some h, fun document hd ref hm => ?_⟩
  obtain ⟨address, target, hleads⟩ := hl document hd ref hm
  obtain ⟨hfull, htext⟩ := lookup_of_leads h hleads
  exact ⟨address, target, hleads, (find?_eq_some h).mpr hleads.found, hfull, htext⟩

/-- A batch is a registry exactly if it has no gaps, its identifiers differ in more than case and
every reference in it, wherever it stands, leads to a definition that may be referenced. The
registry represents the batch. Otherwise the first unfit entry is reported, and if there is none the
first reference that leads nowhere. -/
theorem build_spec (inputs : List (Option Document)) :
    ((∃ r, build inputs = .ok r) ↔
      ∃ documents, inputs = documents.map some ∧ DistinctIds documents ∧ Linked documents) ∧
    (∀ r, build inputs = .ok r →
      ∃ documents, inputs = documents.map some ∧ r.Represents documents) ∧
    ∀ problem, build inputs = .error problem →
      (∃ before input after, inputs = before.map some ++ input :: after ∧ DistinctIds before ∧
        Unfit before input problem) ∨
      ∃ documents, inputs = documents.map some ∧ DistinctIds documents ∧
        FirstMisleads documents problem := by
  refine ⟨⟨?_, ?_⟩, ?_, fun problem => build_eq_error⟩
  · rintro ⟨r, hr⟩
    exact ⟨r.documents, build_eq_ok_iff.mp hr⟩
  · rintro ⟨documents, hd⟩
    exact ⟨⟨documents⟩, build_eq_ok_iff.mpr hd⟩
  · intro r hr
    obtain ⟨hinputs, hd, hl⟩ := build_eq_ok_iff.mp hr
    exact ⟨r.documents, hinputs, represents hd hl⟩

/-- A feed whose entries are unions over two documents. -/
def feed : Document :=
  ⟨⟨1, "com.example.feed", none, "",
    [⟨"main", .object ⟨"", [],
        [⟨"entries", .array "" (.union "" ["#entry", "com.example.defs#actor"]) none none⟩],
        false⟩⟩,
      ⟨"entry", .string "" ⟨none, none, none, none, [], []⟩⟩]⟩,
    "", [], ⟨["com", "example", "feed"]⟩, .empty⟩

def feedDefs : Document :=
  ⟨⟨1, "com.example.defs", none, "", [⟨"actor", .unknown ""⟩]⟩,
    "", [], ⟨["com", "example", "defs"]⟩, .empty⟩

theorem build_feed :
    build [some feed, some feedDefs] = .ok ⟨[feed, feedDefs]⟩ ∧
      (∃ documents, [some feed, some feedDefs] = documents.map some ∧
        (Registry.mk [feed, feedDefs]).Represents documents) ∧
      build [some feed] = .error (.missingTarget "com.example.feed"
        "defs.main.properties.entries.items" ⟨"com.example.defs", "actor"⟩) ∧
      ((∃ before input after, [some feed] = before.map some ++ input :: after ∧
          DistinctIds before ∧ Unfit before input (.missingTarget "com.example.feed"
            "defs.main.properties.entries.items" ⟨"com.example.defs", "actor"⟩)) ∨
        ∃ documents, [some feed] = documents.map some ∧ DistinctIds documents ∧
          FirstMisleads documents (.missingTarget "com.example.feed"
            "defs.main.properties.entries.items" ⟨"com.example.defs", "actor"⟩)) :=
  ⟨rfl, (build_spec _).2.1 _ rfl, rfl, (build_spec _).2.2 _ rfl⟩

end Registry

/-- Documents fit together exactly if their identifiers and references do, and so do their
namespaces and their tokens. -/
theorem Batch.analyze_eq_ok_iff {documents : List Document} {b : Batch} :
    Batch.analyze (documents.map some) = .ok b ↔
      (DistinctIds documents ∧ Linked documents) ∧
        NamespaceTree.build documents = .ok b.tree ∧ TokenGroups.build documents = .ok b.tokens ∧
        b.registry = ⟨documents⟩ ∧
        b.warnings = documents.flatMap fun document => document.warnings := by
  have hregistry (registry : Registry) : Registry.build (documents.map some) = .ok registry ↔
      (DistinctIds documents ∧ Linked documents) ∧ registry = ⟨documents⟩ := by
    rcases registry with ⟨others⟩
    rw [Registry.build_eq_ok_iff, List.map_inj_right fun _ _ => Option.some.inj,
      Registry.mk.injEq]
    constructor
    · rintro ⟨rfl, hd, hl⟩
      exact ⟨⟨hd, hl⟩, rfl⟩
    · rintro ⟨⟨hd, hl⟩, rfl⟩
      exact ⟨rfl, hd, hl⟩
  rcases b with ⟨registry, tree, tokens, warnings⟩
  simp only [Batch.analyze, Outcome.bind_eq_ok, Outcome.pure_eq_ok, hregistry, Batch.mk.injEq]
  constructor
  · rintro ⟨_, ⟨hfit, rfl⟩, _, ht, _, hg, rfl, rfl, rfl, rfl⟩
    exact ⟨hfit, ht, hg, rfl, rfl⟩
  · rintro ⟨hfit, ht, hg, rfl, rfl⟩
    exact ⟨_, ⟨hfit, rfl⟩, tree, ht, tokens, hg, rfl, rfl, rfl, rfl⟩

end LexiconCompiler
