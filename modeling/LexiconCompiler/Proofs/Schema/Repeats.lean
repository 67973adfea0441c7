import LexiconCompiler.Proofs.Schema.Canonical
import LexiconCompiler.Proofs.Schema.Thinning

set_option autoImplicit false
set_option relaxedAutoImplicit false

/-!
Documents whose mappings repeat keys. Definitions and properties of a valid document have different
names. Of any other mapping that is read the first entry of a key counts, while a reader of the JSON
form may go by the last one; both find the same document if no mapping that is read repeats a key.
-/

namespace LexiconCompiler

open LexiconCompiler.Markup LexiconCompiler.Text

section Choices

variable {role : Role} {entries : List (Key × Node)}

private theorem spares_firstChoice (h : role.lists = true → (entries.map (·.1.text)).Nodup) :
    Spares firstChoice role entries := by
  refine ⟨fun key => ?_, fun hlists => ?_, h⟩
  · have htexts (es : List (Key × Node)) :
        Node.textEntries (firstChoice es) = firsts Prod.fst (Node.textEntries es) := by
      rw [Node.textEntries, Node.textEntries, firsts_map]
      rfl
    rw [Node.fieldOf, Node.fieldOf, htexts, lookup_firsts]
  · refine firsts_eq_self ?_
    rw [keys_thinEntries]
    exact h hlists

private theorem spares_lastChoice (h : (entries.map (·.1.text)).Nodup) :
    Spares lastChoice role entries := by
  have hself : lastChoice (thinEntries lastChoice entries) = thinEntries lastChoice entries := by
    refine lasts_eq_self ?_
    rw [keys_thinEntries]
    exact h
  refine ⟨fun key => ?_, fun _ => hself, fun _ => h⟩
  rw [hself]

end Choices

namespace Document

variable {choose : Choice} {node : Node} {document : Document}

private theorem ofNode_thin (hs : Settled choose .document node) (h : ofNode node = .ok document) :
    ofNode (node.thin choose) = .ok { document with raw := node.thin choose } := by
  have hreview : reviewDraft (node.thin choose) = reviewDraft node := by
    rw [reviewDraft, reviewDraft, readDraft_thin hs]
  obtain ⟨hd, hw, hsource, hwarnings, hnsid, -⟩ := (ofNode_eq_ok_iff node document).mp h
  have hdenotes : (node.thin choose).Denotes document.toDraft := by
    rw [← yields_readDraft, readDraft_thin hs, yields_readDraft]
    exact hd
  refine (ofNode_eq_ok_iff _ _).mpr ⟨hdenotes, hw, hsource, ?_, hnsid, rfl⟩
  rw [hreview]
  exact hwarnings

/-- Definitions and properties of a valid document do not repeat a name, and the first entry of a
key counts everywhere. If no mapping that is read repeats a key the last entries tell the same
document, and they are what a reader of its JSON form sees for whom the last entry counts. -/
theorem repeated_keys (h : ofNode node = .ok document) :
    (∀ role entries, node.Reads .document role entries → role.lists = true →
      (entries.map (·.1.text)).Nodup) ∧
    ofNode (node.thin firstChoice) = .ok { document with raw := node.thin firstChoice } ∧
    ((∀ role entries, node.Reads .document role entries → (entries.map (·.1.text)).Nodup) →
      ofNode (node.thin lastChoice) = .ok { document with raw := node.thin lastChoice }) ∧
    ∀ text, document.rawJson = .ok text → ∃ value, JsonValue.read? text = some value ∧
      (node.thin lastChoice).Image value.lastEntries := by
  obtain ⟨hd, -, -, -, -, hraw⟩ := (ofNode_eq_ok_iff node document).mp h
  have hadmits : Role.document.Admits node := ⟨document.toDraft, hd⟩
  have hlisted (role : Role) (entries : List (Key × Node))
      (hreads : node.Reads .document role entries) (hlists : role.lists = true) :
      (entries.map (·.1.text)).Nodup :=
    (hreads.admits hadmits).distinct hlists
  refine ⟨hlisted, ?_, fun hdistinct => ?_, fun text htext => ?_⟩
  · refine ofNode_thin (fun role entries hreads => ?_) h
    exact spares_firstChoice (hlisted role entries hreads)
  · refine ofNode_thin (fun role entries hreads => ?_) h
    exact spares_lastChoice (hdistinct role entries hreads)
  · rw [rawJson, hraw] at htext
    obtain ⟨value, hgives, himage⟩ := node.gives_image htext
    exact ⟨value, JsonToken.read?_of_gives hgives, himage.lastEntries⟩

def notedToken : List (Key × Node) :=
  Node.present [
    ("type", some (.text "token")),
    ("note", some (.record [("by", some (.text "a")), ("by", some (.text "b"))]))]

def notedNode : Node :=
  .record [
    ("lexicon", some (.scalar .int "1")),
    ("id", some (.text "com.example.thing")),
    ("defs", some (.record [("main", some (.mapping notedToken))]))]

def noted : Document :=
  ⟨⟨1, "com.example.thing", none, "", [⟨"main", .token ""⟩]⟩, "", [],
    ⟨["com", "example", "thing"]⟩, notedNode⟩

private theorem notedNode_reads {role : Role} {entries : List (Key × Node)}
    (h : notedNode.Reads .document role entries) : (entries.map (·.1.text)).Nodup := by
  cases h with
  | self => decide
  | field hleads hdefs hreads =>
    cases hleads
    obtain rfl := Option.some.inj hdefs
    cases hreads with
    | self => decide
    | field hleads hmain hreads =>
      cases hleads
      have hentry := congrArg Prod.snd (List.mem_singleton.mp (mem_of_fieldOf hmain))
      obtain rfl : _ = Node.mapping notedToken := hentry
      obtain ⟨rfl, rfl⟩ := hreads.eq_of_isLeaf (show _ = some Kind.token from rfl) rfl
      decide

theorem repeated_keys_noted :
    ofNode notedNode = .ok noted ∧
    (∀ role entries, notedNode.Reads .document role entries → role.lists = true →
      (entries.map (·.1.text)).Nodup) ∧
    ofNode (notedNode.thin firstChoice) = .ok { noted with raw := notedNode.thin firstChoice } ∧
    ofNode (notedNode.thin lastChoice) = .ok { noted with raw := notedNode.thin lastChoice } := by
  have hnode : ofNode notedNode = .ok noted := rfl
  obtain ⟨hlisted, hfirst, hlast, -⟩ := repeated_keys hnode
  exact ⟨hnode, hlisted, hfirst, hlast fun _ _ => notedNode_reads⟩

/-- The fields of a document whose identifier is given twice. -/
def renamedFields : List (Key × Node) :=
  Node.present [
    ("lexicon", some (.scalar .int "1")),
    ("id", some (.text "com.example.first")),
    ("id", some (.text "com.example.second")),
    ("defs", some (.record [("main", some (.record [("type", some (.text "token"))]))]))]

def renamed : Document :=
  ⟨⟨1, "com.example.first", none, "", [⟨"main", .token ""⟩]⟩, "", [],
    ⟨["com", "example", "first"]⟩, .mapping renamedFields⟩

/-- A mapping that is read may repeat a key, and then a reader of the JSON form for whom the last
entry counts may see another identifier than the one that was read. -/
theorem ofNode_renamed :
    ofNode (.mapping renamedFields) = .ok renamed ∧
    (Node.mapping renamedFields).Reads .document .document renamedFields ∧
    ¬ (renamedFields.map (·.1.text)).Nodup ∧ renamed.id = "com.example.first" ∧
    ∃ text members, renamed.rawJson = .ok text ∧ JsonValue.read? text = some (.object members) ∧
      (lasts Prod.fst members).lookup "id" = some (.string "com.example.second") := by
  have hjson : renamed.rawJson.toOption.isSome = true := by decide +kernel
  obtain ⟨text, htext⟩ := Option.isSome_iff_exists.mp hjson
  have hwritten := Outcome.toOption_eq_some.mp htext
  obtain ⟨value, hgives, himage⟩ := Node.gives_image (.mapping renamedFields) hwritten
  refine ⟨rfl, .self, by decide, rfl, text, ?_⟩
  cases himage with
  | mapping hkeys hvalues =>
    obtain ⟨version, members, rfl, -, hkeys⟩ := List.map_eq_cons_iff.mp hkeys.symm
    obtain ⟨first, members, rfl, -, hkeys⟩ := List.map_eq_cons_iff.mp hkeys
    obtain ⟨⟨key, second⟩, members, rfl, hkey, hkeys⟩ := List.map_eq_cons_iff.mp hkeys
    obtain ⟨⟨last, defs⟩, members, rfl, hlast, hkeys⟩ := List.map_eq_cons_iff.mp hkeys
    obtain rfl := List.map_eq_nil_iff.mp hkeys
    obtain rfl : key = "id" := hkey
    obtain rfl : last = "defs" := hlast
    obtain ⟨-, -, hsecond, -⟩ : _ ∧ _ ∧ (Node.text "com.example.second").Image second ∧ _ := by
      simpa [renamedFields, Node.present] using hvalues
    cases hsecond with
    | scalar hdecode himage =>
      obtain rfl := Except.ok.inj hdecode
      cases himage
      refine ⟨_, hwritten, JsonToken.read?_of_gives hgives, ?_⟩
      rw [lookup_lasts]
      rfl

end Document

end LexiconCompiler
