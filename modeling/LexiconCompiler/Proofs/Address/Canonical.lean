import LexiconCompiler.Proofs.Address

set_option autoImplicit false
set_option relaxedAutoImplicit false

/-!
References and what they mean. Three spellings lead to an address, and two of them are written out
again; whatever document they are read in, those two mean the address that they were written for.
-/

namespace LexiconCompiler.Address

open LexiconCompiler.Text

/-- What references mean in the document `base`: an identifier its principal definition, an
identifier with a fragment that definition, and a fragment alone a definition of the document. -/
inductive Denotes (base : String) : String → Address → Prop
  | document {nsid : String} : Nsid.isValid nsid = true → Denotes base nsid ⟨nsid, mainDef⟩
  | definition {nsid fragment : String} : Nsid.isValid nsid = true → isAlnumWord fragment = true →
      Denotes base (nsid ++ "#" ++ fragment) ⟨nsid, fragment⟩
  | neighbour {fragment : String} : Nsid.isValid base = true → isAlnumWord fragment = true →
      Denotes base ("#" ++ fragment) ⟨base, fragment⟩

variable {ref base : String} {address other : Address}

private theorem proper_iff {nsid fragment : String} :
    Proper ⟨nsid, fragment⟩ ↔ Nsid.isValid nsid = true ∧ isAlnumWord fragment = true := by
  simp only [isAlnumWord, Bool.and_eq_true, Bool.not_eq_true', String.isEmpty_eq_false_iff]
  constructor
  · exact fun h => ⟨h.nsid, h.nonempty, h.word⟩
  · exact fun h => ⟨h.1, h.2.2, h.2.1⟩

private theorem Denotes.proper (h : Denotes base ref address) : address.Proper := by
  cases h with
  | document hnsid => exact proper_iff.mpr ⟨hnsid, by decide⟩
  | definition hnsid hfragment => exact proper_iff.mpr ⟨hnsid, hfragment⟩
  | neighbour hbase hfragment => exact proper_iff.mpr ⟨hbase, hfragment⟩

private theorem text_main (nsid : String) : text ⟨nsid, mainDef⟩ = nsid := if_pos
    (beq_self_eq_true mainDef)

private theorem text_of_ne {nsid fragment : String} (h : fragment ≠ mainDef) :
    text ⟨nsid, fragment⟩ = nsid ++ "#" ++ fragment :=
  if_neg fun hmain => h (eq_of_beq hmain)

/-- References are read as what they mean, and what means nothing is refused. -/
private theorem parse_eq_ok_iff_denotes :
    Address.parse ref base = .ok address ↔ Denotes base ref address := by
  constructor
  · intro h
    have hproper := parse_eq_ok h
    obtain ⟨nsid, fragment⟩ := address
    obtain ⟨hnsid, hfragment⟩ := proper_iff.mp hproper
    rcases hproper.parse_eq_ok_iff.mp h with rfl | rfl | ⟨rfl, rfl⟩
    · exact .definition hnsid hfragment
    · -- The shortest spelling is one of the other two.
      by_cases hmain : fragment = mainDef
      · subst hmain
        rw [text_main]
        exact .document hnsid
      · rw [text_of_ne hmain]
        exact .definition hnsid hfragment
    · exact .neighbour hnsid hfragment
  · intro h
    refine h.proper.parse_eq_ok_iff.mpr ?_
    cases h with
    | document hnsid => exact Or.inr (Or.inl (text_main _).symm)
    | definition hnsid hfragment => exact Or.inl rfl
    | neighbour hbase hfragment => exact Or.inr (Or.inr ⟨rfl, rfl⟩)

private theorem Proper.full_inj (h : address.Proper) (ho : other.Proper)
    (heq : address.full = other.full) :
    address = other := by
  have hread := h.parse_full ""
  rw [heq, ho.parse_full] at hread
  exact (Except.ok.inj hread).symm

private theorem Proper.eq_of_text_eq_full (h : address.Proper) (ho : other.Proper)
    (heq : address.text = other.full) : address = other := by
  have hread := h.parse_text ""
  rw [heq, ho.parse_full] at hread
  exact (Except.ok.inj hread).symm

/-- A reference is read exactly if it has one of the three spellings, and then as what it denotes.
Both spellings of an address that was read mean that address in every document, and no other address
has either of them. -/
theorem parse_canonical {ref base ref' base' : String} {address other : Address} :
    (Address.parse ref base = .ok address ↔ Denotes base ref address) ∧
    (Address.parse ref base = .ok address → ∀ document,
      Address.parse address.text document = .ok address ∧
      Address.parse address.full document = .ok address) ∧
    (Address.parse ref base = .ok address → Address.parse ref' base' = .ok other →
      (address.text = other.text → address = other) ∧
      (address.full = other.full → address = other) ∧
      (address ≠ other → address.text ≠ other.full)) := by
  refine ⟨parse_eq_ok_iff_denotes, fun h document => ?_, fun h ho => ?_⟩
  · exact ⟨(parse_eq_ok h).parse_text document, (parse_eq_ok h).parse_full document⟩
  · have hproper := parse_eq_ok h
    have hother := parse_eq_ok ho
    exact ⟨hproper.text_inj hother, hproper.full_inj hother,
      mt (hproper.eq_of_text_eq_full hother)⟩

/-- A fragment called like the principal definition leads to it; its shortest spelling has none. -/
theorem parse_canonical_main :
    Address.parse "#main" "com.example.feed" = .ok ⟨"com.example.feed", "main"⟩ ∧
      Denotes "com.example.feed" "#main" ⟨"com.example.feed", "main"⟩ ∧
      (∀ document, Address.parse "com.example.feed" document = .ok ⟨"com.example.feed", "main"⟩ ∧
        Address.parse "com.example.feed#main" document = .ok ⟨"com.example.feed", "main"⟩) ∧
      "com.example.feed" ≠ full ⟨"com.example.like", "main"⟩ := by
  have h : Address.parse "#main" "com.example.feed" = .ok ⟨"com.example.feed", "main"⟩ := by
    decide +kernel
  have ho : Address.parse "com.example.like" "" = .ok ⟨"com.example.like", "main"⟩ := by
    decide +kernel
  obtain ⟨hdenotes, hagain, hapart⟩ :=
    @parse_canonical "#main" "com.example.feed" "com.example.like" ""
    ⟨"com.example.feed", "main"⟩ ⟨"com.example.like", "main"⟩
  exact ⟨h, hdenotes.mp h, hagain h, (hapart h ho).2.2 (by decide)⟩

end LexiconCompiler.Address
