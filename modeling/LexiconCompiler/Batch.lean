import LexiconCompiler.Namespace
import LexiconCompiler.Registry
import LexiconCompiler.Schema.Edit
import LexiconCompiler.TokenGroups

set_option autoImplicit false
set_option relaxedAutoImplicit false

/-!
A batch of documents that fit together: registry, namespaces and tokens.
-/

namespace LexiconCompiler

/-- Documents that fit together. -/
structure Batch where
  registry : Registry
  tree : NamespaceTree
  tokens : TokenGroups
  warnings : List Warning

/-- Checks a list of documents as a whole. -/
def Batch.analyze (documents : List (Option Document)) : Except Problem Batch := do
  let registry ← Registry.build documents
  let tree ← NamespaceTree.build registry.documents
  let tokens ← TokenGroups.build registry.documents
  return ⟨registry, tree, tokens, registry.documents.flatMap fun document => document.warnings⟩

/-- Changes the documents of a batch. Each change goes to the document at a position. -/
def Batch.edit (b : Batch) (edits : List (Nat × Edit)) : Batch :=
  let changed := b.registry.documents.mapIdx fun position document =>
    document.edit ((edits.filter fun edit => edit.1 == position).map Prod.snd)
  { b with registry := ⟨changed⟩ }

end LexiconCompiler
