import LexiconCompiler.Nsid

set_option autoImplicit false
set_option relaxedAutoImplicit false

/-!
Addresses of definitions: an identifier and a fragment. The fragment `main` may be left out.
-/

namespace LexiconCompiler

open LexiconCompiler.Text

/-- The name of a document's principal definition. -/
def mainDef : String := "main"

/-- One definition of one document. -/
structure Address where
  nsid : String
  fragment : String
  deriving DecidableEq, Repr

/-- Why a reference names no definition. -/
inductive AddressFault where
  | empty
  | emptyFragment (ref : String)
  | outsideDocument (ref : String)
  | badNsid (ref nsid : String)
  | badFragment (ref fragment : String)
  deriving DecidableEq, Repr

def AddressFault.message : AddressFault -> String
  | .empty => "empty reference"
  | .emptyFragment ref => "reference " ++ quote ref ++ " has an empty fragment"
  | .outsideDocument ref => "relative reference " ++ quote ref ++ " outside a document"
  | .badNsid ref nsid => "reference " ++ quote ref ++ ": invalid NSID " ++ quote nsid
  | .badFragment ref fragment =>
    "reference " ++ quote ref ++ ": invalid fragment " ++ quote fragment

namespace Address

/-- Whether the address names a principal definition. -/
def isMain (address : Address) : Bool := address.fragment == mainDef

/-- The spelling that always has the fragment. -/
def full (address : Address) : String := address.nsid ++ "#" ++ address.fragment

/-- The shortest spelling: a principal definition is named by its document alone. -/
def text (address : Address) : String :=
  if address.isMain then address.nsid else address.full

/-- The address of a fragment of a document, once both are spelled out. -/
def check (ref nsid fragment : String) : Except AddressFault Address :=
  if !Nsid.isValid nsid then .error (.badNsid ref nsid)
  else if !fragment.toList.all isAsciiAlnum then .error (.badFragment ref fragment)
  else .ok ⟨nsid, fragment⟩

/-- Fills in the document of a relative reference. -/
def locate (ref base nsid fragment : String) : Except AddressFault Address :=
  if nsid.isEmpty then
    if base.isEmpty then .error (.outsideDocument ref) else check ref base fragment
  else check ref nsid fragment

/-- Reads a reference found in the document `base`: `#name`, `nsid#name` or `nsid`. -/
def parse (ref base : String) : Except AddressFault Address :=
  if ref.isEmpty then .error .empty
  else
    match cut '#' ref with
    | none => locate ref base ref mainDef
    | some (nsid, fragment) =>
      if fragment.isEmpty then .error (.emptyFragment ref) else locate ref base nsid fragment

end Address

end LexiconCompiler
