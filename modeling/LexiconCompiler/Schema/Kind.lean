set_option autoImplicit false
set_option relaxedAutoImplicit false

/-!
The kinds of definitions and types.
-/

namespace LexiconCompiler

/-- The variants of attachments. -/
inductive BlobVariant where
  | blob
  | image
  | video
  | audio
  deriving DecidableEq, Repr

/-- What the `type` of a definition says. -/
inductive Kind where
  | boolean
  | number
  | integer
  | string
  | datetime
  | unknown
  | blob (variant : BlobVariant)
  | array
  | object
  | token
  | record
  | query
  | procedure
  | params
  | ref
  | union
  deriving DecidableEq, Repr

namespace Kind

def all : List Kind :=
  [.boolean, .number, .integer, .string, .datetime, .unknown, .blob .blob, .blob .image,
   .blob .video, .blob .audio, .array, .object, .token, .record, .query, .procedure, .params, .ref,
   .union]

def name : Kind -> String
  | .boolean => "boolean"
  | .number => "number"
  | .integer => "integer"
  | .string => "string"
  | .datetime => "datetime"
  | .unknown => "unknown"
  | .blob .blob => "blob"
  | .blob .image => "image"
  | .blob .video => "video"
  | .blob .audio => "audio"
  | .array => "array"
  | .object => "object"
  | .token => "token"
  | .record => "record"
  | .query => "query"
  | .procedure => "procedure"
  | .params => "params"
  | .ref => "ref"
  | .union => "union"

def ofName? (s : String) : Option Kind := all.find? fun kind => kind.name == s

/-- Kinds that stand only in the principal definition and that no reference may name. -/
def isPrimary : Kind -> Bool
  | .record => true
  | .query => true
  | .procedure => true
  | _ => false

def isMethod : Kind -> Bool
  | .query => true
  | .procedure => true
  | _ => false

def isPrimitive : Kind -> Bool
  | .boolean => true
  | .number => true
  | .integer => true
  | .string => true
  | .datetime => true
  | .unknown => true
  | _ => false

def isBlob : Kind -> Bool
  | .blob _ => true
  | _ => false

end Kind

end LexiconCompiler
