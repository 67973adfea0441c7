set_option autoImplicit false
set_option relaxedAutoImplicit false

/-!
Text as bytes. Reading bytes back is total: a byte that belongs to no well-formed sequence reads as
the replacement character.
-/

namespace LexiconCompiler.Text

def utf8Bytes (cs : List Char) : List UInt8 := cs.flatMap String.utf8EncodeChar

/-- The number of bytes of a text. -/
def utf8Length (s : String) : Nat := (utf8Bytes s.toList).length

/-- The first byte of a character, read as a character of its own. -/
def leadByte (c : Char) : Char :=
  match String.utf8EncodeChar c with
  | [] => c
  | b :: _ => Char.ofNat b.toNat

/-- The replacement character, which stands for a byte outside every sequence. -/
def replacement : Char := '\ufffd'

def isContinuation (b : UInt8) : Bool := 0x80 ≤ b && b < 0xC0

/-- The length of the sequence that a lead byte announces and the bits it contributes. -/
def leadShape (b : UInt8) : Option (Nat × Nat) :=
  if b < 0x80 then some (1, b.toNat)
  else if b < 0xC2 then none
  else if b < 0xE0 then some (2, b.toNat - 0xC0)
  else if b < 0xF0 then some (3, b.toNat - 0xE0)
  else if b < 0xF5 then some (4, b.toNat - 0xF0)
  else none

/-- The least code point that needs a sequence of the given length. -/
def leastCode : Nat -> Nat
  | 1 => 0
  | 2 => 0x80
  | 3 => 0x800
  | _ => 0x10000

/-- The character that a sequence starting here spells, with its length in bytes. -/
def decodeOne (b : UInt8) (rest : List UInt8) : Char × Nat :=
  match leadShape b with
  | none => (replacement, 1)
  | some (length, bits) =>
    let tail := rest.take (length - 1)
    let code := tail.foldl (fun acc t => acc * 64 + (t.toNat - 0x80)) bits
    if tail.length == length - 1 && tail.all isContinuation && leastCode length ≤ code &&
        code.isValidChar then
      (Char.ofNat code, length)
    else (replacement, 1)

/-- Reads bytes as text; `pending` counts bytes of a sequence already read. -/
def decodeFrom : Nat -> List UInt8 -> List Char
  | _, [] => []
  | pending + 1, _ :: rest => decodeFrom pending rest
  | 0, b :: rest =>
    let (c, length) := decodeOne b rest
    c :: decodeFrom (length - 1) rest

def decodeBytes (bytes : List UInt8) : List Char := decodeFrom 0 bytes

end LexiconCompiler.Text
