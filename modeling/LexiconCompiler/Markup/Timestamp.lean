import LexiconCompiler.Number.Layout
import LexiconCompiler.Text.Basic

set_option autoImplicit false
set_option relaxedAutoImplicit false

/-!
Points in time as they stand in documents: a date, and optionally a time of day with fractions of a
second and a zone.
-/

namespace LexiconCompiler.Markup

open LexiconCompiler.Text

/-- A point in time. `zone` is the distance from universal time in seconds. -/
structure Timestamp where
  year : Nat
  month : Nat
  day : Nat
  hour : Nat
  minute : Nat
  second : Nat
  nanos : Nat
  zone : Int
  deriving DecidableEq, Repr

namespace Timestamp

/-- The value of a run of decimal digits. -/
def digitsValue (ds : List Char) : Nat := ds.foldl (fun n c => n * 10 + (c.toNat - 48)) 0

def short? : List Char -> Option (Nat × List Char)
  | a :: b :: rest =>
    if isAsciiDigit a then
      if isAsciiDigit b then some (digitsValue [a, b], rest) else some (digitsValue [a], b :: rest)
    else none
  | [a] => if isAsciiDigit a then some (digitsValue [a], []) else none
  | [] => none

def mark? (mark : Char) : List Char -> Option (List Char)
  | c :: rest => if c == mark then some rest else none
  | [] => none

def daysIn (year month : Nat) : Nat :=
  if month == 2 then
    if (year % 4 == 0 && year % 100 != 0) || year % 400 == 0 then 29 else 28
  else if month == 4 || month == 6 || month == 9 || month == 11 then 30
  else 31

/-- A date that exists, with the text behind it. -/
def date? (cs : List Char) : Option (Timestamp × List Char) := do
  let digits := cs.takeWhile isAsciiDigit
  if digits.length != 4 then none
  else
    let rest ← mark? '-' (cs.dropWhile isAsciiDigit)
    let (month, rest) ← short? rest
    let rest ← mark? '-' rest
    let (day, rest) ← short? rest
    let year := digitsValue digits
    if 1 ≤ month && month ≤ 12 && 1 ≤ day && day ≤ daysIn year month then
      some (⟨year, month, day, 0, 0, 0, 0, 0⟩, rest)
    else none

/-- Fractions of a second: a point or comma and digits, of which nine count. -/
def takeFraction : List Char -> Nat × List Char
  | mark :: c :: rest =>
    if (mark == '.' || mark == ',') && isAsciiDigit c then
      let ds := (c :: rest).takeWhile isAsciiDigit
      (digitsValue ((ds ++ List.replicate 9 '0').take 9), (c :: rest).dropWhile isAsciiDigit)
    else (0, mark :: c :: rest)
  | cs => (0, cs)

def clock? (date : Timestamp) (cs : List Char) : Option (Timestamp × List Char) := do
  let (hour, rest) ← short? cs
  let rest ← mark? ':' rest
  let (minute, rest) ← short? rest
  let rest ← mark? ':' rest
  let (second, rest) ← short? rest
  let (fraction, rest) := takeFraction rest
  if hour < 24 && minute < 60 && second < 60 then
    some ({ date with hour := hour, minute := minute, second := second, nanos := fraction }, rest)
  else none

/-- A zone: `Z`, or a sign with hours and minutes. -/
def zone? : List Char -> Option Int
  | ['Z'] => some 0
  | [sign, h1, h2, ':', m1, m2] =>
    if [h1, h2, m1, m2].all isAsciiDigit && (sign == '+' || sign == '-') then
      let hours := digitsValue [h1, h2]
      let minutes := digitsValue [m1, m2]
      if hours ≤ 24 && minutes ≤ 60 then
        let seconds : Int := (hours * 60 + minutes) * 60
        some (if sign == '-' then -seconds else seconds)
      else none
    else none
  | _ => none

/-- Reads a date; a date, `T` and a time with its zone; or a date, blanks and a time. -/
def parse? (cs : List Char) : Option Timestamp := do
  let (date, rest) ← date? cs
  match rest with
  | [] => some date
  | mark :: rest =>
    if mark == 'T' || mark == 't' then
      let (stamp, rest) ← clock? date rest
      let zone ← zone? rest
      some { stamp with zone := zone }
    else if mark == ' ' then
      let (stamp, rest) ← clock? date (rest.dropWhile (· == ' '))
      if rest.isEmpty then some stamp else none
    else none

/-- The fraction of a second without trailing zeros. -/
def fractionText (nanos : Nat) : List Char :=
  if nanos == 0 then []
  else '.' :: ((Binary64.padded 9 nanos).reverse.dropWhile (· == '0')).reverse

def zoneText (zone : Int) : List Char :=
  if zone == 0 then ['Z']
  else
    let minutes := zone.natAbs / 60
    (if zone < 0 then '-' else '+') ::
      (Binary64.padded 2 (minutes / 60) ++ ':' :: Binary64.padded 2 (minutes % 60))

/-- The written form, `2024-01-02T03:04:05Z`. -/
def text (t : Timestamp) : String :=
  String.ofList
    (Binary64.padded 4 t.year ++ '-' :: Binary64.padded 2 t.month ++ '-' ::
      Binary64.padded 2 t.day ++ 'T' :: Binary64.padded 2 t.hour ++ ':' ::
      Binary64.padded 2 t.minute ++ ':' :: Binary64.padded 2 t.second ++ fractionText t.nanos ++
      zoneText t.zone)

/-- Whether the zone is less than a day away. -/
def zoneInRange (t : Timestamp) : Bool := t.zone.natAbs / 3600 < 24

end Timestamp

end LexiconCompiler.Markup
