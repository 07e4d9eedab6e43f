import Provisioning.Instant
import Provisioning.Text.Characters

/-!
# The text of a point in time

Written as date, `T`, time and zone, with as many groups of three fraction digits as are needed;
the years 0 to 9999 have four digits and no sign, all others a sign. A leap second counts one
second more, so at the end of a minute it is second 60, and elsewhere it looks like the second that
comes next. Reading takes second 60 for a leap second, and is more lenient: blanks between the
parts, fewer digits, any zone offset below a day, digits beyond the nanosecond.
-/
namespace Provisioning.Instant

/-- A number with at least `width` digits. -/
def padded (width n : Nat) : String :=
  let s := toString n
  String.ofList (List.replicate (width - s.length) '0') ++ s

def yearText (year : Int) : String :=
  if 0 ≤ year ∧ year ≤ 9999 then padded 4 year.toNat
  else (if year < 0 then "-" else "+") ++ padded 4 year.natAbs

def fractionText (nanos : Nat) : String :=
  if nanos = 0 then ""
  else if nanos % 1000000 = 0 then "." ++ padded 3 (nanos / 1000000)
  else if nanos % 1000 = 0 then "." ++ padded 6 (nanos / 1000)
  else "." ++ padded 9 nanos

/-- The text in universal time, with the given name for its zone. -/
def text (zone : String) (t : Instant) : String :=
  let date := CivilDate.ofDays (t.seconds / 86400)
  let ofDay := (t.seconds % 86400).toNat
  let leap := t.nanos / 1000000000
  yearText date.year ++ "-" ++ padded 2 date.month ++ "-" ++ padded 2 date.day ++ "T" ++
    padded 2 (ofDay / 3600) ++ ":" ++ padded 2 (ofDay / 60 % 60) ++ ":" ++
    padded 2 (ofDay % 60 + leap) ++ fractionText (t.nanos % 1000000000) ++ zone

/-- A reader of part of a text: what it found and what follows. -/
abbrev Reader (α : Type) := List Char → Option (α × List Char)

def skipBlank (s : List Char) : List Char := s.dropWhile Text.isBlankChar

def digitsValue (ds : List Char) : Nat :=
  ds.foldl (fun n c => n * 10 + (c.toNat - '0'.toNat)) 0

/-- A number of one to `width` digits, after blanks. -/
def readNumber (width : Nat) : Reader Nat := fun s =>
  let s := skipBlank s
  let ds := (s.take width).takeWhile Char.isDigit
  if ds.isEmpty then none else some (digitsValue ds, s.drop ds.length)

/-- A year: up to four digits, or a sign and any number of digits. -/
def readYear : Reader Int := fun s =>
  let signed (sign : Int) (r : List Char) : Option (Int × List Char) :=
    let ds := r.takeWhile Char.isDigit
    if ds.isEmpty then none else some (sign * digitsValue ds, r.drop ds.length)
  match skipBlank s with
  | '-' :: r => signed (-1) r
  | '+' :: r => signed 1 r
  | r => (readNumber 4 r).map fun (n, rest) => ((n : Int), rest)

/-- One given character, after blanks. -/
def readMark (mark : Char) : Reader Unit := fun s =>
  match skipBlank s with
  | c :: r => if c = mark then some ((), r) else none
  | [] => none

/-- What stands between the date and the time. -/
def readSeparator : Reader Unit
  | 'T' :: s | 't' :: s | ' ' :: s => some ((), s)
  | _ => none

/-- The fraction of a second in nanoseconds; digits after the ninth are dropped. -/
def readFraction : Reader Nat
  | '.' :: s =>
    let ds := (s.take 9).takeWhile Char.isDigit
    if ds.isEmpty then none
    else
      let nanos := digitsValue (ds ++ List.replicate (9 - ds.length) '0')
      some (nanos, (s.drop ds.length).dropWhile Char.isDigit)
  | s => some (0, s)

def isZoneSeparator (c : Char) : Bool := c == ':' || Text.isBlankChar c

/-- Hours and minutes in seconds, on the given side of universal time. -/
def readOffset (sign : Int) : Reader Int
  | h :: i :: r =>
    match r.dropWhile isZoneSeparator with
    | m :: n :: rest =>
      if h.isDigit && i.isDigit && m.isDigit && n.isDigit && m < '6' then
        some (sign * (digitsValue [h, i] * 3600 + digitsValue [m, n] * 60), rest)
      else none
    | _ => none
  | _ => none

/-- The offset of a zone in seconds: universal time by name, or hours and minutes. -/
def readZone : Reader Int := fun s =>
  match skipBlank s with
  | 'Z' :: r | 'z' :: r => some (0, r)
  | '+' :: r => readOffset 1 r
  | '-' :: r => readOffset (-1) r
  | '\u2212' :: r => readOffset (-1) r
  | u :: t :: c :: r =>
    if u.toUpper = 'U' ∧ t.toUpper = 'T' ∧ c.toUpper = 'C' then some (0, r) else none
  | _ => none

/-- The instant that a text denotes. -/
def ofText? (text : String) : Option Instant := do
  let s := text.toList
  let (year, s) ← readYear s
  let ((), s) ← readMark '-' s
  let (month, s) ← readNumber 2 s
  let ((), s) ← readMark '-' s
  let (day, s) ← readNumber 2 s
  let ((), s) ← readSeparator s
  let (hour, s) ← readNumber 2 s
  let ((), s) ← readMark ':' s
  let (minute, s) ← readNumber 2 s
  let ((), s) ← readMark ':' s
  let (second, s) ← readNumber 2 s
  let (nanos, s) ← readFraction s
  let (zone, s) ← readZone s
  guard (skipBlank s).isEmpty
  let date := CivilDate.mk year month day
  guard (date.isValid && hour ≤ 23 && minute ≤ 59 && second ≤ 60)
  guard (-86400 < zone && zone < 86400)
  let local_ := date.toDays * 86400 + (hour * 3600 + minute * 60 + min second 59 : Nat)
  ofUnix? (local_ - zone) (nanos + if second = 60 then 1000000000 else 0)

end Provisioning.Instant
