import Provisioning.Json.Numeral

/-!
# Reading JSON text

A draft is a document as it was found: fields in the order of the text, repeated keys kept, and
two kinds of faults left in place. A `broken` part is no JSON at all, and nothing after it was
read. An `unusable` part is JSON that stands for nothing: it may be skipped but not decoded; such
are numbers out of range, texts with half of a surrogate pair and containers nested too deep.
Because faults keep their place, whoever decodes a draft meets them in the order of the text.
-/
namespace Provisioning.Json

inductive Draft where
  | null
  | bool (b : Bool)
  | number (n : Number)
  | string (s : String)
  | array (items : List Draft)
  | object (fields : List (Option String × Draft))
  | unusable
  | broken

namespace Draft

mutual

/-- Whether a draft has no broken part, so that it can be skipped. -/
def isIntact : Draft → Bool
  | .array items => itemsIntact items
  | .object fields => fieldsIntact fields
  | .broken => false
  | _ => true

def itemsIntact : List Draft → Bool
  | [] => true
  | d :: ds => isIntact d && itemsIntact ds

def fieldsIntact : List (Option String × Draft) → Bool
  | [] => true
  | (_, d) :: fs => isIntact d && fieldsIntact fs

end

mutual

/-- The tree of a draft without faults. -/
def toJson? : Draft → Option Json
  | .null => some .null
  | .bool b => some (.bool b)
  | .number n => some (.number n)
  | .string s => some (.string s)
  | .array items => (itemsToJson? items).map .array
  | .object fields => (fieldsToJson? fields).map .ofFields
  | .unusable | .broken => none

def itemsToJson? : List Draft → Option (List Json)
  | [] => some []
  | d :: ds => do
    let j ← toJson? d
    let js ← itemsToJson? ds
    return j :: js

def fieldsToJson? : List (Option String × Draft) → Option (List (String × Json))
  | [] => some []
  | (key, d) :: fs => do
    let k ← key
    let j ← toJson? d
    let js ← fieldsToJson? fs
    return (k, j) :: js

end

/-- Whether a draft can be decoded as a whole. -/
def isUsable (d : Draft) : Bool := d.toJson?.isSome

mutual

/-- A tree as a draft without faults. -/
def ofJson : Json → Draft
  | .null => .null
  | .bool b => .bool b
  | .number n => .number n
  | .string s => .string s
  | .array items => .array (ofItems items)
  | .object fields => .object (ofFields fields)

def ofItems : List Json → List Draft
  | [] => []
  | j :: js => ofJson j :: ofItems js

def ofFields : List (String × Json) → List (Option String × Draft)
  | [] => []
  | (k, j) :: fs => (some k, ofJson j) :: ofFields fs

end

def isSpace (c : Char) : Bool := c == ' ' || c == '\t' || c == '\n' || c == '\r'

def skipSpace (s : List Char) : List Char := s.dropWhile isSpace

/-- A hexadecimal digit of either case. -/
def hexDigit? (c : Char) : Option Nat :=
  if c.isDigit then some (c.toNat - '0'.toNat)
  else if 'a' ≤ c && c ≤ 'f' then some (c.toNat - 'a'.toNat + 10)
  else if 'A' ≤ c && c ≤ 'F' then some (c.toNat - 'A'.toNat + 10)
  else none

/-- The code unit that four hexadecimal digits name. -/
def codeUnit? (a b c d : Char) : Option Nat := do
  return (((← hexDigit? a) * 16 + (← hexDigit? b)) * 16 + (← hexDigit? c)) * 16 + (← hexDigit? d)

/-- What a backslash and one letter stand for. -/
def shortEscape? : Char → Option Nat
  | '"' => some 0x22
  | '\\' => some 0x5C
  | '/' => some 0x2F
  | 'b' => some 0x08
  | 'f' => some 0x0C
  | 'n' => some 0x0A
  | 'r' => some 0x0D
  | 't' => some 0x09
  | _ => none

/-- The code units of a text up to its closing quote, and what follows it. -/
def readUnits : List Char → Option (List Nat × List Char)
  | '"' :: rest => some ([], rest)
  | '\\' :: 'u' :: a :: b :: c :: d :: rest => do
    let u ← codeUnit? a b c d
    let (us, rest) ← readUnits rest
    return (u :: us, rest)
  | '\\' :: e :: rest => do
    let u ← shortEscape? e
    let (us, rest) ← readUnits rest
    return (u :: us, rest)
  | c :: rest => do
    guard (0x20 ≤ c.toNat)
    let (us, rest) ← readUnits rest
    return (c.toNat :: us, rest)
  | [] => none

/-- The characters of code units; a surrogate outside a pair is none. -/
def joinUnits : List Nat → Option (List Char)
  | [] => some []
  | u :: us =>
    if 0xD800 ≤ u ∧ u < 0xDC00 then
      match us with
      | v :: vs =>
        if 0xDC00 ≤ v ∧ v < 0xE000 then
          (joinUnits vs).map (Char.ofNat (0x10000 + (u - 0xD800) * 0x400 + (v - 0xDC00)) :: ·)
        else none
      | [] => none
    else if 0xDC00 ≤ u ∧ u < 0xE000 then none
    else (joinUnits us).map (Char.ofNat u :: ·)

def digitValues (digits : List Char) : List Nat :=
  digits.map fun c => c.toNat - '0'.toNat

/-- A run of digits, which must not be empty. -/
def readDigits (s : List Char) : Option (List Char × List Char) :=
  match s.span Char.isDigit with
  | ([], _) => none
  | split => some split

/-- The exponent after its letter. -/
def readExponent (s : List Char) : Option (Int × List Char) := do
  let (negative, s) := match s with
    | '-' :: r => (true, r)
    | '+' :: r => (false, r)
    | r => (false, r)
  let (ds, rest) ← readDigits s
  let n := (digitValues ds).foldl (fun (acc : Nat) d => acc * 10 + d) 0
  return (if negative then -(n : Int) else n, rest)

/-- A numeral: no sign but a minus, no leading zeros, digits on both sides of a point. -/
def readNumeral (s : List Char) : Option (Numeral × List Char) := do
  let (negative, s) := match s with
    | '-' :: r => (true, r)
    | r => (false, r)
  let (whole, rest) ← readDigits s
  guard (whole.length = 1 ∨ whole.head? ≠ some '0')
  let (fraction, rest) ← match rest with
    | '.' :: r => (readDigits r).map fun (ds, r) => (some (digitValues ds), r)
    | r => some (none, r)
  let (exponent, rest) ← match rest with
    | 'e' :: r | 'E' :: r => (readExponent r).map fun (e, r) => (some e, r)
    | r => some (none, r)
  return (⟨negative, digitValues whole, fraction, exponent⟩, rest)

/-- The draft of a container, given how many more levels may be nested here. -/
def atDepth (room : Nat) (d : Draft) : Draft :=
  if 0 < room then d else if d.isIntact then .unusable else .broken

mutual

/-- One value and what follows it; `fuel` exceeds the length of the text. -/
def readValue (fuel room : Nat) (s : List Char) : Draft × List Char :=
  match fuel with
  | 0 => (.broken, [])
  | fuel + 1 =>
    match skipSpace s with
    | 'n' :: 'u' :: 'l' :: 'l' :: rest => (.null, rest)
    | 't' :: 'r' :: 'u' :: 'e' :: rest => (.bool true, rest)
    | 'f' :: 'a' :: 'l' :: 's' :: 'e' :: rest => (.bool false, rest)
    | '"' :: rest =>
      match readUnits rest with
      | some (units, rest) =>
        (match joinUnits units with
          | some cs => .string (String.ofList cs)
          | none => .unusable, rest)
      | none => (.broken, [])
    | '[' :: rest =>
      let (items, rest) := match skipSpace rest with
        | ']' :: rest => ([], rest)
        | rest => readItems fuel (room - 1) rest
      (atDepth room (.array items), rest)
    | '{' :: rest =>
      let (fields, rest) := match skipSpace rest with
        | '}' :: rest => ([], rest)
        | rest => readFields fuel (room - 1) rest
      (atDepth room (.object fields), rest)
    | rest =>
      match readNumeral rest with
      | some (n, rest) => ((n.number?.map .number).getD .unusable, rest)
      | none => (.broken, [])

/-- The items of an array that is not empty, up to its bracket. -/
def readItems (fuel room : Nat) (s : List Char) : List Draft × List Char :=
  match fuel with
  | 0 => ([.broken], [])
  | fuel + 1 =>
    let (item, rest) := readValue fuel room s
    match skipSpace rest with
    | ',' :: rest =>
      let (items, rest) := readItems fuel room rest
      (item :: items, rest)
    | ']' :: rest => ([item], rest)
    | _ => ([item, .broken], [])

/-- The fields of an object that is not empty, up to its brace. -/
def readFields (fuel room : Nat) (s : List Char) : List (Option String × Draft) × List Char :=
  match fuel with
  | 0 => ([(none, .broken)], [])
  | fuel + 1 =>
    match skipSpace s with
    | '"' :: rest =>
      match readUnits rest with
      | some (units, rest) =>
        let key := (joinUnits units).map String.ofList
        match skipSpace rest with
        | ':' :: rest =>
          let (value, rest) := readValue fuel room rest
          match skipSpace rest with
          | ',' :: rest =>
            let (fields, rest) := readFields fuel room rest
            ((key, value) :: fields, rest)
          | '}' :: rest => ([(key, value)], rest)
          | _ => ([(key, value), (none, .broken)], [])
        | _ => ([(key, .broken)], [])
      | none => ([(none, .broken)], [])
    | _ => ([(none, .broken)], [])

end

/-- How many levels of arrays and objects may be nested in what is decoded. -/
def maxDepth : Nat := 127

end Draft

/-- A text as a draft, and whether nothing but blanks follows the value. -/
def readText (text : String) : Draft × Bool :=
  let s := text.toList
  let (d, rest) := Draft.readValue (s.length + 1) Draft.maxDepth s
  (d, (Draft.skipSpace rest).isEmpty)

/-- The tree that a text denotes. -/
def parse? (text : String) : Option Json :=
  match readText text with
  | (d, true) => d.toJson?
  | (_, false) => none

end Provisioning.Json
