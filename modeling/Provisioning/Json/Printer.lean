import Provisioning.Binary64.Decimal
import Provisioning.Json
import Provisioning.Text.Quoted

/-!
# Writing JSON text

Only quotes, backslashes and control characters are escaped; doubles always show a point or an
exponent, so that they read back as doubles.
-/
namespace Provisioning.Json

/-- A character inside quotes. -/
def escapeChar (c : Char) : String :=
  if c = '"' then "\\\""
  else if c = '\\' then "\\\\"
  else if c = '\n' then "\\n"
  else if c = '\r' then "\\r"
  else if c = '\t' then "\\t"
  else if c.toNat < 0x20 then
    "\\u00" ++ String.ofList [Nat.digitChar (c.toNat / 16), Nat.digitChar (c.toNat % 16)]
  else c.toString

def escape (s : String) : String :=
  "\"" ++ String.join (s.toList.map escapeChar) ++ "\""

def Number.text : Number → String
  | .integer i => toString i
  | .double d => d.text .debug

mutual

/-- The compact text of a tree. -/
def text : Json → String
  | .null => "null"
  | .bool b => if b then "true" else "false"
  | .number n => n.text
  | .string s => escape s
  | .array items => "[" ++ ",".intercalate (itemTexts items) ++ "]"
  | .object fields => Text.braced (",".intercalate (fieldTexts fields))

def itemTexts : List Json → List String
  | [] => []
  | j :: js => text j :: itemTexts js

def fieldTexts : List (String × Json) → List String
  | [] => []
  | (k, j) :: fs => (escape k ++ ":" ++ text j) :: fieldTexts fs

end

end Provisioning.Json
