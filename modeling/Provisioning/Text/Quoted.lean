import Provisioning.Text.Printable

/-!
# Quoted text

The form in which names and string values appear in descriptions: between double quotes, with
short escapes for the common control characters, a backslash before quotes and backslashes, and
the code point in hexadecimal for every other character that would not print as itself.
-/
namespace Provisioning.Text

def lowerHex (n : Nat) : String :=
  String.ofList (Nat.toDigits 16 n)

/-- A text between braces. -/
def braced (s : String) : String :=
  ("".push '{' ++ s).push '}'

/-- One character as it stands between the quotes. -/
def quoteChar (c : Char) : String :=
  if c = '\x00' then "\\0"
  else if c = '\t' then "\\t"
  else if c = '\n' then "\\n"
  else if c = '\r' then "\\r"
  else if c = '"' then "\\\""
  else if c = '\\' then "\\\\"
  else if isPrintable c then c.toString
  else "\\u" ++ braced (lowerHex c.toNat)

def quote (s : String) : String :=
  "\"" ++ String.join (s.toList.map quoteChar) ++ "\""

/-- Texts separated by a comma and a blank. -/
def commaList (items : List String) : String :=
  ", ".intercalate items

/-- Texts between square brackets. -/
def bracketList (items : List String) : String :=
  "[" ++ commaList items ++ "]"

/-- A list of names as descriptions and log messages show it. -/
def quoteList (names : List String) : String :=
  bracketList (names.map quote)

end Provisioning.Text
