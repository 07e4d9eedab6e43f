import Provisioning.Text.Characters

/-!
# Keys and failures of a document store

A document is addressed by the folded name of its object class and by its exact identifier.
-/
namespace Provisioning.Store

structure Key where
  objectClass : String
  id : String
  deriving DecidableEq

namespace Key

/-- The key of an identifier under an object class in any spelling. -/
def of (objectClass id : String) : Key := ⟨Text.fold objectClass, id⟩

def text (k : Key) : String := k.objectClass ++ "/" ++ k.id

theorem of_eq_of_iff (c d i j : String) :
    Key.of c i = Key.of d j ↔ Text.sameName c d = true ∧ i = j := by
  simp [Key.of, Text.sameName_iff]

end Key

/-- What can go wrong in a document store. -/
inductive Failure where
  | alreadyExists (key : Key)
  | unavailable (message : String)
  | timeout (operation : String) (seconds nanos : Nat)
  | internal (message : String)
  deriving DecidableEq

namespace Failure

/-- Digits of a fraction without the zeros at its end. -/
def fractionDigits (width n : Nat) : String :=
  let s := toString n
  let padded := List.replicate (width - s.length) '0' ++ s.toList
  String.ofList (padded.reverse.dropWhile (· == '0')).reverse

/-- A quantity with a fraction of `width` decimal places, as far as they are needed. -/
def quantity (whole width fraction : Nat) (unit : String) : String :=
  let ds := fractionDigits width fraction
  toString whole ++ (if ds.isEmpty then "" else "." ++ ds) ++ unit

/-- A length of time in the largest unit of which it has at least one. -/
def durationText (seconds nanos : Nat) : String :=
  let s := seconds + nanos / 1000000000
  let n := nanos % 1000000000
  if 0 < s then quantity s 9 n "s"
  else if 1000000 ≤ n then quantity (n / 1000000) 6 (n % 1000000) "ms"
  else if 1000 ≤ n then quantity (n / 1000) 3 (n % 1000) "µs"
  else toString n ++ "ns"

def message : Failure → String
  | .alreadyExists key => "Object already exists: " ++ key.text
  | .unavailable m => "Storage unavailable: " ++ m
  | .timeout operation seconds nanos =>
    "Timeout during " ++ operation ++ " after " ++ durationText seconds nanos
  | .internal m => "Internal storage error: " ++ m

/-- Whether the failure is that a key was taken. -/
def isConflict : Failure → Bool
  | .alreadyExists _ => true
  | _ => false

end Failure

end Provisioning.Store
