import Provisioning.Json

/-!
# Numbers as JSON text writes them

A numeral without fraction and exponent that fits sixty-four bits is a whole number; every other
one is a double, and so is minus zero. A double is reached in two roundings: the leading digits
that fit sixty-four bits are rounded to a number, which is then multiplied or divided once by a
power of ten. A result beyond the finite numbers is refused.
-/
namespace Provisioning.Json

/-- A numeral taken apart; digits are numbers below ten. -/
structure Numeral where
  negative : Bool
  whole : List Nat
  fraction : Option (List Nat)
  exponent : Option Int

/-- How many numbers sixty-four bits hold. -/
def wordCount : Nat := 0x10000000000000000

/-- How many of them are negative if one bit is the sign. -/
def negativeCount : Nat := 0x8000000000000000

/-- Appends digits to a significand while it fits sixty-four bits, and returns those left over. -/
def appendDigits (significand : Nat) : List Nat → Nat × List Nat
  | [] => (significand, [])
  | d :: ds =>
    if significand * 10 + d < wordCount then appendDigits (significand * 10 + d) ds
    else (significand, d :: ds)

/-- The double `significand * 10 ^ exponent`, if it is finite. -/
def scaled (significand : Nat) (exponent : Int) : Option Binary64 :=
  let f := Binary64.ofNat significand
  if significand = 0 then some f
  else if 308 < exponent then none
  else if 0 ≤ exponent then
    let x := f.mul (.powTen exponent.toNat)
    if x.isFinite then some x else none
  else if -308 ≤ exponent then some (f.div (.powTen (-exponent).toNat))
  else if -616 ≤ exponent then
    some ((f.div (.powTen 308)).div (.powTen (-308 - exponent).toNat))
  else some (.zero false)

/-- The number that a numeral denotes, if there is one. -/
def Numeral.number? (n : Numeral) : Option Number :=
  let (s, dropped) := appendDigits 0 n.whole
  match n.fraction, n.exponent, dropped with
  | none, none, [] =>
    if !n.negative then some (.integer s)
    else if s = 0 ∨ negativeCount < s then some (.double (Binary64.ofNat s).negate)
    else some (.integer (-s))
  | fraction, exponent, _ =>
    let digits := fraction.getD []
    let (t, unread) := appendDigits s digits
    let shift := (dropped.length : Int) - (digits.length - unread.length : Nat)
    (scaled t (shift + exponent.getD 0)).map fun x =>
      .double (if n.negative then x.negate else x)

end Provisioning.Json
