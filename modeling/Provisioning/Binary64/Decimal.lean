import Provisioning.Binary64

/-!
# Decimal text of a double-precision number

Of the decimals that round to a number, the one on the coarsest grid of powers of ten is written;
where that grid offers two, the nearer one, and the upper one at equal distance. A `Layout` then
decides between positional and scientific form.
-/
namespace Provisioning

/-- The decimal `coefficient * 10 ^ exponent`. -/
structure Decimal where
  coefficient : Nat
  exponent : Int
  deriving DecidableEq

namespace Binary64

/-- What lies between two numbers' midpoints, in quarters of the number's last place: the number
itself, the ends of the interval that rounds to it, and whether the ends belong to it. -/
structure Span where
  low : Nat
  centre : Nat
  high : Nat
  closed : Bool

/-- The interval of a finite number; it is shorter below a power of two. -/
def span (x : Binary64) : Span :=
  let m := x.significand
  { low := if m = impliedBit ∧ -1074 < x.exponent then 4 * m - 1 else 4 * m - 2
    centre := 4 * m
    high := 4 * m + 2
    closed := m % 2 == 0 }

/-- The point of the grid of multiples of `10 ^ grid` that is nearest to the number, if one of the
number's two neighbours on that grid lies in its interval. -/
def onGrid? (x : Binary64) (grid : Int) : Option Nat :=
  let s := x.span
  let e := x.exponent - 2
  -- both sides of a comparison with a grid point, cleared of denominators
  let scale := Nat.pow 10 (-grid).toNat <<< e.toNat
  let unit := Nat.pow 10 grid.toNat <<< (-e).toNat
  let inside (c : Nat) : Bool :=
    if s.closed then s.low * scale ≤ c * unit && c * unit ≤ s.high * scale
    else s.low * scale < c * unit && c * unit < s.high * scale
  let below := s.centre * scale / unit
  let above := below + 1
  match inside below, inside above with
  | false, false => none
  | true, false => some below
  | false, true => some above
  | true, true =>
    if s.centre * scale - below * unit < above * unit - s.centre * scale then some below
    else some above

/-- A grid at least as coarse as any that has a point in the number's interval. -/
def coarsestGrid (x : Binary64) : Int :=
  ((x.significand.log2 + x.exponent + 1) * 30103).fdiv 100000 + 1

/-- The shortest decimal that rounds to a finite number other than zero. -/
def shortest (x : Binary64) : Decimal :=
  let grids := (List.range 22).map fun (i : Nat) => x.coarsestGrid - i
  match grids.findSome? fun g => (x.onGrid? g).map (Decimal.mk · g) with
  | some d => d
  | none => ⟨0, 0⟩

/-- How a decimal is laid out: between which scientific exponents it is positional, and whether a
whole number keeps a fraction of zero. -/
structure Layout where
  positional : Int → Bool
  wholeFraction : Bool

/-- Display text is positional whatever the size, and whole numbers have no point. -/
def Layout.display : Layout := ⟨fun _ => true, false⟩

/-- Descriptions are positional from a ten-thousandth up to below ten to the sixteenth, and always
show a fraction there. -/
def Layout.debug : Layout := ⟨fun e => -5 < e && e < 16, true⟩

def zeros (n : Nat) : String := String.ofList (List.replicate n '0')

/-- A decimal in positional form. -/
def positionalText (wholeFraction : Bool) (digits : String) (exponent : Int) : String :=
  let point := (digits.length : Int) + exponent
  if 0 ≤ exponent then
    digits ++ zeros exponent.toNat ++ (if wholeFraction then ".0" else "")
  else if 0 < point then
    (digits.take point.toNat).toString ++ "." ++ (digits.drop point.toNat).toString
  else
    "0." ++ zeros (-point).toNat ++ digits

/-- A decimal in scientific form, with a point only if there is a second digit. -/
def scientificText (digits : String) (exponent : Int) : String :=
  let rest := (digits.drop 1).toString
  (digits.take 1).toString ++ (if rest.isEmpty then "" else "." ++ rest) ++
    "e" ++ toString (exponent + digits.length - 1)

/-- The text of a number. -/
def text (layout : Layout) (x : Binary64) : String :=
  let sign := if x.isNegative then "-" else ""
  if x.isNaN then "NaN"
  else if !x.isFinite then sign ++ "inf"
  else if x.isZero then sign ++ (if layout.wholeFraction then "0.0" else "0")
  else
    let d := x.shortest
    let digits := toString d.coefficient
    sign ++
      if layout.positional (d.exponent + digits.length - 1) then
        positionalText layout.wholeFraction digits d.exponent
      else scientificText digits d.exponent

end Binary64

end Provisioning
