/-!
# Double-precision numbers

A number is its sixty-four bits, so that every statement about it is one of natural numbers.
Equality is numerical: both zeros are equal and a NaN equals nothing. `ofRatio` rounds an exact
ratio to the nearest number, a tie going to the even significand.
-/
namespace Provisioning

/-- A double-precision number, given by its bits. -/
structure Binary64 where
  bits : UInt64
  deriving DecidableEq

namespace Binary64

/-- The value of the sign bit. -/
def signBit : Nat := 0x8000000000000000

/-- The value of the lowest exponent bit, which is also the significand's implied bit. -/
def impliedBit : Nat := 0x10000000000000

/-- The bits of positive infinity; larger magnitudes are NaNs. -/
def infinityBits : Nat := 0x7FF0000000000000

/-- The number with the given sign and magnitude bits. -/
def ofMagnitude (negative : Bool) (magnitude : Nat) : Binary64 :=
  ⟨UInt64.ofNat (if negative then signBit + magnitude else magnitude)⟩

def zero (negative : Bool) : Binary64 := ofMagnitude negative 0
def infinity (negative : Bool) : Binary64 := ofMagnitude negative infinityBits
def nan : Binary64 := ⟨0x7FF8000000000000⟩

def isNegative (x : Binary64) : Bool := signBit ≤ x.bits.toNat

/-- The bits without the sign. -/
def magnitude (x : Binary64) : Nat := x.bits.toNat % signBit

def isNaN (x : Binary64) : Bool := infinityBits < x.magnitude
def isFinite (x : Binary64) : Bool := x.magnitude < infinityBits
def isZero (x : Binary64) : Bool := x.magnitude == 0

def negate (x : Binary64) : Binary64 := ofMagnitude (!x.isNegative) x.magnitude

/-- Numerical equality. -/
protected def beq (x y : Binary64) : Bool :=
  !x.isNaN && (x.bits == y.bits || x.isZero && y.isZero)

instance : BEq Binary64 := ⟨Binary64.beq⟩

theorem beq_def (x y : Binary64) :
    (x == y) = (!x.isNaN && (x.bits == y.bits || x.isZero && y.isZero)) := rfl

theorem beq_self (x : Binary64) : (x == x) = !x.isNaN := by
  simp [beq_def]

theorem isNaN_eq_false_of_isZero {x : Binary64} (h : x.isZero = true) : x.isNaN = false := by
  simp only [isZero, beq_iff_eq] at h
  simp [isNaN, h]

theorem beq_symm {x y : Binary64} (h : (x == y) = true) : (y == x) = true := by
  simp only [beq_def, Bool.and_eq_true, Bool.or_eq_true, Bool.not_eq_true', beq_iff_eq] at *
  obtain ⟨hx, hxy | ⟨hzx, hzy⟩⟩ := h
  · obtain ⟨x⟩ := x
    obtain ⟨y⟩ := y
    cases hxy
    exact ⟨hx, .inl rfl⟩
  · exact ⟨isNaN_eq_false_of_isZero hzy, .inr ⟨hzy, hzx⟩⟩

theorem beq_trans {x y z : Binary64} (hxy : (x == y) = true) (hyz : (y == z) = true) :
    (x == z) = true := by
  obtain ⟨x⟩ := x
  obtain ⟨y⟩ := y
  obtain ⟨z⟩ := z
  simp only [beq_def, Bool.and_eq_true, Bool.or_eq_true, Bool.not_eq_true', beq_iff_eq] at *
  obtain ⟨hx, rfl | ⟨hzx, hzy⟩⟩ := hxy
  · exact hyz
  · obtain ⟨-, rfl | ⟨-, hzz⟩⟩ := hyz
    · exact ⟨hx, .inr ⟨hzx, hzy⟩⟩
    · exact ⟨hx, .inr ⟨hzx, hzz⟩⟩

/-- A finite magnitude is its significand times two to the power of its exponent. -/
def significand (x : Binary64) : Nat :=
  if x.magnitude < impliedBit then x.magnitude else impliedBit + x.magnitude % impliedBit

def exponent (x : Binary64) : Int :=
  if x.magnitude < impliedBit then -1074 else (x.magnitude / impliedBit : Nat) - 1075

/-- A finite magnitude as a ratio. -/
def toRatio (x : Binary64) : Nat × Nat :=
  (x.significand <<< x.exponent.toNat, 1 <<< (-x.exponent).toNat)

/-- The natural number nearest to a ratio, a tie going to the even one. -/
def roundHalfEven (num den : Nat) : Nat :=
  let q := num / den
  let r := num % den
  if 2 * r < den then q else if den < 2 * r then q + 1 else q + q % 2

/-- The exponent of the largest power of two not above a positive ratio. -/
def floorLog2 (num den : Nat) : Int :=
  let l : Int := (num.log2 : Int) - den.log2
  if den <<< l.toNat ≤ num <<< (-l).toNat then l else l - 1

/-- The number nearest to a ratio; too large a ratio gives infinity. -/
def ofRatio (negative : Bool) (num den : Nat) : Binary64 :=
  if num = 0 then zero negative
  else
    let e := max (floorLog2 num den - 52) (-1074)
    let q := roundHalfEven (num <<< (-e).toNat) (den <<< e.toNat)
    ofMagnitude negative (min ((e + 1074).toNat * impliedBit + q) infinityBits)

def ofNat (n : Nat) : Binary64 := ofRatio false n 1

def ofInt (i : Int) : Binary64 := ofRatio (i < 0) i.natAbs 1

/-- The product of two finite numbers, rounded. -/
def mul (x y : Binary64) : Binary64 :=
  ofRatio (x.isNegative != y.isNegative) (x.toRatio.1 * y.toRatio.1) (x.toRatio.2 * y.toRatio.2)

/-- The quotient of a finite number by a finite number that is not zero, rounded. -/
def div (x y : Binary64) : Binary64 :=
  ofRatio (x.isNegative != y.isNegative) (x.toRatio.1 * y.toRatio.2) (x.toRatio.2 * y.toRatio.1)

/-- A power of ten, rounded. -/
def powTen (n : Nat) : Binary64 := ofNat (Nat.pow 10 n)

end Binary64

end Provisioning
