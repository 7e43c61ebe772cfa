/-!
# Doubles

A number in the 64-bit binary interchange format, kept as its bits. A finite
double is `significand * 2 ^ exponent` with a sign; arithmetic is exact
arithmetic on naturals followed by one rounding (`ofRatio`: to the nearest
double, a tie to the one with the even significand). Magnitudes are ordered as
their bits are, so comparison never looks at the value.
-/

namespace Quorum

/-- A 64-bit double. -/
structure Double where
  bits : UInt64
  deriving DecidableEq, Inhabited, Repr

namespace Double

/-- The bits of the infinite magnitude; larger magnitudes are not numbers. -/
def infinite : Nat := 0x7FF0000000000000

/-- The bit of the sign. -/
def signBit : Nat := 0x8000000000000000

/-- The leading bit of a normal significand, which is not stored. -/
def implicitBit : Nat := 0x10000000000000

/-- The bits without the sign. -/
def magnitude (x : Double) : Nat := x.bits.toNat % signBit

def isNegative (x : Double) : Bool := signBit ≤ x.bits.toNat

def isNaN (x : Double) : Bool := infinite < x.magnitude

def isFinite (x : Double) : Bool := x.magnitude < infinite

def isZero (x : Double) : Bool := x.magnitude == 0

def ofMagnitude (negative : Bool) (m : Nat) : Double :=
  ⟨UInt64.ofNat (m + if negative then signBit else 0)⟩

def zero : Double := ofMagnitude false 0

def nan : Double := ofMagnitude false (infinite + implicitBit / 2)

def inf (negative : Bool) : Double := ofMagnitude negative infinite

def neg (x : Double) : Double := ofMagnitude (!x.isNegative) x.magnitude

/-- The whole number that `2 ^ exponent` scales. -/
def significand (x : Double) : Nat :=
  if x.magnitude / implicitBit = 0 then x.magnitude else x.magnitude % implicitBit + implicitBit

def exponent (x : Double) : Int := (max (x.magnitude / implicitBit) 1 : Nat) - 1075

/-- The natural nearest to `num / den`, a half going to the even one. -/
def roundRatio (num den : Nat) : Nat :=
  let q := num / den
  let r := num % den
  if 2 * r < den then q else if den < 2 * r then q + 1 else q + q % 2

/-- The largest `k` with `2 ^ k ≤ num / den`. -/
def floorLog2 (num den : Nat) : Int :=
  let k : Int := (num.log2 : Int) - den.log2
  if den <<< k.toNat ≤ num <<< (-k).toNat then k else k - 1

/-- The magnitude of the double nearest to `num / den`. -/
def ofRatio (num den : Nat) : Nat :=
  if num = 0 then 0
  else
    let q := max (floorLog2 num den - 52) (-1074)
    let m := roundRatio (num <<< (-q).toNat) (den <<< q.toNat)
    min ((q + 1074).toNat * implicitBit + m) infinite

def ofNat (n : Nat) : Double := ofMagnitude false (ofRatio n 1)

/-- The double nearest to `digits * 10 ^ scale`. -/
def ofDecimal (negative : Bool) (digits : Nat) (scale : Int) : Double :=
  ofMagnitude negative (ofRatio (digits * Nat.pow 10 scale.toNat) (Nat.pow 10 (-scale).toNat))

/-- The product of two finite doubles. -/
def mul (x y : Double) : Double :=
  let e := x.exponent + y.exponent
  ofMagnitude (x.isNegative != y.isNegative)
    (ofRatio ((x.significand * y.significand) <<< e.toNat) (1 <<< (-e).toNat))

/-- The quotient of two finite doubles, the second one not zero. -/
def div (x y : Double) : Double :=
  let e := x.exponent - y.exponent
  ofMagnitude (x.isNegative != y.isNegative)
    (ofRatio (x.significand <<< e.toNat) (y.significand <<< (-e).toNat))

/-- The position of a double that is a number on the line of magnitudes; the zeros share one. -/
def rank (x : Double) : Int := if x.isNegative then -x.magnitude else x.magnitude

/-- Numeric order; nothing is below or above what is not a number. -/
def lt (x y : Double) : Bool := !x.isNaN && !y.isNaN && x.rank < y.rank

def le (x y : Double) : Bool := !x.isNaN && !y.isNaN && x.rank ≤ y.rank

/-- Numeric equality: the zeros are equal, and what is not a number equals nothing. -/
def eq (x y : Double) : Bool := !x.isNaN && !y.isNaN && x.rank == y.rank

end Double

end Quorum
