import TagColoring.Number.Ratio

/-!
# Numbers in double precision

A number in double precision is a sign, a mantissa of at most 53 bits and an
exponent of two, or an infinity, or no number.  The form is canonical: the
mantissa has all 53 bits, unless the exponent is the least one.  So two numbers
are the same exactly if their parts are, but for the two zeros, which have the
same value.

`Binary64.ofRatio` rounds a ratio to the nearest such number.  A ratio halfway
between two goes to the one with the even mantissa.  A ratio that rounds past
the largest number becomes an infinity.
-/

namespace TagColoring

/-- A number in double precision. -/
inductive Binary64 where
  /-- The number `mantissa · 2 ^ exponent` with a sign. -/
  | finite (negative : Bool) (mantissa : Nat) (exponent : Int)
  | infinite (negative : Bool)
  | nan
deriving DecidableEq, Repr

namespace Binary64

/-- The least exponent of a number. -/
def minExponent : Int := -1074

/-- The largest exponent of a number. -/
def maxExponent : Int := 971

/-- Zero with a sign. -/
def zero (negative : Bool) : Binary64 := .finite negative 0 minExponent

/-- The exponent at which the mantissa of a positive ratio has 53 bits, or the
least exponent if that is larger. -/
def exponentOf (num den : Nat) : Int :=
  let e := (Nat.log2 num : Int) - Nat.log2 den - 52
  let scaled := scaleDown 2 num den e
  max minExponent (if scaled.1 / scaled.2 < Nat.pow 2 52 then e - 1 else e)

/-- The number nearest to a ratio with a sign. -/
def ofRatio (negative : Bool) (num den : Nat) : Binary64 :=
  if num = 0 then zero negative
  else
    let e := exponentOf num den
    let scaled := scaleDown 2 num den e
    let mantissa := roundDiv scaled.1 scaled.2
    let carried := if mantissa = Nat.pow 2 53 then (Nat.pow 2 52, e + 1) else (mantissa, e)
    if maxExponent < carried.2 then .infinite negative
    else .finite negative carried.1 carried.2

/-- The number nearest to an integer. -/
def ofInt (n : Int) : Binary64 := ofRatio (n < 0) n.natAbs 1

/-- The ratio of the size of a finite number with the given parts. -/
def sizeOf (mantissa : Nat) (exponent : Int) : Nat × Nat := scaleDown 2 mantissa 1 (-exponent)

/-- The value of a number. -/
def value : Binary64 → Value
  | .finite negative mantissa exponent =>
      let size := sizeOf mantissa exponent
      .ratio (if negative then -(size.1 : Int) else size.1) size.2
  | .infinite negative => .infinite negative
  | .nan => .undefined

end Binary64

end TagColoring
