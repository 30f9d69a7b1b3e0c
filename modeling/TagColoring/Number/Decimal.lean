import TagColoring.Number.Binary64

/-!
# Decimal text of numbers

Numbers are written in two ways.

* `shortest` gives the fewest digits that read back as the same number, and of
  those the nearest to it.  The digits are written positionally while the
  exponent of the first digit is at least -4 and below 16, always with a point,
  and else with an exponent of at least two digits: `0.0001`, `1e-05`, `1e+16`.
* `fixed` gives a number of places after the point.  The last place is rounded
  from the exact value, a half to the even digit.

Both write the sign of a negative zero.
-/

namespace TagColoring

/-- A positive number in decimal: `digits · 10 ^ exponent`. -/
structure Decimal where
  /-- The digits, as one number. -/
  digits : Nat
  /-- The power of ten of the last digit. -/
  exponent : Int
deriving DecidableEq, Repr

namespace Decimal

/-- The ratio of a decimal. -/
def ratio (d : Decimal) : Nat × Nat := scaleDown 10 d.digits 1 (-d.exponent)

/-- The number in double precision that a decimal reads as. -/
def toBinary64 (d : Decimal) (negative : Bool) : Binary64 :=
  Binary64.ofRatio negative d.ratio.1 d.ratio.2

/-- The decimals with a number of digits that are the neighbours of a ratio, the
nearer one first.  Of two equally near ones the even one is first. -/
def neighbours (num den count : Nat) : List Decimal :=
  let exponent := leadingExponent num den - count + 1
  let scaled := scaleDown 10 num den exponent
  let below := scaled.1 / scaled.2
  if roundDiv scaled.1 scaled.2 = below then [⟨below, exponent⟩, ⟨below + 1, exponent⟩]
  else [⟨below + 1, exponent⟩, ⟨below, exponent⟩]

/-- Seventeen digits always read back. -/
def maxDigits : Nat := 17

/-- The decimal with the fewest digits that reads back as a finite number that
is not zero, and of those the nearest. -/
def ofBinary64 (mantissa : Nat) (exponent : Int) : Decimal :=
  let size := Binary64.sizeOf mantissa exponent
  let candidates := (List.range maxDigits).flatMap fun n => neighbours size.1 size.2 (n + 1)
  (candidates.find? fun d => d.toBinary64 false = .finite false mantissa exponent).getD
    ⟨size.1, 0⟩

/-- The digits without zeros at the end. -/
def trimmedDigits (d : Decimal) : List Char :=
  ((Nat.toDigits 10 d.digits).reverse.dropWhile (· == '0')).reverse

/-- The number of digits before the point, if the decimal is written
positionally. -/
def pointPlace (d : Decimal) : Int := (Nat.toDigits 10 d.digits).length + d.exponent

end Decimal

/-- How shortest decimals are laid out. -/
structure DecimalLayout where
  /-- The least exponent of the first digit that is written positionally. -/
  positionalFrom : Int
  /-- The least exponent from which on the exponent is written. -/
  exponentFrom : Int
  /-- The least number of digits of an exponent. -/
  exponentDigits : Nat
deriving DecidableEq, Repr

/-- The layout of settings and messages. -/
def settingsLayout : DecimalLayout := ⟨-4, 16, 2⟩

/-- Zeros in a row. -/
def zeros (n : Nat) : List Char := List.replicate n '0'

/-- The digits of a number with zeros in front, at least `width` of them. -/
def paddedDigits (width n : Nat) : List Char :=
  let digits := Nat.toDigits 10 n
  zeros (width - digits.length) ++ digits

/-- Digits with a point after the first `place` of them. -/
def positional (digits : List Char) (place : Int) : List Char :=
  if place ≤ 0 then ['0', '.'] ++ zeros (-place).toNat ++ digits
  else
    let whole := place.toNat
    if digits.length ≤ whole then digits ++ zeros (whole - digits.length) ++ ['.', '0']
    else digits.take whole ++ ['.'] ++ digits.drop whole

/-- Digits with a point after the first of them, and the exponent of that. -/
def exponential (layout : DecimalLayout) (digits : List Char) (exponent : Int) : List Char :=
  let fraction := if 1 < digits.length then '.' :: digits.drop 1 else []
  digits.take 1 ++ fraction ++ ['e', if exponent < 0 then '-' else '+']
    ++ paddedDigits layout.exponentDigits exponent.natAbs

/-- The text of a decimal. -/
def Decimal.write (layout : DecimalLayout) (d : Decimal) : List Char :=
  let exponent := d.pointPlace - 1
  if layout.positionalFrom ≤ exponent && exponent < layout.exponentFrom then
    positional d.trimmedDigits d.pointPlace
  else exponential layout d.trimmedDigits exponent

/-- The sign of a number in front of its text. -/
def signed (negative : Bool) (text : List Char) : List Char :=
  if negative then '-' :: text else text

/-- The text of an infinity. -/
def infinityText : List Char := ['i', 'n', 'f']

/-- The text of what is no number. -/
def nanText : List Char := ['n', 'a', 'n']

/-- The shortest text that reads back as a number. -/
def Binary64.shortest (layout : DecimalLayout) : Binary64 → List Char
  | .finite negative mantissa exponent =>
      signed negative
        (if mantissa = 0 then ['0', '.', '0']
        else (Decimal.ofBinary64 mantissa exponent).write layout)
  | .infinite negative => signed negative infinityText
  | .nan => nanText

/-- The text of a number with `places` digits after the point. -/
def Binary64.fixed (places : Nat) : Binary64 → List Char
  | .finite negative mantissa exponent =>
      let size := Binary64.sizeOf mantissa exponent
      let scale := Nat.pow 10 places
      let units := roundDiv (size.1 * scale) size.2
      signed negative
        (Nat.toDigits 10 (units / scale) ++ ['.']
          ++ paddedDigits places (units % scale))
  | .infinite negative => signed negative infinityText
  | .nan => nanText

end TagColoring
