import TagColoring.Number.Decimal
import TagColoring.Text.Blank
import TagColoring.Text.DecimalDigit

/-!
# Numerals

A number of the settings is an integer of any size or a number in double
precision.  The two are written differently, `1` and `1.0`, and both are kept as
they are given.

`Numeral.read?` reads one.  Plain digits with an optional sign are an integer, of
at most `maxIntegerDigits` digits.  All else is double precision: digits with a
point or an exponent, or `inf`, `infinity` or `nan` in any case, with white space
around it and a single underscore between two digits where wanted.  There the
digits may be those of any script.

An integer may be too large for double precision.  It then has no text with
places after the point (`Numeral.fits`).
-/

namespace TagColoring

/-- A number of the settings. -/
inductive Numeral where
  | integer (value : Int)
  /-- A number in double precision. -/
  | binary (value : Binary64)
deriving DecidableEq, Repr

namespace Numeral

/-- The value of a numeral. -/
def value : Numeral → Value
  | .integer n => Value.ofInt n
  | .binary x => x.value

/-- The text of a numeral: an integer in decimal, else the shortest text that
reads back. -/
def text : Numeral → String
  | .integer n => toString n
  | .binary x => String.ofList (x.shortest settingsLayout)

/-- Whether a numeral is no larger than double precision allows.  An integer is
rounded first. -/
def fits : Numeral → Bool
  | .integer n =>
      match Binary64.ofInt n with
      | .finite .. => true
      | _ => false
  | .binary _ => true

/-- The text of a numeral with three places after the point.  An integer is
first rounded to double precision. -/
def milliText : Numeral → String
  | .integer n => String.ofList ((Binary64.ofInt n).fixed 3)
  | .binary x => String.ofList (x.fixed 3)

end Numeral

/-! ## Reading -/

/-- The number that a list of digits spells. -/
def digitsValue (digits : List Char) : Nat :=
  digits.foldl (fun n c => 10 * n + (c.toNat - '0'.toNat)) 0

/-- Split off a sign. -/
def splitSign : List Char → Bool × List Char
  | '-' :: cs => (true, cs)
  | '+' :: cs => (false, cs)
  | cs => (false, cs)

/-- The integer that a text of digits with an optional sign spells. -/
def readInteger? (cs : List Char) : Option Int :=
  let (negative, digits) := splitSign cs
  if !digits.isEmpty && digits.all Char.isDigit then
    some (if negative then -(digitsValue digits : Int) else digitsValue digits)
  else none

/-- Remove the underscores of a text.  Each must stand between two digits;
`after` tells whether a digit stands before the cursor. -/
def dropUnderscores? (after : Bool) : List Char → Option (List Char)
  | [] => some []
  | '_' :: c :: cs =>
      if after && c.isDigit then dropUnderscores? false (c :: cs) else none
  | '_' :: [] => none
  | c :: cs => (dropUnderscores? c.isDigit cs).map (c :: ·)

/-- The exponent after the digits of a number, zero if there is none. -/
def readExponent? : List Char → Option Int
  | [] => some 0
  | c :: cs => if c = 'e' || c = 'E' then readInteger? cs else none

/-- The decimal with digits and an exponent in double precision.  Exponents far
outside the range are decided before the power of ten is built. -/
def decimalValue (negative : Bool) (digits : Nat) (exponent : Int) : Binary64 :=
  let place := (digitCount digits : Int) + exponent
  if digits = 0 || place < -400 then Binary64.zero negative
  else if 400 < place then .infinite negative
  else (Decimal.mk digits exponent).toBinary64 negative

/-- Read digits with an optional point and an optional exponent. -/
def readDecimal? (negative : Bool) (cs : List Char) : Option Binary64 :=
  let whole := cs.takeWhile Char.isDigit
  let rest := cs.dropWhile Char.isDigit
  let (fraction, rest) :=
    match rest with
    | '.' :: rest => (rest.takeWhile Char.isDigit, rest.dropWhile Char.isDigit)
    | rest => ([], rest)
  if whole.isEmpty && fraction.isEmpty then none
  else
    (readExponent? rest).map fun exponent =>
      decimalValue negative (digitsValue (whole ++ fraction)) (exponent - fraction.length)

/-- Whether a character can stand around a number.  The information separators
are blank but cannot. -/
def isNumeralBlank (c : Char) : Bool := isBlank c && !(0x1c ≤ c.toNat && c.toNat ≤ 0x1f)

/-- Remove the white space around a number. -/
def trimNumeral (cs : List Char) : List Char :=
  ((cs.dropWhile isNumeralBlank).reverse.dropWhile isNumeralBlank).reverse

/-- Read a number in double precision. -/
def Binary64.read? (cs : List Char) : Option Binary64 :=
  let (negative, body) := splitSign ((trimNumeral cs).map plainDigit)
  let word := String.ofList (body.map Char.toLower)
  if word = "inf" || word = "infinity" then some (.infinite negative)
  else if word = "nan" then some .nan
  else (dropUnderscores? false body).bind (readDecimal? negative)

/-- The most digits of an integer that is read, zeros in front included. -/
def maxIntegerDigits : Nat := 4300

/-- Read a numeral. -/
def Numeral.read? (s : String) : Option Numeral :=
  match readInteger? s.toList with
  | some n =>
      if (splitSign s.toList).2.length ≤ maxIntegerDigits then some (.integer n) else none
  | none => (Binary64.read? s.toList).map Numeral.binary

/-! ## Examples

Each numeral is read and written again. -/

example : (Numeral.read? "+7").map Numeral.text = some "7" := by decide +kernel
example : (Numeral.read? "-0").map Numeral.text = some "0" := by decide +kernel
example : (Numeral.read? "-0.0").map Numeral.text = some "-0.0" := by decide +kernel
example : (Numeral.read? "0.70").map Numeral.text = some "0.7" := by decide +kernel
example : (Numeral.read? "1e-4").map Numeral.text = some "0.0001" := by decide +kernel
example : (Numeral.read? "0.00001").map Numeral.text = some "1e-05" := by decide +kernel
example : (Numeral.read? "1e15").map Numeral.text = some "1000000000000000.0" := by
  decide +kernel
example : (Numeral.read? "1e16").map Numeral.text = some "1e+16" := by decide +kernel
example : (Numeral.read? "-Infinity").map Numeral.text = some "-inf" := by decide +kernel
example : Numeral.read? "1__0.0" = none := by decide +kernel
example : (Numeral.read? "\u0661\u0662").map Numeral.text = some "12.0" := by decide +kernel
example : (Numeral.read? "\uff11.\uff15").map Numeral.text = some "1.5" := by decide +kernel

/-- A half in the last place goes to the even digit. -/
example : (Numeral.read? "0.0625").map Numeral.milliText = some "0.062" := by decide +kernel
example : (Numeral.read? "0.1875").map Numeral.milliText = some "0.188" := by decide +kernel

end TagColoring
