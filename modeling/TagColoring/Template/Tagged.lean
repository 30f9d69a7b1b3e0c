import TagColoring.Text.Blank

/-!
# Tagged template literals

A template literal holds markup if the identifier `html` stands in front of
its back-tick.  The identifier may be the last link of a chain, as in
`lit.html`, since only the run of identifier characters is read.  White space
may stand between the two.  If that white space has a line break, a line
comment may also stand between them:

    html // the greeting
      `<p>Hello</p>`

The comment is judged on its own line alone.  It starts at the first `//` that
has an even number of each of the three quotes before it on the line.  A `//`
inside quotes is passed over as a whole.

Everything here looks at the text before the back-tick, from its end.  The
functions take that text reversed, so the nearest character comes first.
-/

namespace TagColoring

/-- The identifier that marks a literal as markup. -/
def markupIdentifier : List Char := ['h', 't', 'm', 'l']

/-- Whether a character can be part of an identifier. -/
def isIdentifierChar (c : Char) : Bool := c.isAlphanum || c == '_' || c == '$'

/-- For each quote, whether an odd number of it stands before the cursor. -/
structure QuoteParity where
  /-- An odd number of apostrophes. -/
  single : Bool := false
  /-- An odd number of quotation marks. -/
  double : Bool := false
  /-- An odd number of back-ticks. -/
  backtick : Bool := false
deriving DecidableEq, Repr

/-- No quote is left open. -/
def QuoteParity.even (p : QuoteParity) : Bool := !p.single && !p.double && !p.backtick

/-- The parity after one more character. -/
def QuoteParity.next (p : QuoteParity) (c : Char) : QuoteParity :=
  if c = '\x27' then { p with single := !p.single }
  else if c = '\x22' then { p with double := !p.double }
  else if c = '\x60' then { p with backtick := !p.backtick }
  else p

/-- The number of characters of a line before its comment, if it has one.
`p` is the parity of the quotes before the cursor. -/
def commentStart? (p : QuoteParity) : List Char → Option Nat
  | '/' :: '/' :: cs =>
      if p.even then some 0 else (commentStart? p cs).map (· + 2)
  | c :: cs => (commentStart? (p.next c) cs).map (· + 1)
  | [] => none

/-- Remove the line comment at the end of a reversed text, and the white space
before it.  A text whose last line has no comment stays as it is. -/
def dropLineComment (reversed : List Char) : List Char :=
  let line := (reversed.takeWhile (· ≠ '\n')).reverse
  match commentStart? {} line with
  | some n => (reversed.drop (line.length - n)).dropWhile isBlank
  | none => reversed

/-- Whether a back-tick that follows the text `before` opens a literal with
markup. -/
def tagged (before : List Char) : Bool :=
  let gap := before.reverse.takeWhile isBlank
  let code := before.reverse.dropWhile isBlank
  let code := if gap.contains '\n' then dropLineComment code else code
  code.takeWhile isIdentifierChar == markupIdentifier.reverse

/-- Whether the back-tick at an offset of a text opens a literal with markup.
An offset past the end of the text has no character before it, which gives
`none`. -/
def tagged? (text : List Char) (backtick : Nat) : Option Bool :=
  if text.length < backtick then none else some (tagged (text.take backtick))

end TagColoring
