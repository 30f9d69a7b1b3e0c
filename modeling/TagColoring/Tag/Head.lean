import TagColoring.Text.Blank

/-!
# The head of a tag

A tag begins with `<`, perhaps a slash, perhaps white space, and its name.  A
name is a letter followed by letters, digits, colons and hyphens, all of them
ASCII.  A span of brackets without such a head is no tag.
-/

namespace TagColoring

/-- Whether a character can stand in the name of a tag. -/
def isNameChar (c : Char) : Bool := c.isAlphanum || c == ':' || c == '-'

/-- The head of a tag. -/
structure Head where
  /-- A slash follows the bracket. -/
  slash : Bool
  /-- The white space before the name. -/
  gap : List Char
  /-- The name, as it is spelled. -/
  name : List Char
deriving DecidableEq, Repr

/-- The text of a head. -/
def Head.text (h : Head) : List Char :=
  '<' :: ((if h.slash then ['/'] else []) ++ h.gap ++ h.name)

/-- The number of characters before the name. -/
def Head.nameStart (h : Head) : Nat := 1 + (if h.slash then 1 else 0) + h.gap.length

/-- The number of characters up to the end of the name. -/
def Head.nameStop (h : Head) : Nat := h.nameStart + h.name.length

/-- The name in lower case, by which tags are compared. -/
def Head.key (h : Head) : String := String.ofList (h.name.map Char.toLower)

/-- Read the gap and the name that follow the bracket and the slash. -/
def readName? (slash : Bool) (cs : List Char) : Option Head :=
  let rest := cs.dropWhile isBlank
  if rest.head?.any Char.isAlpha then
    some ⟨slash, cs.takeWhile isBlank, rest.takeWhile isNameChar⟩
  else none

/-- Read the head at the start of a text. -/
def Head.read? : List Char → Option Head
  | '<' :: '/' :: cs => readName? true cs
  | '<' :: cs => readName? false cs
  | _ => none

end TagColoring
