import TagColoring.Text.CaseTable
import TagColoring.Text.Ranges

/-!
# Lower case

Language names, file names and the names in a settings table are compared in
lower case, for all letters of Unicode.  Almost every character has a lower
case of its own, one character wide.  There are two exceptions.

* `U+0130`, the capital i with a dot, becomes two characters: a small i and a
  combining dot.
* `U+03A3`, the capital sigma, becomes a final sigma at the end of a word and
  an ordinary small sigma elsewhere.  It ends a word if the nearest character
  before it that is not ignorable has a case, and the nearest one after it does
  not.

Tag names are plain ASCII, and `Char.toLower` serves for them.
-/

namespace TagColoring

/-- Whether a code point belongs to a run. -/
def CaseRun.covers (r : CaseRun) (n : Nat) : Bool :=
  r.first ≤ n && n ≤ r.last && (n - r.first) % r.stride == 0

/-- The lower case of a character that has one of its own, else the character. -/
def lowerChar (c : Char) : Char :=
  match lowerRuns.find? fun r => r.covers c.toNat with
  | some r => Char.ofNat (c.toNat + r.shift).toNat
  | none => c

/-- Whether the nearest character that is not ignorable has a case. -/
def casedNext (cs : List Char) : Bool :=
  match cs.dropWhile (inRanges ignorableRanges) with
  | c :: _ => inRanges casedRanges c
  | [] => false

/-- The lower case of a capital sigma between the text before it, nearest
character first, and the text after it. -/
def lowerSigma (before after : List Char) : Char :=
  if casedNext before && !casedNext after then '\u03c2' else '\u03c3'

/-- The lower case of one character between its neighbours. -/
def lowerAt (before : List Char) (c : Char) (after : List Char) : List Char :=
  if c = '\u03a3' then [lowerSigma before after]
  else if c = '\u0130' then ['i', '\u0307']
  else [lowerChar c]

/-- The lower case of a text that follows `before`, which comes reversed. -/
def lowerFrom (before : List Char) : List Char → List Char
  | [] => []
  | c :: cs => lowerAt before c cs ++ lowerFrom (c :: before) cs
termination_by structural cs => cs

/-- The lower case of a string. -/
def lowerCase (s : String) : String := String.ofList (lowerFrom [] s.toList)

/-! ## Examples -/

/-- A sigma at the end of a word, and one inside a word. -/
example : lowerCase "\u03a3\u039f\u03a6\u039f\u03a3" = "\u03c3\u03bf\u03c6\u03bf\u03c2" := by
  decide +kernel

/-- A sigma alone ends no word. -/
example : lowerCase "\u03a3" = "\u03c3" := by decide +kernel

/-- A point is ignorable, so the sigma after it ends a word. -/
example : lowerCase "\u0391.\u03a3" = "\u03b1.\u03c2" := by decide +kernel

example : lowerCase "\u0130" = "i\u0307" := by decide +kernel

end TagColoring
