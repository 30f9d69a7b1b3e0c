import TagColoring.Enclosure
import TagColoring.Text.Window

/-!
# Looking for an end below a limit

The scans of `TagColoring.Enclosure` work on a window.  An editor asks for them
at an offset of a text, with a limit that the scan must not reach.  The limit
is any integer.

* A limit at or before the offset leaves nothing to look at, so there is no
  end.
* A limit inside the text, or at its end, cuts the window.
* A limit past the end of the text is a promise the text does not keep.  A scan
  that closes before the end never notices.  One that gets to the end wants a
  character that does not exist, which is an *overrun*.  The one exception is a
  scan that ends with a backslash: its cursor then stands one past the end, so
  a limit there still ends it without a further look.
-/

namespace TagColoring

/-- The outcome of a search for an offset below a limit. -/
inductive Lookup where
  /-- It was found at the offset. -/
  | found (offset : Nat)
  /-- There is none below the limit. -/
  | missing
  /-- The search wanted a character past the end of the text. -/
  | overrun
deriving DecidableEq, Repr

/-- Change the offset of a search that found one. -/
def Lookup.map (f : Nat → Nat) : Lookup → Lookup
  | .found offset => .found (f offset)
  | .missing => .missing
  | .overrun => .overrun

/-- Whether a scan that came to the end of the text would read past it to get
to the limit.  `dangling` tells that its cursor is one past the end. -/
def overruns (text : List Char) (limit : Int) (dangling : Bool) : Bool :=
  (text.length : Int) + (if dangling then 1 else 0) < limit

/-- The offset just after the character that closes the enclosure around
`pos`. -/
def Enclosure.lookup (e : Enclosure) (text : List Char) (pos : Nat) (limit : Int) : Lookup :=
  if limit ≤ pos then .missing
  else
    let window := slice text pos limit.toNat
    match e.close window with
    | .closed rest => .found (pos + (window.length - rest.length))
    | .unclosed => if overruns text limit false then .overrun else .missing
    | .dangling => if overruns text limit true then .overrun else .missing

/-- The offset just after the brace that closes the placeholder whose code
starts at `pos`. -/
def placeholderEnd (text : List Char) (pos : Nat) (limit : Int) : Lookup :=
  Enclosure.braces.lookup text pos limit

/-- The offset of the back-tick that closes the template literal whose body
starts at `pos`. -/
def literalEnd (text : List Char) (pos : Nat) (limit : Int) : Lookup :=
  (Enclosure.template.lookup text pos limit).map (· - 1)

/-- The offset of the bracket that closes the tag whose `<` stands just before
`pos`. -/
def tagEnd (text : List Char) (pos : Nat) (limit : Int) : Lookup :=
  (Enclosure.tag.lookup text pos limit).map (· - 1)

/-- A limit inside the text is never overrun. -/
theorem Enclosure.lookup_ne_overrun {e : Enclosure} {text : List Char} {pos : Nat} {limit : Int}
    (h : limit ≤ text.length) : e.lookup text pos limit ≠ .overrun := by
  have h0 : overruns text limit false = false := by
    simp only [overruns, decide_eq_false_iff_not]
    simp
    omega
  have h1 : overruns text limit true = false := by
    simp only [overruns, decide_eq_false_iff_not]
    simp
    omega
  unfold Enclosure.lookup
  split
  · simp
  · simp only
    split <;> simp [h0, h1]

end TagColoring
