/-!
# The rotation of colors

Colors are indices of a palette.  They are given to tags in the order of the
text, by three rules.

* Siblings rotate: each tag opened in an element, or at the top, gets the color
  after the one before it.
* A child never takes the color of its parent, as far as the palette allows.
  Its color is the next one instead.
* A closing tag takes the color of the innermost open element with its name.

Nesting may be wrong.  A closing tag ends every element opened inside the one
it closes.  A closing tag without an open element gets the color that an opening
tag would be offered, and changes nothing.

The state is a stack of the open elements.  Each of them holds the color that is
offered to the next tag opened in it, and so does the top.  A new element starts
its own children at the color after its own.

The size of the palette may be any integer.  Rotation is modulo the size, with
the sign of the size.  It is not defined for the size zero, so `assign?` refuses
to open a tag then.
-/

namespace TagColoring

/-- An element that is open. -/
structure OpenElement where
  name : String
  color : Int
  /-- The color offered to the next tag opened in it. -/
  next : Int
deriving DecidableEq, Repr

/-- The state of a rotation. -/
structure Rotation where
  size : Int
  /-- The color offered to the next tag opened at the top. -/
  next : Int := 0
  /-- The open elements, innermost first. -/
  opened : List OpenElement := []
deriving DecidableEq, Repr

namespace Rotation

/-- The rotation before the first tag. -/
def start (size : Int) : Rotation := { size := size }

/-- The color after a color. -/
def after (r : Rotation) (color : Int) : Int := Int.fmod (color + 1) r.size

/-- The color offered to the next tag. -/
def offered (r : Rotation) : Int :=
  match r.opened with
  | [] => r.next
  | e :: _ => e.next

/-- The color of the next tag that opens: the offered one, or the one after it
if the parent has that color. -/
def chosen (r : Rotation) : Int :=
  match r.opened with
  | [] => r.next
  | e :: _ => if e.next = e.color then r.after e.next else e.next

/-- Offer another color to the next tag opened in the innermost element. -/
def offer (r : Rotation) (color : Int) : Rotation :=
  match r.opened with
  | [] => { r with next := color }
  | e :: es => { r with opened := { e with next := color } :: es }

/-- Put an element with a color inside the innermost one. -/
def push (r : Rotation) (name : String) (color : Int) : Rotation :=
  { r with opened := ⟨name, color, r.after color⟩ :: r.opened }

/-- Color a tag that opens an element and ends it. -/
def openClosed (r : Rotation) : Int × Rotation := (r.chosen, r.offer (r.after r.chosen))

/-- Color a tag that opens an element. -/
def openElement (r : Rotation) (name : String) : Int × Rotation :=
  (r.chosen, (r.offer (r.after r.chosen)).push name r.chosen)

/-- Color a closing tag. -/
def close (r : Rotation) (name : String) : Int × Rotation :=
  match r.opened.dropWhile fun e => e.name != name with
  | [] => (r.offered, r)
  | e :: es => (e.color, { r with opened := es })

end Rotation

/-- What a tag does to the open elements. -/
inductive TagEvent where
  | opens (name : String)
  /-- It opens an element and ends it. -/
  | opensClosed (name : String)
  | closes (name : String)
deriving DecidableEq, Repr

/-- What a tag does, from its name and its three marks.  A closing tag closes,
whatever else it is marked as. -/
def TagEvent.ofMarks (name : String) (closing slashed void : Bool) : TagEvent :=
  if closing then .closes name
  else if slashed || void then .opensClosed name
  else .opens name

namespace Rotation

/-- Color one tag. -/
def assign (r : Rotation) : TagEvent → Int × Rotation
  | .opens name => r.openElement name
  | .opensClosed _ => r.openClosed
  | .closes name => r.close name

/-- Color one tag, unless it opens an element and the palette is empty. -/
def assign? (r : Rotation) (event : TagEvent) : Option (Int × Rotation) :=
  match event with
  | .closes name => some (r.close name)
  | event => if r.size = 0 then none else some (r.assign event)

/-- The open elements with their colors, outermost first. -/
def stack (r : Rotation) : List (String × Int) := r.opened.reverse.map fun e => (e.name, e.color)

/-- The colors offered at each depth, from the top to the innermost element. -/
def offers (r : Rotation) : List Int := r.next :: r.opened.reverse.map OpenElement.next

/-- The number of open elements. -/
def depth (r : Rotation) : Nat := r.opened.length

/-- One color is offered at the top and one in each open element. -/
theorem length_offers (r : Rotation) : r.offers.length = r.depth + 1 := by
  simp [offers, depth]

/-- With colors in the palette, no tag is refused. -/
theorem assign?_eq_some {r : Rotation} (h : r.size ≠ 0) (event : TagEvent) :
    r.assign? event = some (r.assign event) := by
  cases event <;> simp [assign?, assign, h]

end Rotation

end TagColoring
