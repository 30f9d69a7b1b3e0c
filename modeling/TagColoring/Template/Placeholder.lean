import TagColoring.Enclosure.Lookup

/-!
# Placeholders of a template literal

The body of a template literal holds text and placeholders `${...}`.  The code
of a placeholder may itself hold literals, so a search for literals that
descends into a body needs the ranges of that code.

`placeholdersFrom` walks a body once.  A backslash hides the character after
it, `${` starts a placeholder, and everything else is text, a back-tick too.
The walk ends in one of three ways, recorded as a `BodyEnd`: at the end of the
body, inside a placeholder that the body does not close, or at a backslash
with nothing to hide.  The ranges found before such an end are kept.

`placeholdersFrom_size` bounds the ranges by the body: together they are
shorter than it by at least one character for each.  The descent into them
ends because of it.
-/

namespace TagColoring

/-- A half-open range of offsets. -/
structure Range where
  /-- The offset of the first character. -/
  start : Nat
  /-- The offset after the last character. -/
  stop : Nat
deriving DecidableEq, Repr

/-- The number of characters of a range. -/
def Range.length (r : Range) : Nat := r.stop - r.start

/-- How a walk through the body of a literal ends. -/
inductive BodyEnd where
  /-- At the end of the body. -/
  | complete
  /-- Inside a placeholder that the body does not close. -/
  | unclosed
  /-- At a backslash that hides a character the body does not have. -/
  | dangling
deriving DecidableEq, Repr

/-- The ranges of the code in the placeholders of a body that starts at the
offset `i`, in order, and how the walk ends. -/
def placeholdersFrom (i : Nat) (body : List Char) : List Range × BodyEnd :=
  match body with
  | [] => ([], .complete)
  | '\\' :: [] => ([], .dangling)
  | '\\' :: _ :: cs => placeholdersFrom (i + 2) cs
  | '$' :: '\x7b' :: cs =>
      match h : Enclosure.braces.close cs with
      | .closed rest =>
          have : rest.length < cs.length := Enclosure.close_length h
          let after := i + 2 + (cs.length - rest.length)
          let (ranges, ending) := placeholdersFrom after rest
          (⟨i + 2, after - 1⟩ :: ranges, ending)
      | .unclosed => ([], .unclosed)
      | .dangling => ([], .dangling)
  | _ :: cs => placeholdersFrom (i + 1) cs
termination_by body.length
decreasing_by
  all_goals simp only [List.length_cons]
  all_goals omega

/-- The characters a list of ranges covers, with one more for each range. -/
def rangesSize (ranges : List Range) : Nat := total (ranges.map fun r => r.length + 1)

theorem rangesSize_append (rs ts : List Range) :
    rangesSize (rs ++ ts) = rangesSize rs + rangesSize ts := by
  simp [rangesSize]

/-- The code of the placeholders is shorter than the body, by at least one
character for each of them. -/
theorem placeholdersFrom_size (i : Nat) (body : List Char) :
    rangesSize (placeholdersFrom i body).1 ≤ body.length := by
  fun_induction placeholdersFrom i body with
  | case1 => simp [rangesSize]
  | case2 => simp [rangesSize]
  | case3 i c cs ih =>
      simp only [List.length_cons]
      omega
  | case4 i cs rest h hlt after ranges ending hrec ih =>
      rw [hrec] at ih
      simp only [rangesSize, List.map_cons, total_cons, Range.length, List.length_cons] at ih ⊢
      omega
  | case5 => simp [rangesSize]
  | case6 => simp [rangesSize]
  | case7 i c cs _ _ _ ih =>
      simp only [List.length_cons]
      omega

/-- The ranges of the code in the placeholders of the body between `pos` and
`close`.  A body that reaches past the end of the text has none. -/
def placeholders? (text : List Char) (pos : Nat) (close : Int) : Option (List Range) :=
  if close ≤ pos then some []
  else
    let (ranges, ending) := placeholdersFrom pos (slice text pos close.toNat)
    if overruns text close (ending = .dangling) then none else some ranges

end TagColoring
