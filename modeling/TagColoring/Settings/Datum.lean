import TagColoring.Number.Numeral

/-!
# Data of a settings table

A table of settings comes from outside, and its values are of any sort.  A
*datum* is such a value: a scalar, a list, or a record.  Scalars are nothing, a
flag, a number or a text.

The library looks into data only where it has to.  A color is any datum, which
the renderer is given as it is.  A set of element names is a set of scalars, of
which only the texts can be the name of an element.

* Scalars are the same if they are the same text, both nothing, or of the same
  value.  A flag has the value zero or one.
* A set keeps the first of several scalars that are the same.
* Texts have an order among themselves, and so do numbers and flags.  A set is
  sorted only if each of its scalars can be compared with each other one.
-/

namespace TagColoring

/-- A value without parts. -/
inductive Scalar where
  | null
  | flag (value : Bool)
  | number (value : Numeral)
  | text (value : String)
deriving DecidableEq, Repr, Inhabited

/-- A value of a settings table. -/
inductive Datum where
  /-- A value without parts. -/
  | scalar (value : Scalar)
  | list (items : List Datum)
  /-- Values with names, in order. -/
  | record (entries : List (String × Datum))
deriving Repr, Inhabited

/-! ## Equality -/

mutual

/-- Decide whether two data are equal. -/
def Datum.decEq : (a b : Datum) → Decidable (a = b)
  | .scalar x, .scalar y =>
      if h : x = y then isTrue (congrArg Datum.scalar h)
      else isFalse fun heq => h (Datum.scalar.inj heq)
  | .list xs, .list ys =>
      match decEqItems xs ys with
      | isTrue h => isTrue (congrArg Datum.list h)
      | isFalse h => isFalse fun heq => h (Datum.list.inj heq)
  | .record xs, .record ys =>
      match decEqEntries xs ys with
      | isTrue h => isTrue (congrArg Datum.record h)
      | isFalse h => isFalse fun heq => h (Datum.record.inj heq)
  | .scalar _, .list _ => isFalse (by simp)
  | .scalar _, .record _ => isFalse (by simp)
  | .list _, .scalar _ => isFalse (by simp)
  | .list _, .record _ => isFalse (by simp)
  | .record _, .scalar _ => isFalse (by simp)
  | .record _, .list _ => isFalse (by simp)

/-- Decide whether two lists of data are equal. -/
def decEqItems : (as bs : List Datum) → Decidable (as = bs)
  | [], [] => isTrue rfl
  | [], _ :: _ => isFalse (by simp)
  | _ :: _, [] => isFalse (by simp)
  | a :: as, b :: bs =>
      match Datum.decEq a b, decEqItems as bs with
      | isTrue h, isTrue hs => isTrue (by rw [h, hs])
      | isFalse h, _ => isFalse fun heq => h (List.cons.inj heq).1
      | _, isFalse hs => isFalse fun heq => hs (List.cons.inj heq).2

/-- Decide whether the entries of two records are equal. -/
def decEqEntries : (as bs : List (String × Datum)) → Decidable (as = bs)
  | [], [] => isTrue rfl
  | [], _ :: _ => isFalse (by simp)
  | _ :: _, [] => isFalse (by simp)
  | (k, a) :: as, (l, b) :: bs =>
      if hk : k = l then
        match Datum.decEq a b, decEqEntries as bs with
        | isTrue h, isTrue hs => isTrue (by rw [hk, h, hs])
        | isFalse h, _ => isFalse fun heq => h (Prod.mk.inj (List.cons.inj heq).1).2
        | _, isFalse hs => isFalse fun heq => hs (List.cons.inj heq).2
      else isFalse fun heq => hk (Prod.mk.inj (List.cons.inj heq).1).1

end

instance : DecidableEq Datum := Datum.decEq

/-! ## Scalars -/

namespace Scalar

/-- The text that a scalar is. -/
def text? : Scalar → Option String
  | .text value => some value
  | _ => none

/-- The value of a flag or a number. -/
def value? : Scalar → Option Value
  | .flag value => some (Value.ofInt (if value then 1 else 0))
  | .number value => some value.value
  | _ => none

/-- Whether two scalars are the same member of a set. -/
def same : Scalar → Scalar → Bool
  | .null, .null => true
  | .text s, .text t => s == t
  | x, y =>
      match x.value?, y.value? with
      | some a, some b => a.same b
      | _, _ => false

/-- Whether a scalar comes before another one, if the two can be compared. -/
def before? : Scalar → Scalar → Option Bool
  | .text s, .text t => some (s < t)
  | x, y =>
      match x.value?, y.value? with
      | some a, some b => some (a.lt b)
      | _, _ => none

end Scalar

/-- A text as a datum. -/
def Datum.text (value : String) : Datum := .scalar (.text value)

/-- The text that a datum is. -/
def Datum.text? : Datum → Option String
  | .scalar value => value.text?
  | _ => none

/-- The scalar that a datum is. -/
def Datum.scalar? : Datum → Option Scalar
  | .scalar value => some value
  | _ => none

/-! ## Sets of scalars -/

/-- The scalars of a list that are not the same as one in `seen` or one before
them. -/
def distinctFrom (seen : List Scalar) : List Scalar → List Scalar
  | [] => []
  | x :: xs =>
      if seen.any (Scalar.same x) then distinctFrom seen xs
      else x :: distinctFrom (x :: seen) xs
termination_by structural xs => xs

/-- Insert a scalar into a sorted list, if it can be compared with those before
its place. -/
def insertSorted? (x : Scalar) : List Scalar → Option (List Scalar)
  | [] => some [x]
  | y :: ys =>
      match x.before? y with
      | none => none
      | some true => some (x :: y :: ys)
      | some false => (insertSorted? x ys).map (y :: ·)
termination_by structural ys => ys

/-- A set of scalars. -/
structure ScalarSet where
  /-- The members.  Order and repetition do not matter. -/
  members : List Scalar
deriving DecidableEq, Repr

namespace ScalarSet

/-- The set of some texts. -/
def ofTexts (texts : List String) : ScalarSet := ⟨texts.map Scalar.text⟩

/-- The texts of a set. -/
def texts (s : ScalarSet) : List String := s.members.filterMap Scalar.text?

/-- Whether a scalar belongs to a set. -/
def contains (s : ScalarSet) (x : Scalar) : Bool := s.members.any (Scalar.same x)

/-- Whether every member of one set belongs to another. -/
def subset (s t : ScalarSet) : Bool := s.members.all t.contains

/-- Whether two sets have the same members. -/
def same (s t : ScalarSet) : Bool := s.subset t && t.subset s

/-- The members of a set in increasing order, each one once, if all of them can
be compared. -/
def toSortedList? (s : ScalarSet) : Option (List Scalar) :=
  (distinctFrom [] s.members).foldrM insertSorted? []

/-- The texts of a set of texts are these texts. -/
theorem texts_ofTexts (texts : List String) : (ofTexts texts).texts = texts := by
  simp [ofTexts, ScalarSet.texts, List.filterMap_map, Function.comp_def, Scalar.text?]

end ScalarSet

/-! ## Examples -/

example : (ScalarSet.ofTexts ["b", "a", "b"]).toSortedList? = some [.text "a", .text "b"] := by
  decide +kernel

/-- A flag and a number of the same value are one member. -/
example : (ScalarSet.mk [.number (.integer 1), .flag true, .flag false]).toSortedList?
    = some [.flag false, .number (.integer 1)] := by decide +kernel

/-- Nothing can be compared with nothing else. -/
example : (ScalarSet.mk [.null]).toSortedList? = some [.null] := by decide +kernel
example : (ScalarSet.mk [.null, .text "a"]).toSortedList? = none := by decide +kernel

end TagColoring
