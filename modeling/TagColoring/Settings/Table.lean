import TagColoring.Settings

/-!
# Tables of settings

Settings are given as a table from the names of fields to values that may be of
any sort.  A field that is missing has its default.  There are two ways to read
a table.

* `normalized` is for tables that people write.  Unknown fields are ignored, and
  the names of elements are brought to lower case.
* `exact` takes a table as it is.  An unknown field is an error.

Where a list is wanted, a text stands for the list of its characters, and a
record for the list of its names.  A value of the wrong sort is an error.  In a
normalized table every item of a list of element names is a text.  In an exact
one the items are the members of a set, so none of them has parts.

A text that spells no number is found first, then the lists are read, in the
order palette, raw text elements, void elements, and the rules of
`Settings.check` come last.
-/

namespace TagColoring

/-- How a table is read. -/
inductive Reading where
  /-- Unknown fields are ignored and names are brought to lower case. -/
  | normalized
  /-- Unknown fields are errors and names stay as they are. -/
  | exact
deriving DecidableEq, Repr

/-- A table of settings and how it is read. -/
structure SettingsTable where
  /-- How it is read. -/
  reading : Reading := .normalized
  /-- The values by the name of their field. -/
  entries : List (String × Datum) := []

/-- The items of a value that stands for a list. -/
def Datum.items (field : Field) : Datum → Except SettingsError (List Datum)
  | .list items => .ok items
  | .record entries => .ok (entries.map fun entry => .text entry.1)
  | .scalar (.text value) => .ok (value.toList.map fun c => .text (String.singleton c))
  | .scalar _ => .error (.notAList field)

/-- The name that a value is, in lower case. -/
def Datum.loweredName (field : Field) (d : Datum) : Except SettingsError Scalar :=
  match d.text? with
  | some value => .ok (.text (lowerCase value))
  | none => .error (.notAName field)

/-- The member of a set that a value is. -/
def Datum.member (field : Field) (d : Datum) : Except SettingsError Scalar :=
  match d.scalar? with
  | some value => .ok value
  | none => .error (.notAScalar field)

/-- The set in a value that stands for a list. -/
def Datum.elements (reading : Reading) (field : Field) (d : Datum) :
    Except SettingsError ScalarSet := do
  let items ← d.items field
  let members ← items.mapM fun item =>
    match reading with
    | .normalized => item.loweredName field
    | .exact => item.member field
  return ⟨members⟩

/-- The number that a value is.  A value that is neither a number nor a text is
none. -/
def Datum.numeral (field : Field) : Datum → Except SettingsError (Option Numeral)
  | .scalar (.number value) => .ok (some value)
  | .scalar (.text value) =>
      match Numeral.read? value with
      | some n => .ok (some n)
      | none => .error (.unreadable field)
  | _ => .ok none

namespace SettingsTable

/-- The value of a field. -/
def get? (t : SettingsTable) (field : Field) : Option Datum := t.entries.lookup field.label

/-- The first entry that names no field. -/
def unknown? (t : SettingsTable) : Option String :=
  (t.entries.find? fun entry => !Field.all.any fun field => field.label == entry.1).map Prod.fst

/-- Refuse a table with an unknown field, unless these are ignored. -/
def checkFields (t : SettingsTable) : Except SettingsError Unit :=
  match t.reading, t.unknown? with
  | .exact, some name => .error (.unknownField name)
  | _, _ => .ok ()

/-- The colors of a table, or the default ones. -/
def palette (t : SettingsTable) : Except SettingsError (List Datum) :=
  match t.get? .palette with
  | some value => value.items .palette
  | none => .ok Settings.default.palette

/-- The set of a field, or the default one. -/
def elementsOr (t : SettingsTable) (field : Field) (orElse : ScalarSet) :
    Except SettingsError ScalarSet :=
  match t.get? field with
  | some value => value.elements t.reading field
  | none => .ok orElse

/-- The number of a field, or the default one. -/
def numeralOr (t : SettingsTable) (field : Field) (orElse : Numeral) :
    Except SettingsError (Option Numeral) :=
  match t.get? field with
  | some value => value.numeral field
  | none => .ok (some orElse)

/-- The settings of a table. -/
def settings (t : SettingsTable) : Except SettingsError Settings := do
  let opacity? ← t.numeralOr .delimiterOpacity Settings.defaultOpacity
  let delay? ← t.numeralOr .debounceSeconds Settings.defaultDelay
  t.checkFields
  let palette ← t.palette
  let rawText ← t.elementsOr .rawTextElements Settings.default.rawTextElements
  let void ← t.elementsOr .voidElements Settings.default.voidElements
  Settings.check palette opacity? delay? rawText void

end SettingsTable

end TagColoring
