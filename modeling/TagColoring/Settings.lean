import TagColoring.Coloring
import TagColoring.Decoration
import TagColoring.Settings.Datum

/-!
# Settings

The settings of a highlighter are a palette, the opacity of delimiters, the
delay of a rescan and a vocabulary.  Three rules hold of them, and the type
carries the proofs: the palette has a color, the opacity is between zero and
one, and the delay is not negative.  A delay that is no number is not negative,
and an opacity that is no number is not between zero and one.

A color is any datum.  The library only counts the colors and hands them on.  A
set of element names may have members that are no texts, which name no element.

`Settings.check` is the only way in.  It tests the rules in this order and
reports the first that is broken.  A number that is missing is found when its
rule is tested, so an empty palette is reported before it.
-/

namespace TagColoring

/-- A field of the settings. -/
inductive Field where
  | palette
  | delimiterOpacity
  /-- The delay of a rescan, in seconds. -/
  | debounceSeconds
  | rawTextElements
  | voidElements
deriving DecidableEq, Repr

/-- Every field. -/
def Field.all : List Field :=
  [.palette, .delimiterOpacity, .debounceSeconds, .rawTextElements, .voidElements]

/-- The name of a field. -/
def Field.label : Field → String
  | .palette => "palette"
  | .delimiterOpacity => "delimiter_opacity"
  | .debounceSeconds => "debounce_seconds"
  | .rawTextElements => "raw_text_elements"
  | .voidElements => "void_elements"

/-- Why settings are refused. -/
inductive SettingsError where
  | emptyPalette
  /-- The opacity is not between zero and one. -/
  | opacityOutOfRange (opacity : Numeral)
  | negativeDelay (delay : Numeral)
  /-- A table names a field that does not exist. -/
  | unknownField (name : String)
  /-- The value of a field is no list. -/
  | notAList (field : Field)
  /-- An item of a list is no name. -/
  | notAName (field : Field)
  /-- An item of a list has parts, so it cannot be the member of a set. -/
  | notAScalar (field : Field)
  /-- The text of a field spells no number. -/
  | unreadable (field : Field)
  /-- The value of a field is no number. -/
  | notANumber (field : Field)
deriving DecidableEq, Repr

/-- The field that broke a rule, for the errors that are about a rule. -/
def SettingsError.rule? : SettingsError → Option Field
  | .emptyPalette => some .palette
  | .opacityOutOfRange _ => some .delimiterOpacity
  | .negativeDelay _ => some .debounceSeconds
  | _ => none

/-- What is wrong, without the field. -/
def SettingsError.reason : SettingsError → String
  | .emptyPalette => "must contain at least one color"
  | .opacityOutOfRange opacity => "must be within [0, 1], got " ++ opacity.text
  | .negativeDelay delay => "must not be negative, got " ++ delay.text
  | .unknownField name => "unknown field " ++ name
  | .notAList _ => "must be a list"
  | .notAName _ => "must hold names"
  | .notAScalar _ => "must hold values without parts"
  | .unreadable _ => "must spell a number"
  | .notANumber _ => "must be a number"

/-- The message of an error about a field. -/
def SettingsError.message (e : SettingsError) (field : Field) : String :=
  "Config field '" ++ field.label ++ "': " ++ e.reason

/-- Whether a number is an opacity. -/
def Numeral.isOpacity (n : Numeral) : Bool :=
  (Value.ofInt 0).le n.value && n.value.le (Value.ofInt 1)

/-- Whether a number is less than zero. -/
def Numeral.isNegative (n : Numeral) : Bool := n.value.lt (Value.ofInt 0)

/-- The settings of a highlighter. -/
structure Settings where
  /-- The colors.  Spans refer to them by index. -/
  palette : List Datum
  delimiterOpacity : Numeral
  /-- The delay between a change and the rescan, in seconds. -/
  debounceSeconds : Numeral
  rawTextElements : ScalarSet
  voidElements : ScalarSet
  palette_ne_nil : palette ≠ []
  /-- The intensity is between zero and one. -/
  isOpacity : delimiterOpacity.isOpacity = true
  not_isNegative : debounceSeconds.isNegative = false

namespace Settings

/-- Settings with given fields, if they keep the rules. -/
def check (palette : List Datum) (opacity? delay? : Option Numeral) (rawText void : ScalarSet) :
    Except SettingsError Settings :=
  if hp : palette = [] then .error .emptyPalette
  else
    match opacity? with
    | none => .error (.notANumber .delimiterOpacity)
    | some opacity =>
        if ho : opacity.isOpacity = true then
          match delay? with
          | none => .error (.notANumber .debounceSeconds)
          | some delay =>
              if hd : delay.isNegative = false then
                .ok ⟨palette, opacity, delay, rawText, void, hp, ho, hd⟩
              else .error (.negativeDelay delay)
        else .error (.opacityOutOfRange opacity)

/-- The colors of the default settings. -/
def defaultPalette : List String :=
  ["#ff5555", "#ffae42", "#f1fa8c", "#50fa7b", "#8be9fd", "#bd93f9"]

/-- Seven tenths in double precision. -/
def defaultOpacity : Numeral := .binary (Binary64.ofRatio false 7 10)

/-- One tenth in double precision. -/
def defaultDelay : Numeral := .binary (Binary64.ofRatio false 1 10)

/-- The settings that hold unless others are given. -/
def default : Settings :=
  ⟨defaultPalette.map Datum.text, defaultOpacity, defaultDelay,
    .ofTexts TagColoring.rawTextElements, .ofTexts TagColoring.voidElements,
    by decide, by decide +kernel, by decide +kernel⟩

/-- The number of colors. -/
def paletteSize (s : Settings) : Nat := s.palette.length

/-- There is at least one color. -/
theorem paletteSize_pos (s : Settings) : 0 < s.paletteSize :=
  List.length_pos_iff.mpr s.palette_ne_nil

/-- The intensity of a channel.  Names have all of it. -/
def intensity (s : Settings) : Channel → Numeral
  | .delimiter => s.delimiterOpacity
  | .name => .binary (Binary64.ofInt 1)

/-- Whether settings agree with the default ones.  Numbers are compared by value
and sets of names as sets. -/
def isDefault (s : Settings) : Bool :=
  s.palette == default.palette
    && s.delimiterOpacity.value.same default.delimiterOpacity.value
    && s.debounceSeconds.value.same default.debounceSeconds.value
    && s.rawTextElements.same default.rawTextElements
    && s.voidElements.same default.voidElements

/-- The element names that change how tags are read. -/
def vocabulary (s : Settings) : Vocabulary := ⟨⟨s.rawTextElements.texts⟩, ⟨s.voidElements.texts⟩⟩

/-- The default settings read tags like documents. -/
theorem vocabulary_default : default.vocabulary = Vocabulary.document := by
  simp [vocabulary, default, ScalarSet.texts_ofTexts, Vocabulary.document]

/-- The tags of a text with their colors. -/
def coloredTags (s : Settings) (kind : ContentKind) (text : List Char) : List (Tag × Int) :=
  TagColoring.coloredTags s.vocabulary s.paletteSize kind text

/-- Scan a text. -/
def scan (s : Settings) (kind : ContentKind) (text : List Char) : Scan :=
  TagColoring.scan s.vocabulary s.paletteSize kind text

/-- Decorations without spans. -/
def noDecorations (s : Settings) : Decorations := Decorations.empty s.paletteSize

end Settings

end TagColoring
