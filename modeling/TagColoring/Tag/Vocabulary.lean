/-!
# Vocabularies

Two sets of element names change how tags are read.  The body of a *raw text*
element is not markup, and a *void* element has no body.  Names are compared as
they are written in the set.
-/

namespace TagColoring

/-- A set of element names.  Order and repetition do not matter. -/
structure ElementSet where
  names : List String
deriving DecidableEq, Repr

/-- Whether a name belongs to a set. -/
def ElementSet.contains (s : ElementSet) (name : String) : Bool := s.names.contains name

theorem ElementSet.contains_iff {s : ElementSet} {name : String} :
    s.contains name = true ↔ name ∈ s.names := by
  simp [ElementSet.contains]

/-- The element names that change how tags are read. -/
structure Vocabulary where
  /-- Elements whose body is not markup. -/
  rawText : ElementSet
  /-- Elements that never have a body. -/
  void : ElementSet
deriving DecidableEq, Repr

/-- The raw text elements of documents. -/
def rawTextElements : List String := ["script", "style"]

/-- The void elements of documents. -/
def voidElements : List String :=
  ["area", "base", "br", "col", "embed", "hr", "img", "input", "link", "meta", "param",
    "source", "track", "wbr"]

/-- The vocabulary of documents. -/
def Vocabulary.document : Vocabulary := ⟨⟨rawTextElements⟩, ⟨voidElements⟩⟩

end TagColoring
