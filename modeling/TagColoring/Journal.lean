import TagColoring.Content
import TagColoring.Number.Numeral

/-!
# The journal

The library reports what it does as *notices*.  A notice is a value, and its
line of text is written in one place.  A line names the part of the library it
comes from, below one common name, so that an editor can filter all of them.
-/

namespace TagColoring

/-- Something the library reports. -/
inductive Notice where
  | scanned (length : Nat) (kind : ContentKind) (tags spans : Nat)
  | activated
  | deactivated
  /-- A rescan will run after a delay in seconds. -/
  | scheduled (delay : Numeral)
  /-- A rescan that had not run was replaced by a later one. -/
  | superseded
  /-- A rescan that had not run was cancelled. -/
  | cancelled
  /-- The result of a scan came too late. -/
  | discarded
deriving DecidableEq, Repr

/-- The common name of all sources of notices. -/
def journalRoot : String := "rainbowtags"

/-- The full name of a source of notices.  A name that is the common one, or is
below it, stays as it is, and any other is put below it. -/
def sourceName (name : String) : String :=
  if name = journalRoot || (journalRoot ++ ".").toList.isPrefixOf name.toList then name
  else journalRoot ++ "." ++ name

/-- The source of a notice. -/
def Notice.source : Notice → String
  | .scanned .. => sourceName "scanner"
  | _ => sourceName "session"

/-- The text of a notice. -/
def Notice.message : Notice → String
  | .scanned length kind tags spans =>
      "Scanned " ++ toString length ++ " chars (" ++ kind.name ++ "): " ++ toString tags
        ++ " tags, " ++ toString spans ++ " spans"
  | .activated => "Session activated"
  | .deactivated => "Session deactivated"
  | .scheduled delay => "Rescan scheduled in " ++ delay.milliText ++ "s"
  | .superseded => "Superseded pending rescan"
  | .cancelled => "Cancelled pending rescan"
  | .discarded => "Discarded superseded rescan"

/-- Whether a notice can be written.  A delay that is too large for double
precision has no text. -/
def Notice.writable : Notice → Bool
  | .scheduled delay => delay.fits
  | _ => true

/-- The line of a notice in the journal. -/
def Notice.line (n : Notice) : String := n.source ++ ": " ++ n.message

end TagColoring
