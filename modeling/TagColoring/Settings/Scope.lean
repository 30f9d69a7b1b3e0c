import TagColoring.Settings.Table

/-!
# The scope of settings

At any moment one settings value is *active*, and a scan without settings of its
own uses it.  A script changes it by commands.

* `set` makes other settings active, and `reset` the default ones.
* `within` makes settings active for a list of commands, and then those that
  were active before, however the list ends.
* `apart` runs a list of commands on its own, as another thread would.  They
  start at the default settings, and what they change is not seen outside.

A command may fail, because of a table that gives no settings or on purpose.
The commands after it still run.  The exception is a deliberate failure directly
in the list of `within`: it leaves the list at once, and the failure is that of
the `within` itself.

Every command gives an answer, which also shows the active settings after it, as
seen where it ran.
-/

namespace TagColoring

/-- A command of a script. -/
inductive ScopeCommand where
  /-- Look at the active settings. -/
  | get
  /-- Make the settings of a table active. -/
  | set (table : SettingsTable)
  | reset
  /-- Scan a text, with settings of its own or the active ones. -/
  | scan (text : List Char) (kind : ContentKind) (table : Option SettingsTable)
  | fail
  /-- Run commands with the settings of a table. -/
  | within (table : SettingsTable) (body : List ScopeCommand)
  /-- Run commands apart from all others. -/
  | apart (body : List ScopeCommand)
deriving Inhabited

/-- Why a command failed. -/
inductive ScopeError where
  /-- Its table gives no settings. -/
  | settings (error : SettingsError)
  | deliberate

/-- The answer of a command. -/
inductive ScopeAnswer where
  /-- The answer of a plain command, with the spans of a scan. -/
  | plain (error : Option ScopeError) (spans : Option (List Span)) (active : Settings)
  /-- The answer of commands with other settings, if these could be had. -/
  | within (error : Option ScopeError) (entered : Bool) (body : List ScopeAnswer)
      (active : Settings)
  /-- The answer of commands apart. -/
  | apart (body : List ScopeAnswer) (active : Settings)

/-- Scan a text in a scope. -/
def scanIn (active : Settings) (text : List Char) (kind : ContentKind)
    (table : Option SettingsTable) : ScopeAnswer :=
  match table with
  | none => .plain none (some (active.scan kind text).spans) active
  | some table =>
      match table.settings with
      | .ok s => .plain none (some (s.scan kind text).spans) active
      | .error e => .plain (some (.settings e)) none active

mutual

/-- Run one command.  The result is its answer and the settings that are active
after it. -/
def ScopeCommand.run (active : Settings) : ScopeCommand → ScopeAnswer × Settings
  | .get => (.plain none none active, active)
  | .set table =>
      match table.settings with
      | .ok s => (.plain none none s, s)
      | .error e => (.plain (some (.settings e)) none active, active)
  | .reset => (.plain none none Settings.default, Settings.default)
  | .scan text kind table => (scanIn active text kind table, active)
  | .fail => (.plain (some .deliberate) none active, active)
  | .within table body =>
      match table.settings with
      | .ok s =>
          let inner := runWithin s body
          (.within (if inner.2 then some .deliberate else none) true inner.1 active, active)
      | .error e => (.within (some (.settings e)) false [] active, active)
  | .apart body => (.apart (runAll Settings.default body) active, active)

/-- Run commands one after another. -/
def runAll (active : Settings) : List ScopeCommand → List ScopeAnswer
  | [] => []
  | c :: cs =>
      let first := c.run active
      first.1 :: runAll first.2 cs

/-- Run commands up to a deliberate failure.  The second part of the result
tells whether there was one. -/
def runWithin (active : Settings) : List ScopeCommand → List ScopeAnswer × Bool
  | [] => ([], false)
  | .fail :: _ => ([], true)
  | c :: cs =>
      let first := c.run active
      let rest := runWithin first.2 cs
      (first.1 :: rest.1, rest.2)

end

/-- Run a script from the default settings. -/
def runScript (script : List ScopeCommand) : List ScopeAnswer := runAll Settings.default script

end TagColoring
