import TagColoring.Settings

/-!
# The editor around a session

A session lives in an editor.  It reads the current buffer from it, draws into
it, and asks it for timers.  Each of these calls is an *event*.

Calls can come back.  While the editor reads the buffer, draws, clears, or starts
or cancels a timer, it may itself call the session or change something.  Such a
reaction is a *hook*: a list of actions that run inside the next call of one
sort.  A hook runs once.  A read can have two of them, one before the buffer is
taken and one after.

An *action* is anything that can happen from outside: a call of the session, a
timer that goes off, a change of the buffer, a new hook, or a failure.  Any timer
can go off at any time, even a cancelled one, and more than once.  A hook may
catch the failures of some of its actions and go on.

The editor may refuse to make a timer, which is a failure.  It is assumed that it
does not call the session while it makes one.
-/

namespace TagColoring

/-- What an editor knows about its current buffer. -/
structure Buffer where
  text : List Char
  /-- The identifier of its language. -/
  language : Option String := none
  /-- The name of its file. -/
  fileName : Option String := none
deriving DecidableEq, Repr

/-- How the buffer carries markup. -/
def Buffer.kind? (b : Buffer) : Option ContentKind := classify b.language b.fileName

/-- The calls that can have a hook. -/
inductive HookPlace where
  /-- The buffer is asked for and not taken yet. -/
  | request
  /-- The buffer is taken and not handed over yet. -/
  | read
  | apply
  | clear
  | cancel
  | start
deriving DecidableEq, Repr

/-- Something that happens from outside. -/
inductive Action where
  | activate
  | deactivate
  /-- The session is told of a change. -/
  | trigger
  /-- The session is asked to scan again. -/
  | refresh
  /-- The session is asked to scan at once. -/
  | updateNow
  /-- The timer with a number goes off. -/
  | fire (timer : Int)
  /-- The newest timer goes off. -/
  | fireLast
  /-- Another buffer, or none, becomes the current one. -/
  | setBuffer (buffer : Option Buffer)
  /-- The next call of a sort gets a hook, in place of the one it had. -/
  | hook (place : HookPlace) (body : List Action)
  /-- Some actions are done, up to a failure, which is caught. -/
  | attempt (body : List Action)
  /-- From now on the editor makes timers, or refuses to. -/
  | refuse (refuses : Bool)
  | fail
deriving Inhabited, Repr

/-- A call of the editor. -/
inductive Event where
  | read
  /-- A bucket was drawn, in place of what it had, with a color and an
  intensity. -/
  | apply (bucket : Bucket) (color : Datum) (intensity : Numeral)
  | clear
  /-- A timer was made, with a delay in seconds. -/
  | timer (number : Nat) (delay : Numeral)
  | start (number : Nat)
  | cancel (number : Nat)
  /-- A timer that does not exist should have gone off. -/
  | noTimer
deriving DecidableEq, Repr

/-- The hooks of an editor.  An empty list is no hook. -/
structure Hooks where
  request : List Action := []
  read : List Action := []
  apply : List Action := []
  clear : List Action := []
  cancel : List Action := []
  start : List Action := []

/-- The hook of a sort of call. -/
def Hooks.get (h : Hooks) : HookPlace → List Action
  | .request => h.request
  | .read => h.read
  | .apply => h.apply
  | .clear => h.clear
  | .cancel => h.cancel
  | .start => h.start

/-- Replace the hook of a sort of call. -/
def Hooks.set (h : Hooks) (body : List Action) : HookPlace → Hooks
  | .request => { h with request := body }
  | .read => { h with read := body }
  | .apply => { h with apply := body }
  | .clear => { h with clear := body }
  | .cancel => { h with cancel := body }
  | .start => { h with start := body }

@[simp] theorem Hooks.get_set (h : Hooks) (body : List Action) (place : HookPlace) :
    (h.set body place).get place = body := by
  cases place <;> rfl

theorem Hooks.get_set_ne (h : Hooks) (body : List Action) {place other : HookPlace}
    (hne : other ≠ place) : (h.set body place).get other = h.get other := by
  cases place <;> cases other <;> first | rfl | exact absurd rfl hne

/-- The state of an editor. -/
structure Editor where
  buffer : Option Buffer
  /-- Whether a timer goes off as soon as it is started. -/
  immediate : Bool := false
  /-- Whether the editor refuses to make timers. -/
  refuses : Bool := false
  hooks : Hooks := {}
  /-- The timers made so far, oldest first.  Each holds the generation of the
  session that it was made for. -/
  timers : List Nat := []

end TagColoring
