import TagColoring.Session.Editor

/-!
# Highlighting sessions

A session keeps the drawings of one editor up to date.  Every change calls
`trigger`, which makes a timer for a rescan and cancels the one before, so that
many changes in a row cost one scan.  `deactivate` cancels the timer and removes
all drawings.

A *generation* counts the calls that make earlier scans worthless.  A scan holds
the generation at which it began.  It asks the editor for the buffer, and the
editor takes a snapshot of it at some point of the call.  When the result is
there, it is drawn only if the generation is still the same.  A timer holds the
generation it was made for, and goes off without effect if that has passed or the
session is not active.  The generation moves on before the editor makes the timer,
also if the editor then refuses to.

Calls of the editor can come back into the session, so one call of a session is
not one step.  A session is a machine with an *agenda* of tasks.  A task that
calls the editor puts the actions of the hook in front of what is still to be
done.  Actions fail on purpose, and so does a notice that cannot be written.  A
failure drops what is to be done up to the place where it is caught, and all of it
if it is not caught (`rescued?`).

* `World.act` says what each action does and which tasks it leaves.
* `World.step` says the same of each task.

`TagColoring.Session.Run` runs an agenda to its end.
-/

namespace TagColoring

/-- The state of a session. -/
structure Session where
  active : Bool := false
  /-- How many calls have made earlier scans worthless. -/
  generation : Nat := 0
  /-- The number of the timer that has not gone off yet. -/
  pending : Option Nat := none
  /-- What the last scan gave. -/
  decorations : Decorations
deriving DecidableEq, Repr

/-- A session, its editor, and what has happened. -/
structure World where
  session : Session
  editor : Editor
  /-- The calls of the editor, oldest first. -/
  events : List Event := []
  /-- The notices of the session, oldest first. -/
  notices : List Notice := []

/-- Why a session could not go on. -/
inductive Failure where
  /-- An action failed on purpose, or a timer was refused. -/
  | deliberate
  /-- A notice could not be written, since its delay is too large. -/
  | unwritable
deriving DecidableEq, Repr

/-- Something a session still has to do. -/
inductive Task where
  | act (action : Action)
  | note (notice : Notice)
  | cancel (timer : Nat)
  | start (timer : Nat)
  /-- All decorations and drawings are removed. -/
  | wipe
  /-- A scan for a generation begins, and asks for the buffer. -/
  | scan (generation : Nat)
  /-- The buffer for a scan is taken. -/
  | snapshot (generation : Nat)
  /-- The buffer for a scan is there. -/
  | deliver (generation : Nat) (buffer : Option Buffer)
  | paint (bucket : Bucket)
  /-- Failures of what stands before it are caught here. -/
  | rescue

/-- What is still to be done after a failure that is caught. -/
def rescued? : List Task → Option (List Task)
  | [] => none
  | .rescue :: rest => some rest
  | _ :: rest => rescued? rest

namespace World

/-- A session that is not active, in an editor with a buffer. -/
def start (s : Settings) (buffer : Option Buffer) (immediate : Bool) : World where
  session := { decorations := s.noDecorations }
  editor := { buffer := buffer, immediate := immediate }

/-- Add a call of the editor. -/
def record (w : World) (e : Event) : World := { w with events := w.events ++ [e] }

/-- Add a notice. -/
def report (w : World) (n : Notice) : World := { w with notices := w.notices ++ [n] }

/-- Let the editor react.  Its hook is used up, and the tasks are the actions of
it. -/
def react (w : World) (place : HookPlace) : World × List Task :=
  let hooks := w.editor.hooks
  ({ w with editor := { w.editor with hooks := hooks.set [] place } },
    (hooks.get place).map Task.act)

/-- Make a call of the editor, and let it react. -/
def call (w : World) (e : Event) (place : HookPlace) : World × List Task :=
  (w.record e).react place

/-- Ask for a timer and fail, since the editor refuses to make one.  The pending
timer stays, but its generation has passed. -/
def lapse (w : World) : World × List Task :=
  ({ w with session := { w.session with generation := w.session.generation + 1 } }, [.act .fail])

/-- Make a timer for a rescan, in place of the pending one. -/
def replace (s : Settings) (w : World) : World × List Task :=
  let generation := w.session.generation + 1
  let number := w.editor.timers.length
  let replaced := match w.session.pending with
    | some previous => [Task.cancel previous, Task.note .superseded]
    | none => []
  ({ w.record (.timer number s.debounceSeconds) with
      session := { w.session with generation := generation, pending := some number }
      editor := { w.editor with timers := w.editor.timers ++ [generation] } },
    replaced ++ [.note (.scheduled s.debounceSeconds), .start number])

/-- Schedule a rescan. -/
def schedule (s : Settings) (w : World) : World × List Task :=
  if w.editor.refuses then w.lapse else w.replace s

/-- Tell the session of a change. -/
def trigger (s : Settings) (w : World) : World × List Task :=
  if w.session.active then w.schedule s else (w, [])

/-- Activate the session. -/
def activate (s : Settings) (w : World) : World × List Task :=
  ({ w.report .activated with session := { w.session with active := true } } : World).schedule s

/-- Deactivate the session. -/
def deactivate (w : World) : World × List Task :=
  let cancelled := match w.session.pending with
    | some timer => [Task.cancel timer, Task.note .cancelled]
    | none => []
  ({ w with session :=
      { w.session with
        active := false, generation := w.session.generation + 1, pending := none } },
    cancelled ++ [.wipe, .note .deactivated])

/-- A timer that was made for a generation goes off. -/
def expire (w : World) (generation : Nat) : World × List Task :=
  if generation = w.session.generation && w.session.active then
    ({ w with session := { w.session with pending := none } }, [.scan generation])
  else (w, [])

/-- The timer with a number goes off. -/
def fire (w : World) (timer : Int) : World × List Task :=
  match if timer < 0 then none else w.editor.timers[timer.toNat]? with
  | some generation => w.expire generation
  | none => (w.record .noTimer, [])

/-- What an action does, and the tasks it leaves. -/
def act (s : Settings) (w : World) : Action → Except Failure (World × List Task)
  | .activate => .ok (w.activate s)
  | .deactivate => .ok w.deactivate
  | .trigger => .ok (w.trigger s)
  | .refresh => .ok (w.trigger s)
  | .updateNow => .ok (w, [.scan w.session.generation])
  | .fire timer => .ok (w.fire timer)
  | .fireLast => .ok (w.fire ((w.editor.timers.length : Int) - 1))
  | .setBuffer buffer => .ok ({ w with editor := { w.editor with buffer := buffer } }, [])
  | .hook place body =>
      .ok ({ w with editor := { w.editor with hooks := w.editor.hooks.set body place } }, [])
  | .attempt body => .ok (w, body.map Task.act ++ [.rescue])
  | .refuse refuses => .ok ({ w with editor := { w.editor with refuses := refuses } }, [])
  | .fail => .error .deliberate

/-- The scan of a buffer, if it carries markup. -/
def scanOf (s : Settings) (buffer : Option Buffer) : Option Scan :=
  buffer.bind fun b => b.kind?.map fun kind => s.scan kind b.text

/-- The decorations of a scan.  A buffer without markup has none. -/
def decorationsOf (s : Settings) (scan : Option Scan) : Decorations :=
  match scan with
  | some scan => (s.noDecorations.extend scan.spans).1
  | none => s.noDecorations

/-- The buffer for a scan is there.  Unless the scan is worthless by now, its
decorations replace the old ones and are drawn, all buckets of them.  A buffer
without markup has its drawings removed. -/
def deliver (s : Settings) (w : World) (generation : Nat) (buffer : Option Buffer) :
    World × List Task :=
  let scan := scanOf s buffer
  let reported := match scan with
    | some scan => w.report scan.notice
    | none => w
  if generation = w.session.generation then
    let decorations := decorationsOf s scan
    let updated := { reported with session := { w.session with decorations := decorations } }
    match scan with
    | some _ => (updated, decorations.buckets.map Task.paint)
    | none => updated.call .clear .clear
  else (reported.report .discarded, [])

/-- The drawing of a bucket in the color and the intensity of the settings. -/
def drawing (s : Settings) (b : Bucket) : Event :=
  .apply b (s.palette.getD b.index (.scalar .null)) (s.intensity b.channel)

/-- What a task does, and the tasks that come before all others. -/
def step (s : Settings) (w : World) : Task → Except Failure (World × List Task)
  | .act action => w.act s action
  | .note notice => if notice.writable then .ok (w.report notice, []) else .error .unwritable
  | .cancel timer => .ok (w.call (.cancel timer) .cancel)
  | .start timer =>
      let started := w.call (.start timer) .start
      .ok (started.1,
        if w.editor.immediate then .act (.fire timer) :: started.2 else started.2)
  | .wipe =>
      let session := { w.session with decorations := s.noDecorations }
      .ok (({ w with session := session } : World).call .clear .clear)
  | .scan generation =>
      let asked := w.call .read .request
      .ok (asked.1, asked.2 ++ [.snapshot generation])
  | .snapshot generation =>
      let taken := w.react .read
      .ok (taken.1, taken.2 ++ [.deliver generation w.editor.buffer])
  | .deliver generation buffer => .ok (w.deliver s generation buffer)
  | .paint bucket => .ok (w.call (drawing s bucket) .apply)
  | .rescue => .ok (w, [])

end World

end TagColoring
