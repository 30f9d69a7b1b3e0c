import TagColoring.Session
import TagColoring.Settings.Table

/-!
# Running a session

`World.run` does the tasks of an agenda until none is left, or until one fails and
the failure is not caught.  It ends because every step makes the *load* smaller.
The load counts the tasks of the agenda and the actions that wait in hooks, each
with the most work it can bring.  A scan can bring one drawing for each bucket, so
its weight depends on the size of the palette.  An action that sets a hook weighs
more than the actions of the hook, and a hook runs once.

`World.perform` does one action from outside and gives a report of it.
-/

namespace TagColoring

/-! ## The load -/

mutual

/-- The weight of an action, for a palette of a size. -/
def Action.weight (size : Nat) : Action → Nat
  | .hook _ body => 1 + weightAll size body
  | .attempt body => 2 + weightAll size body
  | .fire _ => 2 * size + 4
  | .fireLast => 2 * size + 4
  | .fail => 1
  | _ => 2 * size + 9

/-- The weight of a list of actions. -/
def weightAll (size : Nat) : List Action → Nat
  | [] => 0
  | a :: as => a.weight size + weightAll size as

end

/-- The weight of a task, for a palette of a size. -/
def Task.weight (size : Nat) : Task → Nat
  | .act action => action.weight size
  | .note _ => 1
  | .cancel _ => 1
  | .start _ => 2 * size + 5
  | .wipe => 1
  | .scan _ => 2 * size + 3
  | .snapshot _ => 2 * size + 2
  | .deliver _ _ => 2 * size + 1
  | .paint _ => 1
  | .rescue => 1

/-- The weight of an agenda. -/
def agendaWeight (size : Nat) (agenda : List Task) : Nat := total (agenda.map (Task.weight size))

/-- The weight of the actions that wait in hooks. -/
def Hooks.weight (size : Nat) (h : Hooks) : Nat :=
  weightAll size h.request + weightAll size h.read + weightAll size h.apply
    + weightAll size h.clear + weightAll size h.cancel + weightAll size h.start

@[simp] theorem agendaWeight_nil (size : Nat) : agendaWeight size [] = 0 := rfl

@[simp] theorem agendaWeight_cons (size : Nat) (t : Task) (ts : List Task) :
    agendaWeight size (t :: ts) = t.weight size + agendaWeight size ts := by
  simp [agendaWeight]

@[simp] theorem agendaWeight_append (size : Nat) (ts us : List Task) :
    agendaWeight size (ts ++ us) = agendaWeight size ts + agendaWeight size us := by
  simp [agendaWeight]

theorem agendaWeight_map_act (size : Nat) (actions : List Action) :
    agendaWeight size (actions.map Task.act) = weightAll size actions := by
  induction actions with
  | nil => rfl
  | cons a as ih => simp [weightAll, Task.weight, ih]

theorem agendaWeight_map_paint (size : Nat) (buckets : List Bucket) :
    agendaWeight size (buckets.map Task.paint) = buckets.length := by
  induction buckets with
  | nil => rfl
  | cons b bs ih =>
      simp only [List.map_cons, agendaWeight_cons, Task.weight, ih, List.length_cons]
      omega

theorem Action.weight_pos (size : Nat) (a : Action) : 0 < a.weight size := by
  cases a with
  | hook place body => exact Nat.add_pos_left Nat.one_pos _
  | attempt body => exact Nat.add_pos_left Nat.two_pos _
  | _ => exact Nat.succ_pos _

theorem Task.weight_pos (size : Nat) (t : Task) : 0 < t.weight size := by
  cases t with
  | act action => exact action.weight_pos size
  | _ => exact Nat.succ_pos _

theorem agendaWeight_rescued (size : Nat) {agenda left : List Task}
    (h : rescued? agenda = some left) : agendaWeight size left ≤ agendaWeight size agenda := by
  fun_induction rescued? agenda with
  | case1 => cases h
  | case2 rest =>
      cases h
      simp
  | case3 t rest _ ih =>
      rw [agendaWeight_cons]
      exact Nat.le_trans (ih h) (Nat.le_add_left _ _)

/-- Using up a hook moves its weight to the agenda. -/
theorem Hooks.weight_set_nil (size : Nat) (h : Hooks) (place : HookPlace) :
    (h.set [] place).weight size + weightAll size (h.get place) = h.weight size := by
  cases place <;> simp [Hooks.set, Hooks.get, Hooks.weight, weightAll] <;> omega

/-- A new hook adds at most its own weight. -/
theorem Hooks.weight_set_le (size : Nat) (h : Hooks) (body : List Action) (place : HookPlace) :
    (h.set body place).weight size ≤ h.weight size + weightAll size body := by
  cases place <;> simp [Hooks.set, Hooks.weight] <;> omega

namespace World

/-- The load of a world and an agenda. -/
def load (size : Nat) (w : World) (agenda : List Task) : Nat :=
  w.editor.hooks.weight size + agendaWeight size agenda

theorem load_react (size : Nat) (w : World) (place : HookPlace) :
    (w.react place).1.load size (w.react place).2 = w.editor.hooks.weight size := by
  simp only [react, load, agendaWeight_map_act]
  exact Hooks.weight_set_nil size w.editor.hooks place

theorem load_call (size : Nat) (w : World) (e : Event) (place : HookPlace) :
    (w.call e place).1.load size (w.call e place).2 = w.editor.hooks.weight size :=
  load_react size (w.record e) place

theorem load_schedule (s : Settings) (size : Nat) (w : World) :
    (w.schedule s).1.load size (w.schedule s).2 ≤ w.editor.hooks.weight size + (2 * size + 8) := by
  unfold schedule
  split
  · simp [lapse, load, Task.weight, Action.weight]
  · simp only [replace, record, load]
    split <;> simp [Task.weight] <;> omega

theorem load_trigger (s : Settings) (size : Nat) (w : World) :
    (w.trigger s).1.load size (w.trigger s).2 ≤ w.editor.hooks.weight size + (2 * size + 8) := by
  unfold trigger
  split
  · exact load_schedule s size w
  · simp [load]

theorem load_expire (size : Nat) (w : World) (generation : Nat) :
    (w.expire generation).1.load size (w.expire generation).2
      ≤ w.editor.hooks.weight size + (2 * size + 3) := by
  simp only [expire, load]
  split <;> simp [Task.weight]

theorem load_fire (size : Nat) (w : World) (timer : Int) :
    (w.fire timer).1.load size (w.fire timer).2
      ≤ w.editor.hooks.weight size + (2 * size + 3) := by
  unfold fire
  split
  · exact load_expire size w _
  · simp [record, load]

theorem load_act {s : Settings} {size : Nat} {w w' : World} {a : Action} {tasks : List Task}
    (h : w.act s a = .ok (w', tasks)) :
    w'.load size tasks < w.editor.hooks.weight size + a.weight size := by
  cases a with
  | activate =>
      simp only [act, activate, Except.ok.injEq] at h
      have := load_schedule s size
        { w.report .activated with session := { w.session with active := true } }
      rw [h] at this
      simp only [report, Action.weight] at this ⊢
      omega
  | deactivate =>
      simp only [act, deactivate, Except.ok.injEq, Prod.mk.injEq] at h
      obtain ⟨rfl, rfl⟩ := h
      simp only [load, Action.weight]
      split <;> simp [Task.weight]
  | trigger =>
      simp only [act, Except.ok.injEq] at h
      have := load_trigger s size w
      rw [h] at this
      simp only [Action.weight] at this ⊢
      omega
  | refresh =>
      simp only [act, Except.ok.injEq] at h
      have := load_trigger s size w
      rw [h] at this
      simp only [Action.weight] at this ⊢
      omega
  | updateNow =>
      cases h
      simp [load, Action.weight, Task.weight]
  | fire timer =>
      simp only [act, Except.ok.injEq] at h
      have := load_fire size w timer
      rw [h] at this
      simp only [Action.weight] at this ⊢
      omega
  | fireLast =>
      simp only [act, Except.ok.injEq] at h
      have := load_fire size w ((w.editor.timers.length : Int) - 1)
      rw [h] at this
      simp only [Action.weight] at this ⊢
      omega
  | setBuffer buffer =>
      cases h
      simp [load, Action.weight]
  | hook place body =>
      cases h
      have := Hooks.weight_set_le size w.editor.hooks body place
      simp only [load, agendaWeight_nil, Action.weight]
      omega
  | attempt body =>
      cases h
      simp only [load, agendaWeight_append, agendaWeight_map_act, agendaWeight_cons,
        agendaWeight_nil, Task.weight, Action.weight]
      omega
  | refuse refuses =>
      cases h
      simp [load, Action.weight]
  | fail => cases h

theorem length_decorationsOf (s : Settings) (scan : Option Scan) :
    (decorationsOf s scan).buckets.length = 2 * s.paletteSize := by
  unfold decorationsOf
  split
  · rw [Decorations.length_buckets_extend, Settings.noDecorations,
      Decorations.length_buckets_empty, Int.toNat_natCast]
  · rw [Settings.noDecorations, Decorations.length_buckets_empty, Int.toNat_natCast]

theorem load_deliver (s : Settings) (w : World) (generation : Nat) (buffer : Option Buffer) :
    (w.deliver s generation buffer).1.load s.paletteSize (w.deliver s generation buffer).2
      ≤ w.editor.hooks.weight s.paletteSize + 2 * s.paletteSize := by
  simp only [deliver]
  split
  · split
    · simp only [load, agendaWeight_map_paint, length_decorationsOf, report]
      omega
    · rw [load_call]
      simp
  · simp only [load, agendaWeight_nil, report]
    split <;> simp

/-- Every step makes the load smaller. -/
theorem load_step {s : Settings} {w w' : World} {t : Task} {tasks : List Task}
    (h : w.step s t = .ok (w', tasks)) :
    w'.load s.paletteSize tasks < w.load s.paletteSize [t] := by
  simp only [load, agendaWeight_cons, agendaWeight_nil, Nat.add_zero]
  cases t with
  | act action => exact load_act h
  | note notice =>
      simp only [step] at h
      split at h
      · cases h
        simp [report, Task.weight]
      · cases h
  | cancel timer =>
      simp only [step, Except.ok.injEq] at h
      have := load_call s.paletteSize w (.cancel timer) .cancel
      rw [h] at this
      simp only [load, Task.weight] at this ⊢
      omega
  | start timer =>
      simp only [step, Except.ok.injEq, Prod.mk.injEq] at h
      obtain ⟨rfl, rfl⟩ := h
      have := load_call s.paletteSize w (.start timer) .start
      simp only [load] at this ⊢
      split
      · simp only [agendaWeight_cons, Task.weight, Action.weight]
        omega
      · simp only [Task.weight]
        omega
  | wipe =>
      simp only [step, Except.ok.injEq] at h
      have := load_call s.paletteSize
        { w with session := { w.session with decorations := s.noDecorations } } .clear .clear
      rw [h] at this
      simp only [load, Task.weight] at this ⊢
      omega
  | scan generation =>
      simp only [step, Except.ok.injEq, Prod.mk.injEq] at h
      obtain ⟨rfl, rfl⟩ := h
      have := load_call s.paletteSize w .read .request
      simp only [load, agendaWeight_append, agendaWeight_cons, agendaWeight_nil,
        Task.weight] at this ⊢
      omega
  | snapshot generation =>
      simp only [step, Except.ok.injEq, Prod.mk.injEq] at h
      obtain ⟨rfl, rfl⟩ := h
      have := load_react s.paletteSize w .read
      simp only [load, agendaWeight_append, agendaWeight_cons, agendaWeight_nil,
        Task.weight] at this ⊢
      omega
  | deliver generation buffer =>
      simp only [step, Except.ok.injEq] at h
      have := load_deliver s w generation buffer
      rw [h] at this
      simp only [load, Task.weight] at this ⊢
      omega
  | paint bucket =>
      simp only [step, Except.ok.injEq] at h
      have := load_call s.paletteSize w (drawing s bucket) .apply
      rw [h] at this
      simp only [load, Task.weight] at this ⊢
      omega
  | rescue =>
      cases h
      simp [Task.weight]

/-- What is done next makes the load smaller. -/
theorem load_next {s : Settings} {w w' : World} {t : Task} {tasks : List Task}
    (h : w.step s t = .ok (w', tasks)) (rest : List Task) :
    w'.load s.paletteSize (tasks ++ rest) < w.load s.paletteSize (t :: rest) := by
  have := load_step h
  simp only [load, agendaWeight_append, agendaWeight_cons, agendaWeight_nil] at this ⊢
  omega

/-- What is done after a failure makes the load smaller. -/
theorem load_rescued (size : Nat) (w : World) (t : Task) {rest left : List Task}
    (h : rescued? rest = some left) : w.load size left < w.load size (t :: rest) := by
  have hle := agendaWeight_rescued size h
  have hpos := t.weight_pos size
  simp only [load, agendaWeight_cons]
  omega

/-! ## Running an agenda -/

/-- Do the tasks of an agenda until none is left, or until one fails and the failure
is not caught.  The second part of the result is the failure. -/
def run (s : Settings) (w : World) (agenda : List Task) : World × Option Failure :=
  match agenda with
  | [] => (w, none)
  | t :: rest =>
      match h : w.step s t with
      | .error failure =>
          match hleft : rescued? rest with
          | none => (w, some failure)
          | some left =>
              have := load_rescued s.paletteSize w t hleft
              run s w left
      | .ok (w', tasks) =>
          have := load_next h rest
          run s w' (tasks ++ rest)
termination_by w.load s.paletteSize agenda

/-! ## Actions from outside -/

/-- What an action from outside did. -/
structure Report where
  session : Session
  events : List Event
  notices : List Notice
  failure : Option Failure

/-- Do an action from outside, with everything that comes of it. -/
def perform (s : Settings) (w : World) (action : Action) : Report × World :=
  let done := { w with events := [], notices := [] }.run s [.act action]
  (⟨done.1.session, done.1.events, done.1.notices, done.2⟩, done.1)

/-- Do actions from outside one after another.  A failure ends only its own
action. -/
def performAll (s : Settings) (w : World) : List Action → List Report
  | [] => []
  | a :: as =>
      let done := w.perform s a
      done.1 :: performAll s done.2 as
termination_by structural as => as

end World

/-- The settings of a session: those of its own table, else those of the table
that is active when it is made, else the default ones.  Both tables are read,
the own one first. -/
def sessionSettings (own active : Option SettingsTable) : Except SettingsError Settings := do
  let own ← own.mapM SettingsTable.settings
  let active ← active.mapM SettingsTable.settings
  return own.getD (active.getD Settings.default)

end TagColoring
