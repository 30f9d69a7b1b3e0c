import TagColoring.Proofs.Debounce

/-!
# What tasks do to decorations, drawings and scans

Of the tasks of a session only a few change its decorations, draw, or begin a scan.
`World.Effect` lists them, and everything else that a task can do is *plain*.  What
is said about decorations and drawings goes through its seven cases instead of
through all tasks and actions.

Two things follow at once.

* A scan is the first thing to be done when it is on the agenda, and it is for the
  generation of the session.  What waits for a snapshot or a result is never for a
  later one (`Reachable.timely`).
* The decorations are those of the last moment that set any
  (`Course.decorations_eq`).
-/

namespace TagColoring

/-- Whether a call of the editor changes what is drawn. -/
def Event.draws : Event → Bool
  | .apply _ _ _ => true
  | .clear => true
  | _ => false

/-- Tasks that neither begin a scan nor belong to one. -/
def Task.minor : Task → Bool
  | .scan _ => false
  | t => !t.finishes

namespace World

variable {s : Settings} {w : World}

/-! ## Effects -/

/-- A result without new decorations and drawings, and without anything to be drawn.  A
scan in it is all there is to do, and is for the generation of the session. -/
structure Plain (w : World) (result : World × List Task) : Prop where
  decorations : result.1.session.decorations = w.session.decorations
  events : ∃ added, result.1.events = w.events ++ added ∧ ∀ e ∈ added, e.draws = false
  tasks : ∀ t ∈ result.2, t.finishes = false
  scan : ∀ generation, .scan generation ∈ result.2 →
    result.2 = [.scan generation] ∧ generation = result.1.session.generation

/-- What a task does. -/
inductive Effect (s : Settings) (w : World) : Task → World × List Task → Prop where
  | plain {t : Task} {result : World × List Task} (ht : t.finishes = false) (hwipe : t ≠ .wipe)
      (h : Plain w result) : Effect s w t result
  /-- The buffer is asked for. -/
  | read (generation : Nat) : Effect s w (.scan generation)
      ((w.call .read .request).1, (w.call .read .request).2 ++ [.snapshot generation])
  /-- The buffer is taken. -/
  | snapshot (generation : Nat) : Effect s w (.snapshot generation)
      ((w.react .read).1, (w.react .read).2 ++ [.deliver generation w.editor.buffer])
  /-- A result comes too late. -/
  | discard {generation : Nat} (buffer : Option Buffer)
      (h : generation ≠ w.session.generation) :
      Effect s w (.deliver generation buffer) (w.discard s buffer, [])
  /-- A result is drawn. -/
  | draw {buffer : Option Buffer} {scan : Scan} (h : scanOf s buffer = some scan) :
      Effect s w (.deliver w.session.generation buffer)
        ({ w with
            session := { w.session with decorations := decorationsOf s (some scan) }
            notices := w.notices ++ [scan.notice] },
          (decorationsOf s (some scan)).buckets.map Task.paint)
  /-- All drawings are removed, since there is nothing to scan or the session is
  deactivated. -/
  | clear {t : Task} (h : t = .wipe ∨ ∃ buffer, t = .deliver w.session.generation buffer ∧
      scanOf s buffer = none) : Effect s w t ((w.bare s).call .clear .clear)
  | paint (bucket : Bucket) : Effect s w (.paint bucket) (w.call (drawing s bucket) .apply)

theorem plain_of_minor {result : World × List Task}
    (hdecorations : result.1.session.decorations = w.session.decorations)
    (hevents : ∃ added, result.1.events = w.events ++ added ∧ ∀ e ∈ added, e.draws = false)
    (htasks : ∀ t ∈ result.2, t.minor = true) : Plain w result where
  decorations := hdecorations
  events := hevents
  tasks := by
    intro t ht
    have hminor := htasks t ht
    cases t with
    | snapshot generation => cases hminor
    | deliver generation buffer => cases hminor
    | paint bucket => cases hminor
    | _ => rfl
  scan := fun generation ht => by cases htasks _ ht

/-- The editor is not called. -/
theorem plain_silent {result : World × List Task}
    (hdecorations : result.1.session.decorations = w.session.decorations)
    (hevents : result.1.events = w.events) (htasks : ∀ t ∈ result.2, t.minor = true) :
    Plain w result :=
  plain_of_minor hdecorations ⟨[], by rw [hevents, List.append_nil], nofun⟩ htasks

theorem plain_none {w' : World} (hsession : w'.session.decorations = w.session.decorations)
    (hevents : w'.events = w.events) : Plain w (w', []) :=
  plain_silent hsession hevents nofun

/-- A scan begins, for the generation of the session. -/
theorem plain_scan (w' : World) (hsession : w'.session.decorations = w.session.decorations)
    (hevents : w'.events = w.events) : Plain w (w', [.scan w'.session.generation]) where
  decorations := hsession
  events := ⟨[], by rw [hevents, List.append_nil], nofun⟩
  tasks := by simp [Task.finishes]
  scan := by
    intro generation ht
    cases List.mem_singleton.mp ht
    exact ⟨rfl, rfl⟩

theorem minor_map_act (actions : List Action) : ∀ t ∈ actions.map Task.act, t.minor = true := by
  intro t ht
  obtain ⟨action, _, rfl⟩ := List.mem_map.mp ht
  rfl

theorem plain_call {e : Event} (h : e.draws = false) (place : HookPlace) :
    Plain w (w.call e place) :=
  plain_of_minor rfl ⟨[e], rfl, by simpa using h⟩ (minor_map_act _)

theorem plain_schedule (s : Settings) (w : World) : Plain w (w.schedule s) := by
  unfold schedule
  split
  · exact plain_silent rfl rfl (by simp [lapse, Task.minor, Task.finishes])
  · refine plain_of_minor rfl ⟨[.timer w.editor.timers.length s.debounceSeconds], rfl,
      by simp [Event.draws]⟩ ?_
    simp only [replace]
    split
    · simp [Task.minor, Task.finishes]
    · simp [Task.minor, Task.finishes]

theorem plain_trigger (s : Settings) (w : World) : Plain w (w.trigger s) := by
  unfold trigger
  split
  · exact plain_schedule s w
  · exact plain_none rfl rfl

theorem plain_deactivate (w : World) : Plain w w.deactivate := by
  refine plain_silent rfl rfl ?_
  simp only [deactivate]
  split
  · simp [Task.minor, Task.finishes]
  · simp [Task.minor, Task.finishes]

theorem plain_fire (w : World) (timer : Int) : Plain w (w.fire timer) := by
  unfold fire
  split
  · unfold expire
    split
    · next hdue =>
        simp only [Bool.and_eq_true, decide_eq_true_eq] at hdue
        obtain ⟨rfl, _⟩ := hdue
        exact plain_scan w.idle rfl rfl
    · exact plain_none rfl rfl
  · exact plain_of_minor rfl ⟨[.noTimer], rfl, by simp [Event.draws]⟩ nofun

theorem plain_attempt (w : World) (body : List Action) :
    Plain w (w, body.map Task.act ++ [.rescue]) := by
  refine plain_silent rfl rfl ?_
  exact List.forall_mem_append.mpr ⟨minor_map_act body, by simp [Task.minor, Task.finishes]⟩

theorem plain_act {action : Action} {result : World × List Task}
    (h : w.act s action = .ok result) : Plain w result := by
  cases action with
  | activate =>
      cases h
      obtain ⟨hdecorations, hevents, htasks, hscan⟩ := plain_schedule s
        { w.report .activated with session := { w.session with active := true } }
      exact ⟨hdecorations, hevents, htasks, hscan⟩
  | deactivate =>
      cases h
      exact plain_deactivate w
  | trigger =>
      cases h
      exact plain_trigger s w
  | refresh =>
      cases h
      exact plain_trigger s w
  | updateNow =>
      cases h
      exact plain_scan w rfl rfl
  | fire timer =>
      cases h
      exact plain_fire w timer
  | fireLast =>
      cases h
      exact plain_fire w _
  | attempt body =>
      cases h
      exact plain_attempt w body
  | fail => cases h
  | _ =>
      cases h
      exact plain_none rfl rfl

/-- The effect of a task is one of the list. -/
theorem effect_step {t : Task} {result : World × List Task} (h : w.step s t = .ok result) :
    Effect s w t result := by
  cases t with
  | act action => exact .plain rfl Task.noConfusion (plain_act h)
  | note notice =>
      simp only [step] at h
      split at h
      · cases h
        exact .plain rfl Task.noConfusion (plain_none rfl rfl)
      · cases h
  | cancel timer =>
      cases h
      exact .plain rfl Task.noConfusion (plain_call rfl .cancel)
  | start timer =>
      cases h
      refine .plain rfl Task.noConfusion (plain_of_minor rfl ⟨[.start timer], rfl, ?_⟩ ?_)
      · simp [Event.draws]
      · split
        · exact List.forall_mem_cons.mpr ⟨rfl, minor_map_act _⟩
        · exact minor_map_act _
  | wipe =>
      cases h
      exact .clear (.inl rfl)
  | scan generation =>
      cases h
      exact .read generation
  | snapshot generation =>
      cases h
      exact .snapshot generation
  | deliver generation buffer =>
      cases h
      rcases deliver_cases s w generation buffer with
        ⟨hlate, hd⟩ | ⟨rfl, scan, hscan, hd⟩ | ⟨rfl, hscan, hd⟩
      · rw [hd]
        exact .discard buffer hlate
      · rw [hd]
        exact .draw hscan
      · rw [hd]
        exact .clear (.inr ⟨buffer, rfl, hscan⟩)
  | paint bucket =>
      cases h
      exact .paint bucket
  | rescue =>
      cases h
      exact .plain rfl Task.noConfusion (plain_none rfl rfl)

/-! ## Scans on an agenda -/

/-- The generation of the scan whose snapshot or result a task waits for. -/
def awaited : Task → Option Nat
  | .snapshot generation => some generation
  | .deliver generation _ => some generation
  | _ => none

/-- Scans are done at once, and for the generation of the session.  A snapshot or a result
that is waited for is for this generation or an earlier one. -/
structure Timely (w : World) (agenda : List Task) : Prop where
  first : ∀ generation rest, agenda = .scan generation :: rest →
    generation = w.session.generation
  only : ∀ generation, .scan generation ∉ agenda.tail
  past : ∀ t ∈ agenda, ∀ generation ∈ awaited t, generation ≤ w.session.generation

theorem Timely.nil (w : World) : Timely w [] := ⟨nofun, nofun, nofun⟩

/-- What is left after a failure is timely, too. -/
theorem Timely.suffix {t : Task} {rest agenda : List Task} (h : Timely w (t :: rest))
    (hsuffix : agenda <:+ rest) : Timely w agenda where
  first := by
    rintro generation rest' rfl
    exact absurd (hsuffix.subset List.mem_cons_self) (h.only generation)
  only := fun generation hscan =>
    h.only generation (hsuffix.subset (List.mem_of_mem_tail hscan))
  past := fun u hu => h.past u (List.mem_cons_of_mem t (hsuffix.subset hu))

/-- A task that waits for something is no action of a hook. -/
theorem not_mem_react {place : HookPlace} {t : Task} (ht : ∀ action, t ≠ .act action) :
    t ∉ (w.react place).2 := by
  intro hmem
  obtain ⟨action, _, heq⟩ := mem_react hmem
  exact ht action heq

/-- What a task leads to is an action, or comes of a plain effect, or waits for a snapshot or
a result behind the actions of a hook, or draws. -/
theorem own_of_step {t u : Task} {result : World × List Task} (h : w.step s t = .ok result)
    (hu : u ∈ result.2) (hown : ∀ action, u ≠ .act action) :
    Plain w result ∨
    (∃ generation, t = .scan generation ∧ u = .snapshot generation ∧
      result.2 = (w.call .read .request).2 ++ [u]) ∨
    (∃ generation, t = .snapshot generation ∧ u = .deliver generation w.editor.buffer ∧
      result.2 = (w.react .read).2 ++ [u]) ∨
    ∃ bucket, u = .paint bucket := by
  cases effect_step h with
  | plain _ _ hplain => exact .inl hplain
  | read generation =>
      rcases List.mem_append.mp hu with hu | hu
      · exact absurd hu (not_mem_react hown)
      · cases List.mem_singleton.mp hu
        exact .inr (.inl ⟨generation, rfl, rfl, rfl⟩)
  | snapshot generation =>
      rcases List.mem_append.mp hu with hu | hu
      · exact absurd hu (not_mem_react hown)
      · cases List.mem_singleton.mp hu
        exact .inr (.inr (.inl ⟨generation, rfl, rfl, rfl⟩))
  | discard _ _ => cases hu
  | draw _ =>
      obtain ⟨bucket, _, rfl⟩ := List.mem_map.mp hu
      exact .inr (.inr (.inr ⟨bucket, rfl⟩))
  | clear _ => exact absurd hu (not_mem_react hown)
  | paint _ => exact absurd hu (not_mem_react hown)

/-- A scan that a task leads to is all there is to do. -/
theorem scan_of_step {t : Task} {result : World × List Task} {generation : Nat}
    (h : w.step s t = .ok result) (hscan : .scan generation ∈ result.2) :
    result.2 = [.scan generation] ∧ generation = result.1.session.generation := by
  rcases own_of_step h hscan fun _ => Task.noConfusion with
    hplain | ⟨_, _, heq, _⟩ | ⟨_, _, heq, _⟩ | ⟨_, heq⟩
  · exact hplain.scan generation hscan
  · cases heq
  · cases heq
  · cases heq

/-- Only a scan leads to a snapshot, behind the actions of a hook. -/
theorem snapshot_of_step {t : Task} {result : World × List Task} {generation : Nat}
    (h : w.step s t = .ok result) (hsnapshot : .snapshot generation ∈ result.2) :
    t = .scan generation ∧
      result.2 = (w.call .read .request).2 ++ [.snapshot generation] := by
  rcases own_of_step h hsnapshot fun _ => Task.noConfusion with
    hplain | ⟨_, ht, heq, htasks⟩ | ⟨_, _, heq, _⟩ | ⟨_, heq⟩
  · cases hplain.tasks _ hsnapshot
  · cases heq
    exact ⟨ht, htasks⟩
  · cases heq
  · cases heq

/-- Only a snapshot leads to a result.  It waits for it behind the actions of a hook. -/
theorem deliver_of_step {t : Task} {result : World × List Task} {generation : Nat}
    {buffer : Option Buffer} (h : w.step s t = .ok result)
    (hdeliver : .deliver generation buffer ∈ result.2) :
    t = .snapshot generation ∧ buffer = w.editor.buffer ∧
      result.2 = (w.react .read).2 ++ [.deliver generation buffer] := by
  rcases own_of_step h hdeliver fun _ => Task.noConfusion with
    hplain | ⟨_, _, heq, _⟩ | ⟨_, ht, heq, htasks⟩ | ⟨_, heq⟩
  · cases hplain.tasks _ hdeliver
  · cases heq
  · cases heq
    exact ⟨ht, rfl, htasks⟩
  · cases heq

/-- What a task makes wait is for the scan that it begins or goes on with. -/
theorem awaited_of_step {t u : Task} {result : World × List Task} {generation : Nat}
    (h : w.step s t = .ok result) (hu : u ∈ result.2) (hwaits : generation ∈ awaited u) :
    t = .scan generation ∨ generation ∈ awaited t := by
  cases u with
  | snapshot g =>
      cases Option.some.inj hwaits
      exact .inl (snapshot_of_step h hu).1
  | deliver g buffer =>
      cases Option.some.inj hwaits
      rw [(deliver_of_step h hu).1]
      exact .inr rfl
  | _ => cases hwaits

theorem generation_le_step {t : Task} {result : World × List Task}
    (h : w.step s t = .ok result) : w.session.generation ≤ result.1.session.generation := by
  rw [generation_step h []]
  exact Nat.le_add_right _ _

theorem Timely.step {t : Task} {rest : List Task} {result : World × List Task}
    (h : Timely w (t :: rest)) (hstep : w.step s t = .ok result) :
    Timely result.1 (result.2 ++ rest) := by
  have hrest : ∀ generation, Task.scan generation ∉ rest := h.only
  refine ⟨?_, ?_, ?_⟩
  · intro generation rest' hfirst
    cases htasks : result.2 with
    | nil =>
        rw [htasks, List.nil_append] at hfirst
        exact absurd (hfirst ▸ List.mem_cons_self) (hrest generation)
    | cons u us =>
        rw [htasks, List.cons_append] at hfirst
        cases hfirst
        exact (scan_of_step hstep (htasks ▸ List.mem_cons_self)).2
  · intro generation hscan
    cases htasks : result.2 with
    | nil =>
        rw [htasks, List.nil_append] at hscan
        exact hrest generation (List.mem_of_mem_tail hscan)
    | cons u us =>
        rw [htasks, List.cons_append, List.tail_cons] at hscan
        rcases List.mem_append.mp hscan with hscan | hscan
        · have honly := (scan_of_step hstep (htasks ▸ List.mem_cons_of_mem u hscan)).1
          rw [htasks] at honly
          cases honly
          cases hscan
        · exact hrest generation hscan
  · intro u hu generation hwaits
    refine Nat.le_trans ?_ (generation_le_step hstep)
    rcases List.mem_append.mp hu with hu | hu
    · rcases awaited_of_step hstep hu hwaits with rfl | hwaits
      · exact Nat.le_of_eq (h.first generation rest rfl)
      · exact h.past t List.mem_cons_self generation hwaits
    · exact h.past u (List.mem_cons_of_mem t hu) generation hwaits

/-- At every moment scans are done at once. -/
theorem Reachable.timely {agenda : List Task} (h : Reachable s w agenda) : Timely w agenda := by
  obtain ⟨log, events, buffer, immediate, h⟩ := h
  induction h with
  | refl => exact .nil _
  | begin _ _ _ => exact ⟨nofun, nofun, by simp [awaited]⟩
  | step _ hstep ih => exact ih.step hstep
  | @fail _ _ _ _ rest _ _ _ ih => exact ih.suffix (rescued_suffix rest)

/-! ## Decorations along a course -/

end World

/-- The decorations that a moment sets, if it sets any. -/
def Moment.decorates (s : Settings) (m : Moment) : Option Decorations :=
  match m.task with
  | .wipe => some s.noDecorations
  | .deliver generation buffer =>
      if generation = m.world.session.generation then
        some (World.decorationsOf s (World.scanOf s buffer))
      else none
  | _ => none

namespace World

variable {s : Settings} {w : World}

theorem decorations_step {t : Task} {result : World × List Task} (h : w.step s t = .ok result)
    (rest : List Task) :
    result.1.session.decorations
      = ((⟨w, t, rest⟩ : Moment).decorates s).getD w.session.decorations := by
  cases effect_step h with
  | plain ht hwipe hplain =>
      have hnone : (⟨w, t, rest⟩ : Moment).decorates s = none := by
        cases t with
        | wipe => exact absurd rfl hwipe
        | deliver generation buffer => cases ht
        | _ => rfl
      rw [hnone]
      exact hplain.decorations
  | read _ => rfl
  | snapshot _ => rfl
  | discard buffer hlate => simp [Moment.decorates, hlate, discard]
  | draw hscan => simp [Moment.decorates, hscan]
  | clear hwhy =>
      rcases hwhy with rfl | ⟨buffer, rfl, hscan⟩
      · rfl
      · simp only [Moment.decorates, if_true, hscan]
        rfl
  | paint _ => rfl

theorem decorates_of_error {t : Task} {failure : Failure} (h : w.step s t = .error failure)
    (rest : List Task) : (⟨w, t, rest⟩ : Moment).decorates s = none := by
  cases t with
  | wipe => cases h
  | deliver generation buffer => cases h
  | _ => rfl

/-- The decorations are those of the last moment that set any. -/
theorem Course.decorations_eq {w₀ : World} {agenda₀ agenda : List Task} {log : List Moment}
    {events : List Event} (h : Course s w₀ agenda₀ log events w agenda) :
    w.session.decorations
      = (log.filterMap (Moment.decorates s)).getLast?.getD w₀.session.decorations := by
  induction h with
  | refl => rfl
  | begin _ _ ih => exact ih
  | @step _ _ w _ t rest _ _ hstep ih =>
      rw [decorations_step hstep rest, ih, List.filterMap_append]
      cases hset : (⟨w, t, rest⟩ : Moment).decorates s with
      | none => simp [hset]
      | some decorations => simp [hset]
  | @fail _ _ w t rest _ _ hstep ih =>
      rw [ih, List.filterMap_append]
      simp [decorates_of_error hstep rest]

end World

/-! ## A small buffer -/

/-- Settings with a single color. -/
def Settings.monochrome : Settings :=
  { Settings.default with palette := [.text "#111111"], palette_ne_nil := nofun }

/-- A buffer with one tag. -/
def Buffer.paragraph : Buffer := ⟨['<', 'p', '>'], some "html", none⟩

/-- The scan of the buffer with one tag, for a single color. -/
def Scan.paragraph : Scan :=
  ⟨[⟨0, 1, 0, .delimiter⟩, ⟨1, 2, 0, .name⟩, ⟨2, 3, 0, .delimiter⟩], .scanned 3 .markup 1 3⟩

namespace World

theorem scanOf_paragraph : scanOf .monochrome (some .paragraph) = some .paragraph := by
  decide +kernel

theorem step_draw {s : Settings} {w : World} {buffer : Option Buffer} {scan : Scan}
    (h : scanOf s buffer = some scan) :
    w.step s (.deliver w.session.generation buffer)
      = .ok ({ w with
          session := { w.session with decorations := decorationsOf s (some scan) }
          notices := w.notices ++ [scan.notice] },
        (decorationsOf s (some scan)).buckets.map Task.paint) := by
  simp [step, deliver, h, report]

end World

end TagColoring
