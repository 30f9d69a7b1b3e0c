import TagColoring.Proofs.Timers

/-!
# One scan for many changes

A timer that goes off with effect begins a scan.  The scan reads the buffer in its
first task.  What it leaves to be done finishes the scan and never reads, whatever
the hooks of the editor do in between (`Task.finishes_of_leadsTo`).

Without hooks, and with an editor that makes timers, a session is *quiet*, and only
actions from outside can change its clock but for the pending timer (`Quiet.run`).
So each of many triggers makes a timer, and of all timers that go off later only
the newest reads the buffer (`Quiet.triggers`, `reads_fires`).

`timers_valid` puts this together with what is known about timers.
-/

namespace TagColoring

/-! ## The tasks of a scan -/

/-- Tasks of a scan that has asked for the buffer. -/
def Task.finishes : Task → Bool
  | .snapshot _ => true
  | .deliver _ _ => true
  | .paint _ => true
  | _ => false

/-- The tasks that a task leads to by itself, in any worlds.  The actions of a hook
are not among them. -/
inductive Task.LeadsTo (s : Settings) (t : Task) : Task → Prop where
  | refl : LeadsTo s t t
  | step {u v : Task} {w w' : World} {tasks : List Task} (h : LeadsTo s t u)
      (hstep : w.step s u = .ok (w', tasks)) (hv : v ∈ tasks) (hown : ∀ action, v ≠ .act action) :
      LeadsTo s t v

namespace World

variable {s : Settings}

/-- How often the buffer was read. -/
def reads (w : World) : Nat := w.events.count .read

theorem reads_record (w : World) {e : Event} (h : e ≠ .read) : (w.record e).reads = w.reads := by
  simp [reads, record, List.count_append, h]

theorem reads_record_read (w : World) : (w.record .read).reads = w.reads + 1 := by
  simp [reads, record, List.count_append]

/-- A call is recorded, and what comes of it are the actions of the hook. -/
theorem reads_call (w : World) {e : Event} (h : e ≠ .read) (place : HookPlace) :
    (w.call e place).1.reads = w.reads := reads_record w h

/-- What a reaction of the editor leads to are the actions of its hook. -/
theorem mem_react {w : World} {place : HookPlace} {t : Task} (h : t ∈ (w.react place).2) :
    ∃ action ∈ w.editor.hooks.get place, t = .act action := by
  obtain ⟨action, haction, rfl⟩ := List.mem_map.mp h
  exact ⟨action, haction, rfl⟩

theorem mem_call {w : World} {e : Event} {place : HookPlace} {t : Task}
    (h : t ∈ (w.call e place).2) : ∃ action ∈ w.editor.hooks.get place, t = .act action :=
  mem_react h

/-- Finishing a scan does not read, and leads to tasks that finish it and to the actions
of hooks. -/
theorem step_finishes {w : World} {t : Task} {result : World × List Task}
    (ht : t.finishes = true) (h : w.step s t = .ok result) :
    result.1.reads = w.reads ∧ ∀ u ∈ result.2,
      u.finishes = true ∨ ∃ place, ∃ action ∈ w.editor.hooks.get place, u = .act action := by
  cases t with
  | snapshot generation =>
      cases h
      refine ⟨rfl, fun u hu => ?_⟩
      rcases List.mem_append.mp hu with hu | hu
      · exact .inr ⟨.read, mem_react hu⟩
      · cases List.mem_singleton.mp hu
        exact .inl rfl
  | deliver generation buffer =>
      cases h
      rcases deliver_cases s w generation buffer with ⟨_, hd⟩ | ⟨_, _, _, hd⟩ | ⟨_, _, hd⟩
      · rw [hd]
        exact ⟨rfl, nofun⟩
      · rw [hd]
        refine ⟨rfl, fun u hu => ?_⟩
        obtain ⟨bucket, _, rfl⟩ := List.mem_map.mp hu
        exact .inl rfl
      · rw [hd]
        refine ⟨reads_call (w.bare s) (e := .clear) nofun .clear, fun u hu => .inr ⟨.clear, ?_⟩⟩
        exact mem_react hu
  | paint bucket =>
      cases h
      have hdrawing : drawing s bucket ≠ .read := nofun
      exact ⟨reads_call w hdrawing .apply, fun u hu => .inr ⟨.apply, mem_call hu⟩⟩
  | _ => cases ht

end World

theorem Task.finishes_of_leadsTo {s : Settings} {t u : Task} (ht : t.finishes = true)
    (h : t.LeadsTo s u) : u.finishes = true := by
  induction h with
  | refl => exact ht
  | step _ hstep hv hown ih =>
      rcases (World.step_finishes ih hstep).2 _ hv with hfinishes | ⟨_, action, _, rfl⟩
      · exact hfinishes
      · exact absurd rfl (hown action)

/-- Tasks that are not actions, but for a timer that goes off. -/
def Task.calm : Task → Bool
  | .act (.fire _) => true
  | .act _ => false
  | _ => true

theorem Task.calm_of_finishes {t : Task} (h : t.finishes = true) : t.calm = true := by
  cases t with
  | act action => cases h
  | _ => rfl

theorem Task.supersedes_of_calm {w : World} {t : Task} {rest : List Task} (h : t.calm = true) :
    (⟨w, t, rest⟩ : Moment).supersedes = false := by
  cases t with
  | act action =>
      cases action with
      | fire timer => rfl
      | _ => cases h
  | _ => rfl

namespace World

variable {s : Settings}

/-! ## Quiet sessions -/

/-- No hook waits for a call of the editor, and the editor makes timers. -/
structure Quiet (w : World) : Prop where
  hooks : ∀ place, w.editor.hooks.get place = []
  timers : w.editor.refuses = false

/-- A result without hooks and without actions to be done. -/
def Calm (result : World × List Task) : Prop :=
  result.1.Quiet ∧ ∀ t ∈ result.2, t.calm = true

theorem Quiet.react {w : World} (h : w.Quiet) (place : HookPlace) :
    (w.react place).1.Quiet ∧ (w.react place).2 = [] := by
  refine ⟨⟨fun other => ?_, h.timers⟩, congrArg (List.map Task.act) (h.hooks place)⟩
  show (w.editor.hooks.set [] place).get other = []
  by_cases hother : other = place
  · rw [hother, Hooks.get_set]
  · rw [Hooks.get_set_ne _ _ hother]
    exact h.hooks other

theorem Quiet.call {w : World} (h : w.Quiet) (e : Event) (place : HookPlace) :
    (w.call e place).1.Quiet ∧ (w.call e place).2 = [] :=
  Quiet.react (w := w.record e) ⟨h.hooks, h.timers⟩ place

theorem Quiet.calm_call {w : World} (h : w.Quiet) (e : Event) (place : HookPlace) :
    Calm (w.call e place) := by
  obtain ⟨hquiet, hnone⟩ := h.call e place
  refine ⟨hquiet, ?_⟩
  rw [hnone]
  exact nofun

theorem Quiet.bare {w : World} (h : w.Quiet) : (w.bare s).Quiet := ⟨h.hooks, h.timers⟩

theorem Quiet.fire {w : World} (h : w.Quiet) (timer : Int) : Calm (w.fire timer) := by
  unfold World.fire
  split
  · unfold expire
    split
    · exact ⟨⟨h.hooks, h.timers⟩, by simp [Task.calm]⟩
    · exact ⟨h, nofun⟩
  · exact ⟨⟨h.hooks, h.timers⟩, nofun⟩

theorem Quiet.deliver {w : World} (h : w.Quiet) (generation : Nat) (buffer : Option Buffer) :
    Calm (w.deliver s generation buffer) := by
  rcases deliver_cases s w generation buffer with ⟨_, hd⟩ | ⟨_, _, _, hd⟩ | ⟨_, _, hd⟩
  · rw [hd]
    exact ⟨⟨h.hooks, h.timers⟩, nofun⟩
  · rw [hd]
    exact ⟨⟨h.hooks, h.timers⟩, by simp [Task.calm]⟩
  · rw [hd]
    exact h.bare.calm_call .clear .clear

/-- In a quiet session a task leads to no action, but for a timer that goes off. -/
theorem Quiet.step {w : World} {t : Task} {result : World × List Task} (h : w.Quiet)
    (ht : t.calm = true) (hstep : w.step s t = .ok result) : Calm result := by
  cases t with
  | act action =>
      cases action with
      | fire timer =>
          cases hstep
          exact h.fire timer
      | _ => cases ht
  | note notice =>
      simp only [World.step] at hstep
      split at hstep
      · cases hstep
        exact ⟨⟨h.hooks, h.timers⟩, List.forall_mem_nil _⟩
      · cases hstep
  | cancel timer =>
      cases hstep
      exact h.calm_call (.cancel timer) .cancel
  | start timer =>
      cases hstep
      obtain ⟨hquiet, hnone⟩ := h.call (.start timer) .start
      refine ⟨hquiet, ?_⟩
      rw [hnone]
      split
      · simp [Task.calm]
      · exact List.forall_mem_nil _
  | wipe =>
      cases hstep
      exact h.bare.calm_call .clear .clear
  | scan generation =>
      cases hstep
      obtain ⟨hquiet, hnone⟩ := h.call .read .request
      refine ⟨hquiet, ?_⟩
      rw [hnone]
      simp [Task.calm]
  | snapshot generation =>
      cases hstep
      obtain ⟨hquiet, hnone⟩ := h.react .read
      refine ⟨hquiet, ?_⟩
      rw [hnone]
      simp [Task.calm]
  | deliver generation buffer =>
      cases hstep
      exact h.deliver generation buffer
  | paint bucket =>
      cases hstep
      exact h.calm_call (drawing s bucket) .apply
  | rescue =>
      cases hstep
      exact ⟨h, List.forall_mem_nil _⟩

/-- In a quiet session only actions change the clock, but for the pending timer. -/
theorem Quiet.run {w : World} {agenda : List Task} (h : w.Quiet)
    (hagenda : ∀ t ∈ agenda, t.calm = true) :
    (w.run s agenda).1.Quiet ∧ (w.run s agenda).1.clock.idle = w.clock.idle := by
  have hend := run_preserves (s := s)
    (P := fun w' rest => Calm (w', rest) ∧ w'.clock.idle = w.clock.idle) ?_ ?_ ⟨⟨h, hagenda⟩, rfl⟩
  · exact ⟨hend.1.1, hend.2⟩
  · rintro w' t rest next tasks ⟨⟨hquiet, hrest⟩, hclock⟩ hstep
    obtain ⟨ht, hrest⟩ := List.forall_mem_cons.mp hrest
    have hcalm := hquiet.step ht hstep
    have hidle := (moves_step hstep rest).idle (Task.supersedes_of_calm ht)
    exact ⟨⟨hcalm.1, List.forall_mem_append.mpr ⟨hcalm.2, hrest⟩⟩, hidle.trans hclock⟩
  · rintro w' t rest failure ⟨⟨hquiet, hrest⟩, hclock⟩ _
    refine ⟨⟨hquiet, fun u hu => ?_⟩, hclock⟩
    exact hrest u (List.mem_cons_of_mem t ((rescued_suffix rest).subset hu))

/-- In a quiet session finishing a scan does not read. -/
theorem Quiet.reads_run {w : World} {agenda : List Task} (h : w.Quiet)
    (hagenda : ∀ t ∈ agenda, t.finishes = true) : (w.run s agenda).1.reads = w.reads := by
  have hend := run_preserves (s := s) (P := fun w' rest => w'.Quiet ∧
    (∀ t ∈ rest, t.finishes = true) ∧ w'.reads = w.reads) ?_ ?_ ⟨h, hagenda, rfl⟩
  · exact hend.2.2
  · rintro w' t rest next tasks ⟨hquiet, hrest, hreads⟩ hstep
    obtain ⟨ht, hrest⟩ := List.forall_mem_cons.mp hrest
    have hfinishes := step_finishes ht hstep
    have hcalm := hquiet.step (Task.calm_of_finishes ht) hstep
    refine ⟨hcalm.1, List.forall_mem_append.mpr ⟨fun u hu => ?_, hrest⟩, hfinishes.1.trans hreads⟩
    rcases hfinishes.2 u hu with hfinishes | ⟨place, action, haction, _⟩
    · exact hfinishes
    · rw [hquiet.hooks place] at haction
      cases haction
  · rintro w' t rest failure ⟨hquiet, hrest, hreads⟩ _
    refine ⟨hquiet, fun u hu => ?_, hreads⟩
    exact hrest u (List.mem_cons_of_mem t ((rescued_suffix rest).subset hu))

/-! ## Actions on a quiet session -/

/-- The world behind some actions from outside. -/
def after (s : Settings) (w : World) : List Action → World
  | [] => w
  | a :: as => (w.perform s a).2.after s as
termination_by structural as => as

theorem performAll_append (s : Settings) : ∀ (w : World) (as bs : List Action),
    w.performAll s (as ++ bs) = w.performAll s as ++ (w.after s as).performAll s bs
  | _, [], _ => rfl
  | w, a :: as, bs => congrArg ((w.perform s a).1 :: ·) (performAll_append s _ as bs)

theorem length_performAll (s : Settings) : ∀ (w : World) (as : List Action),
    (w.performAll s as).length = as.length
  | _, [] => rfl
  | _, _ :: as => congrArg (· + 1) (length_performAll s _ as)

/-- Each trigger makes a timer. -/
theorem Quiet.trigger {w : World} (h : w.Quiet) (hactive : w.session.active = true) :
    (w.perform s .trigger).2.Quiet ∧
      (w.perform s .trigger).2.clock.idle = w.clock.schedule.idle := by
  have hreplace : w.fresh.schedule s = w.fresh.replace s :=
    if_neg (Bool.eq_false_iff.mp h.timers)
  have hstep : w.fresh.step s (.act .trigger) = .ok (w.fresh.replace s) :=
    congrArg Except.ok ((if_pos hactive).trans hreplace)
  have hclock : (w.fresh.replace s).1.clock = w.clock.schedule := by
    rw [← hreplace]
    exact clock_schedule hactive h.timers
  have hscheduled : (w.fresh.replace s).1.Quiet := ⟨h.hooks, h.timers⟩
  have htasks : ∀ t ∈ (w.fresh.replace s).2, t.calm = true := by
    simp only [replace]
    split
    · simp [Task.calm]
    · simp [Task.calm]
  rw [perform_ok hstep, ← hclock]
  exact hscheduled.run htasks

/-- Many triggers make as many timers, each for the next generation. -/
theorem Quiet.triggers (n : Nat) : ∀ {w : World}, w.Quiet → w.session.active = true →
    (w.after s (List.replicate n .trigger)).Quiet ∧
    (w.after s (List.replicate n .trigger)).clock.idle
      = ⟨true, w.session.generation + n, none,
        w.editor.timers ++ (List.range n).map (w.session.generation + 1 + ·)⟩ := by
  induction n with
  | zero =>
      intro w h hactive
      refine ⟨h, ?_⟩
      simp [after, Clock.idle, clock, hactive]
  | succ n ih =>
      intro w h hactive
      obtain ⟨hquiet, hclock⟩ := h.trigger (s := s) hactive
      have hnext : (w.perform s .trigger).2.session.active = true := congrArg Clock.active hclock
      have hgeneration : (w.perform s .trigger).2.session.generation = w.session.generation + 1 :=
        congrArg Clock.generation hclock
      have htimers : (w.perform s .trigger).2.editor.timers
          = w.editor.timers ++ [w.session.generation + 1] := congrArg Clock.timers hclock
      obtain ⟨hlast, hafter⟩ := ih hquiet hnext
      refine ⟨hlast, hafter.trans ?_⟩
      rw [hgeneration, htimers, List.range_succ_eq_map]
      simp [Nat.add_comm, Nat.add_left_comm, Function.comp_def]

/-- In a quiet session a scan reads the buffer once. -/
theorem Quiet.reads_scan {w : World} (h : w.Quiet) (generation : Nat) :
    (w.run s [.scan generation]).1.reads = w.reads + 1 := by
  have hstep : w.step s (.scan generation) = .ok ((w.call .read .request).1,
      (w.call .read .request).2 ++ [.snapshot generation]) := rfl
  obtain ⟨hasked, hnone⟩ := h.call .read .request
  rw [run_ok hstep, hnone]
  exact (hasked.reads_run (by simp [Task.finishes])).trans (reads_record_read w)

/-- A timer that goes off reads the buffer once if it is for the generation of the
session, and not at all otherwise. -/
theorem Quiet.perform_fire {w : World} (h : w.Quiet) (hactive : w.session.active = true)
    (n : Nat) :
    (w.perform s (.fire n)).2.reads
      = (if w.editor.timers[n]? = some w.session.generation then 1 else 0) ∧
    (w.perform s (.fire n)).2.Quiet ∧ (w.perform s (.fire n)).2.clock.idle = w.clock.idle := by
  have hfresh : w.fresh.Quiet := ⟨h.hooks, h.timers⟩
  have hstep : w.fresh.step s (.act (.fire n)) = .ok (w.fresh.fire n) := rfl
  have hcalm := hfresh.fire n
  have hrun := hcalm.1.run (s := s) hcalm.2
  have hclock : (w.fresh.fire n).1.clock.idle = w.clock.idle := by
    rcases clock_fire w.fresh n with heq | heq
    · rw [heq]
      rfl
    · rw [heq]
      rfl
  rw [perform_ok hstep]
  refine ⟨?_, hrun.1, hrun.2.trans hclock⟩
  split
  · next hdue =>
      have hdue : w.fresh.clock.Due n := ⟨hdue, hactive⟩
      have hidle : w.fresh.idle.Quiet := ⟨h.hooks, h.timers⟩
      rw [fire_of_due hdue]
      exact hidle.reads_scan w.session.generation
  · next hnot =>
      rw [fire_natCast]
      cases htimer : w.fresh.editor.timers[n]? with
      | none =>
          rw [run_nil]
          rfl
      | some generation =>
          have hne : generation ≠ w.session.generation := by
            rintro rfl
            exact hnot htimer
          have hexpire : w.fresh.expire generation = (w.fresh, []) := by
            simp [expire, fresh, hne]
          simp only [hexpire, run_nil]
          rfl

/-- How often the buffer was read according to some reports. -/
def readsIn (reports : List Report) : Nat := (reports.flatMap Report.events).count .read

theorem readsIn_cons (report : Report) (reports : List Report) :
    readsIn (report :: reports) = report.events.count .read + readsIn reports := by
  simp only [readsIn, List.flatMap_cons, List.count_append]

/-- Of timers that go off in a quiet session, those for its generation read the
buffer. -/
theorem reads_fires (order : List Nat) : ∀ {w : World}, w.Quiet → w.session.active = true →
    readsIn (w.performAll s (order.map fun n : Nat => .fire n))
      = order.countP fun n => w.editor.timers[n]? = some w.session.generation := by
  induction order with
  | nil => exact fun _ _ => rfl
  | cons n order ih =>
      intro w h hactive
      obtain ⟨hreads, hquiet, hclock⟩ := h.perform_fire (s := s) hactive n
      have hnext : (w.perform s (.fire n)).2.session.active = true :=
        (congrArg Clock.active hclock).trans hactive
      have hgeneration : (w.perform s (.fire n)).2.session.generation = w.session.generation :=
        congrArg Clock.generation hclock
      have htimers : (w.perform s (.fire n)).2.editor.timers = w.editor.timers :=
        congrArg Clock.timers hclock
      have hrest := ih hquiet hnext
      rw [hgeneration, htimers] at hrest
      rw [List.map_cons, performAll, readsIn_cons, hrest, List.countP_cons, Nat.add_comm]
      refine congrArg (_ + ·) (hreads.trans ?_)
      simp only [decide_eq_true_eq]

/-- Of `n` new timers only the last one is for the generation of the session. -/
theorem countP_newest (timers : List Nat) (generation n : Nat) :
    ((List.range n).map (timers.length + ·)).countP (fun timer =>
      (timers ++ (List.range n).map (generation + 1 + ·))[timer]? = some (generation + n))
        = min n 1 := by
  have hnew : ∀ k ∈ List.range n,
      ((timers ++ (List.range n).map (generation + 1 + ·))[timers.length + k]?
        = some (generation + n)) ↔ k + 1 = n := by
    intro k hk
    have hk : k < n := List.mem_range.mp hk
    rw [List.getElem?_append_right (Nat.le_add_right ..), Nat.add_sub_cancel_left,
      List.getElem?_map, List.getElem?_range hk]
    simp only [Option.map_some, Option.some.injEq]
    omega
  have hcount : ((List.range n).map (timers.length + ·)).countP (fun timer =>
      (timers ++ (List.range n).map (generation + 1 + ·))[timer]? = some (generation + n))
        = (List.range n).countP fun k => k + 1 = n := by
    rw [List.countP_map]
    refine List.countP_congr ?_
    intro k hk
    simpa using hnew k hk
  rw [hcount]
  cases n with
  | zero => rfl
  | succ n =>
      have hold : (List.range n).countP (fun k => k + 1 = n + 1) = 0 := by
        rw [List.countP_eq_zero]
        intro k hk
        have := List.mem_range.mp hk
        simp
        omega
      rw [List.range_succ, List.countP_append, hold]
      simp

/-! ## What timers do -/

/-- The timer with a number goes off with effect.  It makes the session forget the
pending timer and begin a scan.  The scan reads the buffer in its first task, and
no other task that it leads to by itself reads. -/
structure Rescans (s : Settings) (w : World) (n : Nat) : Prop where
  forgets : w.fire n = (w.idle, [.scan w.session.generation])
  reads : ∃ asked, w.idle.step s (.scan w.session.generation) = .ok (asked,
      (w.editor.hooks.get .request).map Task.act ++ [.snapshot w.session.generation]) ∧
    asked.session = w.idle.session ∧ asked.events = w.events ++ [.read]
  once : ∀ t, (Task.snapshot w.session.generation).LeadsTo s t →
    ∀ w' result, World.step s w' t = .ok result → result.1.reads = w'.reads

theorem rescans_of_due {w : World} {n : Nat} (h : w.clock.Due n) : w.Rescans s n where
  forgets := fire_of_due h
  reads := ⟨_, rfl, rfl, rfl⟩
  once _ hleads _ _ hstep := (step_finishes (Task.finishes_of_leadsTo rfl hleads) hstep).1

/-- Since a timer was made, the editor has made all timers that it was asked for. -/
def Obliged (log : List Moment) : Prop := ∀ m ∈ log, m.refused = false

/-- The timer with a number is the newest one, and the session was not deactivated in the
moments of a log. -/
def Current (w : World) (log : List Moment) (n : Nat) : Prop :=
  n + 1 = w.editor.timers.length ∧ ∀ m ∈ log, m.task ≠ .act .deactivate

/-- With an editor that makes timers, a timer goes off with effect if it is the newest one
and the session was not deactivated since it was made, and does nothing otherwise. -/
theorem fire_later {n : Nat} {made w : World} {rest agenda : List Task} {log : List Moment}
    {events : List Event} (hmade : JustMade s n made rest)
    (h : Course s made rest log events w agenda) :
    (Obliged log → w.Current log n → w.Rescans s n) ∧
      (¬ (Obliged log ∧ w.Current log n) → w.fire n = (w, [])) := by
  rcases follows hmade h with ⟨hdue, hnewest, hlog⟩ | ⟨hstale, hwhy⟩
  · refine ⟨fun _ _ => rescans_of_due hdue, fun hnot => absurd ⟨?_, hnewest, ?_⟩ hnot⟩
    · exact fun m hm => (hlog m hm).2
    · exact fun m hm => (hlog m hm).1
  · refine ⟨?_, fun _ => fire_of_stale hstale⟩
    rintro hobliged ⟨hnewest, hkept⟩
    rcases hwhy with hlt | ⟨m, hm, hdeactivated | hrefused⟩
    · omega
    · exact absurd hdeactivated (hkept m hm)
    · cases (hobliged m hm).symm.trans hrefused

/-- The timers of `n` triggers read the buffer once, in whatever order they go off. -/
theorem Quiet.reads_after_triggers {w : World} (h : w.Quiet) (hactive : w.session.active = true)
    {n : Nat} {order : List Nat}
    (horder : order.Perm ((List.range n).map (w.editor.timers.length + ·))) :
    readsIn ((w.performAll s (List.replicate n .trigger
      ++ order.map fun timer : Nat => .fire timer)).drop n) = min n 1 := by
  obtain ⟨hafter, hclock⟩ := Quiet.triggers (s := s) n h hactive
  have hstill : (w.after s (List.replicate n .trigger)).session.active = true :=
    congrArg Clock.active hclock
  have hgeneration : (w.after s (List.replicate n .trigger)).session.generation
      = w.session.generation + n := congrArg Clock.generation hclock
  have htimers : (w.after s (List.replicate n .trigger)).editor.timers
      = w.editor.timers ++ (List.range n).map (w.session.generation + 1 + ·) :=
    congrArg Clock.timers hclock
  rw [performAll_append, List.drop_left' (by simp [length_performAll]),
    reads_fires order hafter hstill, hgeneration, htimers, horder.countP_eq]
  exact countP_newest w.editor.timers w.session.generation n

/-- A pending timer is the newest one of an active session.  As long as the editor makes
the timers that it is asked for, a timer has an effect when it goes off exactly if it is
the newest one and the session was not deactivated since it was made.  Once the editor has
refused a timer, those made before have no effect.  This holds at every moment, and every
timer was made at one.  So after `n` triggers, with no hooks and no timer refused, the `n`
timers read the buffer once, in whatever order they go off. -/
theorem timers_valid (s : Settings) :
    (∀ w agenda, Reachable s w agenda →
      (∀ n, w.session.pending = some n →
        w.session.active = true ∧ n + 1 = w.editor.timers.length) ∧
      (∀ n < w.editor.timers.length, ∃ made rest log events,
        JustMade s n made rest ∧ Course s made rest log events w agenda) ∧
      ∀ n made rest log events, JustMade s n made rest → Course s made rest log events w agenda →
        (Obliged log → w.Current log n → w.Rescans s n) ∧
        (Obliged log → ¬ w.Current log n → w.fire n = (w, [])) ∧
        (¬ Obliged log → w.fire n = (w, []))) ∧
    ∀ (w : World) (n : Nat) (order : List Nat), w.session.active = true →
      (∀ place, w.editor.hooks.get place = []) → w.editor.refuses = false →
      order.Perm ((List.range n).map (w.editor.timers.length + ·)) →
      readsIn ((w.performAll s (List.replicate n .trigger
        ++ order.map fun timer : Nat => .fire timer)).drop n) = min n 1 := by
  refine ⟨?_, fun w n order hactive hhooks htimers =>
    Quiet.reads_after_triggers ⟨hhooks, htimers⟩ hactive⟩
  intro w agenda hreached
  have hvalid := hreached.valid
  refine ⟨?_, fun n hn => hreached.exists_justMade hn, ?_⟩
  · intro n hn
    exact ⟨hvalid.active n hn, hvalid.newest n hn⟩
  · intro n made rest log events hmade hcourse
    obtain ⟨heffect, hnone⟩ := fire_later hmade hcourse
    refine ⟨heffect, fun _ hpast => hnone ?_, fun hrefused => hnone ?_⟩
    · exact fun hboth => hpast hboth.2
    · exact fun hboth => hrefused hboth.1

/-- The first timer of a session, and those of three triggers after it. -/
theorem timers_valid_activated :
    let activated := (start .default none false).fresh.activate .default
    activated.1.Rescans .default 0 ∧
    readsIn ((activated.1.performAll .default
      [.trigger, .trigger, .trigger, .fire 3, .fire 1, .fire 2]).drop 3) = 1 := by
  intro activated
  have hbegin : Course .default (start .default none false) [] [] []
      (start .default none false).fresh [.act .activate] := .begin .refl .activate
  have hmade : JustMade .default 0 activated.1 (activated.2 ++ []) :=
    .intro ⟨[], [], none, false, hbegin⟩ rfl rfl rfl
  have hreached : Reachable .default activated.1 (activated.2 ++ []) :=
    ⟨_, _, none, false, hbegin.step rfl⟩
  obtain ⟨hmoments, htriggers⟩ := timers_valid .default
  obtain ⟨_, _, hfire⟩ := hmoments _ _ hreached
  have hhooks : ∀ place, activated.1.editor.hooks.get place = [] := by
    intro place
    cases place <;> rfl
  have horder : [3, 1, 2].Perm [1, 2, 3] := by decide
  have hobliged : Obliged [] := fun m hm => absurd hm List.not_mem_nil
  have hcurrent : activated.1.Current [] 0 := ⟨rfl, fun m hm => absurd hm List.not_mem_nil⟩
  exact ⟨(hfire 0 _ _ [] [] hmade .refl).1 hobliged hcurrent,
    htriggers activated.1 3 [3, 1, 2] rfl hhooks rfl horder⟩

-- The editor refuses the timer of a change.  The one before is still pending and the newest,
-- but nothing happens when it goes off.
example : ((start .default none false).performAll .default
      [.activate, .refuse true, .trigger, .fire 0]).map
        (fun report => (report.session.pending, report.failure, report.events.length))
    = [(some 0, none, 2), (some 0, none, 0), (some 0, some .deliberate, 0), (some 0, none, 0)] := by
  decide +kernel

end World

end TagColoring
