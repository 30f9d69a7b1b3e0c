import TagColoring.Proofs.Execution

/-!
# Which timers have an effect

A timer has an effect when it goes off, if it is the newest one and the session
was not deactivated since it was made.  This holds at every moment of a session,
also inside the calls of the editor and after failures, as long as the editor
makes the timers that it is asked for.  If it refuses one, the session has already
moved on, and the timers made before have no effect any more.

The *clock* of a world is the part of it that timers depend on.  `Moment.Moves` is
all that a task can do to it: nothing, forget the pending timer, make a timer, ask
for one in vain, or deactivate the session.  Three things follow by induction over
a course.

* `Clock.Valid` holds at every moment.  A pending timer is the newest one of an
  active session, and the generations of timers rise up to that of the session.
* A timer is *due* from when it is made until another one is made or refused or the
  session is deactivated.  From then on it is *stale* (`follows`).
* A task *supersedes* the scans before it if it moves the generation on.  The
  generation of a session is the number of these tasks (`Course.generation_eq`).

A due timer that goes off begins a scan, and a stale one does nothing
(`fire_of_due`, `fire_of_stale`).
-/

namespace TagColoring

/-! ## Clocks -/

/-- What timers depend on. -/
structure Clock where
  active : Bool
  generation : Nat
  pending : Option Nat
  timers : List Nat

/-- The clock of a world. -/
def World.clock (w : World) : Clock :=
  ⟨w.session.active, w.session.generation, w.session.pending, w.editor.timers⟩

namespace Clock

/-- The clock without a pending timer. -/
def idle (c : Clock) : Clock := { c with pending := none }

/-- The clock with a new timer. -/
def schedule (c : Clock) : Clock :=
  ⟨true, c.generation + 1, some c.timers.length, c.timers ++ [c.generation + 1]⟩

/-- The clock of a session that was refused a timer. -/
def lapse (c : Clock) : Clock := { c with active := true, generation := c.generation + 1 }

/-- The clock of a session that is deactivated. -/
def deactivate (c : Clock) : Clock :=
  { c with active := false, generation := c.generation + 1, pending := none }

/-- A pending timer is the newest one of an active session, and generations rise. -/
structure Valid (c : Clock) : Prop where
  active : ∀ n, c.pending = some n → c.active = true
  newest : ∀ n, c.pending = some n → n + 1 = c.timers.length
  rising : c.timers.Pairwise (· < ·)
  bounded : ∀ generation ∈ c.timers, generation ≤ c.generation

theorem valid_start : Valid ⟨false, 0, none, []⟩ := ⟨nofun, nofun, List.Pairwise.nil, nofun⟩

/-- The timer with a number is for the generation of an active session. -/
def Due (c : Clock) (n : Nat) : Prop := c.timers[n]? = some c.generation ∧ c.active = true

/-- The generation of the timer with a number has passed. -/
def Stale (c : Clock) (n : Nat) : Prop := ∃ generation ∈ c.timers[n]?, generation < c.generation

/-- A timer that was made last is due. -/
theorem due_schedule (c : Clock) : c.schedule.Due c.timers.length := by
  simp [Due, Clock.schedule]

end Clock

/-! ## What a moment does to the clock -/

namespace Moment

/-- Whether a task asks for a timer.  The session is activated, or it is active and told
of a change. -/
def schedules (m : Moment) : Bool :=
  match m.task with
  | .act .activate => true
  | .act .trigger => m.world.session.active
  | .act .refresh => m.world.session.active
  | _ => false

/-- Whether a task makes earlier scans worthless.  The session is deactivated, or asks for
a timer. -/
def supersedes (m : Moment) : Bool :=
  match m.task with
  | .act .deactivate => true
  | _ => m.schedules

/-- Whether a timer is asked for and refused. -/
def refused (m : Moment) : Bool := m.schedules && m.world.editor.refuses

/-- What a task can do to a clock. -/
inductive Moves (m : Moment) : Clock → Prop where
  | keep (h : m.supersedes = false) : Moves m m.world.clock
  | expire (h : m.supersedes = false) : Moves m m.world.clock.idle
  | schedule (h : m.schedules = true) (hmade : m.world.editor.refuses = false) :
      Moves m m.world.clock.schedule
  | lapse (h : m.schedules = true) (hrefused : m.world.editor.refuses = true) :
      Moves m m.world.clock.lapse
  | deactivate (h : m.task = .act .deactivate) : Moves m m.world.clock.deactivate

variable {m : Moment} {c : Clock}

theorem supersedes_of_schedules (h : m.schedules = true) : m.supersedes = true := by
  rw [supersedes]
  split
  · rfl
  · exact h

theorem supersedes_of_deactivate (h : m.task = .act .deactivate) : m.supersedes = true := by
  rw [supersedes, h]

theorem not_deactivate (h : m.supersedes = false) : m.task ≠ .act .deactivate := by
  intro ht
  rw [supersedes_of_deactivate ht] at h
  cases h

theorem refused_of_not_supersedes (h : m.supersedes = false) : m.refused = false := by
  have hnone : m.schedules = false :=
    Bool.eq_false_iff.mpr fun hs => by rw [supersedes_of_schedules hs] at h; cases h
  rw [refused, hnone, Bool.false_and]

theorem Moves.valid (hmove : m.Moves c) (h : m.world.clock.Valid) : c.Valid := by
  cases hmove with
  | keep _ => exact h
  | expire _ => exact ⟨nofun, nofun, h.rising, h.bounded⟩
  | schedule _ _ =>
      refine ⟨fun _ _ => rfl, ?_, ?_, ?_⟩
      · intro n hn
        cases hn
        simp [Clock.schedule]
      · refine List.pairwise_append.mpr ⟨h.rising, List.pairwise_singleton _ _, ?_⟩
        intro g hg g' hg'
        have := h.bounded g hg
        cases List.mem_singleton.mp hg'
        omega
      · intro g hg
        rcases List.mem_append.mp hg with hg | hg
        · exact Nat.le_succ_of_le (h.bounded g hg)
        · exact Nat.le_of_eq (List.mem_singleton.mp hg)
  | lapse _ _ =>
      refine ⟨fun _ _ => rfl, h.newest, h.rising, ?_⟩
      intro g hg
      exact Nat.le_succ_of_le (h.bounded g hg)
  | deactivate _ =>
      refine ⟨nofun, nofun, h.rising, ?_⟩
      intro g hg
      exact Nat.le_succ_of_le (h.bounded g hg)

theorem Moves.stale {n : Nat} (hmove : m.Moves c) (h : m.world.clock.Stale n) : c.Stale n := by
  obtain ⟨generation, hn, hlt⟩ := h
  cases hmove with
  | keep _ => exact ⟨generation, hn, hlt⟩
  | expire _ => exact ⟨generation, hn, hlt⟩
  | lapse _ _ => exact ⟨generation, hn, Nat.lt_succ_of_lt hlt⟩
  | deactivate _ => exact ⟨generation, hn, Nat.lt_succ_of_lt hlt⟩
  | schedule _ _ =>
      have hlength : n < m.world.clock.timers.length := (List.getElem?_eq_some_iff.mp hn).1
      refine ⟨generation, ?_, Nat.lt_succ_of_lt hlt⟩
      rw [Clock.schedule, List.getElem?_append_left hlength]
      exact hn

/-- Timers are only added, and one at a time. -/
theorem Moves.timers (hmove : m.Moves c) :
    c.timers = m.world.clock.timers ∨ c = m.world.clock.schedule := by
  cases hmove with
  | keep _ => exact .inl rfl
  | expire _ => exact .inl rfl
  | lapse _ _ => exact .inl rfl
  | deactivate _ => exact .inl rfl
  | schedule _ _ => exact .inr rfl

theorem Moves.length_le (hmove : m.Moves c) :
    m.world.clock.timers.length ≤ c.timers.length := by
  rcases hmove.timers with h | rfl
  · exact Nat.le_of_eq (congrArg List.length h.symm)
  · simp [Clock.schedule]

/-- What does not supersede earlier scans at most forgets the pending timer. -/
theorem Moves.idle (hmove : m.Moves c) (h : m.supersedes = false) :
    c.idle = m.world.clock.idle := by
  cases hmove with
  | keep _ => rfl
  | expire _ => rfl
  | schedule hs _ => cases h.symm.trans (supersedes_of_schedules hs)
  | lapse hs _ => cases h.symm.trans (supersedes_of_schedules hs)
  | deactivate hs => cases h.symm.trans (supersedes_of_deactivate hs)

/-- A due timer stays due, unless the session is deactivated, or another one is made or
refused. -/
theorem Moves.due {n : Nat} (hmove : m.Moves c) (h : m.world.clock.Due n) :
    (c.Due n ∧ c.timers.length = m.world.clock.timers.length ∧
        m.task ≠ .act .deactivate ∧ m.refused = false) ∨
      (c.Stale n ∧ (m.world.clock.timers.length < c.timers.length ∨
        m.task = .act .deactivate ∨ m.refused = true)) := by
  cases hmove with
  | keep hs => exact .inl ⟨h, rfl, not_deactivate hs, refused_of_not_supersedes hs⟩
  | expire hs => exact .inl ⟨h, rfl, not_deactivate hs, refused_of_not_supersedes hs⟩
  | lapse hs hrefused =>
      refine .inr ⟨⟨_, h.1, Nat.lt_succ_self _⟩, .inr (.inr ?_)⟩
      rw [refused, hs, hrefused]
      rfl
  | deactivate ht => exact .inr ⟨⟨_, h.1, Nat.lt_succ_self _⟩, .inr (.inl ht)⟩
  | schedule _ _ =>
      have hlength : n < m.world.clock.timers.length := (List.getElem?_eq_some_iff.mp h.1).1
      refine .inr ⟨⟨_, ?_, Nat.lt_succ_self _⟩, .inl (by simp [Clock.schedule])⟩
      rw [Clock.schedule, List.getElem?_append_left hlength]
      exact h.1

/-- A task moves the generation on if it supersedes earlier scans, and only then. -/
theorem Moves.generation (hmove : m.Moves c) :
    c.generation = m.world.session.generation + if m.supersedes then 1 else 0 := by
  cases hmove with
  | keep h => rw [h]; rfl
  | expire h => rw [h]; rfl
  | schedule h _ => rw [supersedes_of_schedules h]; rfl
  | lapse h _ => rw [supersedes_of_schedules h]; rfl
  | deactivate h => rw [supersedes_of_deactivate h]; rfl

end Moment

namespace World

variable {s : Settings}

/-! ## The clock of a task -/

theorem clock_schedule {w : World} (h : w.session.active = true)
    (hmade : w.editor.refuses = false) : (w.schedule s).1.clock = w.clock.schedule := by
  simp only [schedule, hmade, replace, record, clock, Clock.schedule, h, Bool.false_eq_true,
    if_false]

theorem clock_lapse {w : World} (h : w.session.active = true)
    (hrefused : w.editor.refuses = true) : (w.schedule s).1.clock = w.clock.lapse := by
  simp only [schedule, hrefused, lapse, clock, Clock.lapse, h, if_true]

theorem clock_fire (w : World) (timer : Int) :
    (w.fire timer).1.clock = w.clock ∨
      (w.fire timer).1.clock = w.clock.idle := by
  unfold fire
  split
  · unfold expire
    split
    · exact .inr rfl
    · exact .inl rfl
  · exact .inl rfl

theorem clock_deliver (w : World) (generation : Nat) (buffer : Option Buffer) :
    (w.deliver s generation buffer).1.clock = w.clock := by
  rcases deliver_cases s w generation buffer with ⟨_, h⟩ | ⟨_, _, _, h⟩ | ⟨_, _, h⟩
  · rw [h]
    rfl
  · rw [h]
    rfl
  · rw [h]
    rfl

theorem moves_fire {m : Moment} (timer : Int) (h : m.supersedes = false) :
    m.Moves (m.world.fire timer).1.clock := by
  rcases clock_fire m.world timer with hclock | hclock
  · rw [hclock]
    exact .keep h
  · rw [hclock]
    exact .expire h

/-- Asking for a timer, the session becomes active or is so already. -/
theorem moves_schedule {m : Moment} {w : World} (hs : m.schedules = true)
    (hclock : w.clock = { m.world.clock with active := true })
    (hrefuses : w.editor.refuses = m.world.editor.refuses) :
    m.Moves (w.schedule s).1.clock := by
  have hactive : w.session.active = true := congrArg Clock.active hclock
  cases hr : m.world.editor.refuses with
  | false =>
      rw [clock_schedule hactive (hrefuses.trans hr), hclock]
      exact .schedule hs hr
  | true =>
      rw [clock_lapse hactive (hrefuses.trans hr), hclock]
      exact .lapse hs hr

theorem moves_trigger {m : Moment} (h : m.task = .act .trigger ∨ m.task = .act .refresh) :
    m.Moves (m.world.trigger s).1.clock := by
  have hs : m.schedules = m.world.session.active := by
    rcases h with h | h
    · rw [Moment.schedules, h]
    · rw [Moment.schedules, h]
  unfold trigger
  split
  · next hactive =>
      refine moves_schedule (hs.trans hactive) ?_ rfl
      rw [← hactive]
      rfl
  · next hactive =>
      refine .keep ?_
      rw [Bool.not_eq_true] at hactive
      rcases h with h | h
      · rw [Moment.supersedes, h]
        exact hs.trans hactive
      · rw [Moment.supersedes, h]
        exact hs.trans hactive

theorem moves_act {w : World} {action : Action} {result : World × List Task}
    (h : w.act s action = .ok result) (rest : List Task) :
    Moment.Moves ⟨w, .act action, rest⟩ result.1.clock := by
  cases action with
  | activate =>
      cases h
      exact moves_schedule rfl rfl rfl
  | deactivate =>
      cases h
      exact .deactivate rfl
  | trigger =>
      cases h
      exact moves_trigger (m := ⟨w, _, rest⟩) (.inl rfl)
  | refresh =>
      cases h
      exact moves_trigger (m := ⟨w, _, rest⟩) (.inr rfl)
  | updateNow =>
      cases h
      exact .keep rfl
  | fire timer =>
      cases h
      exact moves_fire (m := ⟨w, _, rest⟩) timer rfl
  | fireLast =>
      cases h
      exact moves_fire (m := ⟨w, _, rest⟩) _ rfl
  | setBuffer buffer =>
      cases h
      exact .keep rfl
  | hook place body =>
      cases h
      exact .keep rfl
  | attempt body =>
      cases h
      exact .keep rfl
  | refuse refuses =>
      cases h
      exact .keep rfl
  | fail => cases h

/-- What a task does to the clock. -/
theorem moves_step {w : World} {t : Task} {result : World × List Task}
    (h : w.step s t = .ok result) (rest : List Task) :
    Moment.Moves ⟨w, t, rest⟩ result.1.clock := by
  cases t with
  | act action => exact moves_act h rest
  | note notice =>
      simp only [step] at h
      split at h
      · cases h
        exact .keep rfl
      · cases h
  | deliver generation buffer =>
      cases h
      rw [clock_deliver]
      exact .keep rfl
  | _ =>
      cases h
      exact .keep rfl

/-- A failure comes from an action that fails on purpose, or from a notice. -/
theorem supersedes_of_error {w : World} {t : Task} {failure : Failure}
    (h : w.step s t = .error failure) (rest : List Task) :
    (⟨w, t, rest⟩ : Moment).supersedes = false := by
  cases t with
  | act action =>
      cases action with
      | fail => rfl
      | _ => cases h
  | note notice => rfl
  | _ => cases h

/-! ## Timers along a course -/

theorem Reachable.valid {w : World} {agenda : List Task} (h : Reachable s w agenda) :
    w.clock.Valid := by
  obtain ⟨log, events, buffer, immediate, h⟩ := h
  induction h with
  | refl => exact Clock.valid_start
  | begin _ _ ih => exact ih
  | step _ hstep ih => exact (moves_step hstep []).valid ih
  | fail _ _ ih => exact ih

/-- The last task made the timer with a number. -/
inductive JustMade (s : Settings) (n : Nat) : World → List Task → Prop where
  | intro {w w' : World} {t : Task} {tasks rest : List Task} (reached : Reachable s w (t :: rest))
      (hstep : w.step s t = .ok (w', tasks)) (before : w.editor.timers.length = n)
      (after : w'.editor.timers.length = n + 1) : JustMade s n w' (tasks ++ rest)

theorem JustMade.due {n : Nat} {w : World} {agenda : List Task} (h : JustMade s n w agenda) :
    w.clock.Due n ∧ n + 1 = w.editor.timers.length := by
  cases h with
  | @intro before _ _ _ rest _ hstep hbefore hafter =>
      refine ⟨?_, hafter.symm⟩
      rcases (moves_step hstep rest).timers with hsame | hschedule
      · have hlength : w.editor.timers.length = before.editor.timers.length :=
          congrArg List.length hsame
        omega
      · rw [hschedule, ← hbefore]
        exact Clock.due_schedule before.clock

/-- Every timer was made at some moment. -/
theorem Reachable.exists_justMade {n : Nat} {w : World} {agenda : List Task}
    (h : Reachable s w agenda) (hn : n < w.editor.timers.length) :
    ∃ made rest log events, JustMade s n made rest ∧ Course s made rest log events w agenda := by
  obtain ⟨_, _, buffer, immediate, h⟩ := h
  induction h with
  | refl => exact absurd hn (Nat.not_lt_zero n)
  | begin _ action ih =>
      obtain ⟨made, rest, log, events, hmade, hcourse⟩ := ih hn
      exact ⟨made, rest, log, _, hmade, hcourse.begin action⟩
  | fail _ hstep ih =>
      obtain ⟨made, rest, log, events, hmade, hcourse⟩ := ih hn
      exact ⟨made, rest, _, events, hmade, hcourse.fail hstep⟩
  | @step _ _ w w' _ behind _ hreached hstep ih =>
      by_cases hold : n < w.editor.timers.length
      · obtain ⟨made, rest, log, events, hmade, hcourse⟩ := ih hold
        exact ⟨made, rest, _, events, hmade, hcourse.step hstep⟩
      · have hlength : w'.editor.timers.length ≤ w.editor.timers.length + 1 := by
          rcases (moves_step hstep behind).timers with hsame | hschedule
          · exact Nat.le_succ_of_le (Nat.le_of_eq (congrArg List.length hsame))
          · have htimers : w'.editor.timers = w.editor.timers ++ [w.session.generation + 1] :=
              congrArg Clock.timers hschedule
            rw [htimers, List.length_append]
            exact Nat.le_refl _
        have hmade := JustMade.intro ⟨_, _, buffer, immediate, hreached⟩ hstep
          (by omega : w.editor.timers.length = n) (by omega)
        exact ⟨w', _, [], [], hmade, .refl⟩

/-- From when a timer is made, it is due until another one is made or refused or the
session is deactivated, and stale from then on. -/
theorem follows {n : Nat} {made w : World} {rest agenda : List Task} {log : List Moment}
    {events : List Event} (hmade : JustMade s n made rest)
    (h : Course s made rest log events w agenda) :
    (w.clock.Due n ∧ n + 1 = w.editor.timers.length ∧
        ∀ m ∈ log, m.task ≠ .act .deactivate ∧ m.refused = false) ∨
      (w.clock.Stale n ∧ (n + 1 < w.editor.timers.length ∨
        ∃ m ∈ log, m.task = .act .deactivate ∨ m.refused = true)) := by
  have hlonger : ∀ {log : List Moment} {m : Moment},
      (∃ m' ∈ log, m'.task = .act .deactivate ∨ m'.refused = true) →
      ∃ m' ∈ log ++ [m], m'.task = .act .deactivate ∨ m'.refused = true := by
    rintro log m ⟨m', hm', hwhy⟩
    exact ⟨m', List.mem_append_left _ hm', hwhy⟩
  induction h with
  | refl => exact .inl ⟨hmade.due.1, hmade.due.2, List.forall_mem_nil _⟩
  | begin _ _ ih => exact ih
  | @fail _ _ _ _ rest _ _ hstep ih =>
      have hs := supersedes_of_error hstep rest
      rcases ih with ⟨hdue, hnewest, hlog⟩ | ⟨hstale, hwhy⟩
      · refine .inl ⟨hdue, hnewest, List.forall_mem_append.mpr ⟨hlog, ?_⟩⟩
        intro m hm
        rw [List.mem_singleton.mp hm]
        exact ⟨Moment.not_deactivate hs, Moment.refused_of_not_supersedes hs⟩
      · exact .inr ⟨hstale, hwhy.imp_right hlonger⟩
  | @step _ _ _ _ _ rest _ _ hstep ih =>
      have hmove := moves_step hstep rest
      rcases ih with ⟨hdue, hnewest, hlog⟩ | ⟨hstale, hwhy⟩
      · rcases hmove.due hdue with ⟨hdue, hlength, hkept⟩ | ⟨hstale, hwhy⟩
        · refine .inl ⟨hdue, hnewest.trans hlength.symm, List.forall_mem_append.mpr ⟨hlog, ?_⟩⟩
          intro m hm
          rw [List.mem_singleton.mp hm]
          exact hkept
        · refine .inr ⟨hstale, hwhy.imp ?_ ?_⟩
          · exact fun hlt => hnewest ▸ hlt
          · exact fun hwhy => ⟨_, List.mem_append_right _ List.mem_cons_self, hwhy⟩
      · refine .inr ⟨hmove.stale hstale, hwhy.imp ?_ hlonger⟩
        exact fun hlt => Nat.lt_of_lt_of_le hlt hmove.length_le

/-! ## Generations along a course -/

theorem generation_step {w : World} {t : Task} {result : World × List Task}
    (h : w.step s t = .ok result) (rest : List Task) :
    result.1.session.generation
      = w.session.generation + if (⟨w, t, rest⟩ : Moment).supersedes then 1 else 0 :=
  (moves_step h rest).generation

/-- The generation counts the tasks that supersede earlier scans. -/
theorem Course.generation_eq {w₀ w : World} {agenda₀ agenda : List Task} {log : List Moment}
    {events : List Event} (h : Course s w₀ agenda₀ log events w agenda) :
    w.session.generation = w₀.session.generation + log.countP Moment.supersedes := by
  induction h with
  | refl => rfl
  | begin _ _ ih => exact ih
  | @step log _ _ _ _ rest _ _ hstep ih =>
      rw [generation_step hstep rest, ih, List.countP_append, List.countP_singleton, Nat.add_assoc]
  | @fail log _ _ _ rest _ _ hstep ih =>
      rw [ih, List.countP_append, List.countP_singleton, supersedes_of_error hstep rest]
      rfl

/-! ## Timers that go off -/

theorem fire_natCast (w : World) (n : Nat) :
    w.fire n = match w.editor.timers[n]? with
      | some generation => w.expire generation
      | none => (w.record .noTimer, []) := by
  have hn : ¬ (n : Int) < 0 := Int.not_lt.mpr (Int.natCast_nonneg n)
  have htimer : (if (n : Int) < 0 then none else w.editor.timers[(n : Int).toNat]?)
      = w.editor.timers[n]? := if_neg hn
  exact congrArg (fun timer : Option Nat => match timer with
    | some generation => w.expire generation
    | none => (w.record .noTimer, [])) htimer

/-- The world without a pending timer. -/
def idle (w : World) : World := { w with session := { w.session with pending := none } }

theorem fire_of_due {w : World} {n : Nat} (h : w.clock.Due n) :
    w.fire n = (w.idle, [.scan w.session.generation]) := by
  have htimer : w.editor.timers[n]? = some w.session.generation := h.1
  have hactive : w.session.active = true := h.2
  have hexpires : (w.session.generation = w.session.generation && w.session.active) = true := by
    simp [hactive]
  rw [fire_natCast, htimer]
  exact if_pos hexpires

theorem fire_of_stale {w : World} {n : Nat} (h : w.clock.Stale n) : w.fire n = (w, []) := by
  obtain ⟨generation, htimer, hlt⟩ := h
  have htimer : w.editor.timers[n]? = some generation := htimer
  have hne : generation ≠ w.session.generation := Nat.ne_of_lt hlt
  rw [fire_natCast, htimer]
  simp [expire, hne]

end World

end TagColoring
