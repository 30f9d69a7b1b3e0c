import TagColoring.Proofs.Screen

/-!
# The end of a session

`deactivate` makes all earlier scans worthless, forgets the pending timer, and
removes decorations and drawings.  From then on the session is *asleep*: until it
is activated or told to scan at once, its clock stands still, no scan begins, and
no result of an earlier one is taken (`Asleep.step`).

Decorations and drawings are removed by a task of their own, after the hook of a
cancelled timer.  `Ending` is what holds before and after that task.  In the end
the session has no decorations, and what is drawn comes from the tasks that were
behind `deactivate` on the agenda (`screen_after_deactivate`).

So nothing is drawn, unless the session is deactivated by the editor while it
draws a bucket.  Then the other buckets are still on the agenda, and are drawn
after all drawings were removed (`drawing_outlives_deactivate`).
-/

namespace TagColoring

/-- Actions that do not wake a session, and do not fail. -/
def Action.idle : Action → Bool
  | .activate => false
  | .deactivate => false
  | .updateNow => false
  | .fail => false
  | _ => true

/-- Tasks that do not wake a session, and do not fail on purpose. -/
def Task.idle : Task → Bool
  | .act action => action.idle
  | _ => true

/-- Tasks that do not draw if no result is taken, and do not fail by themselves. -/
def Task.mute : Task → Bool
  | .act _ => true
  | .cancel _ => true
  | .note notice => notice.writable
  | .deliver _ _ => true
  | .rescue => true
  | _ => false

/-- What is shown after a task of a session that takes no results. -/
def Task.redraw (v : Screen) : Task → Screen
  | .paint bucket => v.draw bucket
  | .wipe => .blank
  | _ => v

theorem Task.redraw_of_mute {v : Screen} {t : Task} (h : t.mute = true) : t.redraw v = v := by
  cases t with
  | paint bucket => cases h
  | wipe => cases h
  | _ => rfl

theorem Task.foldl_redraw_blank : ∀ {tasks : List Task}, (∀ bucket, .paint bucket ∉ tasks) →
    tasks.foldl Task.redraw .blank = .blank
  | [], _ => rfl
  | t :: tasks, h => by
      have hfirst : t.redraw .blank = .blank := by
        cases t with
        | paint bucket => exact absurd List.mem_cons_self (h bucket)
        | _ => rfl
      rw [List.foldl_cons, hfirst]
      exact foldl_redraw_blank fun bucket hbucket => h bucket (List.mem_cons_of_mem t hbucket)

namespace World

variable {s : Settings} {w : World} {t : Task} {rest agenda : List Task}
  {result : World × List Task} {events : List Event}

/-! ## Sessions that are asleep -/

/-- The session is not active and has no pending timer.  No scan will begin, and all
results that are waited for come too late. -/
structure Asleep (w : World) (agenda : List Task) : Prop where
  active : w.session.active = false
  pending : w.session.pending = none
  scan : ∀ generation, .scan generation ∉ agenda
  late : ∀ u ∈ agenda, ∀ generation ∈ awaited u, generation < w.session.generation

/-- What is left after a failure is asleep, too. -/
theorem Asleep.suffix (h : Asleep w (t :: rest)) (hsuffix : agenda <:+ rest) : Asleep w agenda where
  active := h.active
  pending := h.pending
  scan := fun generation hscan =>
    h.scan generation (List.mem_cons_of_mem t (hsuffix.subset hscan))
  late := fun u hu => h.late u (List.mem_cons_of_mem t (hsuffix.subset hu))

theorem fire_of_inactive (h : w.session.active = false) (timer : Int) : (w.fire timer).2 = [] := by
  unfold fire
  split
  · rw [expire, h, Bool.and_false]
    rfl
  · rfl

theorem trigger_of_inactive (h : w.session.active = false) : w.trigger s = (w, []) := by
  rw [trigger, h]
  rfl

theorem Asleep.supersedes (h : Asleep w (t :: rest)) (ht : t.idle = true) :
    (⟨w, t, rest⟩ : Moment).supersedes = false := by
  cases t with
  | act action =>
      cases action with
      | activate => cases ht
      | deactivate => cases ht
      | trigger => exact h.active
      | refresh => exact h.active
      | _ => rfl
  | _ => rfl

theorem Asleep.clock (h : Asleep w (t :: rest)) (ht : t.idle = true)
    (hstep : w.step s t = .ok result) : result.1.clock = w.clock := by
  have hidle : w.clock.idle = w.clock := by
    rw [Clock.idle, ← h.pending]
    rfl
  have hs := h.supersedes ht
  have hmoves := moves_step hstep rest
  generalize result.1.clock = c at hmoves ⊢
  cases hmoves with
  | keep _ => rfl
  | expire _ => exact hidle
  | schedule hwhy _ => cases hs.symm.trans (Moment.supersedes_of_schedules hwhy)
  | lapse hwhy _ => cases hs.symm.trans (Moment.supersedes_of_schedules hwhy)
  | deactivate hwhy => cases hs.symm.trans (Moment.supersedes_of_deactivate hwhy)

theorem mute_map_act (actions : List Action) : ∀ u ∈ actions.map Task.act, u.mute = true := by
  intro u hu
  obtain ⟨action, _, rfl⟩ := List.mem_map.mp hu
  rfl

theorem Asleep.tasks_act {action : Action} (h : Asleep w (.act action :: rest))
    (ht : action.idle = true) (hstep : w.act s action = .ok result) :
    ∀ u ∈ result.2, u.mute = true := by
  cases action with
  | activate => cases ht
  | deactivate => cases ht
  | updateNow => cases ht
  | fail => cases ht
  | trigger =>
      cases hstep
      rw [trigger_of_inactive h.active]
      exact List.forall_mem_nil _
  | refresh =>
      cases hstep
      rw [trigger_of_inactive h.active]
      exact List.forall_mem_nil _
  | fire timer =>
      cases hstep
      rw [fire_of_inactive h.active timer]
      exact List.forall_mem_nil _
  | fireLast =>
      cases hstep
      rw [fire_of_inactive h.active]
      exact List.forall_mem_nil _
  | attempt body =>
      cases hstep
      exact List.forall_mem_append.mpr ⟨mute_map_act body, by simp [Task.mute]⟩
  | setBuffer buffer =>
      cases hstep
      exact List.forall_mem_nil _
  | hook place body =>
      cases hstep
      exact List.forall_mem_nil _
  | refuse refuses =>
      cases hstep
      exact List.forall_mem_nil _

theorem Asleep.deliver {generation : Nat} {buffer : Option Buffer}
    (h : Asleep w (.deliver generation buffer :: rest)) :
    w.deliver s generation buffer = (w.discard s buffer, []) := by
  have hlate := h.late _ List.mem_cons_self generation rfl
  rcases deliver_cases s w generation buffer with ⟨_, hd⟩ | ⟨hsame, _⟩ | ⟨hsame, _⟩
  · exact hd
  · omega
  · omega

/-- What a session that is asleep does leads to actions, and to results that come too
late. -/
theorem Asleep.tasks (h : Asleep w (t :: rest)) (ht : t.idle = true)
    (hstep : w.step s t = .ok result) : ∀ u ∈ result.2, u.mute = true := by
  cases t with
  | act action => exact h.tasks_act ht hstep
  | note notice =>
      simp only [step] at hstep
      split at hstep
      · cases hstep
        exact List.forall_mem_nil _
      · cases hstep
  | cancel timer =>
      cases hstep
      exact mute_map_act _
  | start timer =>
      cases hstep
      split
      · exact List.forall_mem_cons.mpr ⟨rfl, mute_map_act _⟩
      · exact mute_map_act _
  | wipe =>
      cases hstep
      exact mute_map_act _
  | scan generation => exact absurd List.mem_cons_self (h.scan generation)
  | snapshot generation =>
      cases hstep
      exact List.forall_mem_append.mpr ⟨mute_map_act _, by simp [Task.mute]⟩
  | deliver generation buffer =>
      cases hstep
      rw [h.deliver]
      exact List.forall_mem_nil _
  | paint bucket =>
      cases hstep
      exact mute_map_act _
  | rescue =>
      cases hstep
      exact List.forall_mem_nil _

theorem Asleep.step (h : Asleep w (t :: rest)) (ht : t.idle = true)
    (hstep : w.step s t = .ok result) : Asleep result.1 (result.2 ++ rest) := by
  have hclock := h.clock ht hstep
  have hgeneration : result.1.session.generation = w.session.generation :=
    congrArg Clock.generation hclock
  refine ⟨(congrArg Clock.active hclock).trans h.active,
    (congrArg Clock.pending hclock).trans h.pending, ?_, ?_⟩
  · intro generation hscan
    rcases List.mem_append.mp hscan with hscan | hscan
    · cases h.tasks ht hstep _ hscan
    · exact h.scan generation (List.mem_cons_of_mem t hscan)
  · intro u hu generation hwaits
    rw [hgeneration]
    rcases List.mem_append.mp hu with hu | hu
    · rcases awaited_of_step hstep hu hwaits with rfl | hwaits
      · exact absurd List.mem_cons_self (h.scan generation)
      · exact h.late t List.mem_cons_self generation hwaits
    · exact h.late u (List.mem_cons_of_mem t hu) generation hwaits

/-- Without results that are taken, only drawings and removals change the screen. -/
theorem Asleep.redraw (h : Asleep w (t :: rest)) (v : Screen) :
    (⟨w, t, rest⟩ : Moment).redraw s v = t.redraw v := by
  cases t with
  | deliver generation buffer =>
      have hlate := h.late _ List.mem_cons_self generation rfl
      exact if_neg fun hsame => Nat.ne_of_lt hlate hsame.1
  | _ => rfl

/-- Decorations are kept, or removed. -/
theorem Asleep.decorations (h : Asleep w (t :: rest)) (hstep : w.step s t = .ok result) :
    result.1.session.decorations = w.session.decorations ∨
      result.1.session.decorations = s.noDecorations := by
  rw [decorations_step hstep rest]
  cases t with
  | wipe => exact .inr rfl
  | deliver generation buffer =>
      have hlate := h.late _ List.mem_cons_self generation rfl
      have hnone : Moment.decorates s ⟨w, .deliver generation buffer, rest⟩ = none :=
        if_neg (Nat.ne_of_lt hlate)
      rw [hnone]
      exact .inl rfl
  | _ => exact .inl rfl

/-- Before anything else, a session that is deactivated tells of a cancelled timer. -/
theorem deactivate_tasks (w : World) : ∃ own, (∀ t ∈ own, t.mute = true) ∧
    w.deactivate.2 = own ++ [.wipe, .note .deactivated] := by
  cases hpending : w.session.pending with
  | none => exact ⟨[], nofun, by rw [deactivate, hpending]⟩
  | some timer =>
      refine ⟨[.cancel timer, .note .cancelled], ?_, by rw [deactivate, hpending]⟩
      simp [Task.mute, Notice.writable]

/-- `deactivate` puts a session to sleep.  What is waited for was for its generation or an
earlier one. -/
theorem Timely.asleep (h : Timely w (.act .deactivate :: rest)) :
    Asleep w.deactivate.1 (w.deactivate.2 ++ rest) := by
  have hstep : w.step .default (.act .deactivate) = .ok w.deactivate := rfl
  refine ⟨rfl, rfl, ?_, ?_⟩
  · intro generation hscan
    rcases List.mem_append.mp hscan with hscan | hscan
    · obtain ⟨own, hmute, htasks⟩ := deactivate_tasks w
      rw [htasks] at hscan
      rcases List.mem_append.mp hscan with hscan | hscan
      · cases hmute _ hscan
      · simp at hscan
    · exact h.only generation hscan
  · intro u hu generation hwaits
    rcases List.mem_append.mp hu with hu | hu
    · rcases awaited_of_step hstep hu hwaits with heq | hwaits
      · cases heq
      · cases hwaits
    · exact Nat.lt_succ_of_le (h.past u (List.mem_cons_of_mem _ hu) generation hwaits)

/-! ## Before and after the removal -/

/-- What is left of a session that was deactivated with some tasks behind it.  Either
all drawings will be removed, or they were, and of the tasks behind it some are done
and others are left. -/
inductive Ending (s : Settings) (behind : List Task) (v : Screen) (d : Decorations)
    (agenda : List Task) : Prop where
  | ahead (own : List Task) (hown : ∀ t ∈ own, t.mute = true)
      (hagenda : agenda = own ++ .wipe :: .note .deactivated :: behind) : Ending s behind v d agenda
  | past (own done left : List Task) (hown : ∀ t ∈ own, t.mute = true)
      (hagenda : agenda = own ++ left) (hbehind : behind = done ++ left)
      (hshown : v = done.foldl Task.redraw .blank) (hd : d = s.noDecorations) :
      Ending s behind v d agenda

theorem ending_deactivate (w : World) (behind : List Task) (v : Screen) (d : Decorations) :
    Ending s behind v d (w.deactivate.2 ++ behind) := by
  obtain ⟨own, hmute, htasks⟩ := deactivate_tasks w
  rw [htasks, List.append_assoc]
  exact .ahead own hmute rfl

theorem step_of_mute (ht : t.mute = true) (hidle : t.idle = true) {failure : Failure} :
    w.step s t ≠ .error failure := by
  intro hstep
  cases t with
  | act action =>
      cases action with
      | fail => cases hidle
      | _ => cases hstep
  | note notice =>
      have hwritable : notice.writable = true := ht
      simp only [step, hwritable, if_true] at hstep
      cases hstep
  | _ => cases hstep

theorem Ending.step {behind : List Task} {v : Screen}
    (h : Ending s behind v w.session.decorations (t :: rest)) (hasleep : Asleep w (t :: rest))
    (ht : t.idle = true) (hstep : w.step s t = .ok result) :
    Ending s behind (t.redraw v) result.1.session.decorations (result.2 ++ rest) := by
  have htasks := hasleep.tasks ht hstep
  have hadded : ∀ {own : List Task}, (∀ u ∈ own, u.mute = true) →
      ∀ u ∈ result.2 ++ own, u.mute = true := by
    intro own hown u hu
    rcases List.mem_append.mp hu with hu | hu
    · exact htasks u hu
    · exact hown u hu
  cases h with
  | ahead own hown hagenda =>
      cases own with
      | nil =>
          -- The removal is next.
          cases hagenda
          cases hstep
          have hnote : ∀ u ∈ [Task.note .deactivated], u.mute = true := by
            simp [Task.mute, Notice.writable]
          exact .past (_ ++ [.note .deactivated]) [] behind (hadded hnote)
            (List.append_cons _ _ _) rfl rfl rfl
      | cons u own =>
          cases hagenda
          exact .ahead (result.2 ++ own) (hadded (List.forall_mem_cons.mp hown).2)
            (List.append_assoc _ _ _).symm
  | past own done left hown hagenda hbehind hshown hd =>
      have hempty : result.1.session.decorations = s.noDecorations := by
        rcases hasleep.decorations hstep with hkept | hremoved
        · exact hkept.trans hd
        · exact hremoved
      cases own with
      | nil =>
          rw [List.nil_append] at hagenda
          subst hagenda
          refine .past result.2 (done ++ [t]) rest htasks rfl ?_ ?_ hempty
          · rw [hbehind, List.append_cons]
          · rw [hshown, List.foldl_append]
            rfl
      | cons u own =>
          cases hagenda
          obtain ⟨hfirst, hown⟩ := List.forall_mem_cons.mp hown
          refine .past (result.2 ++ own) done left (hadded hown) (List.append_assoc _ _ _).symm
            hbehind ?_ hempty
          rw [Task.redraw_of_mute hfirst]
          exact hshown

/-- A failure drops some of the tasks behind. -/
theorem Ending.fail {behind : List Task} {v : Screen} {d : Decorations} {failure : Failure}
    (h : Ending s behind v d (t :: rest)) (ht : t.idle = true)
    (hstep : w.step s t = .error failure) :
    ∃ kept, kept.Sublist behind ∧ Ending s kept v d (rescued rest) := by
  cases h with
  | ahead own hown hagenda =>
      cases own with
      | nil =>
          cases hagenda
          cases hstep
      | cons u own =>
          cases hagenda
          exact absurd hstep (step_of_mute (List.forall_mem_cons.mp hown).1 ht)
  | past own done left hown hagenda hbehind hshown hd =>
      cases own with
      | nil =>
          rw [List.nil_append] at hagenda
          subst hagenda
          refine ⟨done ++ rescued rest, ?_, .past [] done _ nofun rfl rfl hshown hd⟩
          have hdropped : (rescued rest).Sublist (t :: rest) :=
            (rescued_suffix rest).sublist.trans (List.sublist_cons_self t rest)
          rw [hbehind]
          exact hdropped.append_left done
      | cons u own =>
          cases hagenda
          exact absurd hstep (step_of_mute (List.forall_mem_cons.mp hown).1 ht)

theorem Ending.nil {behind : List Task} {v : Screen} {d : Decorations}
    (h : Ending s behind v d []) :
    v = behind.foldl Task.redraw .blank ∧ d = s.noDecorations := by
  cases h with
  | ahead own hown hagenda => simp at hagenda
  | past own done left hown hagenda hbehind hshown hd =>
      obtain ⟨_, rfl⟩ := List.append_eq_nil_iff.mp hagenda.symm
      rw [List.append_nil] at hbehind
      rw [hbehind]
      exact ⟨hshown, hd⟩

/-- What holds after a session was deactivated, until it is woken. -/
theorem Course.ending {w₀ : World} {log before later : List Moment} {m : Moment}
    (h : Course s w₀ [] log events w agenda) (htimely : Timely m.world (m.task :: m.rest))
    (hlast : m.task = .act .deactivate) (hlog : log = before ++ m :: later)
    (hlater : ∀ m' ∈ later, m'.task.idle = true) :
    Asleep w agenda ∧ ∃ behind, behind.Sublist m.rest ∧
      ((∀ m' ∈ later, ∃ result, m'.world.step s m'.task = .ok result) → behind = m.rest) ∧
      Ending s behind (screenOf (events ++ w.events)) w.session.decorations agenda := by
  -- The tasks behind stay the same along the course, but a failure drops some of them.
  induction h generalizing later with
  | refl => simp at hlog
  | begin _ action ih =>
      obtain ⟨hasleep, behind, hpart, hall, hending⟩ := ih hlog hlater
      obtain ⟨hshown, hd⟩ := hending.nil
      rw [append_fresh]
      refine ⟨⟨hasleep.active, hasleep.pending, by simp, by simp [awaited]⟩, behind, hpart, hall,
        ?_⟩
      exact .past [.act action] behind [] (by simp [Task.mute]) rfl (List.append_nil _).symm
        hshown hd
  | @step _ events w w' t rest tasks h hstep ih =>
      rcases split_concat hlog with ⟨rfl, _, rfl⟩ | ⟨between, rfl, hsplit⟩
      · -- This is the moment at which the session is deactivated.
        cases hlast
        cases hstep
        exact ⟨htimely.asleep, rest, List.Sublist.refl rest, fun _ => rfl,
          ending_deactivate w rest _ _⟩
      · obtain ⟨hbetween, hidle⟩ := List.forall_mem_append.mp hlater
        obtain ⟨hasleep, behind, hpart, hall, hending⟩ := ih hsplit hbetween
        have ht : t.idle = true := hidle _ List.mem_cons_self
        refine ⟨hasleep.step ht hstep, behind, hpart, ?_, ?_⟩
        · exact fun hok => hall fun m' hm' => hok m' (List.mem_append_left _ hm')
        · rw [screen_step hstep events rest, hasleep.redraw]
          exact hending.step hasleep ht hstep
  | @fail _ events w t rest failure h hstep ih =>
      rcases split_concat hlog with ⟨rfl, _, rfl⟩ | ⟨between, rfl, hsplit⟩
      · cases hlast
        cases hstep
      · obtain ⟨hbetween, hidle⟩ := List.forall_mem_append.mp hlater
        obtain ⟨hasleep, behind, hpart, hall, hending⟩ := ih hsplit hbetween
        obtain ⟨kept, hkept, hending⟩ := hending.fail (hidle _ List.mem_cons_self) hstep
        refine ⟨hasleep.suffix (rescued_suffix rest), kept, hkept.trans hpart, ?_, hending⟩
        intro hok
        obtain ⟨result, hresult⟩ := hok _ (List.mem_append_right _ List.mem_cons_self)
        rw [hstep] at hresult
        cases hresult

/-- Once a session was deactivated and not woken since, and nothing is left to do, it is
not active, has no pending timer and no decorations.  If nothing was to be drawn behind
`deactivate`, nothing is shown.  Otherwise what was to be drawn is shown, unless a failure
came first. -/
theorem screen_after_deactivate {before later : List Moment} {m : Moment}
    (h : Chronicle s (before ++ m :: later) events w []) (hlast : m.task = .act .deactivate)
    (hlater : ∀ m' ∈ later, m'.task.idle = true) :
    w.session.active = false ∧ w.session.pending = none ∧
    w.session.decorations = s.noDecorations ∧
    ((∀ bucket, .paint bucket ∉ m.rest) → screenOf (events ++ w.events) = .blank) ∧
    ((∀ m' ∈ later, ∃ result, m'.world.step s m'.task = .ok result) →
      screenOf (events ++ w.events) = m.rest.foldl Task.redraw .blank) := by
  obtain ⟨buffer, immediate, h⟩ := h
  obtain ⟨events', hbefore⟩ := h.before rfl
  have htimely := Reachable.timely ⟨_, _, buffer, immediate, hbefore⟩
  obtain ⟨hasleep, behind, hpart, hall, hending⟩ := h.ending htimely hlast rfl hlater
  obtain ⟨hshown, hd⟩ := hending.nil
  refine ⟨hasleep.active, hasleep.pending, hd, ?_, ?_⟩
  · intro hnone
    rw [hshown]
    exact Task.foldl_redraw_blank fun bucket hbucket => hnone bucket (hpart.subset hbucket)
  · intro hok
    rw [hshown, hall hok]

/-- A session that has drawn a tag is deactivated while it reads the buffer again.  The
result comes too late, and nothing is shown. -/
theorem screen_after_deactivate_reading :
    ∃ (before later : List Moment) (m : Moment) (events : List Event) (w : World),
      Chronicle .monochrome (before ++ m :: later) events w [] ∧ m.task = .act .deactivate ∧
      m.rest = [.deliver 0 (some .paragraph)] ∧ (∀ m' ∈ later, m'.task.idle = true) ∧
      screenOf events .name 0 = [⟨1, 2, 0, .name⟩] ∧
      screenOf (events ++ w.events) = .blank := by
  have hrun : ∃ (log : List Moment) (m : Moment) (events : List Event) (w : World),
      Chronicle .monochrome log events w [] ∧ log[10]? = some m ∧ m.task = .act .deactivate ∧
      m.rest = [.deliver 0 (some .paragraph)] ∧
      (log.drop 11).all (fun m' => m'.task.idle) = true ∧
      screenOf events .name 0 = [⟨1, 2, 0, .name⟩] := by
    have hstart : Course .monochrome (start .monochrome (some .paragraph) false) [] [] [] _ [] :=
      .refl
    have hdrawing := ((((hstart.begin .updateNow).step rfl).step rfl).step rfl).step
      (step_draw scanOf_paragraph)
    have hdrawn := (hdrawing.step rfl).step rfl
    have hhooked := (hdrawn.begin (.hook .read [.deactivate])).step rfl
    have hreading := (((hhooked.begin .updateNow).step rfl).step rfl).step rfl
    have hend := (((hreading.step rfl).step rfl).step rfl).step rfl
    exact ⟨_, _, _, _, ⟨some .paragraph, false, hend⟩, rfl, rfl, rfl, rfl, rfl⟩
  obtain ⟨log, m, events, w, hend, hplace, hlast, hrest, hidle, hshown⟩ := hrun
  have hlater : ∀ m' ∈ log.drop 11, m'.task.idle = true := List.all_eq_true.mp hidle
  rw [split_at_place hplace] at hend
  have hblank := (screen_after_deactivate hend hlast hlater).2.2.2.1 (by simp [hrest])
  exact ⟨_, _, m, events, w, hend, hlast, hrest, hlater, hshown, hblank⟩

/-- While the first bucket of a tag is drawn, the session is deactivated.  Nothing fails
and no other action follows, but the second bucket is shown in the end. -/
theorem drawing_outlives_deactivate :
    ∃ (log : List Moment) (events : List Event) (w : World),
      Chronicle .monochrome log events w [] ∧
      log.map Moment.task = [.act (.hook .apply [.deactivate]), .act .updateNow, .scan 0,
        .snapshot 0, .deliver 0 (some .paragraph),
        .paint ⟨.delimiter, 0, [⟨0, 1, 0, .delimiter⟩, ⟨2, 3, 0, .delimiter⟩]⟩,
        .act .deactivate, .wipe, .note .deactivated,
        .paint ⟨.name, 0, [⟨1, 2, 0, .name⟩]⟩] ∧
      screenOf (events ++ w.events) .name 0 = [⟨1, 2, 0, .name⟩] := by
  have hstart : Course .monochrome (start .monochrome (some .paragraph) false) [] [] [] _ [] :=
    .refl
  have hhooked := (hstart.begin (.hook .apply [.deactivate])).step rfl
  have hdrawing := ((((hhooked.begin .updateNow).step rfl).step rfl).step rfl).step
    (step_draw scanOf_paragraph)
  have hended := ((hdrawing.step rfl).step rfl).step rfl
  have hend := (hended.step rfl).step rfl
  exact ⟨_, _, _, ⟨some .paragraph, false, hend⟩, rfl, rfl⟩

end World

end TagColoring
