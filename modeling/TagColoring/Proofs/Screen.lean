import Mathlib.Data.List.Induction
import TagColoring.Proofs.Decoration
import TagColoring.Proofs.Effects

/-!
# What is on the screen

The calls of the editor say what it shows.  A drawing replaces the spans of its
bucket, and a removal empties all buckets.  `screenOf` replays them.

A session keeps its decorations and the screen apart.  It sets all decorations at
once and then draws one bucket after another.  `Drawn` is what holds in between:
the buckets of the decorations are those that were drawn, followed by those that
come next on the agenda.  With nothing left to do, all of them were drawn
(`screen_shows_decorations`).

That needs an editor that leaves the session alone while it draws.  Otherwise the
decorations can change in the middle, and the old buckets are drawn over the new
ones.
-/

namespace TagColoring

/-- The spans that are shown for each channel and color. -/
def Screen := Channel → Nat → List Span

namespace Screen

/-- Nothing is shown. -/
def blank : Screen := fun _ _ => []

/-- A bucket is drawn in place of what it had. -/
def draw (v : Screen) (b : Bucket) : Screen := fun channel index =>
  if channel = b.channel ∧ index = b.index then b.spans else v channel index

/-- What is shown after a call of the editor. -/
def update (v : Screen) : Event → Screen
  | .apply b _ _ => v.draw b
  | .clear => blank
  | _ => v

theorem draw_self (v : Screen) (b : Bucket) : v.draw b b.channel b.index = b.spans :=
  if_pos ⟨rfl, rfl⟩

theorem draw_other (v : Screen) {b : Bucket} {channel : Channel} {index : Nat}
    (h : ¬ (channel = b.channel ∧ index = b.index)) :
    v.draw b channel index = v channel index := if_neg h

theorem update_of_draws (v : Screen) {e : Event} (h : e.draws = false) : v.update e = v := by
  cases e with
  | apply _ _ _ => cases h
  | clear => cases h
  | _ => rfl

end Screen

/-- What is shown after calls of the editor. -/
def screenOf (events : List Event) : Screen := events.foldl Screen.update .blank

theorem screenOf_concat (events : List Event) (e : Event) :
    screenOf (events ++ [e]) = (screenOf events).update e := by
  rw [screenOf, List.foldl_append]
  rfl

theorem screenOf_append_draws (events : List Event) : ∀ {added : List Event},
    (∀ e ∈ added, e.draws = false) → screenOf (events ++ added) = screenOf events
  | [], _ => by rw [List.append_nil]
  | e :: added, h => by
      obtain ⟨he, hadded⟩ := List.forall_mem_cons.mp h
      rw [List.append_cons, screenOf_append_draws _ hadded, screenOf_concat]
      exact Screen.update_of_draws _ he

/-- What is shown after a moment. -/
def Moment.redraw (s : Settings) (v : Screen) (m : Moment) : Screen :=
  match m.task with
  | .paint bucket => v.draw bucket
  | .wipe => .blank
  | .deliver generation buffer =>
      if generation = m.world.session.generation ∧ World.scanOf s buffer = none then .blank else v
  | _ => v

theorem Moment.redraw_of_finishes {s : Settings} {v : Screen} {m : Moment}
    (h : m.task.finishes = false) (hwipe : m.task ≠ .wipe) : m.redraw s v = v := by
  rw [Moment.redraw]
  split
  · next heq => cases heq ▸ h
  · next heq => exact absurd heq hwipe
  · next heq => cases heq ▸ h
  · rfl

namespace World

variable {s : Settings} {w : World} {agenda : List Task} {log : List Moment} {events : List Event}

theorem screenOf_call (events : List Event) (w : World) (e : Event) (place : HookPlace) :
    screenOf (events ++ (w.call e place).1.events) = (screenOf (events ++ w.events)).update e := by
  have hevents : (w.call e place).1.events = w.events ++ [e] := rfl
  rw [hevents, ← List.append_assoc, screenOf_concat]

/-- An action from outside begins with no calls of its own. -/
theorem append_fresh (events : List Event) (w : World) :
    events ++ w.events ++ w.fresh.events = events ++ w.events := List.append_nil _

/-- A task changes the screen as its moment says. -/
theorem screen_step {t : Task} {result : World × List Task} (h : w.step s t = .ok result)
    (events : List Event) (rest : List Task) :
    screenOf (events ++ result.1.events)
      = (⟨w, t, rest⟩ : Moment).redraw s (screenOf (events ++ w.events)) := by
  cases effect_step h with
  | plain ht hwipe hplain =>
      obtain ⟨added, hadded, hdraws⟩ := hplain.events
      rw [hadded, ← List.append_assoc, screenOf_append_draws _ hdraws]
      exact (Moment.redraw_of_finishes ht hwipe).symm
  | read _ => exact screenOf_call events w .read .request
  | snapshot _ => rfl
  | discard buffer hlate => exact (if_neg fun h => hlate h.1).symm
  | draw hscan => simp [Moment.redraw, hscan]
  | clear hwhy =>
      rw [screenOf_call]
      rcases hwhy with rfl | ⟨buffer, rfl, hscan⟩
      · rfl
      · exact (if_pos ⟨rfl, hscan⟩).symm
  | paint bucket => exact screenOf_call events w (drawing s bucket) .apply

/-! ## Buckets of the palette -/

theorem noDecorations_sorted (s : Settings) :
    s.noDecorations.buckets = Decorations.sorted s.paletteSize [] := by
  rw [← Decorations.sorted_eq]
  exact ((List.map_congr_left fun b _ => b.extend_nil).trans (List.map_id _)).symm

/-- The decorations of a scan have the buckets of the palette. -/
theorem decorationsOf_sorted (s : Settings) (scan : Option Scan) :
    ∃ spans, (decorationsOf s scan).buckets = Decorations.sorted s.paletteSize spans := by
  cases scan with
  | none => exact ⟨[], noDecorations_sorted s⟩
  | some scan =>
      refine ⟨scan.spans.takeWhile s.noDecorations.accepts, ?_⟩
      rw [← Decorations.sorted_eq, decorationsOf, Decorations.extend_eq]
      rfl

/-- At every moment there is a bucket for each channel and each color. -/
theorem Chronicle.decorations_sorted (h : Chronicle s log events w agenda) :
    ∃ spans, w.session.decorations.buckets = Decorations.sorted s.paletteSize spans := by
  obtain ⟨buffer, immediate, h⟩ := h
  rw [h.decorations_eq]
  cases hlast : (log.filterMap (Moment.decorates s)).getLast? with
  | none => exact decorationsOf_sorted s none
  | some decorations =>
      obtain ⟨m, _, hset⟩ := List.mem_filterMap.mp (List.mem_of_getLast? hlast)
      rw [Moment.decorates] at hset
      split at hset
      · cases hset
        exact decorationsOf_sorted s none
      · split at hset
        · cases hset
          exact decorationsOf_sorted s _
        · cases hset
      · cases hset

theorem eq_of_mem_sorted {size : Nat} {spans : List Span} {b b' : Bucket}
    (h : b ∈ Decorations.sorted size spans) (h' : b' ∈ Decorations.sorted size spans)
    (hchannel : b.channel = b'.channel) (hindex : b.index = b'.index) : b = b' := by
  obtain ⟨channel, index, _, rfl⟩ := Decorations.mem_sorted.mp h
  obtain ⟨channel', index', _, rfl⟩ := Decorations.mem_sorted.mp h'
  cases hchannel
  cases hindex
  rfl

theorem spans_noDecorations {b : Bucket} (h : b ∈ s.noDecorations.buckets) : b.spans = [] := by
  rw [noDecorations_sorted] at h
  obtain ⟨channel, index, _, rfl⟩ := Decorations.mem_sorted.mp h
  rfl

/-! ## Colors of drawings -/

end World

/-- A drawing has the color of its bucket in the palette, and the intensity of its
channel. -/
def Event.Faithful (s : Settings) : Event → Prop
  | .apply b color intensity =>
      s.palette[b.index]? = some color ∧ intensity = s.intensity b.channel
  | _ => True

theorem Event.faithful_of_draws {s : Settings} {e : Event} (h : e.draws = false) :
    e.Faithful s := by
  cases e with
  | apply _ _ _ => cases h
  | _ => trivial

/-- Nothing is shown for what is not a color of the palette. -/
theorem screenOf_outside {s : Settings} (channel : Channel) {index : Nat}
    (hindex : s.paletteSize ≤ index) {events : List Event} (h : ∀ e ∈ events, e.Faithful s) :
    screenOf events channel index = [] := by
  induction events using List.reverseRecOn with
  | nil => rfl
  | append_singleton events e ih =>
      have ih := ih fun e' he' => h e' (List.mem_append_left _ he')
      rw [screenOf_concat]
      cases e with
      | apply b color intensity =>
          obtain ⟨hcolor, _⟩ := h _ (List.mem_append_right _ (List.mem_singleton_self _))
          have hlt : b.index < s.paletteSize := (List.getElem?_eq_some_iff.mp hcolor).1
          exact (Screen.draw_other _ fun hsame => by omega).trans ih
      | clear => rfl
      | _ => exact ih

namespace World

variable {s : Settings} {w : World} {agenda : List Task} {log : List Moment} {events : List Event}

/-- What is drawn, and what will be, has the colors and intensities of the settings. -/
structure Colored (s : Settings) (events : List Event) (agenda : List Task) : Prop where
  drawn : ∀ e ∈ events, e.Faithful s
  left : ∀ bucket, .paint bucket ∈ agenda → bucket.index < s.paletteSize

theorem faithful_drawing {bucket : Bucket} (h : bucket.index < s.paletteSize) :
    (drawing s bucket).Faithful s := by
  refine ⟨?_, rfl⟩
  rw [List.getD_eq_getElem?_getD, List.getElem?_eq_getElem h]
  rfl

theorem not_paint_react {place : HookPlace} (bucket : Bucket) :
    .paint bucket ∉ (w.react place).2 := not_mem_react fun _ => Task.noConfusion

/-- The actions of a hook and a task that draws nothing. -/
theorem not_paint_react_concat {place : HookPlace} {t : Task} (ht : ∀ bucket, t ≠ .paint bucket)
    (bucket : Bucket) : .paint bucket ∉ (w.react place).2 ++ [t] := by
  intro hbucket
  rcases List.mem_append.mp hbucket with hbucket | hbucket
  · exact not_paint_react bucket hbucket
  · exact ht bucket (List.mem_singleton.mp hbucket).symm

theorem Colored.next {t : Task} {rest : List Task} {result : World × List Task}
    {added : List Event} (h : Colored s (events ++ w.events) (t :: rest))
    (hevents : result.1.events = w.events ++ added) (hadded : ∀ e ∈ added, e.Faithful s)
    (htasks : ∀ bucket, .paint bucket ∈ result.2 → bucket.index < s.paletteSize) :
    Colored s (events ++ result.1.events) (result.2 ++ rest) := by
  rw [hevents, ← List.append_assoc]
  refine ⟨?_, ?_⟩
  · intro e he
    rcases List.mem_append.mp he with he | he
    · exact h.drawn e he
    · exact hadded e he
  · intro bucket hbucket
    rcases List.mem_append.mp hbucket with hbucket | hbucket
    · exact htasks bucket hbucket
    · exact h.left bucket (List.mem_cons_of_mem t hbucket)

theorem Colored.step {t : Task} {rest : List Task} {result : World × List Task}
    (h : Colored s (events ++ w.events) (t :: rest)) (hstep : w.step s t = .ok result) :
    Colored s (events ++ result.1.events) (result.2 ++ rest) := by
  cases effect_step hstep with
  | plain _ _ hplain =>
      obtain ⟨added, hadded, hdraws⟩ := hplain.events
      refine h.next hadded (fun e he => Event.faithful_of_draws (hdraws e he)) ?_
      intro bucket hbucket
      cases hplain.tasks _ hbucket
  | read generation =>
      have hevents : (w.call .read .request).1.events = w.events ++ [.read] := rfl
      refine h.next hevents (fun e he => List.mem_singleton.mp he ▸ trivial) ?_
      exact fun bucket hbucket => absurd hbucket
        (not_paint_react_concat (fun _ => Task.noConfusion) bucket)
  | snapshot generation =>
      have hevents : (w.react .read).1.events = w.events ++ [] := (List.append_nil _).symm
      refine h.next hevents nofun ?_
      exact fun bucket hbucket => absurd hbucket
        (not_paint_react_concat (fun _ => Task.noConfusion) bucket)
  | discard buffer _ => exact h.next (List.append_nil _).symm nofun nofun
  | @draw _ scan _ =>
      refine h.next (List.append_nil _).symm nofun ?_
      intro bucket hbucket
      obtain ⟨bucket, hmem, heq⟩ := List.mem_map.mp hbucket
      cases heq
      obtain ⟨spans, hsorted⟩ := decorationsOf_sorted s (some scan)
      rw [hsorted] at hmem
      obtain ⟨channel, index, hindex, rfl⟩ := Decorations.mem_sorted.mp hmem
      exact hindex
  | clear _ =>
      have hevents : ((w.bare s).call .clear .clear).1.events = w.events ++ [.clear] := rfl
      refine h.next hevents (fun e he => List.mem_singleton.mp he ▸ trivial) ?_
      exact fun bucket hbucket => absurd hbucket (not_paint_react bucket)
  | paint bucket =>
      have hevents : (w.call (drawing s bucket) .apply).1.events
        = w.events ++ [drawing s bucket] := rfl
      have hfaithful := faithful_drawing (h.left bucket List.mem_cons_self)
      refine h.next hevents (fun e he => List.mem_singleton.mp he ▸ hfaithful) ?_
      exact fun bucket hbucket => absurd hbucket (not_paint_react bucket)

/-- All drawings of a session have the colors and intensities of its settings. -/
theorem Chronicle.colored (h : Chronicle s log events w agenda) :
    Colored s (events ++ w.events) agenda := by
  obtain ⟨buffer, immediate, h⟩ := h
  induction h with
  | refl => exact ⟨nofun, nofun⟩
  | begin _ action ih =>
      rw [append_fresh]
      exact ⟨ih.drawn, by simp⟩
  | step _ hstep ih => exact ih.step hstep
  | @fail _ _ _ t rest _ _ _ ih =>
      refine ⟨ih.drawn, fun bucket hbucket => ih.left bucket ?_⟩
      exact List.mem_cons_of_mem t ((rescued_suffix rest).subset hbucket)

/-! ## Drawing one bucket after another -/

/-- The buckets are those that are shown, followed by those that are drawn next. -/
def Drawn (v : Screen) (buckets : List Bucket) (agenda : List Task) : Prop :=
  ∃ done left rest, buckets = done ++ left ∧ agenda = left.map .paint ++ rest ∧
    (∀ bucket, .paint bucket ∉ rest) ∧ ∀ b ∈ done, v b.channel b.index = b.spans

/-- All buckets are shown, and none is drawn next. -/
theorem drawn_all {v : Screen} {buckets : List Bucket} (hrest : ∀ bucket, .paint bucket ∉ agenda)
    (h : ∀ b ∈ buckets, v b.channel b.index = b.spans) : Drawn v buckets agenda :=
  ⟨buckets, [], agenda, (List.append_nil _).symm, rfl, hrest, h⟩

/-- A bucket is drawn next, or no bucket is left to be drawn. -/
theorem Drawn.cases {v : Screen} {buckets : List Bucket} {t : Task} {rest : List Task}
    (h : Drawn v buckets (t :: rest)) :
    (∃ done b left rest', t = .paint b ∧ buckets = done ++ b :: left ∧
        rest = left.map .paint ++ rest' ∧ (∀ bucket, .paint bucket ∉ rest') ∧
        ∀ b ∈ done, v b.channel b.index = b.spans) ∨
      (∀ bucket, .paint bucket ∉ t :: rest) ∧ ∀ b ∈ buckets, v b.channel b.index = b.spans := by
  obtain ⟨done, left, rest', rfl, hagenda, hrest, hdone⟩ := h
  cases left with
  | nil =>
      rw [List.map_nil, List.nil_append] at hagenda
      rw [List.append_nil, hagenda]
      exact .inr ⟨hrest, hdone⟩
  | cons b left =>
      rw [List.map_cons, List.cons_append] at hagenda
      cases hagenda
      exact .inl ⟨done, b, left, rest', rfl, rfl, rfl, hrest, hdone⟩

/-- A bucket is drawn.  Those that were drawn before have another channel or color. -/
theorem shown_draw {v : Screen} {size : Nat} {spans : List Span} {done left : List Bucket}
    {b : Bucket} (hsorted : done ++ b :: left = Decorations.sorted size spans)
    (hdone : ∀ b ∈ done, v b.channel b.index = b.spans) :
    ∀ b' ∈ done ++ [b], v.draw b b'.channel b'.index = b'.spans := by
  intro b' hb'
  by_cases hsame : b'.channel = b.channel ∧ b'.index = b.index
  · have hmem : b' ∈ done ++ b :: left := by
      rw [List.append_cons]
      exact List.mem_append_left _ hb'
    have hb : b ∈ done ++ b :: left := List.mem_append_right _ List.mem_cons_self
    rw [hsorted] at hmem hb
    cases eq_of_mem_sorted hmem hb hsame.1 hsame.2
    exact v.draw_self b
  · rw [v.draw_other hsame]
    rcases List.mem_append.mp hb' with hb' | hb'
    · exact hdone b' hb'
    · cases List.mem_singleton.mp hb'
      exact absurd ⟨rfl, rfl⟩ hsame

/-- With all buckets shown, a task sets new ones or leaves the screen as it is. -/
theorem drawn_step_other {v : Screen} {t : Task} {rest : List Task} {result : World × List Task}
    (hrest : ∀ bucket, .paint bucket ∉ t :: rest)
    (hshown : ∀ b ∈ w.session.decorations.buckets, v b.channel b.index = b.spans)
    (hstep : w.step s t = .ok result) :
    Drawn ((⟨w, t, rest⟩ : Moment).redraw s v) result.1.session.decorations.buckets
      (result.2 ++ rest) := by
  have hafter : ∀ {tasks : List Task}, (∀ bucket, .paint bucket ∉ tasks) →
      ∀ bucket, .paint bucket ∉ tasks ++ rest := by
    intro tasks htasks bucket hbucket
    rcases List.mem_append.mp hbucket with hbucket | hbucket
    · exact htasks bucket hbucket
    · exact hrest bucket (List.mem_cons_of_mem t hbucket)
  cases effect_step hstep with
  | plain ht hwipe hplain =>
      rw [Moment.redraw_of_finishes ht hwipe, hplain.decorations]
      refine drawn_all (hafter fun bucket hbucket => ?_) hshown
      cases hplain.tasks _ hbucket
  | read generation =>
      exact drawn_all (hafter (not_paint_react_concat fun _ => Task.noConfusion)) hshown
  | snapshot generation =>
      exact drawn_all (hafter (not_paint_react_concat fun _ => Task.noConfusion)) hshown
  | discard buffer hlate =>
      have hkept : Moment.redraw s v ⟨w, .deliver _ buffer, rest⟩ = v := if_neg fun h => hlate h.1
      rw [hkept]
      exact drawn_all (hafter nofun) hshown
  | draw _ =>
      exact ⟨[], _, rest, rfl, rfl, fun bucket h => hrest bucket (List.mem_cons_of_mem _ h), nofun⟩
  | clear hwhy =>
      have hblank : Moment.redraw s v ⟨w, t, rest⟩ = .blank := by
        rcases hwhy with rfl | ⟨buffer, rfl, hscan⟩
        · rfl
        · exact if_pos ⟨rfl, hscan⟩
      rw [hblank]
      exact drawn_all (hafter not_paint_react) fun b hb => (spans_noDecorations hb).symm
  | paint bucket => exact absurd List.mem_cons_self (hrest bucket)

theorem Drawn.step {v : Screen} {t : Task} {rest : List Task} {result : World × List Task}
    (h : Drawn v w.session.decorations.buckets (t :: rest))
    (hsorted : ∃ spans, w.session.decorations.buckets = Decorations.sorted s.paletteSize spans)
    (hquiet : ∀ bucket, t = .paint bucket → w.editor.hooks.get .apply = [])
    (hstep : w.step s t = .ok result) :
    Drawn ((⟨w, t, rest⟩ : Moment).redraw s v) result.1.session.decorations.buckets
      (result.2 ++ rest) := by
  rcases h.cases with ⟨done, b, left, rest', rfl, hbuckets, rfl, hrest, hdone⟩ | ⟨hrest, hshown⟩
  · obtain ⟨spans, hsorted⟩ := hsorted
    cases hstep
    -- Without a hook, the next bucket is drawn at once.
    have htasks : (w.call (drawing s b) .apply).2 = [] :=
      congrArg (List.map Task.act) (hquiet b rfl)
    rw [htasks]
    refine ⟨done ++ [b], left, rest', ?_, rfl, hrest, ?_⟩
    · rw [← List.append_cons]
      exact hbuckets
    · exact shown_draw (hbuckets.symm.trans hsorted) hdone
  · exact drawn_step_other hrest hshown hstep

/-- Drawing does not fail, so a failure drops no bucket. -/
theorem Drawn.fail {v : Screen} {buckets : List Bucket} {t : Task} {rest : List Task}
    {failure : Failure} (h : Drawn v buckets (t :: rest)) (hstep : w.step s t = .error failure) :
    Drawn v buckets (rescued rest) := by
  rcases h.cases with ⟨_, b, _, _, rfl, _⟩ | ⟨hrest, hshown⟩
  · cases hstep
  · refine drawn_all (fun bucket hbucket => hrest bucket ?_) hshown
    exact List.mem_cons_of_mem t ((rescued_suffix rest).subset hbucket)

/-- With nothing left to do, all buckets are shown. -/
theorem Drawn.shown {v : Screen} {buckets : List Bucket} (h : Drawn v buckets []) :
    ∀ b ∈ buckets, v b.channel b.index = b.spans := by
  obtain ⟨done, left, rest, rfl, hagenda, _, hdone⟩ := h
  have hleft : left = [] := by
    cases left with
    | nil => rfl
    | cons b left => cases hagenda
  rw [hleft, List.append_nil]
  exact hdone

/-- At every moment of a session that is left alone while it draws, its buckets are
those that are shown, followed by those that are drawn next. -/
theorem Chronicle.drawn (h : Chronicle s log events w agenda)
    (happly : ∀ m ∈ log, ∀ bucket, m.task = .paint bucket → m.world.editor.hooks.get .apply = []) :
    Drawn (screenOf (events ++ w.events)) w.session.decorations.buckets agenda := by
  obtain ⟨buffer, immediate, h⟩ := h
  induction h with
  | refl => exact drawn_all nofun fun b hb => (spans_noDecorations hb).symm
  | begin _ action ih =>
      rw [append_fresh]
      exact drawn_all (by simp) (ih happly).shown
  | @step _ events w _ t rest _ h hstep ih =>
      have hbefore := ih fun m hm => happly m (List.mem_append_left _ hm)
      have hsorted := Chronicle.decorations_sorted ⟨buffer, immediate, h⟩
      rw [screen_step hstep events rest]
      exact hbefore.step hsorted (happly _ (List.mem_append_right _ List.mem_cons_self)) hstep
  | fail _ hstep ih =>
      exact (ih fun m hm => happly m (List.mem_append_left _ hm)).fail hstep

/-- With nothing left to do, the editor shows the decorations of the session and nothing
else, in the colors and intensities of the settings. -/
theorem screen_shows_decorations (h : Chronicle s log events w [])
    (happly : ∀ m ∈ log, ∀ bucket, m.task = .paint bucket → m.world.editor.hooks.get .apply = []) :
    (∀ (channel : Channel) (index : Nat), index < s.paletteSize →
      w.session.decorations.ranges? channel index
        = some (screenOf (events ++ w.events) channel index)) ∧
    (∀ (channel : Channel) (index : Nat), s.paletteSize ≤ index →
      screenOf (events ++ w.events) channel index = []) ∧
    ∀ bucket color intensity, .apply bucket color intensity ∈ events ++ w.events →
      s.palette[bucket.index]? = some color ∧ intensity = s.intensity bucket.channel := by
  have hshown := (h.drawn happly).shown
  have hcolored := h.colored.drawn
  refine ⟨?_, ?_, ?_⟩
  · intro channel index hindex
    obtain ⟨spans, hsorted⟩ := h.decorations_sorted
    rw [hsorted] at hshown
    rw [Decorations.ranges?, hsorted, Decorations.find?_sorted spans channel hindex]
    exact congrArg some (hshown _ (Decorations.mem_sorted.mpr ⟨channel, index, hindex, rfl⟩)).symm
  · intro channel index hindex
    exact screenOf_outside channel hindex hcolored
  · intro bucket color intensity hmem
    exact hcolored _ hmem

/-- While the drawings of a session that is deactivated are removed, it scans again.
Both it and the editor have the tag of the buffer. -/
theorem screen_shows_decorations_removal :
    ∃ (log : List Moment) (events : List Event) (w : World),
      Chronicle .monochrome log events w [] ∧
      (∀ m ∈ log, ∀ bucket, m.task = .paint bucket → m.world.editor.hooks.get .apply = []) ∧
      w.session.decorations.ranges? .name 0 = some [⟨1, 2, 0, .name⟩] ∧
      screenOf (events ++ w.events) .name 0 = [⟨1, 2, 0, .name⟩] := by
  have hrun : ∃ (log : List Moment) (events : List Event) (w : World),
      Chronicle .monochrome log events w [] ∧
      log.all (fun m => (m.world.editor.hooks.get .apply).isEmpty) = true ∧
      w.session.decorations.ranges? .name 0 = some [⟨1, 2, 0, .name⟩] := by
    have hstart : Course .monochrome (start .monochrome (some .paragraph) false) [] [] [] _ [] :=
      .refl
    have hhooked := (hstart.begin (.hook .clear [.updateNow])).step rfl
    have hclearing := ((hhooked.begin .deactivate).step rfl).step rfl
    have hdrawing :=
      (((hclearing.step rfl).step rfl).step rfl).step (step_draw scanOf_paragraph)
    have hend := ((hdrawing.step rfl).step rfl).step rfl
    exact ⟨_, _, _, ⟨some .paragraph, false, hend⟩, rfl, by decide⟩
  obtain ⟨log, events, w, hend, hquiet, hname⟩ := hrun
  have happly : ∀ m ∈ log, ∀ bucket, m.task = .paint bucket →
      m.world.editor.hooks.get .apply = [] := by
    intro m hm _ _
    exact List.isEmpty_iff.mp (List.all_eq_true.mp hquiet m hm)
  have hshown := (screen_shows_decorations hend happly).1 .name 0 (by decide)
  exact ⟨log, events, w, hend, happly, hname, Option.some.inj (hshown.symm.trans hname)⟩

end World

end TagColoring
