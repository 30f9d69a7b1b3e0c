import TagColoring.Session.Run

/-!
# Executions of a session

The actions from outside come one after another, and each runs to its end or to
a failure before the next.  What happens in between are tasks.  A *moment* is a
task with the world it is done in and with what is left to be done behind it.

* `World.Course` says that one moment follows another.  It lists all moments in
  between, those of hooks among them, and the calls of the editor in the actions
  from outside that are over.
* `World.Chronicle` is a course from the start of a session, and
  `World.Reachable` are the moments that it leads to.

The moments of a course were all reached by it (`Course.before`), and an agenda
passes through the moments of `World.moments` until it is done (`Course.to_end`).
So `World.perform` goes from one end of a course to another
(`Chronicle.perform`).
-/

namespace TagColoring

/-! ## Failures that are caught -/

/-- What is still to be done after a failure. -/
def rescued (agenda : List Task) : List Task := (rescued? agenda).getD []

theorem rescued?_append_some {agenda left : List Task} (h : rescued? agenda = some left)
    (rest : List Task) : rescued? (agenda ++ rest) = some (left ++ rest) := by
  fun_induction rescued? agenda with
  | case1 => cases h
  | case2 agenda =>
      cases h
      rfl
  | case3 t agenda hother ih =>
      rw [List.cons_append, rescued?]
      · exact ih h
      · exact hother

theorem rescued?_append_none {agenda : List Task} (h : rescued? agenda = none)
    (rest : List Task) : rescued? (agenda ++ rest) = rescued? rest := by
  fun_induction rescued? agenda with
  | case1 => rfl
  | case2 agenda => cases h
  | case3 t agenda hother ih =>
      rw [List.cons_append, rescued?]
      · exact ih h
      · exact hother

theorem rescued?_suffix {agenda left : List Task} (h : rescued? agenda = some left) :
    left <:+ agenda := by
  fun_induction rescued? agenda with
  | case1 => cases h
  | case2 agenda =>
      cases h
      exact List.suffix_cons _ _
  | case3 t agenda _ ih => exact (ih h).trans (List.suffix_cons t agenda)

/-- A failure only drops tasks. -/
theorem rescued_suffix (agenda : List Task) : rescued agenda <:+ agenda := by
  rw [rescued]
  cases h : rescued? agenda with
  | none => exact List.nil_suffix
  | some left => exact rescued?_suffix h

/-- A task, the world it is done in, and what is left to be done behind it. -/
structure Moment where
  world : World
  task : Task
  rest : List Task

namespace World

variable {s : Settings}

/-! ## Runs of an agenda -/

/-- A failure drops what is to be done, up to the place where it is caught.  The rest is
done. -/
def unwind (s : Settings) (w : World) (failure : Failure) (agenda : List Task) :
    World × Option Failure :=
  match rescued? agenda with
  | none => (w, some failure)
  | some left => w.run s left

theorem run_nil (s : Settings) (w : World) : w.run s [] = (w, none) := by
  rw [run]

theorem run_ok {w : World} {t : Task} {result : World × List Task} (h : w.step s t = .ok result)
    (rest : List Task) : w.run s (t :: rest) = result.1.run s (result.2 ++ rest) := by
  rw [run]
  split
  · next hstep =>
      rw [h] at hstep
      cases hstep
  · next hstep =>
      rw [h] at hstep
      cases hstep
      rfl

theorem run_error {w : World} {t : Task} {failure : Failure} (h : w.step s t = .error failure)
    (rest : List Task) : w.run s (t :: rest) = w.unwind s failure rest := by
  rw [run]
  split
  · next hstep =>
      rw [h] at hstep
      cases hstep
      split
      · next hleft => simp only [unwind, hleft]
      · next hleft => simp only [unwind, hleft]
  · next hstep =>
      rw [h] at hstep
      cases hstep

/-- What each task keeps, and a failure too, holds at the end of a run. -/
theorem run_preserves {P : World → List Task → Prop}
    (hok : ∀ {w t rest w' tasks}, P w (t :: rest) → w.step s t = .ok (w', tasks) →
      P w' (tasks ++ rest))
    (herror : ∀ {w t rest failure}, P w (t :: rest) → w.step s t = .error failure →
      P w (rescued rest))
    {w : World} {agenda : List Task} (h : P w agenda) : P (w.run s agenda).1 [] := by
  fun_induction run s w agenda with
  | case1 w => exact h
  | case2 w t rest failure hstep hleft =>
      have hend := herror h hstep
      rwa [rescued, hleft] at hend
  | case3 w t rest failure hstep left hleft _ ih =>
      have hnext := herror h hstep
      rw [rescued, hleft] at hnext
      exact ih hnext
  | case4 w t rest w' tasks hstep _ ih => exact ih (hok h hstep)

/-- What stands behind an agenda is done after it. -/
theorem run_append {w w' : World} {agenda : List Task} (h : w.run s agenda = (w', none))
    (rest : List Task) : w.run s (agenda ++ rest) = w'.run s rest := by
  fun_induction run s w agenda with
  | case1 w =>
      cases h
      rfl
  | case2 w t agenda failure hstep hleft => cases h
  | case3 w t agenda failure hstep left hleft _ ih =>
      rw [List.cons_append, run_error hstep, unwind, rescued?_append_some hleft]
      exact ih h
  | case4 w t agenda next tasks hstep _ ih =>
      rw [List.cons_append, run_ok hstep, ← List.append_assoc]
      exact ih h

/-- The failure of an agenda drops what stands behind it, up to the place where it is
caught. -/
theorem run_append_failure {w w' : World} {agenda : List Task} {failure : Failure}
    (h : w.run s agenda = (w', some failure)) (rest : List Task) :
    w.run s (agenda ++ rest) = w'.unwind s failure rest := by
  fun_induction run s w agenda with
  | case1 w => cases h
  | case2 w t agenda failure hstep hleft =>
      cases h
      rw [List.cons_append, run_error hstep, unwind, rescued?_append_none hleft]
      rfl
  | case3 w t agenda failure hstep left hleft _ ih =>
      rw [List.cons_append, run_error hstep, unwind, rescued?_append_some hleft]
      exact ih h
  | case4 w t agenda next tasks hstep _ ih =>
      rw [List.cons_append, run_ok hstep, ← List.append_assoc]
      exact ih h

/-- The moments that an agenda passes through. -/
def moments (s : Settings) (w : World) (agenda : List Task) : List Moment :=
  match agenda with
  | [] => []
  | t :: rest =>
      match h : w.step s t with
      | .error _ =>
          match hleft : rescued? rest with
          | none => [⟨w, t, rest⟩]
          | some left =>
              have := load_rescued s.paletteSize w t hleft
              ⟨w, t, rest⟩ :: moments s w left
      | .ok (w', tasks) =>
          have := load_next h rest
          ⟨w, t, rest⟩ :: moments s w' (tasks ++ rest)
termination_by w.load s.paletteSize agenda

theorem moments_nil (s : Settings) (w : World) : w.moments s [] = [] := by
  rw [moments]

theorem moments_ok {w : World} {t : Task} {result : World × List Task}
    (h : w.step s t = .ok result) (rest : List Task) :
    w.moments s (t :: rest) = ⟨w, t, rest⟩ :: result.1.moments s (result.2 ++ rest) := by
  rw [moments]
  split
  · next hstep =>
      rw [h] at hstep
      cases hstep
  · next hstep =>
      rw [h] at hstep
      cases hstep
      rfl

theorem moments_error {w : World} {t : Task} {failure : Failure}
    (h : w.step s t = .error failure) (rest : List Task) :
    w.moments s (t :: rest) = ⟨w, t, rest⟩ :: w.moments s (rescued rest) := by
  rw [moments]
  split
  · split
    · next hleft => simp only [rescued, hleft, Option.getD_none, moments_nil]
    · next hleft => simp only [rescued, hleft, Option.getD_some]
  · next hstep =>
      rw [h] at hstep
      cases hstep

/-! ## Results of scans -/

/-- The world without decorations. -/
def bare (s : Settings) (w : World) : World :=
  { w with session := { w.session with decorations := s.noDecorations } }

/-- The world in which a result was reported and came too late. -/
def discard (s : Settings) (w : World) (buffer : Option Buffer) : World :=
  { w with notices := w.notices ++ (scanOf s buffer).toList.map Scan.notice ++ [.discarded] }

/-- The result of a scan comes too late, or it is painted, or there was nothing to
scan and the drawings are removed. -/
theorem deliver_cases (s : Settings) (w : World) (generation : Nat) (buffer : Option Buffer) :
    (generation ≠ w.session.generation ∧
      w.deliver s generation buffer = (w.discard s buffer, [])) ∨
    (generation = w.session.generation ∧ ∃ scan, scanOf s buffer = some scan ∧
      w.deliver s generation buffer
        = ({ w with
            session := { w.session with decorations := decorationsOf s (some scan) }
            notices := w.notices ++ [scan.notice] },
          (decorationsOf s (some scan)).buckets.map Task.paint)) ∨
    (generation = w.session.generation ∧ scanOf s buffer = none ∧
      w.deliver s generation buffer = (w.bare s).call .clear .clear) := by
  unfold deliver
  by_cases hgeneration : generation = w.session.generation
  · refine .inr ?_
    cases hscan : scanOf s buffer with
    | none => exact .inr ⟨hgeneration, rfl, if_pos hgeneration⟩
    | some scan => exact .inl ⟨hgeneration, scan, rfl, if_pos hgeneration⟩
  · refine .inl ⟨hgeneration, (if_neg hgeneration).trans ?_⟩
    rw [discard]
    cases scanOf s buffer with
    | none => simp [report]
    | some scan => simp [report]

/-! ## Courses -/

/-- A world for the next action from outside, with nothing reported yet. -/
def fresh (w : World) : World := { w with events := [], notices := [] }

/-- What an action from outside leaves is what its tasks leave. -/
theorem perform_ok {w : World} {action : Action} {result : World × List Task}
    (h : w.fresh.step s (.act action) = .ok result) :
    (w.perform s action).2 = (result.1.run s result.2).1 := by
  show (w.fresh.run s [.act action]).1 = _
  rw [run_ok h, List.append_nil]

/-- One moment follows another.  The moments in between are listed, and the calls of
the editor up to the action from outside that is going on. -/
inductive Course (s : Settings) (w₀ : World) (agenda₀ : List Task) :
    List Moment → List Event → World → List Task → Prop where
  | refl : Course s w₀ agenda₀ [] [] w₀ agenda₀
  /-- With nothing left to do, an action comes from outside. -/
  | begin {log : List Moment} {events : List Event} {w : World}
      (h : Course s w₀ agenda₀ log events w []) (action : Action) :
      Course s w₀ agenda₀ log (events ++ w.events) w.fresh [.act action]
  | step {log : List Moment} {events : List Event} {w w' : World} {t : Task}
      {rest tasks : List Task} (h : Course s w₀ agenda₀ log events w (t :: rest))
      (hstep : w.step s t = .ok (w', tasks)) :
      Course s w₀ agenda₀ (log ++ [⟨w, t, rest⟩]) events w' (tasks ++ rest)
  /-- A failure drops what is to be done, up to the place where it is caught. -/
  | fail {log : List Moment} {events : List Event} {w : World} {t : Task} {rest : List Task}
      {failure : Failure} (h : Course s w₀ agenda₀ log events w (t :: rest))
      (hstep : w.step s t = .error failure) :
      Course s w₀ agenda₀ (log ++ [⟨w, t, rest⟩]) events w (rescued rest)

/-- A course from the start of a session. -/
def Chronicle (s : Settings) (log : List Moment) (events : List Event) (w : World)
    (agenda : List Task) : Prop :=
  ∃ buffer immediate, Course s (World.start s buffer immediate) [] log events w agenda

/-- A moment that follows the start of a session. -/
def Reachable (s : Settings) (w : World) (agenda : List Task) : Prop :=
  ∃ log events, Chronicle s log events w agenda

section
variable {w₀ w : World} {agenda₀ agenda : List Task} {log : List Moment} {events : List Event}

/-- An agenda goes on to its end through its moments. -/
theorem Course.to_end (h : Course s w₀ agenda₀ log events w agenda) :
    Course s w₀ agenda₀ (log ++ w.moments s agenda) events (w.run s agenda).1 [] := by
  fun_induction run s w agenda generalizing log with
  | case1 w =>
      rw [moments_nil, List.append_nil]
      exact h
  | case2 w t rest failure hstep hleft =>
      have hend := h.fail hstep
      rw [rescued, hleft] at hend
      rw [moments_error hstep, rescued, hleft, Option.getD_none, moments_nil]
      exact hend
  | case3 w t rest failure hstep left hleft _ ih =>
      have hnext := h.fail hstep
      rw [rescued, hleft] at hnext
      rw [moments_error hstep, rescued, hleft, List.append_cons]
      exact ih hnext
  | case4 w t rest w' tasks hstep _ ih =>
      rw [moments_ok hstep, List.append_cons]
      exact ih (h.step hstep)

/-- An action from outside leads from one moment to another. -/
theorem Chronicle.perform (h : Chronicle s log events w []) (action : Action) :
    Chronicle s (log ++ w.fresh.moments s [.act action]) (events ++ w.events)
      (w.perform s action).2 [] := by
  obtain ⟨buffer, immediate, h⟩ := h
  exact ⟨buffer, immediate, (h.begin action).to_end⟩

/-- A list with an element put at its end is split at that element or before it. -/
theorem split_concat {α : Type} {xs before after : List α} {x y : α}
    (h : xs ++ [x] = before ++ y :: after) :
    (after = [] ∧ xs = before ∧ x = y) ∨
      ∃ between, after = between ++ [x] ∧ xs = before ++ y :: between := by
  rcases List.eq_nil_or_concat after with rfl | ⟨between, z, rfl⟩
  · obtain ⟨hxs, hx⟩ := List.append_inj' h rfl
    cases hx
    exact .inl ⟨rfl, hxs, rfl⟩
  · rw [List.concat_eq_append, ← List.cons_append, ← List.append_assoc] at h
    obtain ⟨hxs, hx⟩ := List.append_inj' h rfl
    cases hx
    exact .inr ⟨between, List.concat_eq_append, hxs⟩

theorem split_at_place {α : Type} {xs : List α} {place : Nat} {x : α} (h : xs[place]? = some x) :
    xs = xs.take place ++ x :: xs.drop (place + 1) := by
  obtain ⟨hplace, rfl⟩ := List.getElem?_eq_some_iff.mp h
  rw [List.getElem_cons_drop, List.take_append_drop]

/-- A course passed through each of its moments. -/
theorem Course.before (h : Course s w₀ agenda₀ log events w agenda) :
    ∀ {before after : List Moment} {m : Moment}, log = before ++ m :: after →
      ∃ events', Course s w₀ agenda₀ before events' m.world (m.task :: m.rest) := by
  induction h with
  | refl =>
      intro before after m hlog
      simp at hlog
  | begin _ _ ih => exact ih
  | step h _ ih =>
      intro before after m hlog
      rcases split_concat hlog with ⟨_, rfl, rfl⟩ | ⟨between, _, hlog⟩
      · exact ⟨_, h⟩
      · exact ih hlog
  | fail h _ ih =>
      intro before after m hlog
      rcases split_concat hlog with ⟨_, rfl, rfl⟩ | ⟨between, _, hlog⟩
      · exact ⟨_, h⟩
      · exact ih hlog

end

end World

end TagColoring
