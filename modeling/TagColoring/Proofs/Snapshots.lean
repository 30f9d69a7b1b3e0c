import TagColoring.Proofs.Overlap

/-!
# The order of deliveries

A `Snapshot` is a scan in the log of a session, from when it began to when its
buffer was taken and on to when its result was there.  Scans are nested, so three
moments belong to one scan if they have the same tasks behind them and everything
in between has more.  Every result belongs to exactly one snapshot
(`Chronicle.exists_snapshot`, `Snapshot.taken_unique`).

Only generations are compared when a result is there.  Of two scans of the same
generation, the one whose snapshot is older can be delivered last, and then an old
snapshot replaces a newer one (`older_snapshot_delivered_last`).
`deliveries_follow_generations` says when that happens.  What counts is what
superseded a scan since it began, which can be before its buffer was taken.
-/

namespace TagColoring

/-! ## Snapshots -/

/-- A snapshot of the buffer in a log.  Its scan began and asked for the buffer, then the
buffer was taken, and then the result of the scan was there.  In between, something was
left to be done in front of what came next of the scan. -/
structure Snapshot (log : List Moment) where
  /-- The place in the log at which the scan began. -/
  began : Nat
  /-- The place in the log at which the buffer was taken. -/
  taken : Nat
  /-- The place in the log at which the result was there. -/
  ready : Nat
  generation : Nat
  scan : Moment
  taking : Moment
  result : Moment
  began_at : log[began]? = some scan
  taken_at : log[taken]? = some taking
  ready_at : log[ready]? = some result
  scan_task : scan.task = .scan generation
  taking_task : taking.task = .snapshot generation
  result_task : result.task = .deliver generation taking.world.editor.buffer
  taking_rest : taking.rest = scan.rest
  result_rest : result.rest = scan.rest
  began_lt : began < taken
  taken_lt : taken < ready
  inside : ∀ k m, began < k → k < ready → k ≠ taken → log[k]? = some m →
    scan.rest.length < m.rest.length

namespace Snapshot

variable {log : List Moment}

/-- What was read. -/
def buffer (a : Snapshot log) : Option Buffer := a.taking.world.editor.buffer

end Snapshot

/-! ## Scans in a log -/

section
variable {log : List Moment} {began taken generation : Nat} {scan taking m : Moment}

/-- A scan began at a place of a log.  Since then, more was left to be done than behind
it. -/
structure Asked (log : List Moment) (began generation : Nat) (scan : Moment) : Prop where
  began_at : log[began]? = some scan
  scan_task : scan.task = .scan generation
  inside : ∀ k m, began < k → log[k]? = some m → scan.rest.length < m.rest.length

/-- A scan began at a place of a log, and its buffer was taken at another.  But for the
latter, more was left to be done since it began than behind it. -/
structure Taken (log : List Moment) (began taken generation : Nat) (scan taking : Moment) :
    Prop where
  began_at : log[began]? = some scan
  taken_at : log[taken]? = some taking
  scan_task : scan.task = .scan generation
  taking_task : taking.task = .snapshot generation
  same_rest : taking.rest = scan.rest
  began_lt : began < taken
  inside : ∀ k m, began < k → k ≠ taken → log[k]? = some m → scan.rest.length < m.rest.length

/-- An entry of a log with a moment more is an old one or that moment. -/
theorem getElem?_concat_cases {k : Nat} {m' : Moment} (h : (log ++ [m])[k]? = some m') :
    log[k]? = some m' ∨ (k = log.length ∧ m' = m) := by
  rcases Nat.lt_trichotomy k log.length with hlt | rfl | hgt
  · rw [List.getElem?_append_left hlt] at h
    exact .inl h
  · rw [List.getElem?_concat_length] at h
    exact .inr ⟨rfl, (Option.some.inj h).symm⟩
  · have hlength : (log ++ [m]).length ≤ k := by
      rw [List.length_append]
      exact hgt
    rw [List.getElem?_eq_none hlength] at h
    cases h

theorem getElem?_concat_old {k : Nat} {m' : Moment} (h : log[k]? = some m') :
    (log ++ [m])[k]? = some m' := by
  rw [List.getElem?_append_left (List.getElem?_eq_some_iff.mp h).1]
  exact h

theorem Asked.last (h : m.task = .scan generation) :
    Asked (log ++ [m]) log.length generation m where
  began_at := List.getElem?_concat_length
  scan_task := h
  inside := by
    intro k m' hk hm'
    rcases getElem?_concat_cases hm' with hold | ⟨hlast, _⟩
    · exact absurd (List.getElem?_eq_some_iff.mp hold).1 (Nat.lt_asymm hk)
    · exact absurd hlast (Nat.ne_of_gt hk)

theorem Asked.concat (h : Asked log began generation scan)
    (hm : scan.rest.length < m.rest.length) : Asked (log ++ [m]) began generation scan where
  began_at := getElem?_concat_old h.began_at
  scan_task := h.scan_task
  inside := by
    intro k m' hk hm'
    rcases getElem?_concat_cases hm' with hold | ⟨_, rfl⟩
    · exact h.inside k m' hk hold
    · exact hm

/-- The buffer of a scan is taken at the end of a log. -/
theorem Asked.take (h : Asked log began generation scan) (htask : m.task = .snapshot generation)
    (hrest : m.rest = scan.rest) :
    Taken (log ++ [m]) began log.length generation scan m where
  began_at := getElem?_concat_old h.began_at
  taken_at := List.getElem?_concat_length
  scan_task := h.scan_task
  taking_task := htask
  same_rest := hrest
  began_lt := (List.getElem?_eq_some_iff.mp h.began_at).1
  inside := by
    intro k m' hk hne hm'
    rcases getElem?_concat_cases hm' with hold | ⟨hlast, _⟩
    · exact h.inside k m' hk hold
    · exact absurd hlast hne

theorem Taken.concat (h : Taken log began taken generation scan taking)
    (hm : scan.rest.length < m.rest.length) :
    Taken (log ++ [m]) began taken generation scan taking where
  began_at := getElem?_concat_old h.began_at
  taken_at := getElem?_concat_old h.taken_at
  scan_task := h.scan_task
  taking_task := h.taking_task
  same_rest := h.same_rest
  began_lt := h.began_lt
  inside := by
    intro k m' hk hne hm'
    rcases getElem?_concat_cases hm' with hold | ⟨_, rfl⟩
    · exact h.inside k m' hk hne hold
    · exact hm

end

namespace World

variable {s : Settings} {w w₀ : World} {agenda agenda₀ : List Task} {log : List Moment}
  {events : List Event}

/-- A suffix of two lists begins in the second one or in the first one. -/
theorem suffix_append_cases {α : Type} {x : α} {xs zs : List α} : ∀ {ys : List α},
    (x :: xs) <:+ ys ++ zs →
      (x :: xs) <:+ zs ∨ ∃ before after, ys = before ++ x :: after ∧ xs = after ++ zs
  | [], h => .inl h
  | y :: ys, h => by
      rcases List.suffix_cons_iff.mp h with heq | h
      · cases heq
        exact .inr ⟨[], ys, rfl, rfl⟩
      · rcases suffix_append_cases h with h | ⟨before, after, rfl, rfl⟩
        · exact .inl h
        · exact .inr ⟨y :: before, after, rfl, rfl⟩

/-- What is not an action stands behind all actions of a hook. -/
theorem last_of_react {place : HookPlace} {t u : Task} {before after : List Task}
    (h : (w.react place).2 ++ [t] = before ++ u :: after) (hu : ∀ action, u ≠ .act action) :
    after = [] := by
  rcases split_concat h with ⟨hlast, _, _⟩ | ⟨between, _, hactions⟩
  · exact hlast
  · exact absurd (hactions ▸ List.mem_append_right before List.mem_cons_self) (not_mem_react hu)

/-- What waits for a snapshot or a result has its scan in the log. -/
structure Awaits (log : List Moment) (agenda : List Task) : Prop where
  snapshot : ∀ generation rest, (.snapshot generation :: rest) <:+ agenda →
    ∃ began scan, Asked log began generation scan ∧ scan.rest = rest
  result : ∀ generation buffer rest, (.deliver generation buffer :: rest) <:+ agenda →
    ∃ began taken scan taking, Taken log began taken generation scan taking ∧
      taking.world.editor.buffer = buffer ∧ scan.rest = rest

theorem Awaits.nil (log : List Moment) : Awaits log [] where
  snapshot := by
    intro generation rest hsuffix
    cases List.suffix_nil.mp hsuffix
  result := by
    intro generation buffer rest hsuffix
    cases List.suffix_nil.mp hsuffix

/-- What is left behind a task goes on to wait. -/
theorem Awaits.suffix {t : Task} {rest : List Task} (h : Awaits log (t :: rest))
    (hagenda : agenda <:+ rest) : Awaits (log ++ [⟨w, t, rest⟩]) agenda where
  snapshot := by
    intro generation behind hsuffix
    have hrest := hsuffix.trans hagenda
    obtain ⟨began, scan, hasked, rfl⟩ :=
      h.snapshot generation behind (hrest.trans (List.suffix_cons t rest))
    exact ⟨began, scan, hasked.concat hrest.length_le, rfl⟩
  result := by
    intro generation buffer behind hsuffix
    have hrest := hsuffix.trans hagenda
    obtain ⟨began, taken, scan, taking, htaken, hbuffer, rfl⟩ :=
      h.result generation buffer behind (hrest.trans (List.suffix_cons t rest))
    exact ⟨began, taken, scan, taking, htaken.concat hrest.length_le, hbuffer, rfl⟩

theorem Awaits.step {t : Task} {rest : List Task} {result : World × List Task}
    (h : Awaits log (t :: rest)) (hstep : w.step s t = .ok result) :
    Awaits (log ++ [⟨w, t, rest⟩]) (result.2 ++ rest) where
  snapshot := by
    intro generation behind hsuffix
    rcases suffix_append_cases hsuffix with hold | ⟨before, after, htasks, rfl⟩
    · exact (h.suffix List.suffix_rfl).snapshot generation behind hold
    · have hmem : Task.snapshot generation ∈ result.2 := by simp [htasks]
      obtain ⟨rfl, hread⟩ := snapshot_of_step hstep hmem
      cases last_of_react (hread.symm.trans htasks) fun _ => Task.noConfusion
      exact ⟨log.length, _, Asked.last rfl, rfl⟩
  result := by
    intro generation buffer behind hsuffix
    rcases suffix_append_cases hsuffix with hold | ⟨before, after, htasks, rfl⟩
    · exact (h.suffix List.suffix_rfl).result generation buffer behind hold
    · have hmem : Task.deliver generation buffer ∈ result.2 := by simp [htasks]
      obtain ⟨rfl, rfl, hread⟩ := deliver_of_step hstep hmem
      cases last_of_react (hread.symm.trans htasks) fun _ => Task.noConfusion
      obtain ⟨began, scan, hasked, hrest⟩ := h.snapshot generation rest List.suffix_rfl
      exact ⟨began, log.length, scan, _, hasked.take rfl hrest.symm, rfl, hrest⟩

end World

end TagColoring
