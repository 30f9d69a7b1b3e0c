import TagColoring.Proofs.Effects

/-!
# Scans that overlap

While a scan reads its buffer, the hooks of the editor can do anything with the
session, before the buffer is taken and after.  They can begin further scans, and
these can be delivered before the first one is.

A result is *delivered* if its decorations are set and the editor is asked to draw
them.  That happens if the generation is still that of the scan
(`delivers_iff`).  `reading` is all that happens from when the buffer is asked for
until it is handed over or a hook fails.  The generation moves on in it as often as
something supersedes earlier scans (`generation_reading`), so a scan is discarded as
soon as something in its read supersedes it (`superseded_scan_discarded`).
-/

namespace TagColoring

namespace World

variable {s : Settings} {w : World}

/-! ## Delivered results -/

/-- The result of a scan is taken.  The decorations become those of its buffer, and the
editor is asked to draw them, or to remove all drawings. -/
def Delivers (s : Settings) (w : World) (generation : Nat) (buffer : Option Buffer) : Prop :=
  (w.deliver s generation buffer).1.session.decorations = decorationsOf s (scanOf s buffer) ∧
    ((∃ bucket, .paint bucket ∈ (w.deliver s generation buffer).2) ∨
      (w.deliver s generation buffer).1.events = w.events ++ [.clear])

theorem exists_bucket (s : Settings) (scan : Option Scan) :
    ∃ bucket, bucket ∈ (decorationsOf s scan).buckets := by
  have hlength := length_decorationsOf s scan
  have hpos := s.paletteSize_pos
  exact List.exists_mem_of_length_pos (by omega)

/-- A result is taken if the session has still the generation of the scan. -/
theorem delivers_iff {generation : Nat} {buffer : Option Buffer} :
    w.Delivers s generation buffer ↔ generation = w.session.generation := by
  rcases deliver_cases s w generation buffer with
    ⟨hlate, h⟩ | ⟨rfl, scan, hscan, h⟩ | ⟨rfl, hscan, h⟩
  · refine ⟨?_, fun hgeneration => absurd hgeneration hlate⟩
    rintro ⟨_, hdrawn⟩
    rw [h] at hdrawn
    rcases hdrawn with ⟨bucket, hbucket⟩ | hcleared
    · cases hbucket
    · exact absurd (congrArg List.length hcleared) (by simp [discard])
  · refine ⟨fun _ => rfl, fun _ => ?_⟩
    obtain ⟨bucket, hbucket⟩ := exists_bucket s (some scan)
    rw [Delivers, h, hscan]
    exact ⟨rfl, .inl ⟨bucket, List.mem_map_of_mem hbucket⟩⟩
  · refine ⟨fun _ => rfl, fun _ => ?_⟩
    rw [Delivers, h, hscan]
    exact ⟨rfl, .inr rfl⟩

theorem run_deliver (s : Settings) (w : World) (generation : Nat) (buffer : Option Buffer)
    (rest : List Task) :
    w.run s (.deliver generation buffer :: rest)
      = (w.deliver s generation buffer).1.run s ((w.deliver s generation buffer).2 ++ rest) :=
  run_ok rfl rest

theorem generation_run (s : Settings) (w : World) (agenda : List Task) :
    (w.run s agenda).1.session.generation
      = w.session.generation + (w.moments s agenda).countP Moment.supersedes :=
  (Course.refl (s := s)).to_end.generation_eq

/-! ## Reading a buffer -/

/-- What comes of reading a buffer. -/
structure Reading where
  /-- The world that the hooks of the editor left. -/
  left : World
  /-- What the hooks did. -/
  moments : List Moment
  /-- What was taken, if it came to that. -/
  buffer : Option Buffer
  /-- The failure of a hook. -/
  failure : Option Failure

/-- Read the buffer.  It is asked for, then it is taken, and then it is handed over.  The
editor reacts before it takes the buffer and after. -/
def reading (s : Settings) (w : World) : Reading :=
  let asked := w.call .read .request
  let taking := asked.1.run s asked.2
  let early := asked.1.moments s asked.2
  match taking.2 with
  | some failure => ⟨taking.1, early, none, some failure⟩
  | none =>
      let taken := taking.1.react .read
      let left := taken.1.run s taken.2
      ⟨left.1, early ++ taken.1.moments s taken.2, taking.1.editor.buffer, left.2⟩

/-- A scan reads the buffer and delivers it, unless the read fails. -/
theorem run_scan (s : Settings) (w : World) (generation : Nat) (rest : List Task) :
    w.run s (.scan generation :: rest) = match (w.reading s).failure with
      | some failure => (w.reading s).left.unwind s failure rest
      | none => (w.reading s).left.run s (.deliver generation (w.reading s).buffer :: rest) := by
  have hasked : w.step s (.scan generation) = .ok ((w.call .read .request).1,
      (w.call .read .request).2 ++ [.snapshot generation]) := rfl
  rw [run_ok hasked, List.append_assoc, List.singleton_append]
  rcases hearly : (w.call .read .request).1.run s (w.call .read .request).2 with
    ⟨taking, _ | failure⟩
  · have htaken : taking.step s (.snapshot generation) = .ok ((taking.react .read).1,
        (taking.react .read).2 ++ [.deliver generation taking.editor.buffer]) := rfl
    rw [run_append hearly, run_ok htaken, List.append_assoc, List.singleton_append]
    rcases hlate : (taking.react .read).1.run s (taking.react .read).2 with ⟨left, _ | failure⟩
    · simp only [reading, hearly, hlate]
      exact run_append hlate _
    · simp only [reading, hearly, hlate]
      exact run_append_failure hlate _
  · simp only [reading, hearly]
    exact run_append_failure hearly _

/-- Reading moves the generation on as often as something in it supersedes earlier
scans. -/
theorem generation_reading (s : Settings) (w : World) :
    (w.reading s).left.session.generation
      = w.session.generation + (w.reading s).moments.countP Moment.supersedes := by
  have hasked := generation_run s (w.call .read .request).1 (w.call .read .request).2
  rcases hearly : (w.call .read .request).1.run s (w.call .read .request).2 with
    ⟨taking, _ | failure⟩
  · have htaken := generation_run s (taking.react .read).1 (taking.react .read).2
    rw [hearly] at hasked
    simp only [reading, hearly, List.countP_append, ← Nat.add_assoc]
    exact htaken.trans (congrArg (· + _) hasked)
  · rw [hearly] at hasked
    simp only [reading, hearly]
    exact hasked

/-! ## Superseded scans -/

/-- A scan reads the buffer, and the hooks of the editor do what they do.  If that fails,
nothing is done any more up to the place where the failure is caught.  If the scan is
superseded in it, its result is reported and nothing else.  Otherwise the result is
delivered. -/
theorem superseded_scan_discarded {generation : Nat} {rest : List Task}
    (h : Reachable s w (.scan generation :: rest)) :
    let read := w.reading s
    let result := read.left.deliver s generation read.buffer
    (∀ failure, read.failure = some failure →
      w.run s (.scan generation :: rest) = read.left.unwind s failure rest) ∧
    (read.failure = none → (∃ m ∈ read.moments, m.supersedes = true) →
      w.run s (.scan generation :: rest) = (read.left.discard s read.buffer).run s rest) ∧
    (read.failure = none → (∀ m ∈ read.moments, m.supersedes = false) →
      w.run s (.scan generation :: rest) = result.1.run s (result.2 ++ rest) ∧
      read.left.Delivers s generation read.buffer) := by
  intro read result
  have hgeneration : generation = w.session.generation := h.timely.first generation rest rfl
  have hcount : read.left.session.generation
      = generation + read.moments.countP Moment.supersedes := by
    rw [hgeneration]
    exact generation_reading s w
  have hrun : read.failure = none →
      w.run s (.scan generation :: rest) = result.1.run s (result.2 ++ rest) := by
    intro hnone
    rw [run_scan, hnone]
    exact run_deliver s read.left generation read.buffer rest
  refine ⟨?_, ?_, ?_⟩
  · intro failure hfailure
    rw [run_scan, hfailure]
  · intro hnone hsuperseded
    have hpos := List.countP_pos_iff.mpr hsuperseded
    rcases deliver_cases s read.left generation read.buffer with
      ⟨_, hd⟩ | ⟨hsame, _⟩ | ⟨hsame, _⟩
    · rw [hrun hnone, show result = _ from hd]
      rfl
    · omega
    · omega
  · intro hnone hkept
    have hzero : read.moments.countP Moment.supersedes = 0 := by
      rw [List.countP_eq_zero]
      intro m hm
      rw [hkept m hm]
      exact Bool.false_ne_true
    refine ⟨hrun hnone, delivers_iff.mpr ?_⟩
    rw [hcount, hzero]
    rfl

/-- While a first scan reads, a second one begins, and in its read the session is
activated.  Both are discarded, and the new timer is still pending. -/
theorem superseded_scan_discarded_nested :
    let w : World := { start .default none false with
      editor := { buffer := none, hooks := { read := [.hook .read [.activate], .updateNow] } } }
    let left := (w.reading .default).left
    left.session.pending = some 0 ∧
    w.run .default [.scan 0] = (left.discard .default none, none) := by
  intro w left
  have hstart : Course .default (start .default none false) [] [] [] _ [] := .refl
  have hhooked := (hstart.begin (.hook .read [.hook .read [.activate], .updateNow])).step rfl
  have hreached : Reachable .default w [.scan 0] :=
    ⟨_, _, none, false, (hhooked.begin .updateNow).step rfl⟩
  have hsuperseded : ∃ m ∈ (w.reading .default).moments, m.supersedes = true := by
    have hcount := generation_reading .default w
    have hbefore : w.session.generation = 0 := rfl
    have hafter : (w.reading .default).left.session.generation = 1 := by decide +kernel
    exact List.countP_pos_iff.mp (by omega)
  have hnothing : (w.reading .default).buffer = none := by decide +kernel
  obtain ⟨_, hdiscarded, _⟩ := superseded_scan_discarded hreached
  refine ⟨by decide +kernel, ?_⟩
  rw [hdiscarded (by decide +kernel) hsuperseded, hnothing, run_nil]

end World

end TagColoring
