/-!
# Windows of a text

A text is a list of characters, so that an offset counts code points.  The
scanners of the library never look at a text through an offset and a limit.
They get a *window*, the list of the characters between the two, and what lies
outside the window cannot influence them.

* `slice` cuts the window between two offsets.
* `cutAt?` finds the first occurrence of a mark and splits the window there.
* `total` adds up the sizes of pieces.
-/

namespace TagColoring

/-- The characters of `text` from the offset `start` up to the offset `stop`,
which is not included.  Offsets past the end are cut off at the end. -/
def slice (text : List Char) (start stop : Nat) : List Char :=
  (text.drop start).take (stop - start)

theorem length_slice (text : List Char) (start stop : Nat) :
    (slice text start stop).length = min (stop - start) (text.length - start) := by
  simp [slice]

theorem length_slice_le (text : List Char) (start stop : Nat) :
    (slice text start stop).length ≤ stop - start := by
  rw [length_slice]
  exact Nat.min_le_left _ _

/-- A text is the window from its start to its end. -/
theorem slice_zero_length (text : List Char) : slice text 0 text.length = text := by
  simp [slice]

/-- Split a window in front of the first occurrence of `mark`: what stands
before it, and the rest, which begins with it.  No occurrence gives `none`.
Marks are not empty. -/
def cutAt? (mark : List Char) : List Char → Option (List Char × List Char)
  | [] => none
  | c :: cs =>
      if mark.isPrefixOf (c :: cs) then some ([], c :: cs)
      else (cutAt? mark cs).map fun cut => (c :: cut.1, cut.2)
termination_by structural cs => cs

/-- A cut loses nothing. -/
theorem cutAt?_append {mark cs before rest : List Char}
    (h : cutAt? mark cs = some (before, rest)) : before ++ rest = cs := by
  induction cs generalizing before with
  | nil => simp [cutAt?] at h
  | cons c cs ih =>
      rw [cutAt?] at h
      split at h
      · cases h
        rfl
      · obtain ⟨cut, hcut, heq⟩ := Option.map_eq_some_iff.mp h
        cases heq
        simp [ih hcut]

/-- What follows a cut begins with the mark. -/
theorem cutAt?_isPrefixOf {mark cs before rest : List Char}
    (h : cutAt? mark cs = some (before, rest)) : mark.isPrefixOf rest = true := by
  induction cs generalizing before with
  | nil => simp [cutAt?] at h
  | cons c cs ih =>
      rw [cutAt?] at h
      split at h
      · cases h
        assumption
      · obtain ⟨cut, hcut, heq⟩ := Option.map_eq_some_iff.mp h
        cases heq
        exact ih hcut

/-! ## Sizes of pieces -/

/-- The sum of the sizes of some pieces. -/
def total : List Nat → Nat
  | [] => 0
  | n :: ns => n + total ns
termination_by structural ns => ns

@[simp] theorem total_nil : total [] = 0 := rfl

@[simp] theorem total_cons (n : Nat) (ns : List Nat) : total (n :: ns) = n + total ns := rfl

@[simp] theorem total_append (ms ns : List Nat) : total (ms ++ ns) = total ms + total ns := by
  induction ms with
  | nil => simp
  | cons m ms ih =>
      rw [List.cons_append, total_cons, total_cons, ih]
      omega

@[simp] theorem total_reverse (ns : List Nat) : total ns.reverse = total ns := by
  induction ns with
  | nil => rfl
  | cons n ns ih =>
      rw [List.reverse_cons, total_append, total_cons, total_cons, total_nil, ih]
      omega

end TagColoring
