import TagColoring.Proofs.Segments

/-!
# Searching segments with a cursor

This is the search of `TagColoring.Template.Segment` by an editor that moves a
cursor through the whole text, in the form of `TagColoring.Proofs.Cursor`.
`searchAt` goes through one range of code.  It jumps from back-tick to back-tick,
looks for the end of each literal, looks back for the identifier and collects the
placeholders.  `drainAt` goes through a list of ranges.

Every range that the search meets lies inside the text, so neither of them faults
(`searchAt_eq`, `drainAt_eq`).
-/

namespace TagColoring

/-! ## One range of code -/

/-- The tagged literals between a cursor and a stop, and the ranges of code in the
others. -/
def searchAt (text : List Char) (stop pos : Nat) : Except Fault (List Range × List Range) :=
  match hfind : findAt text ['\x60'] pos stop with
  | none => .ok ([], [])
  | some i =>
      have : pos ≤ i ∧ i < stop := findAt_lt hfind
      match hclose : closeAt text stop .template [] (i + 1) with
      | .error fault => .error fault
      | .ok none => searchAt text stop (i + 1)
      | .ok (some after) =>
          have : i + 1 < after ∧ after ≤ stop := closeAt_lt hclose
          match taggedAt text i with
          | .error fault => .error fault
          | .ok true =>
              (searchAt text stop after).map fun rest => (⟨i + 1, after - 1⟩ :: rest.1, rest.2)
          | .ok false =>
              match placeholdersAt text (after - 1) (i + 1) with
              | .error fault => .error fault
              | .ok code => (searchAt text stop after).map fun rest => (rest.1, code ++ rest.2)
termination_by stop - pos

/-- The code that is left to search is smaller than the range. -/
theorem searchAt_size {text : List Char} {stop pos : Nat} {found : List Range × List Range}
    (h : searchAt text stop pos = .ok found) : rangesSize found.2 ≤ stop - pos := by
  fun_induction searchAt text stop pos generalizing found with
  | case1 pos hfind => cases h; simp [rangesSize]
  | case2 pos i hfind hlt fault hclose => cases h
  | case3 pos i hfind hlt hclose ih => have := ih h; omega
  | case4 pos i hfind hlt after hclose hafter fault htag => cases h
  | case5 pos i hfind hlt after hclose hafter htag ih =>
      cases hrest : searchAt text stop after with
      | error fault => rw [hrest] at h; cases h
      | ok rest =>
          rw [hrest] at h
          cases h
          have := ih hrest
          simp only
          omega
  | case6 pos i hfind hlt after hclose hafter htag fault hcode => cases h
  | case7 pos i hfind hlt after hclose hafter htag code hcode ih =>
      cases hrest : searchAt text stop after with
      | error fault => rw [hrest] at h; cases h
      | ok rest =>
          rw [hrest] at h
          cases h
          have h1 := ih hrest
          have h2 := placeholdersAt_size hcode
          simp only [rangesSize_append]
          omega

section Literals

variable {text : List Char} {stop pos i after : Nat}

theorem literalBodies_text (cs : List Char) : ∀ (i : Nat) (run : List Char), '\x60' ∉ run →
    literalBodies i (run ++ cs) = literalBodies (i + run.length) cs
  | _, [], _ => rfl
  | i, c :: run, h => by
      have hc : c ≠ '\x60' := fun heq => h (heq ▸ List.mem_cons_self ..)
      have hrun : '\x60' ∉ run := fun hmem => h (List.mem_cons_of_mem c hmem)
      rw [List.cons_append, literalBodies, if_neg hc, literalBodies_text cs (i + 1) run hrun,
        List.length_cons]
      congr 1
      omega

theorem literalBodies_find_none (hfind : findAt text ['\x60'] pos stop = none) :
    literalBodies pos (slice text pos stop) = [] := by
  have hcut : cutAt? ['\x60'] (slice text pos stop) = none := Option.map_eq_none_iff.mp hfind
  have htext := literalBodies_text [] pos _ (not_mem_of_cutAt?_none hcut)
  rwa [List.append_nil, literalBodies] at htext

theorem literalBodies_find (hfind : findAt text ['\x60'] pos stop = some i) :
    literalBodies pos (slice text pos stop)
      = literalBodies i ('\x60' :: slice text (i + 1) stop) := by
  have hcut := cutAt?_slice text ['\x60'] pos stop
  rw [hfind] at hcut
  rw [← cutAt?_append hcut, literalBodies_text _ pos _ (not_mem_before hcut),
    findAt_length hfind, slice_of_readAt (findAt_lt hfind).2 (readAt_of_findAt hfind)]

theorem literalBodies_unclosed {cs : List Char}
    (h : ∀ rest, Enclosure.template.close cs ≠ .closed rest) :
    literalBodies i ('\x60' :: cs) = literalBodies (i + 1) cs := by
  rw [literalBodies, if_pos rfl]
  split
  · next rest hclose => exact absurd hclose (h rest)
  · rfl

theorem literalBodies_closed (hstop : stop ≤ text.length)
    (hclose : closeAt text stop .template [] (i + 1) = .ok (some after)) :
    literalBodies i ('\x60' :: slice text (i + 1) stop)
      = ⟨i + 1, after - 1⟩ :: literalBodies after (slice text after stop) := by
  have hafter := closeAt_lt hclose
  have hclosed := close_of_closeAt hstop hclose
  have hlen : i + 1 + ((slice text (i + 1) stop).length - (slice text after stop).length)
      = after := by
    rw [length_slice, length_slice]
    omega
  rw [literalBodies, if_pos rfl]
  split
  · next rest h =>
      rw [hclosed] at h
      cases h
      simp only [hlen]
  · next h => exact absurd hclosed (h _)

end Literals

/-- Inside the text, the cursor finds the literals that the library finds. -/
theorem searchAt_eq {text : List Char} {stop : Nat} (hstop : stop ≤ text.length) (pos : Nat) :
    searchAt text stop pos
      = .ok (((⟨pos, stop⟩ : Range).literals text).filter (Range.isTagged text),
          (⟨pos, stop⟩ : Range).nestedCode text) := by
  simp only [Range.nestedCode, Range.literals]
  fun_induction searchAt text stop pos with
  | case1 pos hfind => rw [literalBodies_find_none hfind]; rfl
  | case2 pos i hfind hlt fault hclose =>
      rw [closeAt_of_limit_le hstop .template (by omega)] at hclose
      cases hclose
  | case3 pos i hfind hlt hclose ih =>
      rw [ih, literalBodies_find hfind,
        literalBodies_unclosed (not_close_of_closeAt hstop (by omega) hclose)]
  | case4 pos i hfind hlt after hclose hafter fault htag =>
      rw [taggedAt_of_le (by omega)] at htag
      cases htag
  | case5 pos i hfind hlt after hclose hafter htag ih =>
      rw [taggedAt_of_le (by omega)] at htag
      have htagged : Range.isTagged text ⟨i + 1, after - 1⟩ = true := Except.ok.inj htag
      rw [ih, literalBodies_find hfind, literalBodies_closed hstop hclose,
        List.filter_cons_of_pos htagged, List.filter_cons_of_neg (by simp [htagged])]
      rfl
  | case6 pos i hfind hlt after hclose hafter htag fault hcode =>
      rw [placeholdersAt_of_le (by omega) (by omega)] at hcode
      cases hcode
  | case7 pos i hfind hlt after hclose hafter htag code hcode ih =>
      rw [taggedAt_of_le (by omega)] at htag
      rw [placeholdersAt_of_le (by omega) (by omega)] at hcode
      have htagged : Range.isTagged text ⟨i + 1, after - 1⟩ = false := Except.ok.inj htag
      have hcode : Range.placeholders text ⟨i + 1, after - 1⟩ = code := Except.ok.inj hcode
      rw [ih, literalBodies_find hfind, literalBodies_closed hstop hclose,
        List.filter_cons_of_neg (by simp [htagged]), List.filter_cons_of_pos (by simp [htagged]),
        List.flatMap_cons, hcode]
      rfl

/-! ## A list of ranges -/

/-- Search the ranges of code in `pending`, and add the segments to those in
`found`. -/
def drainAt (text : List Char) (pending found : List Range) : Except Fault (List Range) :=
  match pending with
  | [] => .ok found
  | code :: pending =>
      match hsearch : searchAt text code.stop code.start with
      | .error fault => .error fault
      | .ok (literals, nested) =>
          have : rangesSize nested ≤ code.stop - code.start := searchAt_size hsearch
          drainAt text (nested.reverse ++ pending)
            (literals.foldl (fun found body => insertByStart body found) found)
termination_by rangesSize pending
decreasing_by
  simp only [rangesSize, List.map_append, List.map_reverse, total_append, total_reverse,
    List.map_cons, total_cons, Range.length] at this ⊢
  omega

/-- Code inside of literals is inside the text. -/
theorem stop_le_of_mem_nestedCode {text : List Char} {code inner : Range}
    (h : inner ∈ code.nestedCode text) : inner.stop ≤ text.length := by
  obtain ⟨body, hbody, hinner⟩ := List.mem_flatMap.mp h
  have hlit := (literalBodies_inOrder code.start _).mem body (List.mem_filter.mp hbody).1
  have hcode := (placeholdersFrom_inOrder body.start _).mem inner hinner
  rw [length_slice] at hlit hcode
  omega

/-- Inside the text, the cursor finds the segments that the library finds. -/
theorem drainAt_eq {text : List Char} {pending : List Range} (found : List Range)
    (h : ∀ code ∈ pending, code.stop ≤ text.length) :
    drainAt text pending found = .ok (drain text pending found) := by
  fun_induction drain text pending found with
  | case1 found => rw [drainAt]
  | case2 found code pending ih =>
      have hcode := h code (List.mem_cons_self ..)
      rw [drainAt]
      split
      · next fault hsearch =>
          rw [searchAt_eq hcode] at hsearch
          cases hsearch
      · next literals nested hsearch =>
          rw [searchAt_eq hcode] at hsearch
          cases hsearch
          refine ih fun inner hinner => ?_
          rcases List.mem_append.mp hinner with hnested | hpending
          · exact stop_le_of_mem_nestedCode (List.mem_reverse.mp hnested)
          · exact h inner (List.mem_cons_of_mem code hpending)

/-- The segments of a text, found with a cursor. -/
def segmentsAt (text : List Char) : ContentKind → Except Fault (List Range)
  | .hostLanguage => drainAt text [⟨0, text.length⟩] []
  | _ => .ok [⟨0, text.length⟩]

theorem segmentsAt_eq (text : List Char) (kind : ContentKind) :
    segmentsAt text kind = .ok (segments text kind) := by
  cases kind with
  | markup => rfl
  | markupWithExpressions => rfl
  | hostLanguage =>
      refine drainAt_eq [] fun code hcode => ?_
      exact Nat.le_of_eq (congrArg Range.stop (List.mem_singleton.mp hcode))

end TagColoring
