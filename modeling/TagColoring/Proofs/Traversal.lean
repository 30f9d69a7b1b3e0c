import Mathlib.Data.List.Basic
import Mathlib.Logic.Function.Iterate
import TagColoring.Proofs.Grammar
import TagColoring.Proofs.SegmentCursor

/-!
# Reading host code from back-tick to back-tick

The search for segments keeps a list of ranges of code and sorts what it finds.  A
reader needs neither: at the next back-tick it either reports the body of a tagged
literal, goes into the placeholders of an untagged one, or goes on behind a back-tick
that opens nothing.  `readSegments` is that reader.

*The search ends.*  Each turn takes one range off the list and puts smaller ones on
it, so the size of the list bounds the turns (`exists_searchTurns`).

*The same segments.*  The literals of a range are those that the reader passes from
left to right (`readSegments_eq`), and a segment stands between two back-ticks
(`readSegments_backticks`).
-/

namespace TagColoring

/-! ## The search ends -/

/-- One turn of the search: the next range of code is taken off the list, the code
nested in it is put on the list, and its segments are added. -/
def searchTurn (text : List Char) : List Range × List Range → List Range × List Range
  | ([], found) => ([], found)
  | (code :: pending, found) =>
      ((code.nestedCode text).reverse ++ pending,
        ((code.literals text).filter (Range.isTagged text)).foldl
          (fun found body => insertByStart body found) found)

/-- The ranges on the list bound the turns that the search still takes. -/
theorem exists_searchTurns (text : List Char) (pending found : List Range) :
    ∃ n ≤ rangesSize pending,
      (searchTurn text)^[n] (pending, found) = ([], drain text pending found) := by
  fun_induction drain text pending found with
  | case1 found => exact ⟨0, Nat.zero_le _, rfl⟩
  | case2 found code pending ih =>
      obtain ⟨n, hn, hturns⟩ := ih
      refine ⟨n + 1, ?_, hturns⟩
      have hnested := code.nestedCode_size text
      simp only [rangesSize, List.map_append, List.map_reverse, total_append, total_reverse,
        List.map_cons, total_cons] at hn hnested ⊢
      omega

/-! ## From back-tick to back-tick -/

theorem literalEnd_lt {text : List Char} {pos limit i : Nat}
    (h : literalEnd text pos limit = .found i) : pos ≤ i ∧ i < limit := by
  have hlt := closeAt_lt (closeAt_of_found h)
  omega

/-- A literal without an end does not close. -/
theorem not_close_of_literalEnd {text : List Char} {pos limit : Nat}
    (h : ∀ i, literalEnd text pos limit ≠ .found i) (rest : List Char) :
    Enclosure.template.close (slice text pos limit) ≠ .closed rest := by
  intro hclose
  by_cases hpos : limit ≤ pos
  · rw [slice_of_le hpos] at hclose
    cases hclose
  · refine h (pos + ((slice text pos limit).length - rest.length) - 1) ?_
    rw [literalEnd, Enclosure.lookup, if_neg (by omega)]
    simp only [Int.toNat_natCast, hclose]
    rfl

/-- The code in the placeholders of a body between two offsets. -/
def placeholdersBetween (text : List Char) (pos close : Nat) : List Range :=
  (placeholders? text pos close).getD []

theorem placeholdersBetween_lt {text : List Char} {pos close : Nat} {inner : Range}
    (h : inner ∈ placeholdersBetween text pos close) :
    pos + 2 ≤ inner.start ∧ inner.start ≤ inner.stop ∧ inner.stop < close := by
  have hlen := length_slice_le text pos close
  unfold placeholdersBetween placeholders? at h
  split at h
  · exact absurd h List.not_mem_nil
  · simp only [Int.toNat_natCast] at h
    split at h
    · exact absurd h List.not_mem_nil
    · have := (placeholdersFrom_inOrder pos (slice text pos close)).mem inner h
      omega

/-- The segments of host code between two offsets, from left to right. -/
def readSegments (text : List Char) (start stop : Nat) : List Range :=
  match hfind : findAt text ['\x60'] start stop with
  | none => []
  | some i =>
      have : start ≤ i ∧ i < stop := findAt_lt hfind
      match hclose : literalEnd text (i + 1) stop with
      | .found close =>
          have : i + 1 ≤ close ∧ close < stop := literalEnd_lt hclose
          if tagged? text i = some true then ⟨i + 1, close⟩ :: readSegments text (close + 1) stop
          else
            (placeholdersBetween text (i + 1) close).attach.flatMap (fun ⟨inner, hinner⟩ =>
              have := placeholdersBetween_lt hinner
              readSegments text inner.start inner.stop)
            ++ readSegments text (close + 1) stop
      | _ => readSegments text (i + 1) stop
termination_by stop - start

section Read

variable {text : List Char} {start stop i close : Nat}

theorem readSegments_none (hfind : findAt text ['\x60'] start stop = none) :
    readSegments text start stop = [] := by
  rw [readSegments]
  split
  · rfl
  · next i h => rw [hfind] at h; cases h

theorem readSegments_unclosed (hfind : findAt text ['\x60'] start stop = some i)
    (hclose : ∀ close, literalEnd text (i + 1) stop ≠ .found close) :
    readSegments text start stop = readSegments text (i + 1) stop := by
  rw [readSegments]
  split
  · next h => rw [hfind] at h; cases h
  · next j h =>
      cases hfind.symm.trans h
      split
      · next close h => exact absurd h (hclose close)
      · rfl

theorem readSegments_closed (hfind : findAt text ['\x60'] start stop = some i)
    (hclose : literalEnd text (i + 1) stop = .found close) :
    readSegments text start stop
      = (if tagged? text i = some true then [⟨i + 1, close⟩]
          else (placeholdersBetween text (i + 1) close).flatMap fun inner =>
            readSegments text inner.start inner.stop)
        ++ readSegments text (close + 1) stop := by
  rw [readSegments]
  split
  · next h => rw [hfind] at h; cases h
  · next j h =>
      cases hfind.symm.trans h
      split
      · next close' h =>
          cases hclose.symm.trans h
          split
          · rfl
          · simp only [List.flatMap_subtype, List.unattach_attach]
      · next h => exact absurd hclose (h close)

end Read

/-! ## The same segments -/

theorem placeholdersBetween_eq {text : List Char} {pos close : Nat} (hpos : pos ≤ close)
    (hclose : close ≤ text.length) :
    placeholdersBetween text pos close = Range.placeholders text ⟨pos, close⟩ := by
  have hcursor := placeholdersAt_eq_placeholders? text pos close
  rw [placeholdersAt_of_le hclose (by omega)] at hcursor
  rw [placeholdersBetween, Range.placeholders]
  cases hwalk : placeholders? text pos close with
  | none => rw [hwalk] at hcursor; cases hcursor
  | some ranges => rw [hwalk] at hcursor; exact (Except.ok.inj hcursor).symm

theorem readSegments_eq {text : List Char} {stop : Nat} (hstop : stop ≤ text.length)
    (start : Nat) : readSegments text start stop = codeSegments text ⟨start, stop⟩ := by
  rw [codeSegments_eq, Range.literals]
  cases hfind : findAt text ['\x60'] start stop with
  | none => rw [readSegments_none hfind, literalBodies_find_none hfind]; rfl
  | some i =>
      have hi := findAt_lt hfind
      rw [literalBodies_find hfind]
      by_cases hclose : ∃ close, literalEnd text (i + 1) stop = .found close
      · obtain ⟨close, hclose⟩ := hclose
        have hlt := literalEnd_lt hclose
        have htag : tagged? text i = some (Range.isTagged text ⟨i + 1, close⟩) := by
          rw [tagged?, if_neg (by omega)]
          rfl
        have hnested : (placeholdersBetween text (i + 1) close).flatMap (fun inner =>
              readSegments text inner.start inner.stop)
            = (Range.placeholders text ⟨i + 1, close⟩).flatMap (codeSegments text) := by
          rw [← placeholdersBetween_eq hlt.1 (by omega)]
          refine List.flatMap_congr fun inner hinner => ?_
          have hinside := placeholdersBetween_lt hinner
          exact readSegments_eq (by omega) inner.start
        rw [readSegments_closed hfind hclose, hnested, htag,
          literalBodies_closed hstop (closeAt_of_found hclose), List.flatMap_cons,
          readSegments_eq hstop (close + 1), codeSegments_eq, Range.literals]
        simp only [Option.some.injEq, Nat.add_sub_cancel]
      · have hclose := not_exists.mp hclose
        rw [readSegments_unclosed hfind hclose,
          literalBodies_unclosed (not_close_of_literalEnd hclose), readSegments_eq hstop (i + 1),
          codeSegments_eq, Range.literals]
termination_by stop - start

/-- Each segment is the body of a literal: it stands between two back-ticks. -/
theorem readSegments_backticks {text : List Char} {stop : Nat} (hstop : stop ≤ text.length)
    (start : Nat) : ∀ s ∈ readSegments text start stop,
      text[s.start - 1]? = some '\x60' ∧ text[s.stop]? = some '\x60' := by
  cases hfind : findAt text ['\x60'] start stop with
  | none => rw [readSegments_none hfind]; exact fun _ hs => absurd hs List.not_mem_nil
  | some i =>
      have hi := findAt_lt hfind
      by_cases hclose : ∃ close, literalEnd text (i + 1) stop = .found close
      · obtain ⟨close, hclose⟩ := hclose
        have hlt := literalEnd_lt hclose
        rw [readSegments_closed hfind hclose]
        intro s hs
        rcases List.mem_append.mp hs with hs | hs
        · split at hs
          · cases List.mem_singleton.mp hs
            obtain ⟨hlen, hopen⟩ := readAt_ok (readAt_of_findAt hfind)
            have hend := (Enclosure.template.lookup_pred_eq_found_iff hstop (i + 1) close).mp hclose
            exact ⟨by rw [Nat.add_sub_cancel, List.getElem?_eq_getElem hlen, hopen], hend.2.2.1⟩
          · obtain ⟨inner, hinner, hs⟩ := List.mem_flatMap.mp hs
            have hinside := placeholdersBetween_lt hinner
            exact readSegments_backticks (by omega) inner.start s hs
        · exact readSegments_backticks hstop (close + 1) s hs
      · rw [readSegments_unclosed hfind (not_exists.mp hclose)]
        exact readSegments_backticks hstop (i + 1)
termination_by stop - start

/-- The search for segments ends after at most one turn for each character and one
more.  It finds what is read from back-tick to back-tick, and the segments are
bodies of literals that stand apart from each other. -/
theorem segments_eq_readSegments (text : List Char) :
    (∃ n ≤ text.length + 1, (searchTurn text)^[n] ([⟨0, text.length⟩], [])
      = ([], segments text .hostLanguage)) ∧
    segments text .hostLanguage = readSegments text 0 text.length ∧
    (∀ s ∈ segments text .hostLanguage,
      text[s.start - 1]? = some '\x60' ∧ text[s.stop]? = some '\x60' ∧
      0 < s.start ∧ s.start ≤ s.stop ∧ s.stop < text.length) ∧
    (segments text .hostLanguage).Pairwise fun s t => s.stop < t.start := by
  have hread : segments text .hostLanguage = readSegments text 0 text.length := by
    rw [readSegments_eq (Nat.le_refl _)]
    exact hostSegments_eq text
  have horder : InOrder 1 text.length (segments text .hostLanguage) := by
    rw [hread, readSegments_eq (Nat.le_refl _)]
    exact codeSegments_inOrder text ⟨0, text.length⟩ (Nat.zero_le _)
  refine ⟨exists_searchTurns text [⟨0, text.length⟩] [], hread, fun s hs => ?_, horder.pairwise⟩
  obtain ⟨hopen, hclose⟩ := readSegments_backticks (Nat.le_refl _) 0 s (hread ▸ hs)
  have hbounds := horder.mem s hs
  exact ⟨hopen, hclose, by omega, hbounds.2.1, hbounds.2.2⟩

end TagColoring
