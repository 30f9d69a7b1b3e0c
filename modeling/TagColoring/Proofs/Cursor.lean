import TagColoring.Proofs.Enclosure
import TagColoring.Proofs.Window
import TagColoring.Template.Placeholder
import TagColoring.Template.Tagged

/-!
# Cursors that may leave the text

The scans of the library get a window and cannot leave it.  An editor that keeps
a text and moves a cursor through it can: a cursor jumps by two over an escape,
a scan starts another one behind its own cursor, and a scan backwards may pass
the start of the text.  This module writes the scans in that form.  Every look at
the text is a `readAt`, which faults at an offset that the text does not have.

* `closeAt` looks for the end of an enclosure below a limit.
* `placeholdersAt` collects the placeholders of the body of a literal.
* `taggedAt` looks back from a back-tick for the identifier of a tag.

Each of them is equal to the search of the library with the same answer, and it
faults exactly where that search has no answer (`closeAt_eq_lookup`,
`placeholdersAt_eq_placeholders?`, `taggedAt_eq_tagged?`).  So a limit inside the
text keeps every look inside the text.
-/

namespace TagColoring

/-- What can go wrong in a step that is not always possible. -/
inductive Fault where
  /-- A look at an offset that the text does not have. -/
  | outsideText
  /-- A look at an entry that a list does not have. -/
  | missingEntry
  /-- A remainder of a division by zero. -/
  | zeroModulus
deriving DecidableEq, Repr

/-- The character at an offset of a text. -/
def readAt (text : List Char) (i : Nat) : Except Fault Char :=
  match text[i]? with
  | some c => .ok c
  | none => .error .outsideText

theorem readAt_of_lt {text : List Char} {i : Nat} (h : i < text.length) :
    readAt text i = .ok text[i] := by
  rw [readAt, List.getElem?_eq_getElem h]

theorem readAt_of_le {text : List Char} {i : Nat} (h : text.length ≤ i) :
    readAt text i = .error .outsideText := by
  rw [readAt, List.getElem?_eq_none h]

/-! ## The end of an enclosure -/

/-- The offset behind the character that closes the enclosure `e` and all those
around it, if there is one below the limit. -/
def closeAt (text : List Char) (limit : Nat) (e : Enclosure) (outer : List Enclosure) (i : Nat) :
    Except Fault (Option Nat) :=
  if i < limit then
    match readAt text i with
    | .error fault => .error fault
    | .ok c =>
        match e.move c with
        | .stay => closeAt text limit e outer (i + 1)
        | .leave =>
            match outer with
            | [] => .ok (some (i + 1))
            | o :: os => closeAt text limit o os (i + 1)
        | .enter inner => closeAt text limit inner (e :: outer) (i + 1)
        | .escape => closeAt text limit e outer (i + 2)
        | .dollar =>
            if (slice text (i + 1) limit).head? = some '\x7b' then
              closeAt text limit .braces (e :: outer) (i + 2)
            else closeAt text limit e outer (i + 1)
  else .ok none
termination_by limit - i

theorem closeAt_of_le {text : List Char} {limit i : Nat} (h : limit ≤ i) (e : Enclosure)
    (outer : List Enclosure) : closeAt text limit e outer i = .ok none := by
  rw [closeAt.eq_def, if_neg (Nat.not_lt.mpr h)]

theorem closeAt_of_length_le {text : List Char} {limit i : Nat} (hlimit : i < limit)
    (hi : text.length ≤ i) (e : Enclosure) (outer : List Enclosure) :
    closeAt text limit e outer i = .error .outsideText := by
  rw [closeAt.eq_def, if_pos hlimit, readAt_of_le hi]

/-- What a scan that ends in an extent answers.  The end of its window is the
limit or the end of the text. -/
def Extent.outcome (text : List Char) (limit : Nat) : Extent → Except Fault (Option Nat)
  | .closed rest => .ok (some (min limit text.length - rest.length))
  | .unclosed => if text.length < limit then .error .outsideText else .ok none
  | .dangling => if text.length + 1 < limit then .error .outsideText else .ok none

theorem readAt_error {text : List Char} {i : Nat} {fault : Fault}
    (h : readAt text i = .error fault) : text.length ≤ i ∧ fault = .outsideText := by
  by_cases hi : i < text.length
  · rw [readAt_of_lt hi] at h
    cases h
  · rw [readAt_of_le (Nat.not_lt.mp hi)] at h
    cases h
    exact ⟨Nat.not_lt.mp hi, rfl⟩

theorem readAt_ok {text : List Char} {i : Nat} {c : Char} (h : readAt text i = .ok c) :
    ∃ hi : i < text.length, text[i] = c := by
  by_cases hi : i < text.length
  · rw [readAt_of_lt hi] at h
    exact ⟨hi, Except.ok.inj h⟩
  · rw [readAt_of_le (Nat.not_lt.mp hi)] at h
    cases h

/-- A character that is read is the first of the window at the cursor. -/
theorem slice_of_readAt {text : List Char} {i limit : Nat} {c : Char} (hlimit : i < limit)
    (h : readAt text i = .ok c) : slice text i limit = c :: slice text (i + 1) limit := by
  obtain ⟨hi, rfl⟩ := readAt_ok h
  exact slice_cons hlimit hi

/-- Two characters that open a placeholder are the first of the window at the
cursor. -/
theorem slice_of_open {text : List Char} {i limit : Nat} {c : Char} (hlimit : i < limit)
    (h : readAt text i = .ok c) (hbrace : (slice text (i + 1) limit).head? = some '\x7b') :
    slice text i limit = c :: '\x7b' :: slice text (i + 2) limit ∧ i + 2 ≤ limit ∧
      i + 2 ≤ text.length := by
  obtain ⟨cs, hcs⟩ := List.head?_eq_some_iff.mp hbrace
  have hlen := congrArg List.length hcs
  rw [length_slice, List.length_cons] at hlen
  have hdrop : slice text (i + 2) limit = cs := by
    have := congrArg (List.drop 1) hcs
    rwa [drop_slice] at this
  rw [slice_of_readAt hlimit h, hcs, hdrop]
  exact ⟨rfl, by omega, by omega⟩

theorem readAt_of_findAt {text : List Char} {c : Char} {start stop i : Nat}
    (hfind : findAt text [c] start stop = some i) : readAt text i = .ok c := by
  obtain ⟨cs, hcs⟩ := List.isPrefixOf_iff_prefix.mp (findAt_isPrefixOf hfind).2
  have hlen := congrArg List.length hcs
  rw [length_slice, List.singleton_append, List.length_cons] at hlen
  have hlt : i < text.length := by omega
  rw [slice_cons (findAt_lt hfind).2 hlt] at hcs
  rw [readAt_of_lt hlt, (List.cons.inj hcs).1]

theorem closeAt_eq_outcome {text : List Char} {limit : Nat} (e : Enclosure)
    (outer : List Enclosure) (i : Nat) (hi : i ≤ text.length)
    (hlimit : i < limit ∨ limit ≤ text.length) :
    closeAt text limit e outer i
      = (closeIn e outer (slice text i limit)).outcome text limit := by
  fun_induction closeAt text limit e outer i with
  | case1 e outer i h fault hread =>
      obtain ⟨hlen, rfl⟩ := readAt_error hread
      rw [slice_of_length_le hlen, closeIn, Extent.outcome, if_pos (by omega)]
  | case2 e outer i h c hread hm ih =>
      obtain ⟨hlt, _⟩ := readAt_ok hread
      rw [slice_of_readAt h hread, closeIn_of_stay hm]
      exact ih (by omega) (by omega)
  | case3 e i h c hread hm =>
      obtain ⟨hlt, _⟩ := readAt_ok hread
      rw [slice_of_readAt h hread, closeIn_of_leave hm, Extent.outcome, length_slice]
      congr 2
      omega
  | case4 e i h c hread hm o os ih =>
      obtain ⟨hlt, _⟩ := readAt_ok hread
      rw [slice_of_readAt h hread, closeIn_of_leave_outer hm]
      exact ih (by omega) (by omega)
  | case5 e outer i h c hread inner hm ih =>
      obtain ⟨hlt, _⟩ := readAt_ok hread
      rw [slice_of_readAt h hread, closeIn_of_enter hm]
      exact ih (by omega) (by omega)
  | case6 e outer i h c hread hm ih =>
      obtain ⟨hlt, _⟩ := readAt_ok hread
      rw [slice_of_readAt h hread]
      by_cases hnext : i + 1 < limit ∧ i + 1 < text.length
      · rw [slice_cons hnext.1 hnext.2, closeIn_of_escape hm]
        exact ih (by omega) (by omega)
      · -- The escape has nothing to hide, and the cursor is one past the end.
        rw [slice_eq_nil hnext, closeIn_of_escape_end hm, Extent.outcome]
        split
        · exact closeAt_of_length_le (by omega) (by omega) e outer
        · exact closeAt_of_le (by omega) e outer
  | case7 e outer i h c hread hm hbrace ih =>
      obtain ⟨hwindow, hle⟩ := slice_of_open h hread hbrace
      rw [hwindow, closeIn_of_dollar_brace hm]
      exact ih (by omega) (by omega)
  | case8 e outer i h c hread hm hbrace ih =>
      obtain ⟨hlt, _⟩ := readAt_ok hread
      rw [slice_of_readAt h hread, closeIn_of_dollar hm hbrace]
      exact ih (by omega) (by omega)
  | case9 e outer i h =>
      rw [slice_of_le (Nat.not_lt.mp h), closeIn, Extent.outcome, if_neg (by omega)]

theorem closeAt_lt {text : List Char} {limit : Nat} {e : Enclosure} {outer : List Enclosure}
    {i after : Nat} (h : closeAt text limit e outer i = .ok (some after)) :
    i < after ∧ after ≤ limit := by
  fun_induction closeAt text limit e outer i with
  | case1 e outer i hlt fault hread => cases h
  | case2 e outer i hlt c hread hm ih => have := ih h; omega
  | case3 e i hlt c hread hm => cases h; omega
  | case4 e i hlt c hread hm o os ih => have := ih h; omega
  | case5 e outer i hlt c hread inner hm ih => have := ih h; omega
  | case6 e outer i hlt c hread hm ih => have := ih h; omega
  | case7 e outer i hlt c hread hm hbrace ih => have := ih h; omega
  | case8 e outer i hlt c hread hm hbrace ih => have := ih h; omega
  | case9 e outer i hlt => cases h

/-- The answer of a search, with a look outside the text as a fault. -/
def Lookup.outcome : Lookup → Except Fault (Option Nat)
  | .found offset => .ok (some offset)
  | .missing => .ok none
  | .overrun => .error .outsideText

theorem Lookup.map_ne_overrun {search : Lookup} (f : Nat → Nat) (h : search ≠ .overrun) :
    search.map f ≠ .overrun := by
  cases search with
  | found i => exact Lookup.noConfusion
  | missing => exact Lookup.noConfusion
  | overrun => exact absurd rfl h

theorem overruns_natCast (text : List Char) (limit : Nat) (dangling : Bool) :
    overruns text limit dangling = true ↔
      text.length + (if dangling then 1 else 0) < limit := by
  rw [overruns, decide_eq_true_iff]
  split <;> omega

/-- The cursor finds what the search of the library finds, and it leaves the
text exactly where that search overruns it. -/
theorem closeAt_eq_lookup (text : List Char) (pos limit : Nat) (e : Enclosure) :
    closeAt text limit e [] pos = (e.lookup text pos limit).outcome := by
  by_cases h : limit ≤ pos
  · rw [closeAt_of_le h, Enclosure.lookup, if_pos (by omega)]
    rfl
  · rw [Enclosure.lookup, if_neg (by omega)]
    simp only [Int.toNat_natCast, Enclosure.close]
    have hscan : closeAt text limit e [] pos
        = (closeIn e [] (slice text pos limit)).outcome text limit := by
      by_cases hpos : pos ≤ text.length
      · exact closeAt_eq_outcome e [] pos hpos (by omega)
      · have hnil : slice text pos limit = [] := slice_of_length_le (by omega)
        rw [closeAt_of_length_le (by omega) (by omega), hnil, closeIn, Extent.outcome,
          if_pos (by omega)]
    rw [hscan]
    cases hx : closeIn e [] (slice text pos limit) with
    | closed rest =>
        have hlen := closeIn_length hx
        rw [length_slice] at hlen
        simp only [Extent.outcome, Lookup.outcome, length_slice]
        congr 2
        omega
    | unclosed =>
        have hover := overruns_natCast text limit false
        simp only [Extent.outcome]
        split
        · next hlt => rw [hover.mpr hlt]; rfl
        · next hlt => rw [Bool.eq_false_iff.mpr (mt hover.mp hlt)]; rfl
    | dangling =>
        have hover := overruns_natCast text limit true
        simp only [Extent.outcome]
        split
        · next hlt => rw [hover.mpr hlt]; rfl
        · next hlt => rw [Bool.eq_false_iff.mpr (mt hover.mp hlt)]; rfl

theorem lookup_of_closeAt {text : List Char} {pos limit : Nat} {e : Enclosure}
    {answer : Option Nat} (h : closeAt text limit e [] pos = .ok answer) :
    e.lookup text pos limit = answer.elim .missing .found := by
  rw [closeAt_eq_lookup] at h
  cases hsearch : e.lookup text pos limit with
  | found after => rw [hsearch] at h; cases h; rfl
  | missing => rw [hsearch] at h; cases h; rfl
  | overrun => rw [hsearch] at h; cases h

/-- A search for the character that closes an enclosure is a scan with a cursor. -/
theorem closeAt_of_found {text : List Char} {pos limit i : Nat} {e : Enclosure}
    (h : (e.lookup text pos limit).map (· - 1) = .found i) :
    closeAt text limit e [] pos = .ok (some (i + 1)) := by
  have hcursor := closeAt_eq_lookup text pos limit e
  cases hsearch : e.lookup text pos limit with
  | found after =>
      rw [hsearch] at h hcursor
      have hafter := closeAt_lt hcursor
      have hi : after - 1 = i := Lookup.found.inj h
      rw [hcursor, show after = i + 1 by omega]
      rfl
  | missing => rw [hsearch] at h; cases h
  | overrun => rw [hsearch] at h; cases h

theorem closeAt_of_missing {text : List Char} {pos limit : Nat} {e : Enclosure}
    {f : Nat → Nat} (h : (e.lookup text pos limit).map f = .missing) :
    closeAt text limit e [] pos = .ok none := by
  have hcursor := closeAt_eq_lookup text pos limit e
  cases hsearch : e.lookup text pos limit with
  | found after => rw [hsearch] at h; cases h
  | missing => rw [hcursor, hsearch]; rfl
  | overrun => rw [hsearch] at h; cases h

/-- Where a scan of a window that stops at an offset has closed. -/
def Extent.offset? (stop : Nat) : Extent → Option Nat
  | .closed rest => some (stop - rest.length)
  | _ => none

/-- Below a limit inside the text, the cursor never leaves the text. -/
theorem closeAt_of_limit_le {text : List Char} {limit : Nat} (hlimit : limit ≤ text.length)
    (e : Enclosure) {i : Nat} (hi : i ≤ text.length) :
    closeAt text limit e [] i = .ok ((e.close (slice text i limit)).offset? limit) := by
  rw [closeAt_eq_outcome e [] i hi (.inr hlimit), Enclosure.close]
  cases closeIn e [] (slice text i limit) with
  | closed rest => rw [Extent.outcome, Nat.min_eq_left hlimit]; rfl
  | unclosed => rw [Extent.outcome, if_neg (by omega)]; rfl
  | dangling => rw [Extent.outcome, if_neg (by omega)]; rfl

/-- What follows the offset that a cursor found is the rest of its window. -/
theorem close_of_closeAt {text : List Char} {limit : Nat} (hlimit : limit ≤ text.length)
    {e : Enclosure} {i after : Nat} (h : closeAt text limit e [] i = .ok (some after)) :
    e.close (slice text i limit) = .closed (slice text after limit) := by
  have hlt := closeAt_lt h
  rw [closeAt_of_limit_le hlimit e (by omega)] at h
  cases hclose : e.close (slice text i limit) with
  | closed rest =>
      rw [hclose] at h
      have hafter : limit - rest.length = after := Option.some.inj (Except.ok.inj h)
      obtain ⟨body, _, hbody⟩ := closeIn_suffix hclose
      have hlen := congrArg List.length hbody
      rw [List.length_append, length_slice] at hlen
      rw [(slice_of_append hbody).2]
      congr 2
      omega
  | unclosed => rw [hclose] at h; cases h
  | dangling => rw [hclose] at h; cases h

/-- A cursor that found nothing saw a window that does not close. -/
theorem not_close_of_closeAt {text : List Char} {limit : Nat} (hlimit : limit ≤ text.length)
    {e : Enclosure} {i : Nat} (hi : i ≤ text.length) (h : closeAt text limit e [] i = .ok none)
    (rest : List Char) : e.close (slice text i limit) ≠ .closed rest := by
  intro hclose
  rw [closeAt_of_limit_le hlimit e hi, hclose] at h
  cases h

/-! ## The placeholders of a literal -/

/-- The ranges of the code in the placeholders of a body that stops at an
offset, from the cursor on. -/
def placeholdersAt (text : List Char) (stop i : Nat) : Except Fault (List Range) :=
  if i < stop then
    match readAt text i with
    | .error fault => .error fault
    | .ok c =>
        if c = '\\' then placeholdersAt text stop (i + 2)
        else if c = '$' ∧ (slice text (i + 1) stop).head? = some '\x7b' then
          match h : closeAt text stop .braces [] (i + 2) with
          | .error fault => .error fault
          | .ok none => .ok []
          | .ok (some after) =>
              have := (closeAt_lt h).1
              (placeholdersAt text stop after).map (⟨i + 2, after - 1⟩ :: ·)
        else placeholdersAt text stop (i + 1)
  else .ok []
termination_by stop - i
decreasing_by
  all_goals omega

section Walk

variable {i : Nat} {c : Char} {cs rest : List Char}

theorem placeholdersFrom_escape (i : Nat) (c : Char) (cs : List Char) :
    placeholdersFrom i ('\\' :: c :: cs) = placeholdersFrom (i + 2) cs := by
  rw [placeholdersFrom]

theorem placeholdersFrom_escape_end (i : Nat) :
    placeholdersFrom i ['\\'] = ([], .dangling) := by
  rw [placeholdersFrom]

theorem placeholdersFrom_closed (h : Enclosure.braces.close cs = .closed rest) :
    placeholdersFrom i ('$' :: '\x7b' :: cs)
      = (⟨i + 2, i + 2 + (cs.length - rest.length) - 1⟩
          :: (placeholdersFrom (i + 2 + (cs.length - rest.length)) rest).1,
        (placeholdersFrom (i + 2 + (cs.length - rest.length)) rest).2) := by
  rw [placeholdersFrom]
  split <;> simp_all

theorem placeholdersFrom_unclosed (h : Enclosure.braces.close cs = .unclosed) :
    placeholdersFrom i ('$' :: '\x7b' :: cs) = ([], .unclosed) := by
  rw [placeholdersFrom]
  split <;> simp_all

theorem placeholdersFrom_dangling (h : Enclosure.braces.close cs = .dangling) :
    placeholdersFrom i ('$' :: '\x7b' :: cs) = ([], .dangling) := by
  rw [placeholdersFrom]
  split <;> simp_all

theorem placeholdersFrom_text (hc : c ≠ '\\') (h : ¬ (c = '$' ∧ cs.head? = some '\x7b')) :
    placeholdersFrom i (c :: cs) = placeholdersFrom (i + 1) cs := by
  rw [placeholdersFrom]
  · intro hc'
    exact fun _ => hc hc'
  · intro _ _ hc'
    exact absurd hc' hc
  · intro cs' hc' hcs
    exact h ⟨hc', by rw [hcs]; rfl⟩

end Walk

/-- How far behind the end of the body a walk leaves its cursor. -/
def BodyEnd.past : BodyEnd → Nat
  | .dangling => 1
  | _ => 0

theorem BodyEnd.past_eq (ending : BodyEnd) :
    ending.past = if decide (ending = .dangling) = true then 1 else 0 := by
  cases ending <;> rfl

/-- What a walk through a body that stops at an offset answers. -/
def walkOutcome (text : List Char) (stop : Nat) (walk : List Range × BodyEnd) :
    Except Fault (List Range) :=
  if text.length + walk.2.past < stop then .error .outsideText else .ok walk.1

theorem walkOutcome_cons (text : List Char) (stop : Nat) (r : Range)
    (walk : List Range × BodyEnd) :
    (walkOutcome text stop walk).map (r :: ·) = walkOutcome text stop (r :: walk.1, walk.2) := by
  unfold walkOutcome
  split <;> rfl

theorem placeholdersAt_eq_walkOutcome {text : List Char} {stop : Nat} (i : Nat)
    (hi : i ≤ text.length) (hstop : i < stop ∨ stop ≤ text.length) :
    placeholdersAt text stop i
      = walkOutcome text stop (placeholdersFrom i (slice text i stop)) := by
  fun_induction placeholdersAt text stop i with
  | case1 i h fault hread =>
      obtain ⟨hlen, rfl⟩ := readAt_error hread
      have hlt : text.length < stop := by omega
      rw [slice_of_length_le hlen, placeholdersFrom]
      exact (if_pos hlt).symm
  | case2 i h hread ih =>
      obtain ⟨hlt, _⟩ := readAt_ok hread
      rw [slice_of_readAt h hread]
      by_cases hnext : i + 1 < stop ∧ i + 1 < text.length
      · rw [slice_cons hnext.1 hnext.2, placeholdersFrom_escape]
        exact ih (by omega) (by omega)
      · rw [slice_eq_nil hnext, placeholdersFrom_escape_end]
        by_cases hpast : text.length + 1 < stop
        · rw [placeholdersAt.eq_def, if_pos (by omega), readAt_of_le (by omega)]
          exact (if_pos hpast).symm
        · rw [placeholdersAt.eq_def, if_neg (by omega)]
          exact (if_neg hpast).symm
  | case3 i h c hread hc hopen fault hclose =>
      obtain ⟨rfl, hbrace⟩ := hopen
      obtain ⟨hwindow, hle⟩ := slice_of_open h hread hbrace
      rw [closeAt_eq_outcome _ _ _ (by omega) (by omega)] at hclose
      rw [hwindow]
      cases hx : closeIn .braces [] (slice text (i + 2) stop) with
      | closed rest => rw [hx] at hclose; cases hclose
      | unclosed =>
          rw [hx, Extent.outcome] at hclose
          rw [placeholdersFrom_unclosed hx]
          split at hclose
          · next hlt => cases hclose; exact (if_pos hlt).symm
          · cases hclose
      | dangling =>
          rw [hx, Extent.outcome] at hclose
          rw [placeholdersFrom_dangling hx]
          split at hclose
          · next hlt => cases hclose; exact (if_pos hlt).symm
          · cases hclose
  | case4 i h c hread hc hopen hclose =>
      obtain ⟨rfl, hbrace⟩ := hopen
      obtain ⟨hwindow, hle⟩ := slice_of_open h hread hbrace
      rw [closeAt_eq_outcome _ _ _ (by omega) (by omega)] at hclose
      rw [hwindow]
      cases hx : closeIn .braces [] (slice text (i + 2) stop) with
      | closed rest => rw [hx] at hclose; cases hclose
      | unclosed =>
          rw [hx, Extent.outcome] at hclose
          rw [placeholdersFrom_unclosed hx]
          split at hclose
          · cases hclose
          · next hlt => exact (if_neg hlt).symm
      | dangling =>
          rw [hx, Extent.outcome] at hclose
          rw [placeholdersFrom_dangling hx]
          split at hclose
          · cases hclose
          · next hlt => exact (if_neg hlt).symm
  | case5 i h c hread hc hopen after hclose hlt ih =>
      obtain ⟨rfl, hbrace⟩ := hopen
      obtain ⟨hwindow, hle⟩ := slice_of_open h hread hbrace
      have hafter := closeAt_lt hclose
      rw [closeAt_eq_outcome _ _ _ (by omega) (by omega)] at hclose
      rw [hwindow]
      cases hx : closeIn .braces [] (slice text (i + 2) stop) with
      | closed rest =>
          rw [hx, Extent.outcome] at hclose
          have hclose := Option.some.inj (Except.ok.inj hclose)
          obtain ⟨body, _, hbody⟩ := closeIn_suffix hx
          have hlen := congrArg List.length hbody
          rw [List.length_append, length_slice] at hlen
          have hrest : rest = slice text after stop := by
            have hdrop := congrArg (List.drop body.length) hbody
            rw [List.drop_left, drop_slice] at hdrop
            rw [hdrop]
            congr 1
            omega
          have hpos : i + 2 + ((slice text (i + 2) stop).length - rest.length) = after := by
            rw [length_slice]
            omega
          rw [placeholdersFrom_closed hx, hpos, ih (by omega) (by omega), hrest, walkOutcome_cons]
      | unclosed =>
          rw [hx, Extent.outcome] at hclose
          split at hclose <;> cases hclose
      | dangling =>
          rw [hx, Extent.outcome] at hclose
          split at hclose <;> cases hclose
  | case6 i h c hread hc hopen ih =>
      obtain ⟨hlt, _⟩ := readAt_ok hread
      rw [slice_of_readAt h hread, placeholdersFrom_text hc hopen]
      exact ih (by omega) (by omega)
  | case7 i h =>
      have hle : ¬ text.length < stop := by omega
      rw [slice_of_le (Nat.not_lt.mp h), placeholdersFrom]
      exact (if_neg hle).symm

/-- The cursor collects what the walk of the library collects, and it leaves the
text exactly where that walk has no answer. -/
theorem placeholdersAt_eq_placeholders? (text : List Char) (pos stop : Nat) :
    placeholdersAt text stop pos
      = match placeholders? text pos stop with
        | some ranges => .ok ranges
        | none => .error .outsideText := by
  by_cases h : stop ≤ pos
  · rw [placeholdersAt.eq_def, if_neg (by omega), placeholders?, if_pos (by omega)]
  · rw [placeholders?, if_neg (by omega)]
    simp only [Int.toNat_natCast]
    have hwalk : placeholdersAt text stop pos
        = walkOutcome text stop (placeholdersFrom pos (slice text pos stop)) := by
      by_cases hpos : pos ≤ text.length
      · exact placeholdersAt_eq_walkOutcome pos hpos (by omega)
      · have hnil : slice text pos stop = [] := slice_of_length_le (by omega)
        have hlt : text.length < stop := by omega
        rw [placeholdersAt.eq_def, if_pos (by omega), readAt_of_le (by omega), hnil,
          placeholdersFrom]
        exact (if_pos hlt).symm
    have hover := overruns_natCast text stop
      ((placeholdersFrom pos (slice text pos stop)).2 = .dangling)
    rw [← BodyEnd.past_eq] at hover
    rw [hwalk, walkOutcome]
    split
    · next hlt => rw [if_pos (hover.mpr hlt)]
    · next hlt => rw [if_neg (mt hover.mp hlt)]

/-- In a body inside the text, the cursor never leaves the text. -/
theorem placeholdersAt_of_le {text : List Char} {stop : Nat} (hstop : stop ≤ text.length) {i : Nat}
    (hi : i ≤ text.length) :
    placeholdersAt text stop i = .ok (placeholdersFrom i (slice text i stop)).1 := by
  rw [placeholdersAt_eq_walkOutcome i hi (.inr hstop), walkOutcome, if_neg (by omega)]

/-- The ranges that the cursor collects are together shorter than what it walked
through, by at least one character for each. -/
theorem placeholdersAt_size {text : List Char} {stop i : Nat} {ranges : List Range}
    (h : placeholdersAt text stop i = .ok ranges) : rangesSize ranges ≤ stop - i := by
  fun_induction placeholdersAt text stop i generalizing ranges with
  | case1 i hlt fault hread => cases h
  | case2 i hlt hread ih => have := ih h; omega
  | case3 i hlt c hread hc hopen fault hclose => cases h
  | case4 i hlt c hread hc hopen hclose => cases h; simp [rangesSize]
  | case5 i hlt c hread hc hopen after hclose hafter ih =>
      have hle := closeAt_lt hclose
      cases hrest : placeholdersAt text stop after with
      | error fault => rw [hrest] at h; cases h
      | ok rest =>
          rw [hrest] at h
          cases h
          have := ih hrest
          simp only [rangesSize, List.map_cons, total_cons, Range.length] at this ⊢
          omega
  | case6 i hlt c hread hc hopen ih => have := ih h; omega
  | case7 i hlt => cases h; simp [rangesSize]

/-! ## Looking back from a back-tick -/

/-- Step back over the characters of a class, from the end of the first `n`
characters.  The result is the number of characters left. -/
def runBack (p : Char → Bool) (text : List Char) : Nat → Except Fault Nat
  | 0 => .ok 0
  | k + 1 =>
      match readAt text k with
      | .error fault => .error fault
      | .ok c => if p c then runBack p text k else .ok (k + 1)
termination_by structural n => n

theorem take_succ_reverse {text : List Char} {k : Nat} (h : k < text.length) :
    (text.take (k + 1)).reverse = text[k] :: (text.take k).reverse := by
  rw [List.take_succ_eq_append_getElem h, List.reverse_append]
  rfl

/-- Inside the text a run back stops where the class ends. -/
theorem runBack_of_le (p : Char → Bool) {text : List Char} :
    ∀ {n : Nat}, n ≤ text.length → ∃ m ≤ n, runBack p text n = .ok m ∧
      (text.take n).reverse.dropWhile p = (text.take m).reverse ∧
      (text.take n).reverse.takeWhile p = (slice text m n).reverse
  | 0, _ => ⟨0, Nat.le_refl 0, rfl, by simp, by simp [slice]⟩
  | k + 1, h => by
      have hk : k < text.length := h
      rw [runBack, readAt_of_lt hk, take_succ_reverse hk]
      by_cases hp : p text[k] = true
      · obtain ⟨m, hm, hrun, hdrop, htake⟩ := runBack_of_le p (Nat.le_of_lt hk)
        refine ⟨m, by omega, ?_, ?_, ?_⟩
        · simp only [hp, if_true, hrun]
        · rw [List.dropWhile_cons_of_pos hp, hdrop]
        · rw [List.takeWhile_cons_of_pos hp, htake, slice_succ hm hk, List.reverse_append]
          rfl
      · refine ⟨k + 1, Nat.le_refl _, ?_, ?_, ?_⟩
        · simp only [hp]
          rfl
        · rw [List.dropWhile_cons_of_neg hp, take_succ_reverse hk]
        · rw [List.takeWhile_cons_of_neg hp, slice_of_le (Nat.le_refl _), List.reverse_nil]

theorem runBack_of_length_lt (p : Char → Bool) {text : List Char} {n : Nat}
    (h : text.length < n) : runBack p text n = .error .outsideText := by
  cases n with
  | zero => exact absurd h (Nat.not_lt_zero _)
  | succ k => rw [runBack, readAt_of_le (Nat.lt_succ_iff.mp h)]

/-- Step back over the line comment that ends the first `k` characters, if there
is one. -/
def commentBack (text : List Char) (k : Nat) : Except Fault Nat :=
  let line := ((text.take k).reverse.takeWhile (· ≠ '\n')).reverse
  match commentStart? {} line with
  | some n => runBack isBlank text (k - line.length + n)
  | none => .ok k

/-- Step back over the line comment in front of the white space between two
offsets, if that white space has a line break. -/
def gapBack (text : List Char) (code backtick : Nat) : Except Fault Nat :=
  if (slice text code backtick).contains '\n' then commentBack text code else .ok code

/-- Whether the back-tick at an offset opens a literal with markup. -/
def taggedAt (text : List Char) (backtick : Nat) : Except Fault Bool := do
  let blank ← runBack isBlank text backtick
  let code ← gapBack text blank backtick
  let start ← runBack isIdentifierChar text code
  .ok (slice text start code == markupIdentifier)

theorem commentStart?_le {p : QuoteParity} {line : List Char} {n : Nat}
    (h : commentStart? p line = some n) : n ≤ line.length := by
  fun_induction commentStart? p line generalizing n with
  | case1 p cs heven => cases h; exact Nat.zero_le _
  | case2 p cs heven ih =>
      obtain ⟨m, hm, rfl⟩ := Option.map_eq_some_iff.mp h
      have := ih hm
      simp only [List.length_cons]
      omega
  | case3 p c cs hne ih =>
      obtain ⟨m, hm, rfl⟩ := Option.map_eq_some_iff.mp h
      have := ih hm
      simp only [List.length_cons]
      omega
  | case4 p => cases h

/-- A comment at the end of some characters of the text is stepped over as the
library drops it. -/
theorem commentBack_of_le {text : List Char} {k : Nat} (h : k ≤ text.length) :
    ∃ m ≤ k, commentBack text k = .ok m ∧
      dropLineComment (text.take k).reverse = (text.take m).reverse := by
  simp only [commentBack, dropLineComment]
  have htake : (text.take k).length = k := by
    rw [List.length_take, Nat.min_eq_left h]
  have hline : (((text.take k).reverse.takeWhile (· ≠ '\n')).reverse).length ≤ k := by
    rw [List.length_reverse]
    refine Nat.le_trans (List.takeWhile_sublist _).length_le ?_
    exact Nat.le_of_eq (by rw [List.length_reverse, htake])
  generalize ((text.take k).reverse.takeWhile (· ≠ '\n')).reverse = line at hline
  cases hcomment : commentStart? {} line with
  | none => exact ⟨k, Nat.le_refl k, rfl, rfl⟩
  | some n =>
      have hn := commentStart?_le hcomment
      obtain ⟨m, hm, hrun, hdrop, _⟩ :=
        runBack_of_le isBlank (show k - line.length + n ≤ text.length by omega)
      refine ⟨m, by omega, hrun, ?_⟩
      have hback : (text.take k).reverse.drop (line.length - n)
          = (text.take (k - line.length + n)).reverse := by
        rw [List.drop_reverse, htake, List.take_take, Nat.min_eq_left (by omega)]
        congr 2
        omega
      show ((text.take k).reverse.drop (line.length - n)).dropWhile isBlank = _
      rw [hback, hdrop]

/-- The cursor sees what the library sees before a back-tick, and it leaves the
text exactly if the back-tick is behind the end. -/
theorem taggedAt_eq_tagged? (text : List Char) (backtick : Nat) :
    taggedAt text backtick
      = match tagged? text backtick with
        | some answer => .ok answer
        | none => .error .outsideText := by
  by_cases h : text.length < backtick
  · rw [taggedAt, runBack_of_length_lt _ h, tagged?, if_pos h]
    rfl
  · have h : backtick ≤ text.length := Nat.not_lt.mp h
    obtain ⟨k, hk, hblank, hdrop, htake⟩ := runBack_of_le isBlank h
    have hgap : (slice text k backtick).reverse.contains '\n'
        = (slice text k backtick).contains '\n' := by
      rw [Bool.eq_iff_iff]
      simp
    -- Both sides go on from the same number of characters.
    obtain ⟨m, hm, hcode, hrest⟩ : ∃ m ≤ k, gapBack text k backtick = .ok m ∧
        (if (slice text k backtick).contains '\n' then dropLineComment (text.take k).reverse
          else (text.take k).reverse) = (text.take m).reverse := by
      unfold gapBack
      split
      · exact commentBack_of_le (by omega)
      · exact ⟨k, Nat.le_refl k, rfl, rfl⟩
    obtain ⟨start, _, hident, _, hname⟩ :=
      runBack_of_le isIdentifierChar (show m ≤ text.length by omega)
    have hanswer : (slice text start m == markupIdentifier)
        = ((slice text start m).reverse == markupIdentifier.reverse) := by
      rw [Bool.eq_iff_iff]
      simp
    rw [tagged?, if_neg (by omega)]
    simp only [taggedAt, tagged, hblank, hdrop, htake, hgap, bind, Except.bind, hcode, hrest,
      hident, hname, hanswer]

theorem taggedAt_of_le {text : List Char} {backtick : Nat} (h : backtick ≤ text.length) :
    taggedAt text backtick = .ok (tagged (text.take backtick)) := by
  rw [taggedAt_eq_tagged?, tagged?, if_neg (by omega)]

end TagColoring
