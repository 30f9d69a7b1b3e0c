import Mathlib.Logic.Function.Iterate
import TagColoring.Proofs.TagCursor

/-!
# A reader that goes from mode to mode

The reader of `TagColoring.Proofs.TagCursor` passes over a comment at once.  An
editor may do it in two turns: one that sees where the comment opens and only
notes it, and one that looks for its end.  `Reader.turn` is one turn of such an
editor, with the mode it is in and the tags it has reported.

Every turn moves the cursor forward and not past the stop, and it keeps the tags
that were reported together with those that are ahead (`Reader.turn_spec`).  So the
editor comes to the stop after at most as many turns as there are characters, and
has then reported the tags of the window (`Reader.exists_turns`).
-/

namespace TagColoring

/-- What a reader is inside of. -/
inductive Mode where
  /-- Between tags. -/
  | markup
  | comment
  | doctype
deriving DecidableEq, Repr

/-- A reader of tags on its way through a text. -/
structure Reader where
  /-- The offset of its cursor. -/
  pos : Nat
  /-- What it is inside of. -/
  mode : Mode
  /-- The tags it has reported, the first one first. -/
  tags : List Tag
deriving DecidableEq, Repr

/-- The offset behind what starts at a bracket, and the tags to report for it.  A
bracket that nothing closes is passed over alone. -/
def tagsAtBracket (v : Vocabulary) (source : List Char) (stop lt : Nat) : Nat × List Tag :=
  match tagEnd source (lt + 1) stop with
  | .found last =>
      match Tag.ofSpan? v lt (slice source lt (last + 1)) with
      | none => (last + 1, [])
      | some t =>
          match t.closerAt v source (last + 1) stop with
          | none => (last + 1, [t])
          | some (start, next) =>
              (next, [t, Tag.ofRawCloser start t.name (slice source start next)])
  | _ => (lt + 1, [])

/-- One turn of a reader in front of a stop. -/
def Reader.turn (v : Vocabulary) (source : List Char) (stop : Nat) (r : Reader) : Reader :=
  match r.mode with
  | .comment => ⟨passAt source commentClose r.pos stop, .markup, r.tags⟩
  | .doctype => ⟨passAt source ['>'] r.pos stop, .markup, r.tags⟩
  | .markup =>
      match findAt source ['<'] r.pos stop with
      | none => ⟨stop, .markup, r.tags⟩
      | some lt =>
          if commentOpen.isPrefixOf (slice source lt stop) then ⟨lt + 4, .comment, r.tags⟩
          else if doctypeOpen.isPrefixOf (slice source lt stop) then ⟨lt + 9, .doctype, r.tags⟩
          else
            let found := tagsAtBracket v source stop lt
            ⟨found.1, .markup, r.tags ++ found.2⟩

/-- Where a reader will be between tags again. -/
def Reader.markupStart (source : List Char) (stop : Nat) (r : Reader) : Nat :=
  match r.mode with
  | .markup => r.pos
  | .comment => passAt source commentClose r.pos stop
  | .doctype => passAt source ['>'] r.pos stop

/-- The tags that are ahead of a reader. -/
def Reader.ahead (v : Vocabulary) (source : List Char) (stop : Nat) (r : Reader) : List Tag :=
  let start := r.markupStart source stop
  tagsOfWindow v start (slice source start stop)

section Turn

variable {v : Vocabulary} {source : List Char} {stop pos lt : Nat}

/-- What starts at a bracket ends behind the bracket and not behind the stop. -/
theorem tagsAtBracket_lt (v : Vocabulary) (source : List Char) (hlt : lt < stop) :
    lt < (tagsAtBracket v source stop lt).1 ∧ (tagsAtBracket v source stop lt).1 ≤ stop := by
  unfold tagsAtBracket
  split
  · next last hend =>
      have hlast := closeAt_lt (closeAt_of_found hend)
      split
      · exact ⟨by omega, hlast.2⟩
      · split
        · exact ⟨by omega, hlast.2⟩
        · next start next hcloser =>
            have hnext := Tag.closerAt_lt hcloser
            exact ⟨by omega, hnext.2.2⟩
  · exact ⟨Nat.lt_succ_self lt, hlt⟩

/-- Behind the next bracket, the reader with a cursor goes on where a turn goes on. -/
theorem tagsAt_bracket (hstop : stop ≤ source.length)
    (hfind : findAt source ['<'] pos stop = some lt)
    (hcomment : ¬ commentOpen.isPrefixOf (slice source lt stop) = true)
    (hdoctype : ¬ doctypeOpen.isPrefixOf (slice source lt stop) = true) :
    tagsAt v source stop pos
      = (tagsAt v source stop (tagsAtBracket v source stop lt).1).map
          ((tagsAtBracket v source stop lt).2 ++ ·) := by
  rw [tagsAt]
  split
  · next h => rw [hfind] at h; cases h
  · next lt' h =>
      cases hfind.symm.trans h
      have hlt := findAt_lt hfind
      rw [dif_neg hcomment, dif_neg hdoctype]
      split
      · next fault hclose =>
          rw [closeAt_of_limit_le hstop .tag (by omega)] at hclose
          cases hclose
      · next hclose =>
          have hend : tagEnd source (lt + 1) stop = .missing := by
            rw [tagEnd, lookup_of_closeAt hclose]
            rfl
          simp only [tagsAtBracket, hend]
          cases tagsAt v source stop (lt + 1) <;> rfl
      · next after hclose =>
          have hafter := closeAt_lt hclose
          have hend : tagEnd source (lt + 1) stop = .found (after - 1) := by
            rw [tagEnd, lookup_of_closeAt hclose]
            rfl
          simp only [tagsAtBracket, hend, Nat.sub_add_cancel (show 1 ≤ after by omega)]
          cases htag : Tag.ofSpan? v lt (slice source lt after) with
          | none => cases tagsAt v source stop after <;> rfl
          | some t =>
              simp only
              split
              · next hcloser => simp only [hcloser]; rfl
              · next start next hcloser => simp only [hcloser]; rfl

/-- A comment is passed over. -/
theorem tagsAt_comment (hfind : findAt source ['<'] pos stop = some lt)
    (hcomment : commentOpen.isPrefixOf (slice source lt stop) = true) :
    tagsAt v source stop pos
      = tagsAt v source stop (passAt source commentClose (lt + 4) stop) := by
  rw [tagsAt]
  split
  · next h => rw [hfind] at h; cases h
  · next lt' h =>
      cases hfind.symm.trans h
      rw [dif_pos hcomment]

theorem tagsAt_doctype (hfind : findAt source ['<'] pos stop = some lt)
    (hcomment : ¬ commentOpen.isPrefixOf (slice source lt stop) = true)
    (hdoctype : doctypeOpen.isPrefixOf (slice source lt stop) = true) :
    tagsAt v source stop pos = tagsAt v source stop (passAt source ['>'] (lt + 9) stop) := by
  rw [tagsAt]
  split
  · next h => rw [hfind] at h; cases h
  · next lt' h =>
      cases hfind.symm.trans h
      rw [dif_neg hcomment, dif_pos hdoctype]

/-- A search that starts in front of the stop goes on. -/
theorem lt_passAt {mark : List Char} (hmark : mark ≠ []) (hpos : pos < stop) :
    pos < passAt source mark pos stop := by
  unfold passAt
  split
  · next i hi =>
      have hi := (findAt_isPrefixOf hi).1
      have hlen := List.length_pos_iff.mpr hmark
      omega
  · exact hpos

theorem passAt_stop (source mark : List Char) {stop : Nat} (hmark : mark ≠ []) :
    passAt source mark stop stop = stop :=
  Nat.le_antisymm (passAt_le source hmark stop stop) (le_passAt source mark (Nat.le_refl stop))

/-- A turn moves the cursor forward and not past the stop, and no tag is lost or
reported twice. -/
theorem Reader.turn_spec (hstop : stop ≤ source.length) {r : Reader} (hpos : r.pos < stop) :
    r.pos < (r.turn v source stop).pos ∧ (r.turn v source stop).pos ≤ stop ∧
      (r.turn v source stop).tags ++ (r.turn v source stop).ahead v source stop
        = r.tags ++ r.ahead v source stop := by
  obtain ⟨pos, mode, tags⟩ := r
  cases mode with
  -- Inside a comment or a doctype, what is ahead starts where the turn ends.
  | comment => exact ⟨lt_passAt (by decide) hpos, passAt_le source (by decide) pos stop, rfl⟩
  | doctype => exact ⟨lt_passAt (by decide) hpos, passAt_le source (by decide) pos stop, rfl⟩
  | markup =>
      have hahead := tagsAt_eq v hstop pos
      simp only [Reader.turn]
      cases hfind : findAt source ['<'] pos stop with
      | none =>
          refine ⟨hpos, Nat.le_refl stop, ?_⟩
          simp only [Reader.ahead, Reader.markupStart, tagsOfWindow_find_none hfind,
            slice_of_le (Nat.le_refl stop), tagsOfWindow_nil]
      | some lt =>
          have hlt := findAt_lt hfind
          simp only
          split
          · next hcomment =>
              have hmark := length_le_of_isPrefixOf hcomment
              simp only [commentOpen, List.length_cons, List.length_nil] at hmark
              rw [tagsAt_comment hfind hcomment, tagsAt_eq v hstop] at hahead
              exact ⟨by simp only; omega, by simp only; omega,
                congrArg (tags ++ ·) (Except.ok.inj hahead)⟩
          · next hcomment =>
              split
              · next hdoctype =>
                  have hmark := length_le_of_isPrefixOf hdoctype
                  simp only [doctypeOpen, List.length_cons, List.length_nil] at hmark
                  rw [tagsAt_doctype hfind hcomment hdoctype, tagsAt_eq v hstop] at hahead
                  exact ⟨by simp only; omega, by simp only; omega,
                    congrArg (tags ++ ·) (Except.ok.inj hahead)⟩
              · next hdoctype =>
                  have hnext := tagsAtBracket_lt v source hlt.2
                  rw [tagsAt_bracket hstop hfind hcomment hdoctype, tagsAt_eq v hstop] at hahead
                  refine ⟨by simp only; omega, hnext.2, ?_⟩
                  simp only [List.append_assoc]
                  exact congrArg (tags ++ ·) (Except.ok.inj hahead)

end Turn

/-! ## The run -/

/-- At the stop nothing is ahead. -/
theorem Reader.ahead_of_stop {v : Vocabulary} {source : List Char} {stop : Nat} {r : Reader}
    (h : r.pos = stop) : r.ahead v source stop = [] := by
  have hstart : r.markupStart source stop = stop := by
    obtain ⟨pos, mode, tags⟩ := r
    subst h
    cases mode with
    | markup => rfl
    | comment => exact passAt_stop source commentClose (by decide)
    | doctype => exact passAt_stop source ['>'] (by decide)
  rw [Reader.ahead, hstart, slice_of_le (Nat.le_refl stop), tagsOfWindow_nil]

/-- A reader comes to the stop after at most as many turns as there are characters in
front of it.  It is in front of the stop until then, and all that was ahead of it has
been reported. -/
theorem Reader.exists_turns (v : Vocabulary) {source : List Char} {stop : Nat}
    (hstop : stop ≤ source.length) (r : Reader) (hpos : r.pos ≤ stop) :
    ∃ n ≤ stop - r.pos,
      (∀ k < n, ((Reader.turn v source stop)^[k] r).pos < stop) ∧
      ((Reader.turn v source stop)^[n] r).pos = stop ∧
      ((Reader.turn v source stop)^[n] r).tags = r.tags ++ r.ahead v source stop := by
  rcases Nat.eq_or_lt_of_le hpos with hpos | hpos
  · exact ⟨0, Nat.zero_le _, fun k hk => absurd hk (Nat.not_lt_zero k), hpos,
      by rw [Reader.ahead_of_stop hpos, List.append_nil]; rfl⟩
  · obtain ⟨hlt, hle, htags⟩ := Reader.turn_spec (v := v) hstop hpos
    obtain ⟨n, hn, hbefore, hlast, hall⟩ := Reader.exists_turns v hstop (r.turn v source stop) hle
    refine ⟨n + 1, by omega, fun k hk => ?_, hlast, hall.trans htags⟩
    cases k with
    | zero => exact hpos
    | succ k => exact hbefore k (by omega)
termination_by stop - r.pos

end TagColoring
