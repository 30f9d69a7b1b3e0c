import TagColoring.Proofs.Cursor
import TagColoring.Proofs.Reading

/-!
# Reading tags with a cursor

The tags of a window come from its split into regions.  An editor reads them
from the whole text instead.  It keeps a cursor and a stop, and every search it
starts goes through the text around the segment as well unless the search itself
respects the stop.  `tagsAt` is that reader.

* It jumps to the next `<` in front of the stop.
* A comment or a doctype is passed over, to the stop if it does not end.
* Any other bracket is closed by a cursor (`closeAt`).  If that fails, the
  bracket is text.
* Behind a tag that opens a raw text element it jumps to the closer, if there is
  one in front of the stop.

`tagsAt_eq` says that the reader sees the window between the cursor and the stop
and nothing else, and that it never leaves the text.
-/

namespace TagColoring

/-! ## Searches that respect a stop -/

/-- The offset behind the first occurrence of a mark in front of the stop, or the
stop if there is none. -/
def passAt (text mark : List Char) (start stop : Nat) : Nat :=
  match findAt text mark start stop with
  | some i => i + mark.length
  | none => stop

theorem passAt_le (text : List Char) {mark : List Char} (hmark : mark ≠ []) (start stop : Nat) :
    passAt text mark start stop ≤ stop := by
  unfold passAt
  split
  · next i h =>
      have := findAt_le h
      have := List.length_pos_iff.mpr hmark
      omega
  · exact Nat.le_refl stop

theorem le_passAt (text mark : List Char) {start stop : Nat} (h : start ≤ stop) :
    start ≤ passAt text mark start stop := by
  unfold passAt
  split
  · next i hi =>
      have := (findAt_isPrefixOf hi).1
      omega
  · exact h

/-- A mark at the start of a slice ends in front of the stop. -/
theorem length_le_of_isPrefixOf {text mark : List Char} {start stop : Nat}
    (h : mark.isPrefixOf (slice text start stop) = true) : mark.length ≤ stop - start :=
  Nat.le_trans (List.isPrefixOf_iff_prefix.mp h).length_le (length_slice_le text start stop)

theorem cutAfter_slice (text mark : List Char) (start stop : Nat) :
    (cutAfter mark (slice text start stop)).2 = slice text (passAt text mark start stop) stop := by
  rw [cutAfter, cutAt?_slice, passAt]
  cases findAt text mark start stop with
  | none => exact (slice_of_le (Nat.le_refl stop)).symm
  | some i => exact drop_slice text i stop mark.length

/-- Where the closer of a raw text element starts, and the offset behind it. -/
def rawCloserAt (text : List Char) (name : String) (pos stop : Nat) : Option (Nat × Nat) :=
  (findAt text ('<' :: '/' :: name.toList) pos stop).bind fun start =>
    (findAt text ['>'] (start + 2) stop).map fun last => (start, last + 1)

theorem rawCloserAt_lt {text : List Char} {name : String} {pos stop start next : Nat}
    (h : rawCloserAt text name pos stop = some (start, next)) :
    pos ≤ start ∧ start + 2 < next ∧ next ≤ stop := by
  obtain ⟨i, hi, hmap⟩ := Option.bind_eq_some_iff.mp h
  obtain ⟨last, hlast, heq⟩ := Option.map_eq_some_iff.mp hmap
  cases heq
  have hstart := (findAt_isPrefixOf hi).1
  have hnext := findAt_lt hlast
  omega

/-- The parts of a raw text element are those between its offsets. -/
theorem rawText?_slice (text : List Char) (name : String) (pos stop : Nat) :
    rawText? name (slice text pos stop)
      = (rawCloserAt text name pos stop).map fun found =>
          (slice text pos found.1, slice text found.1 found.2, slice text found.2 stop) := by
  rw [rawText?, cutAt?_slice, rawCloserAt]
  cases findAt text ('<' :: '/' :: name.toList) pos stop with
  | none => rfl
  | some start =>
      simp only [Option.map_some, Option.bind_some, drop_slice, cutAt?_slice]
      cases hlast : findAt text ['>'] (start + 2) stop with
      | none => rfl
      | some last =>
          have hle := findAt_lt hlast
          have hcloser : (slice text start stop).take 2 ++ slice text (start + 2) last
              ++ (slice text last stop).take 1 = slice text start (last + 1) := by
            rw [take_slice, take_slice, Nat.min_eq_left (by omega), Nat.min_eq_left (by omega),
              slice_append text (by omega) hle.1, slice_append text (by omega) (by omega)]
          simp only [Option.map_some, hcloser, drop_slice]

/-- The closer behind a tag, if the tag opens a raw text element. -/
def Tag.closerAt (v : Vocabulary) (text : List Char) (t : Tag) (pos stop : Nat) :
    Option (Nat × Nat) :=
  if t.closing || t.selfClosing || !v.rawText.contains t.name then none
  else rawCloserAt text t.name pos stop

theorem Tag.closerAt_lt {v : Vocabulary} {text : List Char} {t : Tag} {pos stop start next : Nat}
    (h : t.closerAt v text pos stop = some (start, next)) :
    pos ≤ start ∧ start + 2 < next ∧ next ≤ stop := by
  unfold Tag.closerAt at h
  split at h
  · cases h
  · exact rawCloserAt_lt h

theorem rawTextName?_of_tag {v : Vocabulary} {start : Nat} {chars : List Char} {t : Tag}
    (h : Tag.ofSpan? v start chars = some t) :
    rawTextName? v chars
      = if t.closing || t.selfClosing || !v.rawText.contains t.name then none
        else some t.name := by
  obtain ⟨head, hhead, rfl⟩ := Option.map_eq_some_iff.mp h
  simp only [rawTextName?, hhead, Tag.selfClosing]
  cases head.slash <;> cases endsSlashed chars <;> cases v.void.contains head.key <;>
    cases v.rawText.contains head.key <;> rfl

/-! ## The reader -/

/-- The tags of a text from a cursor up to a stop. -/
def tagsAt (v : Vocabulary) (text : List Char) (stop pos : Nat) : Except Fault (List Tag) :=
  match hlt : findAt text ['<'] pos stop with
  | none => .ok []
  | some lt =>
      have : pos ≤ lt ∧ lt < stop := findAt_lt hlt
      if hcomment : commentOpen.isPrefixOf (slice text lt stop) then
        tagsAt v text stop (passAt text commentClose (lt + 4) stop)
      else if hdoctype : doctypeOpen.isPrefixOf (slice text lt stop) then
        tagsAt v text stop (passAt text ['>'] (lt + 9) stop)
      else
        match hclose : closeAt text stop .tag [] (lt + 1) with
        | .error fault => .error fault
        | .ok none => tagsAt v text stop (lt + 1)
        | .ok (some after) =>
            have : lt + 1 < after ∧ after ≤ stop := closeAt_lt hclose
            match Tag.ofSpan? v lt (slice text lt after) with
            | none => tagsAt v text stop after
            | some t =>
                match hcloser : t.closerAt v text after stop with
                | none => (tagsAt v text stop after).map (t :: ·)
                | some (start, next) =>
                    have : after ≤ start ∧ start + 2 < next ∧ next ≤ stop :=
                      Tag.closerAt_lt hcloser
                    (tagsAt v text stop next).map
                      (t :: Tag.ofRawCloser start t.name (slice text start next) :: ·)
termination_by stop - pos
decreasing_by
  · have hmark := length_le_of_isPrefixOf hcomment
    simp only [commentOpen, List.length_cons, List.length_nil] at hmark
    have := le_passAt text commentClose (show lt + 4 ≤ stop by omega)
    omega
  · have hmark := length_le_of_isPrefixOf hdoctype
    simp only [doctypeOpen, List.length_cons, List.length_nil] at hmark
    have := le_passAt text ['>'] (show lt + 9 ≤ stop by omega)
    omega
  all_goals omega

/-! ## The reader sees its window -/

section Window

variable {v : Vocabulary} {text : List Char} {stop pos lt next : Nat}

/-- Up to the next bracket there are no tags. -/
theorem tagsOfWindow_find (v : Vocabulary) (hfind : findAt text ['<'] pos stop = some lt) :
    tagsOfWindow v pos (slice text pos stop) = tagsOfWindow v lt (slice text lt stop) := by
  have hcut := cutAt?_slice text ['<'] pos stop
  rw [hfind] at hcut
  rw [← cutAt?_append hcut, tagsOfWindow_text v _ pos _ (not_mem_before hcut),
    findAt_length hfind]

theorem tagsOfWindow_find_none (hfind : findAt text ['<'] pos stop = none) :
    tagsOfWindow v pos (slice text pos stop) = [] := by
  have hcut : cutAt? ['<'] (slice text pos stop) = none := Option.map_eq_none_iff.mp hfind
  have htext := tagsOfWindow_text v [] pos _ (not_mem_of_cutAt?_none hcut)
  rwa [List.append_nil, tagsOfWindow_nil] at htext

/-- Behind the first regions of a slice comes the slice from there on. -/
theorem tagsOfWindow_next (hstop : stop ≤ text.length) (hlt : lt < stop) (hnext : next ≤ stop)
    (hopen : readAt text lt = .ok '<')
    (hrest : (firstRegions v '<' (slice text (lt + 1) stop)).2 = slice text next stop) :
    tagsOfWindow v lt (slice text lt stop)
      = tagsOfRegions v lt (firstRegions v '<' (slice text (lt + 1) stop)).1
        ++ tagsOfWindow v next (slice text next stop) := by
  have hchars := firstRegions_chars v '<' (slice text (lt + 1) stop)
  rw [← slice_of_readAt hlt hopen] at hchars
  have hlen := congrArg List.length hchars
  rw [List.length_append, length_slice] at hlen
  have hoffset := (slice_of_append hchars).2
  rw [hrest] at hoffset
  rw [slice_of_readAt hlt hopen, tagsOfWindow_cons, hrest,
    slice_start_inj hstop hnext (show lt + _ ≤ stop by omega) hoffset]

theorem firstRegions_comment (v : Vocabulary) {cs : List Char}
    (h : commentOpen.isPrefixOf ('<' :: cs) = true) :
    ∃ chars, firstRegions v '<' cs
      = ([⟨.comment, chars⟩], (cutAfter commentClose (cs.drop 3)).2) := by
  rw [firstRegions, if_neg (by decide), if_pos h]
  exact ⟨_, rfl⟩

theorem firstRegions_doctype (v : Vocabulary) {cs : List Char}
    (hcomment : ¬ commentOpen.isPrefixOf ('<' :: cs) = true)
    (h : doctypeOpen.isPrefixOf ('<' :: cs) = true) :
    ∃ chars, firstRegions v '<' cs = ([⟨.doctype, chars⟩], (cutAfter ['>'] (cs.drop 8)).2) := by
  rw [firstRegions, if_neg (by decide), if_neg hcomment, if_pos h]
  exact ⟨_, rfl⟩

theorem firstRegions_stray (v : Vocabulary) {cs : List Char}
    (hcomment : ¬ commentOpen.isPrefixOf ('<' :: cs) = true)
    (hdoctype : ¬ doctypeOpen.isPrefixOf ('<' :: cs) = true)
    (h : ∀ rest, Enclosure.tag.close cs ≠ .closed rest) :
    firstRegions v '<' cs = ([⟨.stray, ['<']⟩], cs) := by
  rw [firstRegions, if_neg (by decide), if_neg hcomment, if_neg hdoctype]
  split
  · next rest hclose => exact absurd hclose (h rest)
  · rfl

/-- A slice that closes has the regions of its span and of a raw text element
behind it. -/
theorem firstRegions_after {after : Nat}
    (hopen : readAt text lt = .ok '<') (hlt : lt < after) (hafter : after ≤ stop)
    (hcomment : ¬ commentOpen.isPrefixOf (slice text lt stop) = true)
    (hdoctype : ¬ doctypeOpen.isPrefixOf (slice text lt stop) = true)
    (hclose : Enclosure.tag.close (slice text (lt + 1) stop) = .closed (slice text after stop))
    (raw : Option (String × List Char × List Char × List Char))
    (hraw : ((rawTextName? v (slice text lt after)).bind fun name =>
      (rawText? name (slice text after stop)).map fun parts => (name, parts)) = raw) :
    firstRegions v '<' (slice text (lt + 1) stop)
      = (⟨.bracketed, slice text lt after⟩
          :: (raw.toList.flatMap fun (name, body, closer, _) =>
            [⟨.rawBody, body⟩, ⟨.rawCloser name, closer⟩]),
        raw.elim (slice text after stop) fun (_, _, _, rest) => rest) := by
  have hspan := slice_of_readAt hlt hopen
  have hsplit := slice_append text hlt hafter
  rw [slice_of_readAt (by omega) hopen, ← hsplit] at hcomment hdoctype
  rw [← hsplit] at hclose
  rw [hspan] at hraw
  rw [← hsplit, firstRegions_closed v hcomment hdoctype hclose raw hraw, hspan]

/-- The raw text element that a tag opens is the one whose closer the cursor
finds. -/
theorem rawText?_of_tag {start after : Nat} {chars : List Char} {t : Tag}
    (h : Tag.ofSpan? v start chars = some t) :
    ((rawTextName? v chars).bind fun name =>
        (rawText? name (slice text after stop)).map fun parts => (name, parts))
      = (t.closerAt v text after stop).map fun found =>
          (t.name, slice text after found.1, slice text found.1 found.2,
            slice text found.2 stop) := by
  rw [rawTextName?_of_tag h, Tag.closerAt]
  split
  · rfl
  · rw [Option.bind_some, rawText?_slice, Option.map_map]
    rfl

end Window

/-- In front of a stop inside the text, the reader sees the tags of the window
between its cursor and the stop, and it never leaves the text. -/
theorem tagsAt_eq (v : Vocabulary) {text : List Char} {stop : Nat} (hstop : stop ≤ text.length)
    (pos : Nat) : tagsAt v text stop pos = .ok (tagsOfWindow v pos (slice text pos stop)) := by
  fun_induction tagsAt v text stop pos with
  | case1 pos hfind => rw [tagsOfWindow_find_none hfind]
  | case2 pos lt hfind hlt hcomment ih =>
      have hopen := readAt_of_findAt hfind
      rw [slice_of_readAt hlt.2 hopen] at hcomment
      obtain ⟨chars, hfirst⟩ := firstRegions_comment v hcomment
      have hrest := congrArg Prod.snd hfirst
      rw [drop_slice, cutAfter_slice] at hrest
      rw [ih, tagsOfWindow_find v hfind,
        tagsOfWindow_next hstop hlt.2 (passAt_le text (by decide) _ stop) hopen hrest, hfirst]
      rfl
  | case3 pos lt hfind hlt hcomment hdoctype ih =>
      have hopen := readAt_of_findAt hfind
      rw [slice_of_readAt hlt.2 hopen] at hcomment hdoctype
      obtain ⟨chars, hfirst⟩ := firstRegions_doctype v hcomment hdoctype
      have hrest := congrArg Prod.snd hfirst
      rw [drop_slice, cutAfter_slice] at hrest
      rw [ih, tagsOfWindow_find v hfind,
        tagsOfWindow_next hstop hlt.2 (passAt_le text (by decide) _ stop) hopen hrest, hfirst]
      rfl
  | case4 pos lt hfind hlt hcomment hdoctype fault hclose =>
      rw [closeAt_of_limit_le hstop .tag (by omega)] at hclose
      cases hclose
  | case5 pos lt hfind hlt hcomment hdoctype hclose ih =>
      have hopen := readAt_of_findAt hfind
      rw [slice_of_readAt hlt.2 hopen] at hcomment hdoctype
      have hfirst := firstRegions_stray v hcomment hdoctype
        (not_close_of_closeAt hstop (by omega) hclose)
      rw [ih, tagsOfWindow_find v hfind,
        tagsOfWindow_next hstop hlt.2 hlt.2 hopen (congrArg Prod.snd hfirst), hfirst]
      rfl
  | case6 pos lt hfind hlt hcomment hdoctype after hclose hafter htag ih =>
      have hopen := readAt_of_findAt hfind
      have hname : rawTextName? v (slice text lt after) = none := by
        rw [rawTextName?, Option.map_eq_none_iff.mp htag]
      have hfirst := firstRegions_after hopen (by omega) hafter.2 hcomment hdoctype
        (close_of_closeAt hstop hclose) none (by rw [hname]; rfl)
      rw [ih, tagsOfWindow_find v hfind,
        tagsOfWindow_next hstop hlt.2 hafter.2 hopen (congrArg Prod.snd hfirst), hfirst]
      simp [tagsOfRegions, Region.tag?, htag]
  | case7 pos lt hfind hlt hcomment hdoctype after hclose hafter t htag hcloser ih =>
      have hopen := readAt_of_findAt hfind
      have hfirst := firstRegions_after hopen (by omega) hafter.2 hcomment hdoctype
        (close_of_closeAt hstop hclose) none (by rw [rawText?_of_tag htag, hcloser]; rfl)
      rw [ih, tagsOfWindow_find v hfind,
        tagsOfWindow_next hstop hlt.2 hafter.2 hopen (congrArg Prod.snd hfirst), hfirst]
      simp [tagsOfRegions, Region.tag?, htag, Except.map]
  | case8 pos lt hfind hlt hcomment hdoctype after hclose hafter t htag start next hcloser hnext
      ih =>
      have hopen := readAt_of_findAt hfind
      have hfirst := firstRegions_after hopen (by omega) hafter.2 hcomment hdoctype
        (close_of_closeAt hstop hclose)
        (some (t.name, slice text after start, slice text start next, slice text next stop))
        (by rw [rawText?_of_tag htag, hcloser]; rfl)
      have hstart : lt + (slice text lt after).length + (slice text after start).length
          = start := by
        rw [length_slice, length_slice]
        omega
      rw [ih, tagsOfWindow_find v hfind,
        tagsOfWindow_next hstop hlt.2 hnext.2.2 hopen (congrArg Prod.snd hfirst), hfirst]
      simp [tagsOfRegions, Region.tag?, htag, Except.map, hstart]

/-- Read the tags of a segment of a text.  A segment that goes past the text stops
with it. -/
def Range.readTags (v : Vocabulary) (text : List Char) (segment : Range) :
    Except Fault (List Tag) :=
  tagsAt v text (min segment.stop text.length) segment.start

/-- Reading a segment gives the tags of the library and never faults. -/
theorem Range.readTags_eq (v : Vocabulary) (text : List Char) (segment : Range) :
    segment.readTags v text = .ok (tagsBetween v text segment.start segment.stop) := by
  rw [readTags, tagsAt_eq v (Nat.min_le_right _ _), slice_min_length]
  rfl

end TagColoring
