import TagColoring.Enclosure
import TagColoring.Tag.Head
import TagColoring.Tag.Vocabulary
import TagColoring.Text.Window

/-!
# Regions of markup

A window of markup splits from left to right into regions.

* A run of characters other than `<` is text.
* `<!--` starts a comment.  It goes through the next `-->` after these four
  characters, or to the end of the window.
* `<!DOCTYPE`, in this spelling, starts a doctype.  It goes through the next
  `>`, or to the end of the window.
* Any other `<` starts a bracketed span, which goes through the `>` that closes
  a tag (`Enclosure.tag`).  If nothing closes it, the `<` alone is a stray
  bracket.
* After a bracketed span that opens a raw text element comes its body, as far as
  the first `</` with the name of the element, and then the closer, through the
  next `>`.  If either is missing in the window, the body is split like any
  other markup.

Nothing fails: every window has a split.  `tile_chars` says that the regions put
together give the window back.
-/

namespace TagColoring

/-- What a region of markup is. -/
inductive RegionKind where
  /-- Characters between brackets. -/
  | text
  /-- A bracket that nothing closes. -/
  | stray
  | comment
  | doctype
  /-- A span from `<` through the `>` that closes it. -/
  | bracketed
  /-- The body of a raw text element. -/
  | rawBody
  /-- The closing tag of the raw text element with a name. -/
  | rawCloser (name : String)
deriving DecidableEq, Repr

/-- A region of markup. -/
structure Region where
  kind : RegionKind
  chars : List Char
deriving DecidableEq, Repr

/-- The text that starts a comment. -/
def commentOpen : List Char := ['<', '!', '-', '-']

/-- The text that ends a comment. -/
def commentClose : List Char := ['-', '-', '>']

/-- The text that starts a doctype. -/
def doctypeOpen : List Char := ['<', '!', 'D', 'O', 'C', 'T', 'Y', 'P', 'E']

/-- Split a window after the first occurrence of a mark, or at its end if the
mark does not occur. -/
def cutAfter (mark cs : List Char) : List Char × List Char :=
  match cutAt? mark cs with
  | some (before, rest) => (before ++ rest.take mark.length, rest.drop mark.length)
  | none => (cs, [])

theorem cutAfter_append (mark cs : List Char) :
    (cutAfter mark cs).1 ++ (cutAfter mark cs).2 = cs := by
  unfold cutAfter
  split
  · next h => simp [← cutAt?_append h]
  · simp

/-- Whether a bracketed span ends with a slash before its last bracket. -/
def endsSlashed (chars : List Char) : Bool := ['/', '>'].isSuffixOf chars

/-- The name of the raw text element that a bracketed span opens. -/
def rawTextName? (v : Vocabulary) (chars : List Char) : Option String :=
  match Head.read? chars with
  | some head =>
      if !head.slash && !endsSlashed chars && !v.void.contains head.key
          && v.rawText.contains head.key then some head.key
      else none
  | none => none

/-- The body of a raw text element, its closing tag, and what follows. -/
def rawText? (name : String) (cs : List Char) : Option (List Char × List Char × List Char) :=
  match cutAt? ('<' :: '/' :: name.toList) cs with
  | some (body, rest) =>
      match cutAt? ['>'] (rest.drop 2) with
      | some (inner, after) => some (body, rest.take 2 ++ inner ++ after.take 1, after.drop 1)
      | none => none
  | none => none

theorem rawText?_append {name : String} {cs body closer after : List Char}
    (h : rawText? name cs = some (body, closer, after)) : body ++ closer ++ after = cs := by
  unfold rawText? at h
  split at h
  · next body' rest h1 =>
      split at h
      · next inner after' h2 =>
          cases h
          have e1 := cutAt?_append h1
          have e2 := cutAt?_append h2
          rw [← e1]
          calc body ++ (rest.take 2 ++ inner ++ after'.take 1) ++ after'.drop 1
              = body ++ (rest.take 2 ++ (inner ++ (after'.take 1 ++ after'.drop 1))) := by
                simp only [List.append_assoc]
            _ = body ++ rest := by rw [List.take_append_drop, e2, List.take_append_drop]
      · cases h
  · cases h

/-- The regions at the start of a window with a first character, and the rest of
the window.  There is more than one if the first opens a raw text element. -/
def firstRegions (v : Vocabulary) (c : Char) (cs : List Char) : List Region × List Char :=
  if c ≠ '<' then
    ([⟨.text, c :: cs.takeWhile (· ≠ '<')⟩], cs.dropWhile (· ≠ '<'))
  else if commentOpen.isPrefixOf (c :: cs) then
    let cut := cutAfter commentClose (cs.drop 3)
    ([⟨.comment, c :: (cs.take 3 ++ cut.1)⟩], cut.2)
  else if doctypeOpen.isPrefixOf (c :: cs) then
    let cut := cutAfter ['>'] (cs.drop 8)
    ([⟨.doctype, c :: (cs.take 8 ++ cut.1)⟩], cut.2)
  else
    match Enclosure.tag.close cs with
    | .closed rest =>
        let chars := c :: cs.take (cs.length - rest.length)
        match (rawTextName? v chars).bind fun name =>
            (rawText? name rest).map fun parts => (name, parts) with
        | some (name, body, closer, after) =>
            ([⟨.bracketed, chars⟩, ⟨.rawBody, body⟩, ⟨.rawCloser name, closer⟩], after)
        | none => ([⟨.bracketed, chars⟩], rest)
    | _ => ([⟨.stray, [c]⟩], cs)

/-- The characters of a list of regions. -/
def regionChars (regions : List Region) : List Char := regions.flatMap Region.chars

/-- The first regions and the rest give the window back. -/
theorem firstRegions_chars (v : Vocabulary) (c : Char) (cs : List Char) :
    regionChars (firstRegions v c cs).1 ++ (firstRegions v c cs).2 = c :: cs := by
  unfold firstRegions
  split
  · simp [regionChars, List.takeWhile_append_dropWhile]
  · split
    · simp [regionChars, List.append_assoc, cutAfter_append]
    · split
      · simp [regionChars, List.append_assoc, cutAfter_append]
      · split
        · next rest h =>
            obtain ⟨body, _, rfl⟩ := closeIn_suffix h
            simp only
            split
            · next name raw closer after hraw =>
                obtain ⟨n, _, hp⟩ := Option.bind_eq_some_iff.mp hraw
                obtain ⟨parts, hparts, heq⟩ := Option.map_eq_some_iff.mp hp
                cases heq
                have := rawText?_append hparts
                simp [regionChars, ← this, List.append_assoc]
            · simp [regionChars]
        · simp [regionChars]

/-- The first region is not empty. -/
theorem firstRegions_length (v : Vocabulary) (c : Char) (cs : List Char) :
    (firstRegions v c cs).2.length < (c :: cs).length := by
  have h := congrArg List.length (firstRegions_chars v c cs)
  have hpos : 0 < (regionChars (firstRegions v c cs).1).length := by
    unfold firstRegions
    split
    · simp [regionChars]
    · split
      · simp [regionChars]
      · split
        · simp [regionChars]
        · split
          · simp only
            split <;> simp [regionChars]
          · simp [regionChars]
  rw [List.length_append] at h
  omega

/-- The regions of a window. -/
def tile (v : Vocabulary) (window : List Char) : List Region :=
  match window with
  | [] => []
  | c :: cs =>
      let first := firstRegions v c cs
      first.1 ++ tile v first.2
termination_by window.length
decreasing_by exact firstRegions_length v c cs

/-- The regions of a window give the window back. -/
theorem tile_chars (v : Vocabulary) (window : List Char) :
    regionChars (tile v window) = window := by
  fun_induction tile v window with
  | case1 => rfl
  | case2 c cs first ih =>
      rw [regionChars, List.flatMap_append]
      simp only [regionChars] at ih
      rw [ih]
      exact firstRegions_chars v c cs

end TagColoring
