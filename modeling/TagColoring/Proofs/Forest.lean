import Mathlib.Algebra.GroupWithZero.Nat
import TagColoring.Proofs.Reading
import TagColoring.Proofs.Rotation
import TagColoring.Settings

/-!
# Documents that are written and colored

A *forest* is a document before it is written: text, comments, elements with
content, and three sorts of elements without markup in them.  The types carry
the rules of a well-formed document.  A name is a name of the library,
attributes are passed over whole by the scan for the end of a tag, text has no
bracket in it, and so on.  So every value of `Forest v` can be written, and it
is read back in the vocabulary `v`.

* `Forest.render` writes a forest.
* `Forest.tags` lists the tags of a written forest, with their offsets, from
  the tree alone.
* `Forest.colors` lists their colors.  The color of a tag depends on the color
  of its parent and on the number of tags opened in the parent before it, in
  the closed form of `siblingColor`.  The two tags of an element have one color.

Nothing in these three looks at a scanner or at a state.  The main statement
`coloredTags_render` says that coloring a written forest gives exactly these
tags with these colors.
-/

namespace TagColoring

/-! ## Forests -/

/-- The name of an element, as it is spelled. -/
structure ElementName where
  chars : List Char
  isName : IsName chars

/-- The name in lower case. -/
def ElementName.key (n : ElementName) : String := String.ofList (n.chars.map Char.toLower)

/-- The attributes of a tag, as they are spelled.  They are empty or start with
white space, and a scan that starts in front of them ends at the bracket behind
them. -/
structure Attributes where
  chars : List Char
  blank : chars.head?.all isBlank = true
  passed : tagEnd (chars ++ ['>']) 0 (chars.length + 1) = .found chars.length

/-- The attributes do not end with a slash. -/
def Attributes.Unslashed (a : Attributes) : Prop := a.chars.getLast? ≠ some '/'

/-- A node of a document in a vocabulary. -/
inductive Node (v : Vocabulary) where
  | text (chars : List Char) (plain : '<' ∉ chars)
  | comment (body : List Char) (plain : ¬ commentClose <:+: body)
  /-- An element with content.  Its two names may differ in case. -/
  | element (name : ElementName) (attrs : Attributes) (children : List (Node v))
      (closer : ElementName) (unslashed : attrs.Unslashed) (same : closer.key = name.key)
      (notVoid : v.void.contains name.key = false)
      (notRaw : v.rawText.contains name.key = false)
  /-- An element that never has content. -/
  | void (name : ElementName) (attrs : Attributes) (unslashed : attrs.Unslashed)
      (isVoid : v.void.contains name.key = true)
  /-- An element that is written with a slash in place of its content. -/
  | selfClosing (name : ElementName) (attrs : Attributes)
  /-- An element whose content is not markup.  It is closed in lower case. -/
  | rawText (name : ElementName) (attrs : Attributes) (body : List Char)
      (unslashed : attrs.Unslashed) (notVoid : v.void.contains name.key = false)
      (isRaw : v.rawText.contains name.key = true)
      (plain : ¬ ('<' :: '/' :: name.key.toList) <:+: body)

/-- A document in a vocabulary. -/
abbrev Forest (v : Vocabulary) := List (Node v)

/-! ## The text of a forest -/

/-- The text of a tag that opens an element. -/
def openerText (name attrs : List Char) : List Char := '<' :: (name ++ (attrs ++ ['>']))

/-- The text of a tag that opens an element and ends it. -/
def slashedText (name attrs : List Char) : List Char := '<' :: (name ++ (attrs ++ ['/', '>']))

/-- The text of a tag that closes an element. -/
def closerText (name : List Char) : List Char := '<' :: '/' :: (name ++ ['>'])

mutual

/-- The text of a node. -/
def Node.render {v : Vocabulary} : Node v → List Char
  | .text chars _ => chars
  | .comment body _ => commentOpen ++ (body ++ commentClose)
  | .element name attrs children closer _ _ _ _ =>
      openerText name.chars attrs.chars ++ (Forest.render children ++ closerText closer.chars)
  | .void name attrs _ _ => openerText name.chars attrs.chars
  | .selfClosing name attrs => slashedText name.chars attrs.chars
  | .rawText name attrs body _ _ _ _ =>
      openerText name.chars attrs.chars ++ (body ++ closerText name.key.toList)

/-- The text of a forest. -/
def Forest.render {v : Vocabulary} : List (Node v) → List Char
  | [] => []
  | n :: ns => n.render ++ Forest.render ns

end

/-! ## The tags and the colors of a forest -/

mutual

/-- The tags of a node that is written at an offset. -/
def Node.tags {v : Vocabulary} (start : Nat) : Node v → List Tag
  | .text _ _ => []
  | .comment _ _ => []
  | .element name attrs children closer _ _ _ _ =>
      let inside := start + (openerText name.chars attrs.chars).length
      ⟨start, openerText name.chars attrs.chars, name.key, false, false, false⟩
        :: (Forest.tags inside children
          ++ [⟨inside + (Forest.render children).length, closerText closer.chars, name.key,
            true, false, false⟩])
  | .void name attrs _ _ =>
      [⟨start, openerText name.chars attrs.chars, name.key, false, false, true⟩]
  | .selfClosing name attrs =>
      [⟨start, slashedText name.chars attrs.chars, name.key, false, true,
        v.void.contains name.key⟩]
  | .rawText name attrs body _ _ _ _ =>
      [⟨start, openerText name.chars attrs.chars, name.key, false, false, false⟩,
        ⟨start + (openerText name.chars attrs.chars).length + body.length,
          closerText name.key.toList, name.key, true, false, false⟩]

/-- The tags of a forest that is written at an offset. -/
def Forest.tags {v : Vocabulary} (start : Nat) : List (Node v) → List Tag
  | [] => []
  | n :: ns => n.tags start ++ Forest.tags (start + n.render.length) ns

end

/-- The number of tags that a node opens in its parent. -/
def Node.openers {v : Vocabulary} : Node v → Nat
  | .text _ _ => 0
  | .comment _ _ => 0
  | _ => 1

mutual

/-- The colors of the tags of a node, for a palette of a size, in a parent in
which some tags were opened before. -/
def Node.colors {v : Vocabulary} (size : Nat) (parent : Option Nat) (before : Nat) :
    Node v → List Nat
  | .text _ _ => []
  | .comment _ _ => []
  | .element _ _ children _ _ _ _ _ =>
      let color := Rotation.siblingColor size parent before
      color :: (Forest.colors size (some color) 0 children ++ [color])
  | .void _ _ _ _ => [Rotation.siblingColor size parent before]
  | .selfClosing _ _ => [Rotation.siblingColor size parent before]
  | .rawText _ _ _ _ _ _ _ =>
      [Rotation.siblingColor size parent before, Rotation.siblingColor size parent before]

/-- The colors of the tags of a forest. -/
def Forest.colors {v : Vocabulary} (size : Nat) (parent : Option Nat) (before : Nat) :
    List (Node v) → List Nat
  | [] => []
  | n :: ns =>
      n.colors size parent before ++ Forest.colors size parent (before + n.openers) ns

end

/-! ## Tags that are written are read -/

theorem ElementName.key_toList (n : ElementName) : n.key.toList = n.chars.map Char.toLower := by
  rw [ElementName.key, String.toList_ofList]

theorem ElementName.isName_key (n : ElementName) : IsName n.key.toList := by
  rw [n.key_toList]
  exact n.isName.toLower

theorem Attributes.endsName (a : Attributes) {rest : List Char} (h : EndsName rest) :
    EndsName (a.chars ++ rest) := by
  have hblank := a.blank
  cases ha : a.chars with
  | nil => exact h
  | cons c cs =>
      have hc : isBlank c = true := by simpa [ha] using hblank
      simpa [EndsName] using isNameChar_of_isBlank hc

/-- The scan goes through the attributes and stops at the bracket behind them. -/
theorem Attributes.close (a : Attributes) :
    Enclosure.tag.close (a.chars ++ ['>']) = .closed [] := by
  have h := a.passed
  have hwindow : slice (a.chars ++ ['>']) 0 (a.chars.length + 1) = a.chars ++ ['>'] :=
    List.take_of_length_le (Nat.le_of_eq List.length_append)
  simp only [tagEnd, Enclosure.lookup] at h
  rw [if_neg (by omega)] at h
  simp only [Int.toNat_natCast_add_one, hwindow] at h
  split at h
  · next rest hrest =>
      have hlt := Enclosure.close_length hrest
      have hlen : rest.length = 0 := by
        simp only [Lookup.map, Lookup.found.injEq, List.length_append, List.length_singleton]
          at h hlt
        omega
      rw [hrest, List.eq_nil_of_length_eq_zero hlen]
  · split at h <;> cases h
  · split at h <;> cases h

/-- In front of attributes and a tail that stays in the tag, a name is passed
over and the tag goes on behind them. -/
theorem tag_close_attributes (n : ElementName) (a : Attributes) {tail : List Char}
    (htail : tail.head? ≠ some '\x7b') :
    Enclosure.tag.close (n.chars ++ (a.chars ++ tail)) = Enclosure.tag.close tail := by
  have hname : ∀ c ∈ n.chars, Enclosure.tag.move c = .stay :=
    fun c hc => tag_move_isNameChar (n.isName.2 c hc)
  obtain ⟨body, c, hbody, _, hrest⟩ := closeIn_closed a.close
  have hchars : a.chars = body := (List.append_inj' hbody rfl).1
  rw [Enclosure.close, closeIn_stay hname, hchars]
  exact hrest tail htail

theorem endsSlashed_openerText (n : ElementName) {a : Attributes} (h : a.Unslashed) :
    endsSlashed (openerText n.chars a.chars) = false := by
  cases ha : a.chars with
  | nil =>
      show endsSlashed (['<'] ++ (n.chars ++ ['>'])) = false
      exact endsSlashed_name n.isName
  | cons c cs =>
      have hne : c :: cs ≠ [] := List.cons_ne_nil c cs
      rw [openerText, ← Bool.not_eq_true, ← List.append_assoc, ← List.cons_append,
        endsSlashed_append, List.getLast?_cons_of_ne_nil (by simp),
        List.getLast?_append_of_ne_nil _ hne, ← ha]
      exact h

section Written

variable (v : Vocabulary) (start : Nat) (n : ElementName) (a : Attributes) (rest : List Char)

theorem read_openerText : Head.read? (openerText n.chars a.chars) = some ⟨false, [], n.chars⟩ :=
  Head.read?_written n.isName (a.endsName (by decide)) false

theorem read_slashedText :
    Head.read? (slashedText n.chars a.chars) = some ⟨false, [], n.chars⟩ :=
  Head.read?_written n.isName (a.endsName (by decide)) false

theorem read_closerText : Head.read? (closerText n.chars) = some ⟨true, [], n.chars⟩ :=
  Head.read?_written n.isName (by decide) true

theorem close_openerText :
    Enclosure.tag.close ((n.chars ++ (a.chars ++ ['>'])) ++ rest) = .closed rest := by
  rw [List.append_assoc, List.append_assoc, tag_close_attributes n a (by simp)]
  exact closeIn_of_leave (by decide)

theorem close_slashedText :
    Enclosure.tag.close ((n.chars ++ (a.chars ++ ['/', '>'])) ++ rest) = .closed rest := by
  rw [List.append_assoc, List.append_assoc, tag_close_attributes n a (by simp)]
  show closeIn .tag [] ('/' :: '>' :: rest) = .closed rest
  rw [closeIn_of_stay (by decide), closeIn_of_leave (by decide)]

theorem close_closerText :
    Enclosure.tag.close (('/' :: (n.chars ++ ['>'])) ++ rest) = .closed rest := by
  have hname : ∀ c ∈ n.chars, Enclosure.tag.move c = .stay :=
    fun c hc => tag_move_isNameChar (n.isName.2 c hc)
  rw [List.cons_append, List.append_assoc, Enclosure.close, closeIn_of_stay (by decide),
    closeIn_stay hname]
  exact closeIn_of_leave (by decide)

/-- A tag that starts with a name starts neither a comment nor a doctype. -/
theorem ElementName.head?_append (cs : List Char) : (n.chars ++ cs).head? ≠ some '!' := by
  obtain ⟨c, ds, hchars, hc⟩ := n.isName.exists_cons
  rw [hchars]
  intro h
  have h : c = '!' := by simpa using h
  exact ne_of_isNameChar (isNameChar_of_isAlpha hc) (by decide) h

theorem ElementName.append_ne_nil (cs : List Char) : n.chars ++ cs ≠ [] := by
  obtain ⟨c, ds, hchars, _⟩ := n.isName.exists_cons
  rw [hchars]
  exact List.cons_ne_nil _ _

theorem tagsOfWindow_openerText (h : a.Unslashed)
    (hraw : v.void.contains n.key = true ∨ v.rawText.contains n.key = false) :
    tagsOfWindow v start (openerText n.chars a.chars ++ rest)
      = ⟨start, openerText n.chars a.chars, n.key, false, false, v.void.contains n.key⟩
        :: tagsOfWindow v (start + (openerText n.chars a.chars).length) rest := by
  have hslashed := endsSlashed_openerText n h
  have hkey : (Head.mk false [] n.chars).key = n.key := rfl
  refine tagsOfWindow_span v start (n.head?_append _) (n.append_ne_nil _)
    (close_openerText n a rest) ?_ ?_
  · show rawTextName? v (openerText n.chars a.chars) = none
    rw [rawTextName?, read_openerText]
    simp only [hkey]
    rcases hraw with hraw | hraw <;> simp [hraw]
  · show Tag.ofSpan? v start (openerText n.chars a.chars) = _
    rw [Tag.ofSpan?, read_openerText, hslashed]
    rfl

theorem tagsOfWindow_slashedText :
    tagsOfWindow v start (slashedText n.chars a.chars ++ rest)
      = ⟨start, slashedText n.chars a.chars, n.key, false, true, v.void.contains n.key⟩
        :: tagsOfWindow v (start + (slashedText n.chars a.chars).length) rest := by
  have hslashed : endsSlashed (slashedText n.chars a.chars) = true := by
    rw [endsSlashed, List.isSuffixOf_iff_suffix]
    exact ⟨'<' :: (n.chars ++ a.chars), by simp [slashedText]⟩
  refine tagsOfWindow_span v start (n.head?_append _) (n.append_ne_nil _)
    (close_slashedText n a rest) ?_ ?_
  · show rawTextName? v (slashedText n.chars a.chars) = none
    rw [rawTextName?, read_slashedText]
    simp [hslashed]
  · show Tag.ofSpan? v start (slashedText n.chars a.chars) = _
    rw [Tag.ofSpan?, read_slashedText, hslashed]
    rfl

theorem tagsOfWindow_closerText :
    tagsOfWindow v start (closerText n.chars ++ rest)
      = ⟨start, closerText n.chars, n.key, true, false, v.void.contains n.key⟩
        :: tagsOfWindow v (start + (closerText n.chars).length) rest := by
  have hslashed : endsSlashed (closerText n.chars) = false := by
    show endsSlashed (['<', '/'] ++ (n.chars ++ ['>'])) = false
    exact endsSlashed_name n.isName
  refine tagsOfWindow_span v start (by simp) (List.cons_ne_nil _ _)
    (close_closerText n rest) ?_ ?_
  · show rawTextName? v (closerText n.chars) = none
    rw [rawTextName?, read_closerText]
    simp
  · show Tag.ofSpan? v start (closerText n.chars) = _
    rw [Tag.ofSpan?, read_closerText, hslashed]
    rfl

/-- The content of a raw text element goes as far as its closer. -/
theorem rawText?_closerText {body : List Char} (h : ¬ ('<' :: '/' :: n.key.toList) <:+: body) :
    rawText? n.key (body ++ (closerText n.key.toList ++ rest))
      = some (body, closerText n.key.toList, rest) := by
  have hlt : '<' ∉ '/' :: n.key.toList := by
    rw [List.mem_cons, not_or]
    exact ⟨by decide, n.isName_key.not_mem (by decide)⟩
  have hgt : ¬ ['>'] <:+: n.key.toList := by
    intro hi
    exact n.isName_key.not_mem (by decide) (hi.subset (List.mem_singleton_self '>'))
  have hcloser : closerText n.key.toList ++ rest
      = ('<' :: '/' :: n.key.toList) ++ ('>' :: rest) := by
    simp [closerText]
  have hend : cutAt? ['>'] (n.key.toList ++ '>' :: rest) = some (n.key.toList, '>' :: rest) :=
    cutAt?_of_not_infix (by decide) (by decide) hgt
  rw [rawText?, hcloser, cutAt?_of_not_infix (unbordered_cons hlt) (List.cons_ne_nil _ _) h]
  simp only [List.cons_append, List.drop_succ_cons, List.drop_zero, hend]
  rfl

theorem tagsOfWindow_rawElement {body : List Char} (h : a.Unslashed)
    (hvoid : v.void.contains n.key = false) (hraw : v.rawText.contains n.key = true)
    (hbody : ¬ ('<' :: '/' :: n.key.toList) <:+: body) :
    tagsOfWindow v start
        (openerText n.chars a.chars ++ (body ++ (closerText n.key.toList ++ rest)))
      = ⟨start, openerText n.chars a.chars, n.key, false, false, false⟩
        :: ⟨start + (openerText n.chars a.chars ++ body).length, closerText n.key.toList, n.key,
          true, false, false⟩
        :: tagsOfWindow v
          (start + (openerText n.chars a.chars ++ (body ++ closerText n.key.toList)).length)
          rest := by
  have hslashed := endsSlashed_openerText n h
  have hcloser : endsSlashed (closerText n.key.toList) = false := by
    show endsSlashed (['<', '/'] ++ (n.key.toList ++ ['>'])) = false
    exact endsSlashed_name n.isName_key
  have hkey : (Head.mk false [] n.chars).key = n.key := rfl
  have hname : rawTextName? v (openerText n.chars a.chars) = some n.key := by
    rw [rawTextName?, read_openerText]
    simp only [hkey, hslashed, hvoid, hraw]
    rfl
  have htag : Tag.ofSpan? v start (openerText n.chars a.chars)
      = some ⟨start, openerText n.chars a.chars, n.key, false, false, false⟩ := by
    rw [Tag.ofSpan?, read_openerText, hslashed, Option.map_some, hkey, hvoid]
  have hread := tagsOfWindow_rawText v start (n.head?_append _) (n.append_ne_nil _)
    (close_openerText n a _) hname (rawText?_closerText n rest hbody) htag
  rw [Tag.ofRawCloser, hcloser] at hread
  exact hread

end Written

/-! ## Reading back a forest -/

mutual

/-- A written node gives its own tags, whatever is written behind it. -/
theorem Node.tagsOfWindow_render {v : Vocabulary} (start : Nat) (rest : List Char) :
    ∀ n : Node v, tagsOfWindow v start (n.render ++ rest)
      = n.tags start ++ tagsOfWindow v (start + n.render.length) rest
  | .text chars plain => tagsOfWindow_text v rest start chars plain
  | .comment body plain => by
      rw [Node.render, Node.tags, List.nil_append, List.append_assoc, List.append_assoc]
      exact tagsOfWindow_comment v start plain rest
  | .element name attrs children closer unslashed same notVoid notRaw => by
      have hopen := fun cs => tagsOfWindow_openerText v start name attrs cs unslashed (.inr notRaw)
      have hclose := fun at' => tagsOfWindow_closerText v at' closer rest
      have hchildren := fun at' cs => Forest.tagsOfWindow_render at' cs children
      simp only [notVoid] at hopen
      simp only [same, notVoid] at hclose
      rw [Node.render, Node.tags, List.append_assoc, List.append_assoc, hopen, hchildren, hclose]
      simp only [List.cons_append, List.append_assoc, List.nil_append, List.length_append,
        Nat.add_assoc]
  | .void name attrs unslashed isVoid => by
      rw [Node.render, Node.tags, tagsOfWindow_openerText v start name attrs rest unslashed
        (.inl isVoid), isVoid]
      rfl
  | .selfClosing name attrs => tagsOfWindow_slashedText v start name attrs rest
  | .rawText name attrs body unslashed notVoid isRaw plain => by
      rw [Node.render, Node.tags, List.append_assoc, List.append_assoc,
        tagsOfWindow_rawElement v start name attrs rest unslashed notVoid isRaw plain]
      simp only [List.cons_append, List.nil_append, List.length_append, Nat.add_assoc]

theorem Forest.tagsOfWindow_render {v : Vocabulary} (start : Nat) (rest : List Char) :
    ∀ ns : List (Node v), tagsOfWindow v start (Forest.render ns ++ rest)
      = Forest.tags start ns ++ tagsOfWindow v (start + (Forest.render ns).length) rest
  | [] => rfl
  | n :: ns => by
      rw [Forest.render, Forest.tags, List.append_assoc, Node.tagsOfWindow_render start _ n,
        Forest.tagsOfWindow_render _ rest ns, List.append_assoc, List.length_append,
        Nat.add_assoc]

end

/-! ## Coloring a forest -/

/-- The number of tags that a forest opens in its parent. -/
def Forest.openers {v : Vocabulary} (ns : List (Node v)) : Nat := (ns.map Node.openers).sum

section Colored

open Rotation (AtSibling siblingColor siblingColor_lt)

theorem map_event_element (start : Nat) (text : List Char) (name : String) (ts : List Tag)
    (stop : Nat) (closer : List Char) :
    ((⟨start, text, name, false, false, false⟩ : Tag)
        :: (ts ++ [⟨stop, closer, name, true, false, false⟩])).map Tag.event
      = .opens name :: (ts.map Tag.event ++ [.closes name]) := by
  simp [Tag.event, TagEvent.ofMarks]

mutual

/-- The tags of a node get its colors, and they leave a state as if each of its
openers had ended at once. -/
theorem Node.run_tags {v : Vocabulary} {size : Nat} (hsize : 0 < size) {parent : Option Nat}
    {k : Nat} {r : Rotation} (h : AtSibling size parent k r) (start : Nat) :
    ∀ n : Node v, r.run ((n.tags start).map Tag.event)
      = ((n.colors size parent k).map Int.ofNat, r.pass n.openers)
  | .text _ _ => rfl
  | .comment _ _ => rfl
  | .element name attrs children closer _ _ _ _ => by
      have hlt : ∀ p ∈ some (siblingColor size parent k), p < size := by
        intro p hp
        cases hp
        exact siblingColor_lt hsize parent k
      have hchildren := Forest.run_tags hsize hlt (h.openElement name.key)
        (start + (openerText name.chars attrs.chars).length) children
      rw [Node.tags, map_event_element, Rotation.run_element hchildren, Node.colors, h.chosen_eq]
      simp [Node.openers]
  | .void name attrs _ _ => by
      show r.run [.opensClosed name.key] = _
      rw [Rotation.run_opensClosed, h.chosen_eq]
      rfl
  | .selfClosing name attrs => by
      show r.run [.opensClosed name.key] = _
      rw [Rotation.run_opensClosed, h.chosen_eq]
      rfl
  | .rawText name attrs body _ _ _ _ => by
      have hempty : (r.openElement name.key).2.run [] = ([], (r.openElement name.key).2.pass 0) :=
        rfl
      show r.run (.opens name.key :: ([] ++ [.closes name.key])) = _
      rw [Rotation.run_element hempty, h.chosen_eq]
      rfl

theorem Forest.run_tags {v : Vocabulary} {size : Nat} (hsize : 0 < size) {parent : Option Nat}
    (hparent : ∀ p ∈ parent, p < size) {k : Nat} {r : Rotation} (h : AtSibling size parent k r)
    (start : Nat) :
    ∀ ns : List (Node v), r.run ((Forest.tags start ns).map Tag.event)
      = ((Forest.colors size parent k ns).map Int.ofNat, r.pass (Forest.openers ns))
  | [] => rfl
  | n :: ns => by
      have hnode := Node.run_tags hsize h start n
      have hrest := Forest.run_tags hsize hparent (h.pass hparent n.openers)
        (start + n.render.length) ns
      rw [Forest.tags, List.map_append, Rotation.run_append, hnode, hrest, Forest.colors,
        List.map_append, Rotation.pass_add]
      rfl

end

end Colored

/-- Coloring a written forest gives its own tags with its own colors, both for
documents and for markup with expressions in it. -/
theorem coloredTags_render (s : Settings) (forest : Forest s.vocabulary) :
    ((s.coloredTags .markup (Forest.render forest)).map Prod.fst = Forest.tags 0 forest ∧
      (s.coloredTags .markup (Forest.render forest)).map Prod.snd
        = (Forest.colors s.paletteSize none 0 forest).map Int.ofNat) ∧
    s.coloredTags .markupWithExpressions (Forest.render forest)
      = s.coloredTags .markup (Forest.render forest) := by
  have hone : s.coloredTags .markup (Forest.render forest)
      = (Rotation.start s.paletteSize).colorTags (Forest.tags 0 forest) := by
    have hread := Forest.tagsOfWindow_render 0 [] forest
    rw [List.append_nil, tagsOfWindow_nil, List.append_nil] at hread
    rw [Settings.coloredTags, coloredTags_markup, hread]
  have hrun := Forest.run_tags s.paletteSize_pos (by simp) (Rotation.atSibling_start s.paletteSize)
    0 forest
  refine ⟨⟨?_, ?_⟩, rfl⟩
  · rw [hone, Rotation.colorTags_fst]
  · rw [hone, Rotation.colorTags_snd, hrun]

/-- A bracket in an attribute, names in two cases, and three siblings. -/
example : ∃ forest : Forest Vocabulary.document,
    Forest.render forest = "<UL id='a>b'><li/><li>x</Li><br></ul>".toList ∧
      Forest.colors 3 none 0 forest = [0, 1, 2, 2, 1, 0] :=
  ⟨[.element ⟨['U', 'L'], by decide⟩ ⟨" id='a>b'".toList, by decide, by decide⟩
      [.selfClosing ⟨['l', 'i'], by decide⟩ ⟨[], by decide, by decide⟩,
        .element ⟨['l', 'i'], by decide⟩ ⟨[], by decide, by decide⟩ [.text ['x'] (by decide)]
          ⟨['L', 'i'], by decide⟩ (by simp [Attributes.Unslashed]) (by decide) (by decide)
          (by decide),
        .void ⟨['b', 'r'], by decide⟩ ⟨[], by decide, by decide⟩ (by simp [Attributes.Unslashed])
          (by decide)]
      ⟨['u', 'l'], by decide⟩ (by simp [Attributes.Unslashed]) (by decide) (by decide)
      (by decide)], by decide, by decide⟩

end TagColoring
