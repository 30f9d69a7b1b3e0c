import TagColoring.Coloring
import TagColoring.Proofs.Head
import TagColoring.Proofs.Reading

/-!
# What is painted

The spans of a tag are read off its text, without the tag.  So they could miss it:
a text that is no tag has spans too, and these may overlap.  The texts of tags are
all spelled in one way (`Tag.Spelled`): a bracket, perhaps a slash, white space, a
name, some more characters and a bracket.  There the spans are the brackets, the
slashes and the name (`paint_spelled`).

A raw text element is closed by the first text that begins like its closing tag,
so the name there can be longer than that of the element.
-/

namespace TagColoring

/-! ## How regions are spelled -/

/-- The characters of a region that gives a tag. -/
def Region.Spelled (r : Region) : Prop :=
  match r.kind with
  | .bracketed => ∃ body, r.chars = '<' :: (body ++ ['>'])
  | .rawCloser name =>
      IsName name.toList ∧ name.toList.map Char.toLower = name.toList ∧
        ∃ inner, r.chars = '<' :: '/' :: (name.toList ++ (inner ++ ['>']))
  | _ => True

/-- The closer of a raw text element goes on behind its name up to a bracket. -/
theorem rawText?_closer {name : String} (hname : IsName name.toList)
    {cs body closer after : List Char} (h : rawText? name cs = some (body, closer, after)) :
    ∃ inner, closer = '<' :: '/' :: (name.toList ++ (inner ++ ['>'])) := by
  unfold rawText? at h
  split at h
  · next body' rest hcut =>
      obtain ⟨rest', rfl⟩ := List.isPrefixOf_iff_prefix.mp (cutAt?_isPrefixOf hcut)
      split at h
      · next inner after' hlast =>
          cases h
          obtain ⟨after'', rfl⟩ := List.isPrefixOf_iff_prefix.mp (cutAt?_isPrefixOf hlast)
          have happend : inner ++ ('>' :: after'') = name.toList ++ rest' := cutAt?_append hlast
          -- The name has no bracket, so it ends before the one that was found.
          obtain ⟨more, hmore⟩ : name.toList <+: inner := by
            rcases List.append_eq_append_iff.mp happend with ⟨a, hname', hrest⟩ | ⟨a, hinner, _⟩
            · cases a with
              | nil => exact ⟨[], by rw [hname', List.append_nil, List.append_nil]⟩
              | cons d ds =>
                  have hd : '>' = d := (List.cons.inj hrest).1
                  exact absurd (by rw [hname', ← hd]; simp) (hname.not_mem (d := '>') (by decide))
            · exact ⟨a, hinner.symm⟩
          refine ⟨more, ?_⟩
          rw [← hmore]
          simp
      · cases h
  · cases h

theorem rawTextName?_isName {v : Vocabulary} {chars : List Char} {name : String}
    (h : rawTextName? v chars = some name) :
    IsName name.toList ∧ name.toList.map Char.toLower = name.toList := by
  unfold rawTextName? at h
  split at h
  · next head hread =>
      split at h
      · cases h
        have hname := (Head.read?_spec hread).2.1
        have hkey : head.key.toList = head.name.map Char.toLower := String.toList_ofList
        rw [hkey]
        refine ⟨hname.toLower, ?_⟩
        rw [List.map_map]
        exact List.map_congr_left fun c _ => toLower_toLower c
      · cases h
  · cases h

theorem firstRegions_spelled (v : Vocabulary) (c : Char) (cs : List Char) :
    ∀ r ∈ (firstRegions v c cs).1, r.Spelled := by
  intro r hr
  unfold firstRegions at hr
  split at hr
  · rw [List.mem_singleton.mp hr]; trivial
  · next hc =>
      have hc : c = '<' := not_not.mp hc
      subst hc
      split at hr
      · rw [List.mem_singleton.mp hr]; trivial
      · split at hr
        · rw [List.mem_singleton.mp hr]; trivial
        · split at hr
          · next rest hclose =>
              obtain ⟨body, rfl⟩ := tag_close_last hclose
              have hspan : (body ++ '>' :: rest).take ((body ++ '>' :: rest).length - rest.length)
                  = body ++ ['>'] := by
                have hlen : (body ++ '>' :: rest).length - rest.length
                    = (body ++ ['>']).length := by
                  simp only [List.length_append, List.length_cons, List.length_nil]
                  omega
                rw [hlen, List.append_cons body '>' rest, List.take_left]
              simp only [hspan] at hr
              split at hr
              · next name raw closer after hraw =>
                  obtain ⟨n, hname, hparts⟩ := Option.bind_eq_some_iff.mp hraw
                  obtain ⟨parts, hparts, heq⟩ := Option.map_eq_some_iff.mp hparts
                  cases heq
                  have hn := rawTextName?_isName hname
                  simp only [List.mem_cons, List.not_mem_nil, or_false] at hr
                  rcases hr with rfl | rfl | rfl
                  · exact ⟨body, rfl⟩
                  · trivial
                  · exact ⟨hn.1, hn.2, rawText?_closer hn.1 hparts⟩
              · rw [List.mem_singleton.mp hr]
                exact ⟨body, rfl⟩
          · rw [List.mem_singleton.mp hr]; trivial

theorem tile_spelled (v : Vocabulary) (window : List Char) : ∀ r ∈ tile v window, r.Spelled := by
  fun_induction tile v window with
  | case1 => exact fun _ hr => absurd hr List.not_mem_nil
  | case2 c cs first ih =>
      intro r hr
      rcases List.mem_append.mp hr with hfirst | hrest
      · exact firstRegions_spelled v c cs r hfirst
      · exact ih r hrest

/-! ## How tags are spelled -/

/-- The text of a tag: its head, some more characters and a bracket. -/
structure Tag.Spelled (t : Tag) (h : Head) (tail : List Char) : Prop where
  text_eq : t.text = h.text ++ (tail ++ ['>'])
  read : Head.read? t.text = some h
  closing : t.closing = h.slash
  slashed : t.slashed = endsSlashed t.text

/-- A text with a head that ends with a bracket has more than its head. -/
theorem Head.exists_tail {chars : List Char} {h : Head} (hread : Head.read? chars = some h)
    (body : List Char) (hlast : chars = body ++ ['>']) :
    ∃ tail, chars = h.text ++ (tail ++ ['>']) := by
  obtain ⟨_, hname, rest, hchars, _⟩ := Head.read?_spec hread
  have hget := congrArg List.getLast? (hlast.symm.trans hchars)
  rw [List.getLast?_concat] at hget
  rcases List.eq_nil_or_concat rest with rfl | ⟨tail, c, rfl⟩
  · -- The last character of a name is no bracket.
    rcases List.eq_nil_or_concat h.name with hnil | ⟨before, c, hc⟩
    · rw [hnil] at hname
      exact absurd hname.1 (by simp)
    · have hmem : '>' ∈ h.name := by
        have htext : h.text ++ []
            = ('<' :: ((if h.slash then ['/'] else []) ++ h.gap ++ before)) ++ [c] := by
          simp [Head.text, hc]
        rw [htext, List.getLast?_concat] at hget
        rw [Option.some.inj hget, hc]
        simp
      exact absurd hmem (hname.not_mem (by decide))
  · have hc : (h.text ++ tail.concat c).getLast? = some c := by simp
    rw [List.concat_eq_append, ← Option.some.inj (hget.trans hc)] at hchars
    exact ⟨tail, hchars⟩

/-- The tag of a region is spelled as its characters.  The name in them is that of
the tag, or begins with it if the region closes a raw text element. -/
theorem Region.spelled_of_tag? {v : Vocabulary} {start : Nat} {r : Region} {t : Tag}
    (hr : r.Spelled) (h : r.tag? v start = some t) :
    t.start = start ∧ t.text = r.chars ∧ ∃ head tail, t.Spelled head tail ∧
      (r.kind = .bracketed ∧ String.ofList (head.name.map Char.toLower) = t.name ∨
        r.kind = .rawCloser t.name ∧ t.name.toList <+: head.name.map Char.toLower) := by
  obtain ⟨kind, chars⟩ := r
  cases kind with
  | bracketed =>
      obtain ⟨body, hbody⟩ := hr
      obtain ⟨head, hread, rfl⟩ := Option.map_eq_some_iff.mp h
      obtain ⟨tail, htail⟩ := Head.exists_tail hread ('<' :: body) hbody
      exact ⟨rfl, rfl, head, tail, ⟨htail, hread, rfl, rfl⟩, .inl ⟨rfl, rfl⟩⟩
  | rawCloser name =>
      obtain ⟨hname, hlower, inner, hinner⟩ := hr
      cases h
      have hread : Head.read? chars
          = some ⟨true, [], name.toList ++ (inner ++ ['>']).takeWhile isNameChar⟩ := by
        rw [show chars = _ from hinner]
        exact readName?_longest true (List.forall_mem_nil _) hname _
      obtain ⟨tail, htail⟩ := Head.exists_tail hread ('<' :: '/' :: (name.toList ++ inner))
        (by simpa using hinner)
      refine ⟨rfl, rfl, _, tail, ⟨htail, hread, rfl, rfl⟩, .inr ⟨rfl, ?_⟩⟩
      rw [List.map_append, hlower]
      exact List.prefix_append _ _
  | text => cases h
  | stray => cases h
  | comment => cases h
  | doctype => cases h
  | rawBody => cases h

theorem exists_spelled {v : Vocabulary} {start : Nat} {window : List Char} {t : Tag}
    (h : t ∈ tagsOfWindow v start window) : ∃ head tail, t.Spelled head tail := by
  obtain ⟨pre, r, post, htile, htag⟩ := mem_tagsOfRegions h
  have hr : r.Spelled := tile_spelled v window r (by rw [htile]; simp)
  obtain ⟨_, _, head, tail, ht, _⟩ := r.spelled_of_tag? hr htag
  exact ⟨head, tail, ht⟩

/-! ## The spans of a tag -/

section Spelled

variable {t : Tag} {h : Head} {tail : List Char}

theorem Tag.Spelled.length_text (ht : t.Spelled h tail) :
    t.text.length = h.nameStop + tail.length + 1 := by
  rw [ht.text_eq, List.length_append, Head.length_text, List.length_append]
  rfl

/-- The slash in front of the last bracket is no part of the head. -/
theorem Tag.Spelled.slashed_iff (ht : t.Spelled h tail) :
    t.slashed = true ↔ tail.getLast? = some '/' := by
  have hname := (Head.read?_spec ht.read).2.1
  rw [ht.slashed, ht.text_eq]
  cases htail : tail with
  | nil =>
      have htext : h.text ++ ([] ++ ['>'])
          = ('<' :: ((if h.slash then ['/'] else []) ++ h.gap)) ++ (h.name ++ ['>']) := by
        simp [Head.text]
      rw [htext, endsSlashed_name hname]
      simp
  | cons c cs =>
      rw [← List.append_assoc, endsSlashed_append,
        List.getLast?_append_of_ne_nil _ (List.cons_ne_nil c cs)]

theorem Tag.Spelled.name_pos (ht : t.Spelled h tail) : 0 < h.name.length := by
  obtain ⟨c, cs, hc, _⟩ := (Head.read?_spec ht.read).2.1.exists_cons
  rw [hc]
  exact Nat.succ_pos _

theorem paint_spelled (ht : t.Spelled h tail) (color : Int) :
    paint t.start t.text color
      = [Span.delimiter t.start color]
        ++ (if t.closing then [Span.delimiter (t.start + 1) color] else [])
        ++ [⟨t.start + h.nameStart, t.start + h.nameStop, color, .name⟩]
        ++ (if t.slashed then [Span.delimiter (t.start + h.nameStop + tail.length - 1) color]
          else [])
        ++ [Span.delimiter (t.start + h.nameStop + tail.length) color] := by
  obtain ⟨hgap, hname, _⟩ := Head.read?_spec ht.read
  have hlen := ht.length_text
  have hpos := ht.name_pos
  have hstop : h.nameStop = h.nameStart + h.name.length := rfl
  have hstart : h.nameStart = 1 + (if h.slash then 1 else 0) + h.gap.length := rfl
  have hne : t.text.isEmpty = false := by
    rw [List.isEmpty_eq_false_iff, ← List.length_pos_iff]
    omega
  have hopen : ['<', '/'].isPrefixOf t.text = t.closing := by
    rw [ht.closing, ht.text_eq, Head.isPrefixOf_text hgap hname]
  have hlong : decide (2 < t.text.length) = true := by
    rw [decide_eq_true_iff]
    omega
  rw [paint, hne, hopen, ht.read, ← ht.slashed, hlong, Bool.and_true, if_pos (show 1 < _ by omega)]
  have hslash : (t.start : Int) + t.text.length - 2 = t.start + h.nameStop + tail.length - 1 := by
    omega
  have hlast : (t.start : Int) + t.text.length - 1 = t.start + h.nameStop + tail.length := by
    omega
  rw [hslash, hlast]
  rfl

end Spelled

/-! ## Tags in a text -/

/-- The place of a tag in a text: what stands around it and what it is made of. -/
structure Tag.Place (text : List Char) (t : Tag) where
  /-- The text before the tag. -/
  before : List Char
  /-- The white space before the name. -/
  gap : List Char
  /-- The name, as it is spelled. -/
  name : List Char
  /-- What follows the name up to the last bracket. -/
  tail : List Char
  /-- The text behind the tag. -/
  behind : List Char
  text_eq : text = before ++ ('<' :: ((if t.closing then ['/'] else [])
    ++ (gap ++ (name ++ (tail ++ '>' :: behind)))))
  start_eq : t.start = before.length
  gap_blank : ∀ c ∈ gap, isBlank c = true
  isName : IsName name
  endsName : EndsName (tail ++ ['>'])
  slashed_iff : t.slashed = true ↔ tail.getLast? = some '/'

namespace Tag.Place

variable {text : List Char} {t : Tag}

/-- The offset of the name. -/
def nameStart (p : t.Place text) : Nat :=
  p.before.length + 1 + (if t.closing then 1 else 0) + p.gap.length

/-- The offset behind the name. -/
def nameStop (p : t.Place text) : Nat := p.nameStart + p.name.length

/-- The offset of the last bracket. -/
def last (p : t.Place text) : Nat := p.nameStop + p.tail.length

/-- The brackets, the slashes and the name of a tag, in a color. -/
def spans (p : t.Place text) (color : Int) : List Span :=
  [Span.delimiter t.start color]
    ++ (if t.closing then [Span.delimiter (t.start + 1) color] else [])
    ++ [⟨p.nameStart, p.nameStop, color, .name⟩]
    ++ (if t.slashed then [Span.delimiter (p.last - 1) color] else [])
    ++ [Span.delimiter p.last color]

theorem length_spans (p : t.Place text) (color : Int) :
    (p.spans color).length
      = 3 + (if t.closing then 1 else 0) + (if t.slashed then 1 else 0) := by
  unfold spans
  cases t.closing <;> cases t.slashed <;> rfl

end Tag.Place

/-- A tag that is spelled out in a text has its place there, and what is painted
of it are its brackets, its slashes and its name. -/
theorem Tag.Spelled.exists_place {text : List Char} {t : Tag} {h : Head} {tail : List Char}
    (ht : t.Spelled h tail) {before behind : List Char}
    (htext : text = before ++ (t.text ++ behind)) (hstart : t.start = before.length) :
    ∃ place : t.Place text, place.name = h.name ∧
      ∀ color, coloredTagSpans (t, color) = place.spans color := by
  obtain ⟨hgap, hname, rest, hrest, hends⟩ := Head.read?_spec ht.read
  have hrest : rest = tail ++ ['>'] := List.append_cancel_left (hrest.symm.trans ht.text_eq)
  have hplace : text = before ++ ('<' :: ((if t.closing then ['/'] else [])
      ++ (h.gap ++ (h.name ++ (tail ++ '>' :: behind))))) := by
    rw [htext, ht.text_eq, Head.text, ht.closing]
    simp
  let place : t.Place text :=
    ⟨before, h.gap, h.name, tail, behind, hplace, hstart, hgap, hname, hrest ▸ hends,
      ht.slashed_iff⟩
  have hnameStart : place.nameStart = t.start + h.nameStart := by
    show before.length + 1 + (if t.closing then 1 else 0) + h.gap.length = _
    rw [ht.closing, hstart, Head.nameStart]
    omega
  have hnameStop : place.nameStop = t.start + h.nameStop := by
    show place.nameStart + h.name.length = _
    rw [hnameStart, Head.nameStop]
    omega
  have hlast : place.last = t.start + h.nameStop + tail.length := by
    show place.nameStop + tail.length = _
    rw [hnameStop]
  refine ⟨place, rfl, fun color => ?_⟩
  rw [coloredTagSpans, paint_spelled ht]
  simp only [Tag.Place.spans, hnameStart, hnameStop, hlast, Int.natCast_add]

end TagColoring
