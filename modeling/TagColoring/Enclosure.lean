/-!
# Enclosures

Three scans of the library look for the end of something that may contain
nested pieces: the end of a placeholder `${...}`, the closing back-tick of a
template literal, and the `>` that ends a tag.  All three are runs of one
machine.  It keeps a stack of what encloses the cursor and stops when the
stack is empty.

* `braces`: code between braces.  A quote opens a string, a back-tick opens a
  template literal, `{` opens further braces and `}` closes these.
* `string`: a quoted string in code.  A backslash hides the next character and
  the same quote closes the string.
* `template`: the body of a template literal.  It is a string that ends at a
  back-tick, and `${` opens braces in it.
* `tag`: a tag after its `<`.  A quote opens an attribute value, `${` opens
  braces and `>` closes the tag.  A backslash means nothing here.
* `value`: a quoted attribute value.  It is a string in which `${` opens
  braces.

A scan has three outcomes.  It closes and leaves the rest of its window, the
window ends first, or the window ends with a backslash that still wanted a
character.  The last two differ only in how far the cursor got, which matters
when the limit of the window lies past the end of the text.

`Enclosure.close` is structural in the characters.  `closeIn_suffix` says that
the rest is a proper suffix of the window.
-/

namespace TagColoring

/-- The two quotes that enclose a string or an attribute value. -/
inductive Quote where
  /-- The apostrophe. -/
  | single
  /-- The quotation mark. -/
  | double
deriving DecidableEq, Repr

/-- The character of a quote. -/
def Quote.mark : Quote → Char
  | .single => '\x27'
  | .double => '\x22'

/-- What encloses the cursor of a scan. -/
inductive Enclosure where
  /-- Code between braces. -/
  | braces
  /-- A quoted string in code. -/
  | string (quote : Quote)
  /-- The body of a template literal. -/
  | template
  /-- A tag after its opening bracket. -/
  | tag
  /-- A quoted attribute value of a tag. -/
  | value (quote : Quote)
deriving DecidableEq, Repr

/-- What a character does to the enclosure it stands in. -/
inductive Move where
  | stay
  /-- It closes the enclosure. -/
  | leave
  /-- It opens another enclosure inside. -/
  | enter (inner : Enclosure)
  /-- It hides the character after it. -/
  | escape
  /-- It opens braces inside if an opening brace follows, else nothing. -/
  | dollar
deriving DecidableEq, Repr

/-- The effect of a character in an enclosure. -/
def Enclosure.move : Enclosure → Char → Move
  | .braces, c =>
      if c = '\x27' then .enter (.string .single)
      else if c = '\x22' then .enter (.string .double)
      else if c = '\x60' then .enter .template
      else if c = '\x7b' then .enter .braces
      else if c = '\x7d' then .leave
      else .stay
  | .string quote, c =>
      if c = '\\' then .escape
      else if c = quote.mark then .leave
      else .stay
  | .template, c =>
      if c = '\\' then .escape
      else if c = '\x60' then .leave
      else if c = '$' then .dollar
      else .stay
  | .tag, c =>
      if c = '\x27' then .enter (.value .single)
      else if c = '\x22' then .enter (.value .double)
      else if c = '$' then .dollar
      else if c = '>' then .leave
      else .stay
  | .value quote, c =>
      if c = '\\' then .escape
      else if c = quote.mark then .leave
      else if c = '$' then .dollar
      else .stay

/-- The outcome of a scan for the end of an enclosure. -/
inductive Extent where
  /-- The enclosure is closed, and `rest` follows the character that closes it. -/
  | closed (rest : List Char)
  /-- The window ends inside the enclosure. -/
  | unclosed
  /-- The window ends inside the enclosure, with a backslash that hides a
  character the window does not have. -/
  | dangling
deriving DecidableEq, Repr

/-- Scan for the end of the enclosure `e` and of all those around it, `outer`,
innermost first. -/
def closeIn (e : Enclosure) (outer : List Enclosure) : List Char → Extent
  | [] => .unclosed
  | c :: cs =>
      match e.move c with
      | .stay => closeIn e outer cs
      | .leave =>
          match outer with
          | [] => .closed cs
          | o :: os => closeIn o os cs
      | .enter inner => closeIn inner (e :: outer) cs
      | .escape =>
          match cs with
          | [] => .dangling
          | _ :: cs => closeIn e outer cs
      | .dollar =>
          match cs with
          | '\x7b' :: cs => closeIn .braces (e :: outer) cs
          | cs => closeIn e outer cs
termination_by structural cs => cs

/-- What follows a closed enclosure is a suffix of the window, and shorter. -/
theorem closeIn_suffix {e : Enclosure} {outer : List Enclosure} {cs rest : List Char}
    (h : closeIn e outer cs = .closed rest) : ∃ body, body ≠ [] ∧ body ++ rest = cs := by
  fun_induction closeIn e outer cs with
  | case1 => cases h
  | case2 e outer c cs _ ih =>
      obtain ⟨body, _, rfl⟩ := ih h
      exact ⟨c :: body, by simp, rfl⟩
  | case3 e c cs =>
      cases h
      exact ⟨[c], by simp, rfl⟩
  | case4 e c cs _ o os ih =>
      obtain ⟨body, _, rfl⟩ := ih h
      exact ⟨c :: body, by simp, rfl⟩
  | case5 e outer c cs inner _ ih =>
      obtain ⟨body, _, rfl⟩ := ih h
      exact ⟨c :: body, by simp, rfl⟩
  | case6 => cases h
  | case7 e outer c _ d cs ih =>
      obtain ⟨body, _, rfl⟩ := ih h
      exact ⟨c :: d :: body, by simp, rfl⟩
  | case8 e outer c _ cs ih =>
      obtain ⟨body, _, rfl⟩ := ih h
      exact ⟨c :: '\x7b' :: body, by simp, rfl⟩
  | case9 e outer c cs _ _ ih =>
      obtain ⟨body, _, rfl⟩ := ih h
      exact ⟨c :: body, by simp, rfl⟩

theorem closeIn_length {e : Enclosure} {outer : List Enclosure} {cs rest : List Char}
    (h : closeIn e outer cs = .closed rest) : rest.length < cs.length := by
  obtain ⟨body, hbody, rfl⟩ := closeIn_suffix h
  have := List.length_pos_iff.mpr hbody
  simp only [List.length_append]
  omega

/-- Scan a window that stands inside an enclosure for the end of it. -/
def Enclosure.close (e : Enclosure) (window : List Char) : Extent := closeIn e [] window

/-- The rest of a closed enclosure is shorter than its window. -/
theorem Enclosure.close_length {e : Enclosure} {window rest : List Char}
    (h : e.close window = .closed rest) : rest.length < window.length :=
  closeIn_length h

end TagColoring
