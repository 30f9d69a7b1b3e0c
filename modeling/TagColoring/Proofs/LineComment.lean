import Mathlib.Algebra.Ring.Parity
import Mathlib.Data.List.DropRight
import TagColoring.Proofs.Cursor
import TagColoring.Proofs.Line

/-!
# Line comments in front of a literal

Between the identifier `html` and the back-tick of its literal there may be white space
and, if a line break stands in it, a line comment.  The search for the comment goes
through a line from the left and counts quotes on the way.  After a `//` in quotes it
goes on behind both slashes, so it does not look at every `//` of a line.

*Comment marks.*  What the search finds is said here without it.  A comment begins at
the first `//` in front of which each quote stands an even number of times
(`commentStart?_eq_some_iff`).  The slash that the search skips makes no difference,
since a slash is no quote: a `//` one further on has the same quotes in front of it.

*No difference.*  Take a text whose last line is neither blank nor commented, with no
quote left open.  Behind it, white space and a comment are both stepped over, whatever
the comment says (`tagged_behind_blanks_and_comment`).
-/

namespace TagColoring

/-! ## Quotes -/

/-- The quotes that hide a comment mark. -/
def quoteMarks : List Char := ['\x27', '\x22', '\x60']

/-- No quote is open at the end of a piece of a line: each of them stands in it an even
number of times. -/
def Unquoted (piece : List Char) : Prop := ∀ mark ∈ quoteMarks, Even (piece.count mark)

instance (piece : List Char) : Decidable (Unquoted piece) :=
  List.decidableBAll (fun mark => Even (piece.count mark)) quoteMarks

namespace QuoteParity

/-- Whether an odd number of a quote has been read. -/
def odd (p : QuoteParity) (mark : Char) : Bool :=
  if mark = '\x27' then p.single else if mark = '\x22' then p.double else p.backtick

theorem even_iff (p : QuoteParity) : p.even = true ↔ ∀ mark ∈ quoteMarks, p.odd mark = false := by
  simp [even, quoteMarks, odd, and_assoc]

theorem odd_next (p : QuoteParity) (c : Char) {mark : Char} (hmark : mark ∈ quoteMarks) :
    (p.next c).odd mark = (p.odd mark ^^ (c == mark)) := by
  simp only [quoteMarks, List.mem_cons, List.not_mem_nil, or_false] at hmark
  rcases hmark with rfl | rfl | rfl <;> simp only [next] <;> grind [odd]

/-- The parity behind a piece of a line. -/
def after (p : QuoteParity) (piece : List Char) : QuoteParity := piece.foldl next p

theorem odd_after {mark : Char} (hmark : mark ∈ quoteMarks) (piece : List Char)
    (p : QuoteParity) :
    (p.after piece).odd mark = (p.odd mark ^^ decide (Odd (piece.count mark))) := by
  induction piece generalizing p with
  | nil => simp [after]
  | cons c piece ih =>
      have hstep : p.after (c :: piece) = (p.next c).after piece := rfl
      rw [hstep, ih, odd_next p c hmark, List.count_cons]
      by_cases hc : (c == mark) = true
      · have hflip : decide (Odd (piece.count mark + 1)) = !decide (Odd (piece.count mark)) := by
          simp only [Nat.odd_add_one, decide_not]
        rw [if_pos hc, hflip, hc, Bool.xor_true, Bool.not_xor, Bool.xor_not]
      · rw [if_neg hc, Bool.eq_false_iff.mpr hc, Bool.xor_false, Nat.add_zero]

/-- The parity of the quotes of a piece is even if none of them is left open. -/
theorem even_after_iff (piece : List Char) :
    (after {} piece).even = true ↔ Unquoted piece := by
  rw [even_iff]
  refine forall₂_congr fun mark hmark => ?_
  have hnone : odd {} mark = false := by simp [odd]
  rw [odd_after hmark, hnone, Bool.false_xor, decide_eq_false_iff_not, Nat.not_odd_iff_even]

/-- A slash is no quote. -/
theorem next_slash (p : QuoteParity) : p.next '/' = p := rfl

end QuoteParity

/-! ## Comment marks -/

/-- A comment begins behind `n` characters of a line: `//` stands there, and no quote is
open. -/
def CommentAt (line : List Char) (n : Nat) : Prop :=
  ['/', '/'] <+: line.drop n ∧ Unquoted (line.take n)

/-- A comment mark behind `n` characters, with the quotes in front of the line already
read. -/
def MarkAt (p : QuoteParity) (line : List Char) (n : Nat) : Prop :=
  ['/', '/'] <+: line.drop n ∧ (p.after (line.take n)).even = true

theorem markAt_iff (line : List Char) (n : Nat) : MarkAt {} line n ↔ CommentAt line n :=
  and_congr_right fun _ => QuoteParity.even_after_iff _

theorem markAt_succ (p : QuoteParity) (c : Char) (line : List Char) (n : Nat) :
    MarkAt p (c :: line) (n + 1) ↔ MarkAt (p.next c) line n := Iff.rfl

/-- A comment mark of a line that does not begin with `//` stands behind the first character. -/
theorem MarkAt.behind_char {p : QuoteParity} {c : Char} {line : List Char} {n : Nat}
    (h : MarkAt p (c :: line) n) (hslash : ∀ rest, c = '/' → line = '/' :: rest → False) :
    ∃ m, n = m + 1 ∧ MarkAt (p.next c) line m := by
  cases n with
  | zero =>
      obtain ⟨rest, hrest⟩ := h.1
      obtain ⟨rfl, rfl⟩ := List.cons.inj hrest
      exact (hslash rest rfl rfl).elim
  | succ m => exact ⟨m, rfl, (markAt_succ p c line m).mp h⟩

/-- Behind a `//` in quotes, the next comment mark begins with neither of its slashes. -/
theorem MarkAt.behind_slashes {p : QuoteParity} {line : List Char} {n : Nat}
    (h : MarkAt p ('/' :: '/' :: line) n) (heven : ¬ p.even = true) :
    ∃ m, n = m + 2 ∧ MarkAt p line m := by
  rcases n with _ | _ | m
  · exact absurd h.2 heven
  · exact absurd ((markAt_succ p '/' _ 0).mp h).2 (p.next_slash.symm ▸ heven)
  · exact ⟨m, rfl, h⟩

/-- The search stops at the first comment mark. -/
theorem markAt_of_commentStart? {p : QuoteParity} {line : List Char} {n : Nat}
    (h : commentStart? p line = some n) : MarkAt p line n ∧ ∀ m < n, ¬ MarkAt p line m := by
  fun_induction commentStart? p line generalizing n with
  | case1 p line heven =>
      cases h
      exact ⟨⟨List.prefix_append ['/', '/'] line, heven⟩, fun m hm => absurd hm (Nat.not_lt_zero m)⟩
  | case2 p line heven ih =>
      obtain ⟨k, hk, rfl⟩ := Option.map_eq_some_iff.mp h
      obtain ⟨hmark, hfirst⟩ := ih hk
      refine ⟨hmark, fun m hm hmark' => ?_⟩
      obtain ⟨m, rfl, hmark'⟩ := hmark'.behind_slashes heven
      exact hfirst m (Nat.lt_of_add_lt_add_right hm) hmark'
  | case3 p c line hslash ih =>
      obtain ⟨k, hk, rfl⟩ := Option.map_eq_some_iff.mp h
      obtain ⟨hmark, hfirst⟩ := ih hk
      refine ⟨hmark, fun m hm hmark' => ?_⟩
      obtain ⟨m, rfl, hmark'⟩ := hmark'.behind_char hslash
      exact hfirst m (Nat.lt_of_succ_lt_succ hm) hmark'
  | case4 p => cases h

/-- A line in which the search finds nothing has no comment mark. -/
theorem not_markAt_of_commentStart? {p : QuoteParity} {line : List Char}
    (h : commentStart? p line = none) (n : Nat) : ¬ MarkAt p line n := by
  fun_induction commentStart? p line generalizing n with
  | case1 p line heven => cases h
  | case2 p line heven ih =>
      intro hmark
      obtain ⟨m, _, hmark⟩ := hmark.behind_slashes heven
      exact ih (Option.map_eq_none_iff.mp h) m hmark
  | case3 p c line hslash ih =>
      intro hmark
      obtain ⟨m, _, hmark⟩ := hmark.behind_char hslash
      exact ih (Option.map_eq_none_iff.mp h) m hmark
  | case4 p =>
      intro hmark
      simpa using hmark.1.length_le

theorem commentStart?_eq_none_iff {line : List Char} :
    commentStart? {} line = none ↔ ∀ n, ¬ CommentAt line n := by
  constructor
  · intro h n hmark
    exact not_markAt_of_commentStart? h n ((markAt_iff line n).mpr hmark)
  · intro h
    refine Option.eq_none_iff_forall_ne_some.mpr fun n hn => h n ?_
    exact (markAt_iff line n).mp (markAt_of_commentStart? hn).1

/-- The comment of a line begins at its first comment mark. -/
theorem commentStart?_eq_some_iff {line : List Char} {n : Nat} :
    commentStart? {} line = some n ↔ CommentAt line n ∧ ∀ m < n, ¬ CommentAt line m := by
  simp only [← markAt_iff]
  constructor
  · exact markAt_of_commentStart?
  · rintro ⟨hmark, hfirst⟩
    cases hsearch : commentStart? {} line with
    | none => exact absurd hmark (not_markAt_of_commentStart? hsearch n)
    | some k =>
        obtain ⟨hmark', hfirst'⟩ := markAt_of_commentStart? hsearch
        rcases Nat.lt_trichotomy k n with hlt | rfl | hlt
        · exact absurd hmark' (hfirst k hlt)
        · rfl
        · exact absurd hmark (hfirst' n hlt)

/-- A comment mark stays one if the line goes on. -/
theorem CommentAt.append {line : List Char} {n : Nat} (h : CommentAt line n) (more : List Char) :
    CommentAt (line ++ more) n := by
  have hlen := h.1.length_le
  rw [List.length_drop] at hlen
  have hn : n ≤ line.length := by simp at hlen; omega
  refine ⟨?_, ?_⟩
  · rw [List.drop_append_of_le_length hn]
    exact h.1.trans (List.prefix_append _ _)
  · rw [List.take_append_of_le_length hn]
    exact h.2

/-! ## Dropping a comment -/

/-- Without a comment on its last line, a text keeps its end. -/
theorem dropLineComment_of_none {code : List Char} (h : ∀ n, ¬ CommentAt (lastLine code) n) :
    dropLineComment code.reverse = code.reverse := by
  have hnone : commentStart? {} (lastLine code) = none := commentStart?_eq_none_iff.mpr h
  simp only [lastLine, List.rtakeWhile] at hnone
  simp only [dropLineComment, hnone]

/-- A comment goes away with the white space in front of it. -/
theorem dropLineComment_append {code comment : List Char} (hline : '\n' ∉ comment)
    (hmark : CommentAt (lastLine code ++ comment) (lastLine code).length)
    (hfirst : ∀ m < (lastLine code).length, ¬ CommentAt (lastLine code ++ comment) m) :
    dropLineComment (code ++ comment).reverse = code.reverse.dropWhile isBlank := by
  have hsome : commentStart? {} (lastLine (code ++ comment)) = some (lastLine code).length := by
    rw [lastLine_append hline]
    exact commentStart?_eq_some_iff.mpr ⟨hmark, hfirst⟩
  have hdrop : (lastLine (code ++ comment)).length - (lastLine code).length
      = comment.reverse.length := by
    rw [lastLine_append hline, List.length_append, Nat.add_sub_cancel_left, List.length_reverse]
  simp only [lastLine, List.rtakeWhile] at hsome hdrop
  simp only [dropLineComment, hsome, hdrop]
  rw [List.reverse_append, List.drop_left]

/-! ## White space and comments make no difference -/

/-- A text behind whose last line a comment can begin: the line is not blank, no quote is
open at its end, it has no comment, and it does not end with a slash. -/
structure PlainEnd (text : List Char) : Prop where
  inked : ∃ c ∈ lastLine text, isBlank c = false
  unquoted : Unquoted (lastLine text)
  uncommented : ∀ n, ¬ CommentAt (lastLine text) n
  slashless : (lastLine text).getLast? ≠ some '/'

/-- White space at the end of a line that is not blank has no line break. -/
theorem PlainEnd.no_break {text : List Char} (h : PlainEnd text) :
    '\n' ∉ text.reverse.takeWhile isBlank := by
  obtain ⟨before, hsplit, _, hline⟩ := exists_lastLine text
  obtain ⟨c, hc, hink⟩ := h.inked
  have hshort : ((lastLine text).reverse.takeWhile isBlank).length
      ≠ (lastLine text).reverse.length := by
    intro hlen
    have hall := (List.takeWhile_prefix isBlank).eq_of_length hlen
    have hblank := List.takeWhile_eq_self_iff.mp hall c (List.mem_reverse.mpr hc)
    rw [hblank] at hink
    cases hink
  rw [hsplit, List.reverse_append, List.takeWhile_append, if_neg hshort]
  exact fun hmem => hline (List.mem_reverse.mp ((List.takeWhile_sublist _).subset hmem))

/-- A last line without a comment has none either when the white space at its end is
cut off. -/
theorem PlainEnd.dropLineComment {text : List Char} (h : PlainEnd text) :
    dropLineComment (text.reverse.dropWhile isBlank) = text.reverse.dropWhile isBlank := by
  have hbreak : '\n' ∉ text.rtakeWhile isBlank := fun hmem => h.no_break (List.mem_reverse.mp hmem)
  have hline : lastLine text = lastLine (text.rdropWhile isBlank) ++ text.rtakeWhile isBlank := by
    rw [← lastLine_append hbreak, List.rdropWhile_append_rtakeWhile]
  have hnone : ∀ n, ¬ CommentAt (lastLine (text.rdropWhile isBlank)) n := fun n hn =>
    h.uncommented n (hline ▸ hn.append _)
  have hkeep := dropLineComment_of_none hnone
  rwa [List.rdropWhile, List.reverse_reverse] at hkeep

/-- The first comment mark of a plain line with a comment behind it is that of the
comment. -/
theorem PlainEnd.commentAt {text : List Char} (h : PlainEnd text) (comment : List Char) :
    CommentAt (lastLine text ++ '/' :: '/' :: comment) (lastLine text).length ∧
      ∀ m < (lastLine text).length, ¬ CommentAt (lastLine text ++ '/' :: '/' :: comment) m := by
  constructor
  · refine ⟨?_, ?_⟩
    · rw [List.drop_left]
      exact List.prefix_append ['/', '/'] comment
    · rw [List.take_left]
      exact h.unquoted
  · rintro m hm ⟨hmark, hquotes⟩
    rw [List.drop_append_of_le_length (Nat.le_of_lt hm)] at hmark
    rw [List.take_append_of_le_length (Nat.le_of_lt hm)] at hquotes
    -- The mark would have to stand in the line, or to begin with a slash at its end.
    cases hdrop : (lastLine text).drop m with
    | nil => exact absurd (List.drop_eq_nil_iff.mp hdrop) (Nat.not_le.mpr hm)
    | cons c cs =>
        rw [hdrop, List.cons_append] at hmark
        obtain ⟨rfl, hnext⟩ := List.cons_prefix_cons.mp hmark
        cases cs with
        | nil =>
            apply h.slashless
            rw [← List.take_append_drop m (lastLine text), hdrop, List.getLast?_concat]
        | cons d ds =>
            rw [List.cons_append] at hnext
            obtain ⟨rfl, _⟩ := List.cons_prefix_cons.mp hnext
            refine h.uncommented m ⟨?_, hquotes⟩
            rw [hdrop]
            exact List.prefix_append ['/', '/'] ds

/-- Whether a reversed text begins with the identifier of markup. -/
def startsTag (reversed : List Char) : Bool :=
  reversed.takeWhile isIdentifierChar == markupIdentifier.reverse

theorem tagged_of_no_break {before : List Char} (h : '\n' ∉ before.reverse.takeWhile isBlank) :
    tagged before = startsTag (before.reverse.dropWhile isBlank) := by
  rw [tagged, if_neg (by simpa using h)]
  rfl

theorem tagged_of_break {before : List Char} (h : '\n' ∈ before.reverse.takeWhile isBlank) :
    tagged before = startsTag (dropLineComment (before.reverse.dropWhile isBlank)) := by
  rw [tagged, if_pos (by simpa using h)]
  rfl

theorem PlainEnd.tagged_append_blanks {text blanks : List Char} (h : PlainEnd text)
    (hblanks : ∀ c ∈ blanks, isBlank c = true) : tagged (text ++ blanks) = tagged text := by
  have hdrop : (text ++ blanks).reverse.dropWhile isBlank = text.reverse.dropWhile isBlank := by
    rw [List.reverse_append]
    exact List.dropWhile_append_of_pos fun c hc => hblanks c (List.mem_reverse.mp hc)
  rw [tagged_of_no_break h.no_break]
  by_cases hbreak : '\n' ∈ (text ++ blanks).reverse.takeWhile isBlank
  · rw [tagged_of_break hbreak, hdrop, h.dropLineComment]
  · rw [tagged_of_no_break hbreak, hdrop]

theorem PlainEnd.tagged_append_comment {text comment blanks : List Char} (h : PlainEnd text)
    (hcomment : '\n' ∉ comment) (hblanks : ∀ c ∈ blanks, isBlank c = true) :
    tagged (text ++ '/' :: '/' :: (comment ++ '\n' :: blanks)) = tagged text := by
  have hall : ∀ c ∈ ('\n' :: blanks).reverse, isBlank c = true := by
    intro c hc
    rcases List.mem_cons.mp (List.mem_reverse.mp hc) with rfl | hc
    · rfl
    · exact hblanks c hc
  have hbreak : '\n' ∈ ('\n' :: blanks).reverse := List.mem_reverse.mpr List.mem_cons_self
  have hreverse : (text ++ '/' :: '/' :: (comment ++ '\n' :: blanks)).reverse
      = ('\n' :: blanks).reverse ++ (comment.reverse ++ '/' :: '/' :: text.reverse) := by
    simp
  -- The white space at the end of the comment belongs to the gap.
  have hdrop : (comment.reverse ++ '/' :: '/' :: text.reverse).dropWhile isBlank
      = (text ++ '/' :: '/' :: comment.rdropWhile isBlank).reverse := by
    rw [List.rdropWhile, List.reverse_append, List.reverse_cons, List.reverse_cons,
      List.reverse_reverse, List.dropWhile_append]
    split
    · next hnil =>
        rw [List.isEmpty_iff.mp hnil, List.dropWhile_cons_of_neg Bool.false_ne_true]
        rfl
    · rw [List.append_assoc, List.append_assoc]
      rfl
  have hshort : '\n' ∉ '/' :: '/' :: comment.rdropWhile isBlank := by
    simp only [List.mem_cons, Char.reduceEq, false_or]
    exact fun hmem => hcomment ((List.rdropWhile_prefix isBlank comment).subset hmem)
  obtain ⟨hmark, hfirst⟩ := h.commentAt (comment.rdropWhile isBlank)
  rw [tagged_of_break, hreverse, List.dropWhile_append_of_pos hall, hdrop,
    dropLineComment_append hshort hmark hfirst, tagged_of_no_break h.no_break]
  rw [hreverse, List.takeWhile_append_of_pos hall]
  exact List.mem_append_left _ hbreak

theorem tagged?_append (front tail : List Char) :
    tagged? (front ++ tail) front.length = some (tagged front) := by
  have hlen : ¬ (front ++ tail).length < front.length := by
    rw [List.length_append]
    exact Nat.not_lt.mpr (Nat.le_add_right _ _)
  rw [tagged?, if_neg hlen, List.take_left]

/-- White space between a plain end of a text and a back-tick, and a line comment in front
of the white space, do not change whether the back-tick opens a literal with markup.  What
follows the back-tick has no part in it. -/
theorem tagged_behind_blanks_and_comment {text blanks comment : List Char} (h : PlainEnd text)
    (hblanks : ∀ c ∈ blanks, isBlank c = true) (hcomment : '\n' ∉ comment)
    (tail tail' tail'' : List Char) :
    ∃ answer, tagged? (text ++ tail) text.length = some answer ∧
      tagged? ((text ++ blanks) ++ tail') (text ++ blanks).length = some answer ∧
      tagged? ((text ++ '/' :: '/' :: (comment ++ '\n' :: blanks)) ++ tail'')
        (text ++ '/' :: '/' :: (comment ++ '\n' :: blanks)).length = some answer := by
  refine ⟨tagged text, tagged?_append text tail, ?_, ?_⟩
  · rw [tagged?_append, h.tagged_append_blanks hblanks]
  · rw [tagged?_append, h.tagged_append_comment hcomment hblanks]

/-- A string with slashes in it is no comment, and the comment may hold a quote, further
slashes and white space at its end. -/
theorem tagged_behind_blanks_and_comment_slashes :
    let text := ['\n', 'f', '(', '\x27', '/', '/', '\x27', ')', '.', 'h', 't', 'm', 'l', ' ']
    let comment := [' ', '\x22', '/', '/', '\x60', '\t']
    let blanks := [' ', '\n', '\r']
    PlainEnd text ∧ tagged? (text ++ ['\x60']) text.length = some true ∧
      tagged? ((text ++ '/' :: '/' :: (comment ++ '\n' :: blanks)) ++ ['\x60', 'p', '\x60'])
        (text ++ '/' :: '/' :: (comment ++ '\n' :: blanks)).length = some true := by
  intro text comment blanks
  have hplain : PlainEnd text := by
    refine ⟨⟨'f', by decide, by decide⟩, by decide, ?_, by decide⟩
    exact commentStart?_eq_none_iff.mp (by decide)
  have hblanks : ∀ c ∈ blanks, isBlank c = true := List.all_eq_true.mp rfl
  obtain ⟨answer, htext, _, hcommented⟩ := tagged_behind_blanks_and_comment hplain hblanks
    (show '\n' ∉ comment by decide) ['\x60'] [] ['\x60', 'p', '\x60']
  have htrue : tagged? (text ++ ['\x60']) text.length = some true := by decide
  rw [htext] at htrue
  cases htrue
  exact ⟨hplain, htext, hcommented⟩

end TagColoring
