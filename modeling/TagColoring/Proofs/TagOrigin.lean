import TagColoring.Proofs.LineComment
import TagColoring.Proofs.LiteralBody
import TagColoring.Proofs.Traversal

/-!
# Where the tag of a literal stands

The look back from a back-tick knows nothing of the range of code that is searched.  It
steps over white space, over a line comment if a line break stands behind it, and reads an
identifier.  This module says where that identifier stands.

*Looking back.*  A run back over a class of characters stops at the first one that is not
in it (`runBack_spec`).  The comment that is stepped over is the first one of its line that
reaches to the white space (`gapBack_cases`), and its start may lie anywhere on the line.

*Code begins.*  Code that is searched begins at the start of the text, behind the brace of a
placeholder (`searchTurns_codeRange`) or behind the closing back-tick of a literal
(`CodeRange.begins_resumeOffset`).  Neither of the two characters is white space or part of an
identifier, so only a comment leads a look back across.

*The tag of a literal.*  So the identifier of a tagged literal stands in the code that is
searched unless a comment begins in front of that code, inside of a literal
(`tag_in_searched_code_iff`).  Then the text of the literal is the tag
(`literal_text_tags_next`).
-/

namespace TagColoring

/-! ## Looking back -/

theorem mem_slice {text : List Char} {i j k : Nat} {c : Char} (hik : i ≤ k) (hkj : k < j)
    (hc : text[k]? = some c) : c ∈ slice text i j := by
  rw [← slice_append text hik (Nat.le_of_lt hkj), slice_eq_cons_iff.mpr ⟨hkj, hc, rfl⟩]
  exact List.mem_append_right _ List.mem_cons_self

/-- A run back passes over characters of its class and stops behind one that is not in it. -/
theorem runBack_spec {p : Char → Bool} {text : List Char} {n m : Nat} (hn : n ≤ text.length)
    (h : runBack p text n = .ok m) :
    m ≤ n ∧ (∀ c ∈ slice text m n, p c = true) ∧
      ∀ k c, k + 1 = m → text[k]? = some c → p c = false := by
  obtain ⟨m', hm, hrun, hdrop, htake⟩ := runBack_of_le p hn
  cases hrun.symm.trans h
  refine ⟨hm, fun c hc => ?_, ?_⟩
  · exact List.mem_takeWhile_imp (htake ▸ List.mem_reverse.mpr hc)
  · rintro k c rfl hc
    obtain ⟨hk, rfl⟩ := List.getElem?_eq_some_iff.mp hc
    have hhead := List.head?_dropWhile_not p (text.take n).reverse
    rw [hdrop, take_succ_reverse hk] at hhead
    simpa using hhead

/-- A stretch of characters of a class does not reach across one that is not in it. -/
theorem le_of_all_slice {p : Char → Bool} {text : List Char} {i j lo : Nat}
    (hj : j ≤ text.length) (hlo : lo ≤ j) (hall : ∀ c ∈ slice text i j, p c = true)
    (hstop : ∀ k c, k + 1 = lo → text[k]? = some c → p c = false) : lo ≤ i := by
  by_contra hlt
  obtain ⟨k, rfl⟩ : ∃ k, lo = k + 1 := ⟨lo - 1, by omega⟩
  have hc : text[k]? = some text[k] := List.getElem?_eq_getElem (Nat.lt_of_lt_of_le hlo hj)
  have hpass := hall _ (mem_slice (Nat.lt_succ_iff.mp (Nat.not_le.mp hlt)) hlo hc)
  rw [hstop k _ rfl hc] at hpass
  cases hpass

/-- A run back does not pass a character that is not in its class. -/
theorem le_of_runBack {p : Char → Bool} {text : List Char} {n m lo : Nat}
    (hn : n ≤ text.length) (h : runBack p text n = .ok m) (hlo : lo ≤ n)
    (hstop : ∀ k c, k + 1 = lo → text[k]? = some c → p c = false) : lo ≤ m :=
  le_of_all_slice hn hlo (runBack_spec hn h).2.1 hstop

/-- A run back passes over a stretch of characters of its class. -/
theorem runBack_le {p : Char → Bool} {text : List Char} {n m j : Nat} (hn : n ≤ text.length)
    (h : runBack p text n = .ok m) (hall : ∀ c ∈ slice text j n, p c = true) : m ≤ j :=
  have ⟨hm, _, hstop⟩ := runBack_spec hn h
  le_of_all_slice hn hm hall hstop

/-- Where the identifier stands that a look back from a back-tick reads. -/
def identifierAt (text : List Char) (backtick : Nat) : Except Fault Range := do
  let blank ← runBack isBlank text backtick
  let code ← gapBack text blank backtick
  let start ← runBack isIdentifierChar text code
  .ok ⟨start, code⟩

/-- The runs of a look back: over white space, over a comment and over an identifier. -/
structure LookBack (text : List Char) (backtick blank : Nat) (tag : Range) : Prop where
  overBlank : runBack isBlank text backtick = .ok blank
  overGap : gapBack text blank backtick = .ok tag.stop
  overIdentifier : runBack isIdentifierChar text tag.stop = .ok tag.start

/-- From a back-tick of the text there is a look back, and the literal is tagged exactly if
it reads the identifier of markup. -/
theorem exists_lookBack {text : List Char} {backtick : Nat} (h : backtick ≤ text.length) :
    ∃ blank tag, LookBack text backtick blank tag ∧ identifierAt text backtick = .ok tag ∧
      tagged (text.take backtick) = (slice text tag.start tag.stop == markupIdentifier) := by
  obtain ⟨blank, hblank, hoverBlank, _⟩ := runBack_of_le isBlank h
  obtain ⟨code, hcode, hoverGap⟩ : ∃ code ≤ blank, gapBack text blank backtick = .ok code := by
    unfold gapBack
    split
    · obtain ⟨code, hcode, hback, _⟩ := commentBack_of_le (Nat.le_trans hblank h)
      exact ⟨code, hcode, hback⟩
    · exact ⟨blank, Nat.le_refl _, rfl⟩
  obtain ⟨start, _, hoverIdentifier, _⟩ :=
    runBack_of_le isIdentifierChar (show code ≤ text.length by omega)
  refine ⟨blank, ⟨start, code⟩, ⟨hoverBlank, hoverGap, hoverIdentifier⟩, ?_, ?_⟩
  · simp only [identifierAt, bind, Except.bind, hoverBlank, hoverGap, hoverIdentifier]
  · have hanswer := taggedAt_of_le h
    simp only [taggedAt, bind, Except.bind, hoverBlank, hoverGap, hoverIdentifier] at hanswer
    exact (Except.ok.inj hanswer).symm

/-! ## The comment that is stepped over -/

/-- A line comment that ends the code in front of a back-tick: it begins with `//` outside of
the quotes of its line, goes on to the end of the line, and nothing but white space follows
it. -/
structure CommentBefore (text : List Char) (backtick : Nat) (comment : Range) : Prop where
  mark : ['/', '/'] <+: slice text comment.start comment.stop
  unquoted : Unquoted (lastLine (text.take comment.start))
  oneLine : '\n' ∉ slice text comment.start comment.stop
  lineEnd : text[comment.stop]? = some '\n'
  inFront : comment.stop < backtick
  blank : ∀ c ∈ slice text comment.stop backtick, isBlank c = true

theorem take_append_slice_take (text : List Char) {i j : Nat} (h : i ≤ j) :
    text.take i ++ slice text i j = text.take j := by
  have hslice := slice_append text (Nat.zero_le i) h
  simpa only [slice, List.drop_zero, Nat.sub_zero] using hslice

/-- A comment in front of a back-tick is a comment of the line that a look back stops on. -/
theorem CommentBefore.commentAt {text : List Char} {backtick blank : Nat} {comment : Range}
    (h : CommentBefore text backtick comment) (hlen : backtick ≤ text.length)
    (hblank : runBack isBlank text backtick = .ok blank) :
    '\n' ∈ slice text blank backtick ∧ comment.start ≤ blank ∧
      lastLine (text.take blank)
        = lastLine (text.take comment.start) ++ slice text comment.start blank ∧
      CommentAt (lastLine (text.take blank)) (lastLine (text.take comment.start)).length := by
  have hstop : blank ≤ comment.stop := runBack_le hlen hblank h.blank
  obtain ⟨rest, hrest⟩ := h.mark
  obtain ⟨_, _, hrest⟩ := slice_eq_cons_iff.mp hrest.symm
  obtain ⟨hstart, hslash, _⟩ := slice_eq_cons_iff.mp hrest.symm
  -- A slash is not blank, so the look back stops behind the mark.
  have hmark : comment.start + 2 ≤ blank := by
    refine le_of_runBack hlen hblank (Nat.lt_trans hstart h.inFront) fun k c hk hc => ?_
    cases Nat.succ.inj hk
    cases hc.symm.trans hslash
    rfl
  have hline : lastLine (text.take blank)
      = lastLine (text.take comment.start) ++ slice text comment.start blank := by
    rw [← take_append_slice_take text (show comment.start ≤ blank by omega)]
    refine lastLine_append (fun hmem => h.oneLine ?_) _
    rw [← slice_append text (show comment.start ≤ blank by omega) hstop]
    exact List.mem_append_left _ hmem
  refine ⟨mem_slice hstop h.inFront h.lineEnd, by omega, hline, ?_⟩
  rw [hline]
  refine ⟨?_, by rw [List.take_left]; exact h.unquoted⟩
  rw [List.drop_left]
  have hfront : slice text comment.start blank <+: slice text comment.start comment.stop :=
    ⟨_, slice_append text (by omega) hstop⟩
  refine List.prefix_of_prefix_length_le h.mark hfront ?_
  rw [length_slice]
  have := (runBack_spec hlen hblank).1
  simp only [List.length_cons, List.length_nil]
  omega

theorem lastLine_of_endsLine {before : List Char} (h : EndsLine before) : lastLine before = [] := by
  rcases h with rfl | ⟨front, rfl⟩
  · rfl
  · exact List.rtakeWhile_concat_neg _ _ _ (by simp)

/-- An offset on the last line of some code cuts the line in two. -/
theorem cut_lastLine {text : List Char} {stop n : Nat} (hstop : stop ≤ text.length)
    (hn : n ≤ (lastLine (text.take stop)).length) :
    ∃ start ≤ stop, start = stop - (lastLine (text.take stop)).length + n ∧
      lastLine (text.take start) = (lastLine (text.take stop)).take n ∧
      slice text start stop = (lastLine (text.take stop)).drop n := by
  obtain ⟨before, hsplit, hbefore, hline⟩ := exists_lastLine (text.take stop)
  generalize lastLine (text.take stop) = line at hsplit hline hn ⊢
  have hlength : stop = before.length + line.length := by
    rw [← List.length_append, ← hsplit, List.length_take, Nat.min_eq_left hstop]
  have hle : before.length + n ≤ stop := by
    rw [hlength]
    exact Nat.add_le_add_left hn _
  have htake : text.take (before.length + n) = before ++ line.take n := by
    rw [← List.take_length_add_append, ← hsplit, List.take_take, Nat.min_eq_left hle]
  refine ⟨before.length + n, hle, by rw [hlength, Nat.add_sub_cancel], ?_, ?_⟩
  · have hpiece : '\n' ∉ line.take n := fun hmem => hline (List.mem_of_mem_take hmem)
    rw [htake, lastLine_append hpiece, lastLine_of_endsLine hbefore, List.nil_append]
  · have hjoin : text.take (before.length + n) ++ slice text (before.length + n) stop
        = text.take (before.length + n) ++ line.drop n := by
      rw [take_append_slice_take text hle, htake, List.append_assoc, List.take_append_drop, hsplit]
    exact List.append_cancel_left hjoin

/-- A comment of the line that a look back stops on, with a line break behind it, is a
comment in front of the back-tick. -/
theorem exists_commentBefore {text : List Char} {backtick blank n : Nat}
    (hlen : backtick ≤ text.length) (hblank : runBack isBlank text backtick = .ok blank)
    (hbreak : '\n' ∈ slice text blank backtick)
    (hmark : CommentAt (lastLine (text.take blank)) n) :
    ∃ stop, CommentBefore text backtick
      ⟨blank - (lastLine (text.take blank)).length + n, stop⟩ := by
  obtain ⟨hle, hrun, _⟩ := runBack_spec hlen hblank
  obtain ⟨stop, hfind⟩ : ∃ stop, findAt text ['\n'] blank backtick = some stop := by
    refine Option.ne_none_iff_exists'.mp fun hnone => ?_
    exact not_mem_of_cutAt?_none (Option.map_eq_none_iff.mp hnone) hbreak
  obtain ⟨hstop, hfront⟩ := findAt_lt hfind
  obtain ⟨hstopLen, hfeed⟩ := readAt_ok (readAt_of_findAt hfind)
  have hcut := cutAt?_slice text ['\n'] blank backtick
  rw [hfind] at hcut
  have hn : n ≤ (lastLine (text.take blank)).length := by
    have hshort := hmark.1.length_le
    simp only [List.length_drop, List.length_cons, List.length_nil] at hshort
    omega
  obtain ⟨start, hstart, hoffset, hfrontLine, hslice⟩ := cut_lastLine (Nat.le_trans hle hlen) hn
  -- The comment is the rest of the line, and the white space up to the line break.
  have hrest : slice text start stop
      = (lastLine (text.take blank)).drop n ++ slice text blank stop := by
    rw [← hslice, slice_append text hstart hstop]
  refine ⟨stop, ?_⟩
  rw [← hoffset]
  refine ⟨?_, ?_, ?_, ?_, hfront, fun c hc => hrun c ?_⟩
  · rw [hrest]
    exact hmark.1.trans (List.prefix_append _ _)
  · rw [hfrontLine]
    exact hmark.2
  · obtain ⟨_, _, _, hline⟩ := exists_lastLine (text.take blank)
    rw [hrest, List.mem_append, not_or]
    exact ⟨fun hmem => hline (List.mem_of_mem_drop hmem), not_mem_before hcut⟩
  · rw [List.getElem?_eq_getElem hstopLen, hfeed]
  · rw [← slice_append text hstop (Nat.le_of_lt hfront)]
    exact List.mem_append_right _ hc

/-- Either no comment stands in front of a back-tick, or the look back steps over the one that
begins first. -/
theorem gapBack_cases {text : List Char} {backtick blank code : Nat}
    (hlen : backtick ≤ text.length) (hblank : runBack isBlank text backtick = .ok blank)
    (hcode : gapBack text blank backtick = .ok code) :
    (code = blank ∧ ∀ comment, ¬ CommentBefore text backtick comment) ∨
    ∃ comment, CommentBefore text backtick comment ∧
      (∀ other, CommentBefore text backtick other → comment.start ≤ other.start) ∧
      runBack isBlank text comment.start = .ok code := by
  unfold gapBack at hcode
  split at hcode
  · next hbreak =>
      have hbreak : '\n' ∈ slice text blank backtick := List.contains_iff_mem.mp hbreak
      have hline : ((text.take blank).reverse.takeWhile (· ≠ '\n')).reverse
          = lastLine (text.take blank) := rfl
      simp only [commentBack, hline] at hcode
      cases hsearch : commentStart? {} (lastLine (text.take blank)) with
      | none =>
          rw [hsearch] at hcode
          refine .inl ⟨(Except.ok.inj hcode).symm, fun comment hcomment => ?_⟩
          obtain ⟨_, _, _, hmark⟩ := hcomment.commentAt hlen hblank
          exact commentStart?_eq_none_iff.mp hsearch _ hmark
      | some n =>
          rw [hsearch] at hcode
          obtain ⟨hmark, hfirst⟩ := commentStart?_eq_some_iff.mp hsearch
          obtain ⟨stop, hcomment⟩ := exists_commentBefore hlen hblank hbreak hmark
          refine .inr ⟨_, hcomment, fun other hother => ?_, hcode⟩
          obtain ⟨_, hle, hother, hmark'⟩ := hother.commentAt hlen hblank
          have hn : n ≤ (lastLine (text.take other.start)).length :=
            Nat.not_lt.mp fun hlt => hfirst _ hlt hmark'
          have hshort : (lastLine (text.take other.start)).length ≤ other.start :=
            (List.rtakeWhile_suffix _ _).length_le.trans (List.length_take_le _ _)
          have hlength := congrArg List.length hother
          have hblankLen := (runBack_spec hlen hblank).1
          rw [List.length_append, length_slice] at hlength
          show blank - (lastLine (text.take blank)).length + n ≤ other.start
          omega
  · next hbreak =>
      refine .inl ⟨(Except.ok.inj hcode).symm, fun comment hcomment => hbreak ?_⟩
      exact List.contains_iff_mem.mpr (hcomment.commentAt hlen hblank).1

/-! ## Code that is searched -/

/-- Code begins at an offset: at the start of the text, behind a back-tick or behind an opening
brace. -/
def BeginsCode (text : List Char) (lo : Nat) : Prop :=
  ∀ k, k + 1 = lo → text[k]? = some '\x60' ∨ text[k]? = some '\x7b'

theorem BeginsCode.not_blank {text : List Char} {lo : Nat} (h : BeginsCode text lo) :
    ∀ k c, k + 1 = lo → text[k]? = some c → isBlank c = false := by
  intro k c hk hc
  rcases h k hk with h | h <;> cases hc.symm.trans h <;> rfl

theorem BeginsCode.not_identifier {text : List Char} {lo : Nat} (h : BeginsCode text lo) :
    ∀ k c, k + 1 = lo → text[k]? = some c → isIdentifierChar c = false := by
  intro k c hk hc
  rcases h k hk with h | h <;> cases hc.symm.trans h <;> rfl

/-- A look back from a back-tick in some code stays in the code exactly if no comment in
front of the back-tick begins before the code, and else it reads nothing of the code. -/
theorem LookBack.start_cases {text : List Char} {backtick blank lo : Nat} {tag : Range}
    (h : LookBack text backtick blank tag) (hlen : backtick ≤ text.length) (hlo : lo ≤ backtick)
    (hbegins : BeginsCode text lo) :
    tag.stop ≤ backtick ∧
    ((lo ≤ tag.start ∧ ¬ ∃ comment, CommentBefore text backtick comment ∧ comment.start < lo) ∨
      (tag.stop < lo ∧ ∃ comment, CommentBefore text backtick comment ∧ comment.start < lo)) := by
  have hblank := (runBack_spec hlen h.overBlank).1
  have hloBlank : lo ≤ blank := le_of_runBack hlen h.overBlank hlo hbegins.not_blank
  rcases gapBack_cases hlen h.overBlank h.overGap with
    ⟨hstop, hnone⟩ | ⟨comment, hcomment, hfirst, hrun⟩
  · have hlow := le_of_runBack (by omega) h.overIdentifier (by omega) hbegins.not_identifier
    exact ⟨by omega, .inl ⟨hlow, fun ⟨comment, hcomment, _⟩ => hnone comment hcomment⟩⟩
  · have hstart := (hcomment.commentAt hlen h.overBlank).2.1
    have hstop := (runBack_spec (by omega) hrun).1
    refine ⟨by omega, ?_⟩
    by_cases hacross : comment.start < lo
    · exact .inr ⟨by omega, comment, hcomment, hacross⟩
    · have hlow := le_of_runBack (by omega) hrun (Nat.not_lt.mp hacross) hbegins.not_blank
      have hlow := le_of_runBack (by omega) h.overIdentifier hlow hbegins.not_identifier
      refine .inl ⟨hlow, fun ⟨other, hother, hlt⟩ => hacross ?_⟩
      exact Nat.lt_of_le_of_lt (hfirst other hother) hlt

/-- A literal that closes in a window stands between two back-ticks of it. -/
theorem exists_literalText {i : Nat} {code : List Char} {r : Range}
    (h : r ∈ literalBodies i code) :
    ∃ front body back, code = front ++ '\x60' :: (body ++ '\x60' :: back) ∧ LiteralText body ∧
      r = ⟨i + front.length + 1, i + front.length + 1 + body.length⟩ := by
  fun_induction literalBodies i code with
  | case1 => cases h
  | case2 i cs rest hclose hlt after ih =>
      obtain ⟨body, rfl, hbody⟩ := Enclosure.close_eq_closed_iff.mp hclose
      have hafter : after = i + 1 + body.length + 1 := by
        simp only [after, List.length_append, List.length_cons]
        omega
      rcases List.mem_cons.mp h with rfl | h
      · refine ⟨[], body, rest, rfl, hbody, ?_⟩
        rw [hafter, Nat.add_sub_cancel]
        rfl
      · obtain ⟨front, inner, back, rfl, hinner, rfl⟩ := ih h
        refine ⟨'\x60' :: (body ++ '\x60' :: front), inner, back, by simp [Enclosure.closer],
          hinner, ?_⟩
        have hlength : after + front.length = i + ('\x60' :: (body ++ '\x60' :: front)).length := by
          rw [hafter]
          simp only [List.length_cons, List.length_append]
          omega
        rw [hlength]
  | case3 i cs hclose ih =>
      obtain ⟨front, body, back, rfl, hbody, rfl⟩ := ih h
      refine ⟨'\x60' :: front, body, back, rfl, hbody, ?_⟩
      rw [Nat.add_right_comm i 1]
      rfl
  | case4 i c cs hc ih =>
      obtain ⟨front, body, back, rfl, hbody, rfl⟩ := ih h
      refine ⟨c :: front, body, back, rfl, hbody, ?_⟩
      rw [Nat.add_right_comm i 1]
      rfl

/-- Where the back-ticks and the body of a literal of some code stand in the text. -/
theorem Range.exists_backtick {text : List Char} {code body : Range}
    (h : body ∈ code.literals text) :
    ∃ tick, body.start = tick + 1 ∧ text[tick]? = some '\x60' ∧
      text[body.stop]? = some '\x60' ∧ LiteralText (slice text body.start body.stop) := by
  obtain ⟨front, inner, back, hcode, hinner, rfl⟩ := exists_literalText h
  obtain ⟨_, hopen, hrest⟩ := slice_eq_cons_iff.mp (slice_of_append hcode.symm).2.symm
  obtain ⟨hbody, hclose⟩ := slice_of_append hrest
  refine ⟨code.start + front.length, rfl, hopen, (slice_eq_cons_iff.mp hclose.symm).2.1, ?_⟩
  exact hbody.subst (motive := LiteralText) hinner

/-- The search goes on behind a literal that it has completed. -/
theorem exists_literalBodies_tail {i : Nat} {code : List Char} {r : Range} {rs : List Range}
    (h : literalBodies i code = r :: rs) : ∃ window, literalBodies (r.stop + 1) window = rs := by
  fun_induction literalBodies i code with
  | case1 => cases h
  | case2 i cs rest hclose hlt after ih =>
      obtain ⟨rfl, rfl⟩ := List.cons.inj h
      exact ⟨rest, by rw [Nat.sub_add_cancel (by omega)]⟩
  | case3 i cs hclose ih => exact ih h
  | case4 i c cs hc ih => exact ih h

/-- Where the search of a range is after some literals: behind the last of them, or at the
start of the range. -/
def resumeOffset (start : Nat) (completed : List Range) : Nat :=
  completed.getLast?.elim start (·.stop + 1)

theorem resumeOffset_cons (start : Nat) (r : Range) (completed : List Range) :
    resumeOffset start (r :: completed) = resumeOffset (r.stop + 1) completed := by
  rw [resumeOffset, resumeOffset, List.getLast?_cons]
  cases completed.getLast? <;> rfl

/-- The back-tick of a literal stands behind the literals that the search has completed. -/
theorem resumeOffset_lt {i : Nat} {code : List Char} {completed behind : List Range}
    {body : Range} (h : literalBodies i code = completed ++ body :: behind) :
    i ≤ resumeOffset i completed ∧ resumeOffset i completed < body.start := by
  induction completed generalizing i code with
  | nil =>
      have horder := literalBodies_inOrder i code
      rw [h] at horder
      exact ⟨Nat.le_refl i, horder.1⟩
  | cons r completed ih =>
      have horder := literalBodies_inOrder i code
      rw [h] at horder
      obtain ⟨window, hwindow⟩ := exists_literalBodies_tail h
      obtain ⟨hle, hlt⟩ := ih hwindow
      rw [resumeOffset_cons]
      exact ⟨by have := horder.1; have := horder.2.1; omega, hlt⟩

/-- A range of the text that begins as code does. -/
structure CodeRange (text : List Char) (code : Range) : Prop where
  begins : BeginsCode text code.start
  stop_le : code.stop ≤ text.length

/-- The code of a placeholder begins behind a brace. -/
theorem codeRange_of_nestedCode {text : List Char} {code inner : Range}
    (h : inner ∈ code.nestedCode text) : CodeRange text inner := by
  obtain ⟨body, hbody, hinner⟩ := List.mem_flatMap.mp h
  obtain ⟨_, _, _, _, hliteral⟩ := Range.exists_backtick (List.mem_filter.mp hbody).1
  obtain ⟨ranges, hlayout⟩ := hliteral.layout body.start
  rw [Range.placeholders, hlayout.placeholdersFrom_eq] at hinner
  obtain ⟨front, code, back, hsplit, _, rfl⟩ := hlayout.exists_code hinner
  obtain ⟨_, _, hmark⟩ := slice_eq_cons_iff.mp (slice_of_placeholder hsplit).1
  refine ⟨fun k hk => .inr ?_, stop_le_of_mem_nestedCode h⟩
  cases Nat.succ.inj hk
  exact (slice_eq_cons_iff.mp hmark.symm).2.1

/-- A turn of the search puts only code on the list. -/
theorem searchTurn_codeRange {text : List Char} {pending found : List Range}
    (h : ∀ code ∈ pending, CodeRange text code) :
    ∀ code ∈ (searchTurn text (pending, found)).1, CodeRange text code := by
  cases pending with
  | nil => exact h
  | cons code pending =>
      intro next hnext
      rcases List.mem_append.mp hnext with hnested | hpending
      · exact codeRange_of_nestedCode (List.mem_reverse.mp hnested)
      · exact h next (List.mem_cons_of_mem code hpending)

/-- All ranges that are ever on the list of the search are code. -/
theorem searchTurns_codeRange (text : List Char) (n : Nat) :
    ∀ code ∈ ((searchTurn text)^[n] ([⟨0, text.length⟩], [])).1, CodeRange text code := by
  induction n with
  | zero =>
      intro code hcode
      rw [List.mem_singleton.mp hcode]
      exact ⟨fun k hk => absurd hk (Nat.succ_ne_zero k), Nat.le_refl _⟩
  | succ n ih =>
      rw [Function.iterate_succ_apply']
      exact searchTurn_codeRange ih

/-- Behind completed literals, too, code begins. -/
theorem CodeRange.begins_resumeOffset {text : List Char} {code : Range}
    (h : CodeRange text code) {completed : List Range}
    (hcompleted : ∀ r ∈ completed, r ∈ code.literals text) :
    BeginsCode text (resumeOffset code.start completed) := by
  rw [resumeOffset]
  cases hlast : completed.getLast? with
  | none => exact h.begins
  | some last =>
      obtain ⟨_, _, _, hclose, _⟩ :=
        Range.exists_backtick (hcompleted last (List.mem_of_getLast? hlast))
      intro k hk
      cases Nat.succ.inj hk
      exact .inl hclose

/-- Let the search of a text accept a literal as tagged.  The identifier that tags it stands in
the code that is being searched, behind the literals completed so far, exactly if no line
comment in front of the back-tick begins before that code.  If one does, then the whole
identifier stands before the code. -/
theorem tag_in_searched_code_iff {text : List Char} {n : Nat} {code body : Range}
    {pending found completed behind : List Range}
    (hsearch : (searchTurn text)^[n] ([⟨0, text.length⟩], []) = (code :: pending, found))
    (hliterals : code.literals text = completed ++ body :: behind)
    (htagged : body.isTagged text = true) :
    ∃ tag : Range, identifierAt text (body.start - 1) = .ok tag ∧
      slice text tag.start tag.stop = markupIdentifier ∧
      code.start ≤ resumeOffset code.start completed ∧ tag.stop ≤ body.start - 1 ∧
      (resumeOffset code.start completed ≤ tag.start ↔
        ¬ ∃ comment, CommentBefore text (body.start - 1) comment ∧
          comment.start < resumeOffset code.start completed) ∧
      (resumeOffset code.start completed ≤ tag.start ∨
        tag.stop < resumeOffset code.start completed) := by
  have hcode : CodeRange text code := by
    have hall := searchTurns_codeRange text n
    rw [hsearch] at hall
    exact hall code List.mem_cons_self
  have hlo : code.start ≤ resumeOffset code.start completed
      ∧ resumeOffset code.start completed < body.start := resumeOffset_lt hliterals
  have hbody : body ∈ code.literals text := by
    rw [hliterals]
    exact List.mem_append_right _ List.mem_cons_self
  have hlen : body.start - 1 ≤ text.length := by
    obtain ⟨tick, htick, hopen, _⟩ := Range.exists_backtick hbody
    rw [htick, Nat.add_sub_cancel]
    exact Nat.le_of_lt (List.getElem?_eq_some_iff.mp hopen).1
  have hbegins : BeginsCode text (resumeOffset code.start completed) := by
    refine hcode.begins_resumeOffset fun r hr => ?_
    rw [hliterals]
    exact List.mem_append_left _ hr
  obtain ⟨blank, tag, hlook, hidentifier, hanswer⟩ := exists_lookBack hlen
  obtain ⟨hstop, hcases⟩ := hlook.start_cases hlen (Nat.le_sub_one_of_lt hlo.2) hbegins
  have htag : tag.start ≤ tag.stop :=
    (runBack_spec (Nat.le_trans hstop hlen) hlook.overIdentifier).1
  refine ⟨tag, hidentifier, eq_of_beq (hanswer.symm.trans htagged), hlo.1, hstop, ?_⟩
  rcases hcases with ⟨hinside, hnone⟩ | ⟨houtside, hcomment⟩
  · exact ⟨iff_of_true hinside hnone, .inl hinside⟩
  · have hacross : ¬ resumeOffset code.start completed ≤ tag.start := by omega
    exact ⟨iff_of_false hacross (not_not_intro hcomment), .inr houtside⟩

/-- The comment between the identifier and the second literal begins behind the first one, and
so the identifier stands behind it, too. -/
theorem tag_in_searched_code_iff_behind_literal :
    let text := ['\x60', 'a', '\x60', ',', 'h', 't', 'm', 'l', ' ', '/', '/', 'c', '\n',
      '\x60', 'b', '\x60']
    (⟨0, 16⟩ : Range).literals text = [⟨1, 2⟩, ⟨14, 15⟩] ∧
      Range.isTagged text ⟨14, 15⟩ = true ∧ identifierAt text 13 = .ok ⟨4, 8⟩ ∧
      ¬ ∃ comment, CommentBefore text 13 comment ∧ comment.start < 3 := by
  intro text
  have hliterals : (⟨0, 16⟩ : Range).literals text = [⟨1, 2⟩] ++ [⟨14, 15⟩] := by decide +kernel
  have htagged : Range.isTagged text ⟨14, 15⟩ = true := by decide
  have hidentifier : identifierAt text 13 = .ok ⟨4, 8⟩ := by decide
  obtain ⟨tag, htag, _, _, _, hinside, _⟩ := tag_in_searched_code_iff (n := 0) rfl hliterals htagged
  cases hidentifier.symm.trans htag
  exact ⟨hliterals, htagged, hidentifier, hinside.mp (by decide)⟩

/-- The second line of the first literal ends in a comment mark behind the identifier, and the
mark is outside of the quotes of its line.  The look back from the second literal steps over
the mark, the closing back-tick and the code behind it, so the text of the first literal tags
the second. -/
theorem literal_text_tags_next :
    let text := ['\x60', '\n', 'h', 't', 'm', 'l', ' ', '/', '/', ' ', 'a', '\x60', ',', '\n',
      '\x60', 'b', '\x60']
    (⟨0, text.length⟩ : Range).literals text = [⟨1, 11⟩, ⟨15, 16⟩] ∧
      Range.isTagged text ⟨1, 11⟩ = false ∧ Range.isTagged text ⟨15, 16⟩ = true ∧
      identifierAt text 14 = .ok ⟨2, 6⟩ ∧ ¬ resumeOffset 0 [⟨1, 11⟩] ≤ 2 ∧
      segments text .hostLanguage = [⟨15, 16⟩] := by
  decide +kernel

end TagColoring
