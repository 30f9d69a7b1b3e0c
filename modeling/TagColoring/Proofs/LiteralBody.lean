import Mathlib.Algebra.Ring.Parity
import Mathlib.Data.List.DropRight
import TagColoring.Proofs.Grammar
import TagColoring.Proofs.Segments

/-!
# The placeholders of a closed literal

Two scans go through the body of a template literal.  The first one looks for the closing
back-tick, with a stack and up to the limit of the code around the literal.  The second one
collects the placeholders and stops at the closing back-tick.  Here both are shown to take
the body apart in the same way.

*Layout.*  A body is a row of escapes, placeholders and other characters, and `Layout` says
so together with the ranges of the placeholders.  Every body that closes has a layout
(`LiteralText.layout`).

*The same decisions.*  The second scan walks through a layout to its end
(`Layout.placeholdersFrom_eq`).  The first one is written once more with notes on the
stretches in which something else than the literal encloses the cursor (`scanNoting`), and
the notes of a layout are its placeholders (`Layout.scanNoting_eq`).

*Nothing is missed.*  Outside of the placeholders a back-tick or an opening of a placeholder
stands behind an odd number of backslashes, so a backslash hides it (`Layout.hides`).
-/

namespace TagColoring

/-! ## Layouts -/

/-- The body of a literal at an offset, with the ranges of the code in its placeholders. -/
inductive Layout : Nat → List Char → List Range → Prop where
  | nil {i : Nat} : Layout i [] []
  /-- A backslash and any character. -/
  | escape {i : Nat} {c : Char} {cs : List Char} {ranges : List Range} :
      Layout (i + 2) cs ranges → Layout i ('\\' :: c :: cs) ranges
  | placeholder {i : Nat} {code cs : List Char} {ranges : List Range} :
      Code code → Layout (i + 2 + code.length + 1) cs ranges →
      Layout i ('$' :: '\x7b' :: (code ++ '\x7d' :: cs)) (⟨i + 2, i + 2 + code.length⟩ :: ranges)
  | char {i : Nat} {c : Char} {cs : List Char} {ranges : List Range} :
      c ≠ '\x60' → c ≠ '\\' → ¬ (c = '$' ∧ cs.head? = some '\x7b') →
      Layout (i + 1) cs ranges → Layout i (c :: cs) ranges

/-- The body of a closed literal has a layout. -/
theorem LiteralText.layout : ∀ {body : List Char}, LiteralText body →
    ∀ i : Nat, ∃ ranges, Layout i body ranges
  | _, .nil, _ => ⟨[], .nil⟩
  | _, .escape h, i => (h.layout (i + 2)).imp fun _ => .escape
  | _, .placeholder hcode h, i =>
      have ⟨ranges, hranges⟩ := h.layout (i + 2 + _ + 1)
      ⟨_ :: ranges, .placeholder hcode hranges⟩
  | _, .char htick hback hopen h, i => (h.layout (i + 1)).imp fun _ => .char htick hback hopen

/-- The code of a placeholder closes in front of anything. -/
theorem Code.close {code : List Char} (h : Code code) (rest : List Char) :
    Enclosure.braces.close (code ++ '\x7d' :: rest) = .closed rest :=
  Enclosure.close_eq_closed_iff.mpr ⟨code, rfl, h⟩

/-- The walk that collects placeholders comes to the end of a layout with the ranges of
the layout. -/
theorem Layout.placeholdersFrom_eq {i : Nat} {body : List Char} {ranges : List Range}
    (h : Layout i body ranges) : placeholdersFrom i body = (ranges, .complete) := by
  induction h with
  | nil => rw [placeholdersFrom]
  | escape _ ih => rw [placeholdersFrom_escape, ih]
  | @placeholder i code cs ranges hcode _ ih =>
      have hafter : i + 2 + ((code ++ '\x7d' :: cs).length - cs.length)
          = i + 2 + code.length + 1 := by
        simp only [List.length_append, List.length_cons]
        omega
      rw [placeholdersFrom_closed (hcode.close cs), hafter, ih, Nat.add_sub_cancel]
  | char _ hback hopen _ ih => rw [placeholdersFrom_text hback hopen, ih]

/-! ## A scan with notes -/

/-- Put a range in front of the notes of a scan, if the scan is back in the outermost
enclosure. -/
def noteWhen (back : Bool) (r : Range) (scan : Extent × List Range) : Extent × List Range :=
  if back then (scan.1, r :: scan.2) else scan

/-- Scan as `closeIn` does, from the offset `i` on, and note the stretches in which the
cursor is deeper than the outermost enclosure.  `entered` is where the last of them
began. -/
def scanNoting (e : Enclosure) (outer : List Enclosure) (entered i : Nat) :
    List Char → Extent × List Range
  | [] => (.unclosed, [])
  | c :: cs =>
      match e.move c with
      | .stay => scanNoting e outer entered (i + 1) cs
      | .leave =>
          match outer with
          | [] => (.closed cs, [])
          | o :: os => noteWhen os.isEmpty ⟨entered, i⟩ (scanNoting o os entered (i + 1) cs)
      | .enter inner =>
          scanNoting inner (e :: outer) (if outer.isEmpty then i + 1 else entered) (i + 1) cs
      | .escape =>
          match cs with
          | [] => (.dangling, [])
          | _ :: cs => scanNoting e outer entered (i + 2) cs
      | .dollar =>
          match cs with
          | '\x7b' :: cs =>
              scanNoting .braces (e :: outer) (if outer.isEmpty then i + 2 else entered) (i + 2) cs
          | cs => scanNoting e outer entered (i + 1) cs
termination_by structural cs => cs

section Step

variable {e : Enclosure} {outer : List Enclosure} {entered i : Nat} {c : Char} {cs : List Char}

theorem scanNoting_of_stay (h : e.move c = .stay) :
    scanNoting e outer entered i (c :: cs) = scanNoting e outer entered (i + 1) cs := by
  rw [scanNoting.eq_def]
  simp only [h]

theorem scanNoting_of_leave (h : e.move c = .leave) :
    scanNoting e [] entered i (c :: cs) = (.closed cs, []) := by
  rw [scanNoting.eq_def]
  simp only [h]

theorem scanNoting_of_leave_outer {o : Enclosure} {os : List Enclosure}
    (h : e.move c = .leave) :
    scanNoting e (o :: os) entered i (c :: cs)
      = noteWhen os.isEmpty ⟨entered, i⟩ (scanNoting o os entered (i + 1) cs) := by
  rw [scanNoting.eq_def]
  simp only [h]

theorem scanNoting_of_enter {inner : Enclosure} (h : e.move c = .enter inner) :
    scanNoting e outer entered i (c :: cs)
      = scanNoting inner (e :: outer) (if outer.isEmpty then i + 1 else entered) (i + 1) cs := by
  rw [scanNoting.eq_def]
  simp only [h]

theorem scanNoting_of_escape {d : Char} (h : e.move c = .escape) :
    scanNoting e outer entered i (c :: d :: cs) = scanNoting e outer entered (i + 2) cs := by
  rw [scanNoting.eq_def]
  simp only [h]

theorem scanNoting_of_dollar_brace (h : e.move c = .dollar) :
    scanNoting e outer entered i (c :: '\x7b' :: cs)
      = scanNoting .braces (e :: outer) (if outer.isEmpty then i + 2 else entered) (i + 2) cs := by
  rw [scanNoting.eq_def]
  simp only [h]

theorem scanNoting_of_dollar (h : e.move c = .dollar) (hcs : cs.head? ≠ some '\x7b') :
    scanNoting e outer entered i (c :: cs) = scanNoting e outer entered (i + 1) cs := by
  rw [scanNoting.eq_def]
  simp only [h]
  split
  · exact absurd rfl hcs
  · rfl

theorem head?_ne_brace (h : ∀ ds, cs = '\x7b' :: ds → False) : cs.head? ≠ some '\x7b' := by
  intro hhead
  obtain ⟨ds, hcs⟩ := List.head?_eq_some_iff.mp hhead
  exact h ds hcs

end Step

/-- Without the notes it is the scan of the library. -/
theorem scanNoting_fst (e : Enclosure) (outer : List Enclosure) (entered i : Nat)
    (cs : List Char) : (scanNoting e outer entered i cs).1 = closeIn e outer cs := by
  fun_induction scanNoting e outer entered i cs with
  | case1 => rfl
  | case2 e outer entered i c cs hm ih => rw [closeIn_of_stay hm, ih]
  | case3 e entered i c cs hm => rw [closeIn_of_leave hm]
  | case4 e entered i c cs hm o os ih =>
      rw [closeIn_of_leave_outer hm, ← ih]
      unfold noteWhen
      split <;> rfl
  | case5 e outer entered i c cs inner hm ih => rw [closeIn_of_enter hm, ih]
  | case6 e outer entered i c hm => rw [closeIn_of_escape_end hm]
  | case7 e outer entered i c hm d cs ih => rw [closeIn_of_escape hm, ih]
  | case8 e outer entered i c hm cs ih => rw [closeIn_of_dollar_brace hm, ih]
  | case9 e outer entered i c hm cs hne ih =>
      rw [closeIn_of_dollar hm (head?_ne_brace hne), ih]

/-- A stack on top of one more enclosure closes as it does alone.  Then a stretch is noted,
and the scan goes on in the enclosure below. -/
theorem scanNoting_above {e : Enclosure} {outer : List Enclosure} {cs rest : List Char}
    (h : closeIn e outer cs = .closed rest) (below : Enclosure) (entered : Nat) {i j : Nat}
    (hj : j + 1 + rest.length = i + cs.length) :
    scanNoting e (outer ++ [below]) entered i cs
      = noteWhen true ⟨entered, j⟩ (scanNoting below [] entered (j + 1) rest) := by
  have hbelow : ∀ os : List Enclosure, (os ++ [below]).isEmpty = false := by simp
  fun_induction closeIn e outer cs generalizing i with
  | case1 => cases h
  | case2 e outer c cs hm ih =>
      rw [scanNoting_of_stay hm]
      exact ih h (hj.trans (Nat.add_right_comm i cs.length 1))
  | case3 e c cs hm =>
      cases h
      have hi : j = i := by
        rw [List.length_cons] at hj
        omega
      rw [List.nil_append, scanNoting_of_leave_outer hm, hi]
      rfl
  | case4 e c cs hm o os ih =>
      rw [List.cons_append, scanNoting_of_leave_outer hm, hbelow, noteWhen,
        if_neg Bool.false_ne_true]
      exact ih h (hj.trans (Nat.add_right_comm i cs.length 1))
  | case5 e outer c cs inner hm ih =>
      rw [scanNoting_of_enter hm, hbelow, if_neg Bool.false_ne_true]
      exact ih h (hj.trans (Nat.add_right_comm i cs.length 1))
  | case6 => cases h
  | case7 e outer c hm d cs ih =>
      rw [scanNoting_of_escape hm]
      exact ih h (hj.trans (Nat.add_right_comm i cs.length 2))
  | case8 e outer c hm cs ih =>
      rw [scanNoting_of_dollar_brace hm, hbelow, if_neg Bool.false_ne_true]
      exact ih h (hj.trans (Nat.add_right_comm i cs.length 2))
  | case9 e outer c hm cs hne ih =>
      rw [scanNoting_of_dollar hm (head?_ne_brace hne)]
      exact ih h (hj.trans (Nat.add_right_comm i cs.length 1))

/-- The notes of the scan for the closing back-tick of a layout are its placeholders. -/
theorem Layout.scanNoting_eq {i : Nat} {body : List Char} {ranges : List Range}
    (h : Layout i body ranges) (entered : Nat) (rest : List Char) :
    scanNoting .template [] entered i (body ++ '\x60' :: rest) = (.closed rest, ranges) := by
  induction h generalizing entered with
  | nil => exact scanNoting_of_leave rfl
  | escape _ ih =>
      rw [List.cons_append, List.cons_append, scanNoting_of_escape rfl, ih]
  | @placeholder i code cs ranges hcode _ ih =>
      have hclose := hcode.close (cs ++ '\x60' :: rest)
      rw [List.cons_append, List.cons_append, List.append_assoc, List.cons_append,
        scanNoting_of_dollar_brace rfl]
      have habove := scanNoting_above hclose .template (i + 2) (i := i + 2)
        (j := i + 2 + code.length) (by simp; omega)
      exact habove.trans (by rw [ih]; rfl)
  | @char i c cs ranges htick hback hopen _ ih =>
      have hhead : c = '$' → (cs ++ '\x60' :: rest).head? ≠ some '\x7b' := by
        intro hdollar
        cases cs with
        | nil => exact fun h => absurd (Option.some.inj h) (by decide)
        | cons d ds => exact fun h => hopen ⟨hdollar, h⟩
      rw [List.cons_append, ← ih entered]
      by_cases hdollar : c = '$'
      · subst hdollar
        exact scanNoting_of_dollar rfl (hhead rfl)
      · exact scanNoting_of_stay (by simp [Enclosure.move, htick, hback, hdollar])

/-! ## What a layout covers -/

/-- A range of a layout is the code between `${` and the brace that closes it. -/
theorem Layout.exists_code {i : Nat} {body : List Char} {ranges : List Range}
    (h : Layout i body ranges) {r : Range} (hr : r ∈ ranges) :
    ∃ front code back, body = front ++ '$' :: '\x7b' :: (code ++ '\x7d' :: back) ∧ Code code ∧
      r = ⟨i + front.length + 2, i + front.length + 2 + code.length⟩ := by
  induction h with
  | nil => cases hr
  | @escape i c cs ranges _ ih =>
      obtain ⟨front, code, back, rfl, hcode, rfl⟩ := ih hr
      refine ⟨'\\' :: c :: front, code, back, rfl, hcode, ?_⟩
      rw [Nat.add_right_comm i 2]
      rfl
  | @placeholder i code cs ranges hcode _ ih =>
      rcases List.mem_cons.mp hr with rfl | hr
      · exact ⟨[], code, cs, rfl, hcode, rfl⟩
      · obtain ⟨front, code', back, rfl, hcode', rfl⟩ := ih hr
        refine ⟨'$' :: '\x7b' :: (code ++ '\x7d' :: front), code', back, by simp, hcode', ?_⟩
        have hlen : i + 2 + code.length + 1 + front.length
            = i + ('$' :: '\x7b' :: (code ++ '\x7d' :: front)).length := by
          simp only [List.length_cons, List.length_append]
          omega
        rw [hlen]
  | @char i c cs ranges _ _ _ _ ih =>
      obtain ⟨front, code, back, rfl, hcode, rfl⟩ := ih hr
      refine ⟨c :: front, code, back, rfl, hcode, ?_⟩
      rw [Nat.add_right_comm i 1]
      rfl

/-- A backslash hides what stands behind a text: an odd number of backslashes stands at the
end of the text. -/
def Hides (front : List Char) : Prop := Odd (front.rtakeWhile (· = '\\')).length

instance (front : List Char) : Decidable (Hides front) :=
  inferInstanceAs (Decidable (Odd (front.rtakeWhile (· = '\\')).length))

/-- Only what stands behind another character than a backslash counts. -/
theorem hides_append_cons {c : Char} (hc : c ≠ '\\') (before front : List Char) :
    Hides (before ++ c :: front) ↔ Hides front := by
  have hrun : (before ++ c :: front).rtakeWhile (· = '\\') = front.rtakeWhile (· = '\\') := by
    rw [List.rtakeWhile, List.rtakeWhile, List.reverse_append, List.reverse_cons,
      List.append_assoc, List.takeWhile_append]
    split
    · next hall =>
        rw [List.singleton_append, List.takeWhile_cons_of_neg (by simpa using hc), List.append_nil]
        exact congrArg List.reverse ((List.takeWhile_prefix _).eq_of_length hall).symm
    · rfl
  rw [Hides, hrun, Hides]

/-- An escape in front does not change what is hidden behind it. -/
theorem Hides.escape {front : List Char} (h : Hides front) (c : Char) :
    Hides ('\\' :: c :: front) := by
  by_cases hc : c = '\\'
  · subst hc
    rw [Hides, List.rtakeWhile, List.length_reverse] at h ⊢
    rw [List.reverse_cons, List.reverse_cons, List.append_assoc, List.takeWhile_append]
    split
    · next hall =>
        rw [hall] at h
        rw [List.length_append]
        exact h.add_even even_two
    · exact h
  · exact (hides_append_cons hc ['\\'] front).mpr h

/-- Outside of the placeholders, what would close the literal or open a placeholder is
hidden. -/
theorem Layout.hides {i : Nat} {body : List Char} {ranges : List Range}
    (h : Layout i body ranges) {front back : List Char} {c : Char}
    (hbody : body = front ++ c :: back)
    (hout : ∀ r ∈ ranges, i + front.length + 2 < r.start ∨ r.stop < i + front.length)
    (hc : c = '\x60' ∨ c = '$' ∧ back.head? = some '\x7b') : Hides front := by
  induction h generalizing front with
  | nil => simp at hbody
  | @escape i d cs ranges _ ih =>
      match front, hbody with
      | [], hfront =>
          obtain ⟨rfl, _⟩ := List.cons.inj hfront
          exact absurd hc (by simp)
      | [b], hfront =>
          obtain ⟨rfl, _⟩ := List.cons.inj hfront
          decide
      | b :: b' :: front, hfront =>
          obtain ⟨rfl, hcs⟩ := List.cons.inj hfront
          have hcs := (List.cons.inj hcs).2
          refine (ih hcs fun r hr => ?_).escape b'
          simpa [Nat.add_right_comm i 2, Nat.add_assoc] using hout r hr
  | @placeholder i code cs ranges _ _ ih =>
      -- The front reaches over the placeholder, for its last character is outside of it.
      have hlen : ('$' :: '\x7b' :: (code ++ ['\x7d'])).length ≤ front.length := by
        have hfirst := hout _ List.mem_cons_self
        simp only [List.length_cons, List.length_append, List.length_nil] at hfirst ⊢
        omega
      have hsplit : ('$' :: '\x7b' :: (code ++ ['\x7d'])) ++ cs = front ++ c :: back := by
        rw [← hbody]
        simp
      obtain ⟨front, rfl⟩ := List.prefix_of_prefix_length_le (List.prefix_append _ cs)
        (hsplit ▸ List.prefix_append front (c :: back)) hlen
      rw [List.append_assoc] at hsplit
      have hhidden := ih (List.append_cancel_left hsplit) fun r hr => ?_
      · have hpiece : ('$' :: '\x7b' :: (code ++ ['\x7d'])) ++ front
            = ('$' :: '\x7b' :: code) ++ '\x7d' :: front := by simp
        rw [hpiece]
        exact (hides_append_cons (by decide) _ front).mpr hhidden
      · have hrest := hout r (List.mem_cons_of_mem _ hr)
        simp only [List.length_cons, List.length_append, List.length_nil] at hrest
        omega
  | @char i d cs ranges htick hback hopen _ ih =>
      cases front with
      | nil =>
          obtain ⟨rfl, rfl⟩ := List.cons.inj hbody
          exact (hc.elim htick hopen).elim
      | cons b front =>
          obtain ⟨rfl, hcs⟩ := List.cons.inj hbody
          refine (hides_append_cons hback [] front).mpr (ih hcs fun r hr => ?_)
          simpa [Nat.add_right_comm i 1, Nat.add_assoc] using hout r hr

/-! ## The two scans of a literal -/

/-- In a body inside the text, the walk has an answer. -/
theorem placeholders?_of_le {text : List Char} {pos close : Nat} (hpos : pos ≤ close)
    (hclose : close ≤ text.length) :
    placeholders? text pos close = some (placeholdersFrom pos (slice text pos close)).1 := by
  have hcursor := placeholdersAt_eq_placeholders? text pos close
  rw [placeholdersAt_of_le hclose (Nat.le_trans hpos hclose)] at hcursor
  cases hanswer : placeholders? text pos close with
  | none => rw [hanswer] at hcursor; cases hcursor
  | some found => rw [hanswer] at hcursor; exact congrArg some (Except.ok.inj hcursor).symm

/-- A character outside of a range and of the `${` and the brace around it. -/
def Range.Outside (r : Range) (k : Nat) : Prop := k + 2 < r.start ∨ r.stop < k

/-- Where the marks and the code of a placeholder stand in the text. -/
theorem slice_of_placeholder {text front code back : List Char} {pos close : Nat}
    (h : slice text pos close = front ++ '$' :: '\x7b' :: (code ++ '\x7d' :: back)) :
    slice text (pos + front.length) (pos + front.length + 2) = ['$', '\x7b'] ∧
      text[pos + front.length + 2 + code.length]? = some '\x7d' ∧
      slice text (pos + front.length + 2) (pos + front.length + 2 + code.length) = code := by
  have hopen := (slice_of_append h.symm).2
  have hmarks : ['$', '\x7b'] ++ (code ++ '\x7d' :: back) = slice text (pos + front.length) close :=
    hopen
  obtain ⟨hmark, hrest⟩ := slice_of_append hmarks
  obtain ⟨hcode, hbrace⟩ := slice_of_append hrest
  exact ⟨hmark.symm, (slice_eq_cons_iff.mp hbrace.symm).2.1, hcode.symm⟩

/-- Below a limit inside the text, let a literal close.  The walk through its body then comes
to the end of the body and leaves no placeholder unclosed.  It finds the placeholders that
the scan for the closing back-tick has passed over.  They stand in order in the body, each
with its code between `${` and a brace, and outside of them every back-tick and every `${` is
hidden by a backslash. -/
theorem placeholders_of_closed_literal {text : List Char} {pos limit close : Nat}
    (hlimit : limit ≤ text.length) (hclose : literalEnd text pos limit = .found close) :
    ∃ ranges : List Range,
      placeholdersFrom pos (slice text pos close) = (ranges, .complete) ∧
      placeholders? text pos close = some ranges ∧
      scanNoting .template [] pos pos (slice text pos limit)
        = (Enclosure.template.close (slice text pos limit), ranges) ∧
      ranges.Pairwise (fun r s => r.stop < s.start) ∧
      (∀ r ∈ ranges, pos + 2 ≤ r.start ∧ r.start ≤ r.stop ∧ r.stop < close ∧
        slice text (r.start - 2) r.start = ['$', '\x7b'] ∧ text[r.stop]? = some '\x7d' ∧
        Code (slice text r.start r.stop)) ∧
      ∀ k, pos ≤ k → k < close → (∀ r ∈ ranges, r.Outside k) →
        text[k]? = some '\x60' ∨ text[k]? = some '$' ∧ text[k + 1]? = some '\x7b' →
        Hides (slice text pos k) := by
  obtain ⟨hpos, hlt, htick, hbody⟩ :=
    (Enclosure.template.lookup_pred_eq_found_iff hlimit pos close).mp hclose
  obtain ⟨ranges, hlayout⟩ := LiteralText.layout hbody pos
  have hwalk := hlayout.placeholdersFrom_eq
  have hwindow : slice text pos limit
      = slice text pos close ++ '\x60' :: slice text (close + 1) limit := by
    rw [← slice_append text hpos (Nat.le_of_lt hlt)]
    congr 1
    exact slice_eq_cons_iff.mpr ⟨hlt, htick, rfl⟩
  have hinOrder : InOrder (pos + 2) close ranges := by
    have h := placeholdersFrom_inOrder pos (slice text pos close)
    have hlen := length_slice_le text pos close
    rw [hwalk] at h
    exact h.mono (Nat.le_refl _) (by omega)
  refine ⟨ranges, hwalk, ?_, ?_, hinOrder.pairwise, fun r hr => ?_, fun k hk hkc hout hmark => ?_⟩
  · rw [placeholders?_of_le hpos (by omega), hwalk]
  · refine Prod.ext (scanNoting_fst _ _ _ _ _) ?_
    rw [hwindow, hlayout.scanNoting_eq]
  · obtain ⟨front, code, back, hsplit, hcode, rfl⟩ := hlayout.exists_code hr
    obtain ⟨hopen, hbrace, hslice⟩ := slice_of_placeholder hsplit
    obtain ⟨hstart, hstop, hlast⟩ := hinOrder.mem _ hr
    exact ⟨hstart, hstop, hlast, hopen, hbrace, hslice.symm.subst (motive := Code) hcode⟩
  · obtain ⟨c, hc⟩ : ∃ c, text[k]? = some c := ⟨_, List.getElem?_eq_getElem (by omega)⟩
    have hsplit : slice text pos close = slice text pos k ++ c :: slice text (k + 1) close := by
      rw [← slice_append text hk (Nat.le_of_lt hkc)]
      congr 1
      exact slice_eq_cons_iff.mpr ⟨hkc, hc, rfl⟩
    have hlen : pos + (slice text pos k).length = k := by
      rw [length_slice]
      omega
    refine hlayout.hides hsplit (fun r hr => ?_) ?_
    · rw [hlen]
      exact hout r hr
    · rw [hc] at hmark
      refine hmark.imp Option.some.inj fun ⟨hdollar, hbrace⟩ => ⟨Option.some.inj hdollar, ?_⟩
      -- The brace is not the closing back-tick, so it stands in the body too.
      have hnext : k + 1 ≠ close := by
        rintro rfl
        rw [htick] at hbrace
        exact absurd (Option.some.inj hbrace) (by decide)
      rw [slice_eq_cons_iff.mpr ⟨by omega, hbrace, rfl⟩]
      rfl

/-- A string hides a brace in a placeholder, and backslashes hide a back-tick in front of it
and an opening behind it. -/
theorem placeholders_of_closed_literal_hidden :
    let text := ['\\', '\x60', '$', '\x7b', '\x27', '\x7d', '\x27', '\x7d', '\\', '$', '\x7b',
      '\x60', '\x60']
    12 ≤ text.length ∧ literalEnd text 0 12 = .found 11 ∧
      placeholders? text 0 11 = some [⟨4, 7⟩] ∧
      Hides (slice text 0 1) ∧ Hides (slice text 0 9) := by
  intro text
  have hclose : literalEnd text 0 12 = .found 11 := by decide
  obtain ⟨ranges, _, hwalk, hscan, _, _, hhides⟩ :=
    placeholders_of_closed_literal (show 12 ≤ text.length by decide) hclose
  have hranges : ranges = [⟨4, 7⟩] := by
    have hnotes : (scanNoting .template [] 0 0 (slice text 0 12)).2 = [⟨4, 7⟩] := by decide
    rw [hscan] at hnotes
    exact hnotes
  subst hranges
  have hout : ∀ k, k + 2 < 4 ∨ 7 < k → ∀ r ∈ [(⟨4, 7⟩ : Range)], r.Outside k := by
    intro k hk r hr
    rw [List.mem_singleton.mp hr]
    exact hk
  refine ⟨by decide, hclose, hwalk, ?_, ?_⟩
  · exact hhides 1 (by decide) (by decide) (hout 1 (by decide)) (by decide)
  · exact hhides 9 (by decide) (by decide) (hout 9 (by decide)) (by decide)

end TagColoring
