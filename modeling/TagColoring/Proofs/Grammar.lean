import TagColoring.Proofs.Cursor

/-!
# What the scans accept

The scans of `TagColoring.Enclosure` run with a stack.  What they accept is said
here without one, by grammars that refer to each other.

* `Code` is what stands in a placeholder: plain characters, balanced braces,
  quoted strings and template literals.
* `QuotedText` is the inside of a quoted string in code, and `LiteralText` the
  body of a template literal.  In the latter a placeholder holds code again.
* `TagText` is a tag between its brackets, and `ValueText` an attribute value
  between its quotes.

A stack of enclosures closes a text if the text is a row of bodies, one for each
enclosure from the inside out, and behind each body stands a character that leaves
the enclosure (`Closes`).  `closeIn_eq_closed_iff` says that the scan closes
exactly these texts.  Both directions follow the scan or the grammar alone, so
nothing is said about a deepest nesting.

A body never closes its own enclosure, and the end of an enclosure is thus the
only one.  `Lookup.Finds` puts the three things together that a search can be
asked for: which offsets it finds, that there is at most one of them, and when it
finds none.
-/

namespace TagColoring

/-! ## The grammars -/

/-- The inside of a quoted string in code. -/
inductive QuotedText (quote : Quote) : List Char → Prop where
  | nil : QuotedText quote []
  /-- A backslash and any character. -/
  | escape {c : Char} {cs : List Char} :
      QuotedText quote cs → QuotedText quote ('\\' :: c :: cs)
  | char {c : Char} {cs : List Char} :
      c ≠ quote.mark → c ≠ '\\' → QuotedText quote cs → QuotedText quote (c :: cs)

mutual

/-- The code of a placeholder. -/
inductive Code : List Char → Prop where
  | nil : Code []
  | char {c : Char} {cs : List Char} :
      c ∉ ['\x27', '\x22', '\x60', '\x7b', '\x7d'] → Code cs → Code (c :: cs)
  | braces {code cs : List Char} :
      Code code → Code cs → Code ('\x7b' :: (code ++ '\x7d' :: cs))
  | string {quote : Quote} {inside cs : List Char} :
      QuotedText quote inside → Code cs → Code (quote.mark :: (inside ++ quote.mark :: cs))
  | literal {body cs : List Char} :
      LiteralText body → Code cs → Code ('\x60' :: (body ++ '\x60' :: cs))

/-- The body of a template literal. -/
inductive LiteralText : List Char → Prop where
  | nil : LiteralText []
  /-- A backslash and any character. -/
  | escape {c : Char} {cs : List Char} : LiteralText cs → LiteralText ('\\' :: c :: cs)
  | placeholder {code cs : List Char} :
      Code code → LiteralText cs → LiteralText ('$' :: '\x7b' :: (code ++ '\x7d' :: cs))
  | char {c : Char} {cs : List Char} :
      c ≠ '\x60' → c ≠ '\\' → ¬ (c = '$' ∧ cs.head? = some '\x7b') →
      LiteralText cs → LiteralText (c :: cs)

end

/-- The inside of a quoted attribute value. -/
inductive ValueText (quote : Quote) : List Char → Prop where
  | nil : ValueText quote []
  /-- A backslash and any character. -/
  | escape {c : Char} {cs : List Char} : ValueText quote cs → ValueText quote ('\\' :: c :: cs)
  | placeholder {code cs : List Char} :
      Code code → ValueText quote cs → ValueText quote ('$' :: '\x7b' :: (code ++ '\x7d' :: cs))
  | char {c : Char} {cs : List Char} :
      c ≠ quote.mark → c ≠ '\\' → ¬ (c = '$' ∧ cs.head? = some '\x7b') →
      ValueText quote cs → ValueText quote (c :: cs)

/-- A tag between its brackets. -/
inductive TagText : List Char → Prop where
  | nil : TagText []
  | placeholder {code cs : List Char} :
      Code code → TagText cs → TagText ('$' :: '\x7b' :: (code ++ '\x7d' :: cs))
  | value {quote : Quote} {inside cs : List Char} :
      ValueText quote inside → TagText cs →
      TagText (quote.mark :: (inside ++ quote.mark :: cs))
  | char {c : Char} {cs : List Char} :
      c ∉ ['\x27', '\x22', '>'] → ¬ (c = '$' ∧ cs.head? = some '\x7b') →
      TagText cs → TagText (c :: cs)

/-- What can stand in an enclosure before it is closed. -/
def Enclosure.Holds : Enclosure → List Char → Prop
  | .braces => Code
  | .string quote => QuotedText quote
  | .template => LiteralText
  | .tag => TagText
  | .value quote => ValueText quote

/-! ## What a character does -/

theorem Enclosure.closer_ne_brace (e : Enclosure) : e.closer ≠ '\x7b' := by
  cases e with
  | braces => decide
  | string quote => cases quote <;> decide
  | template => decide
  | tag => decide
  | value quote => cases quote <;> decide

theorem Enclosure.eq_dollar_of_move {e : Enclosure} {c : Char} (h : e.move c = .dollar) :
    c = '$' := by
  cases e <;> simp only [Enclosure.move] at h <;> repeat' split at h
  all_goals first | assumption | cases h

theorem Enclosure.eq_backslash_of_move {e : Enclosure} {c : Char} (h : e.move c = .escape) :
    c = '\\' := by
  cases e <;> simp only [Enclosure.move] at h <;> repeat' split at h
  all_goals first | assumption | cases h

/-- Braces and back-ticks open only in code, and quotes also in a tag. -/
theorem Enclosure.enter_cases {e inner : Enclosure} {c : Char} (h : e.move c = .enter inner) :
    (e = .braces ∧ c = '\x7b' ∧ inner = .braces) ∨
    (e = .braces ∧ c = '\x60' ∧ inner = .template) ∨
    ∃ quote : Quote, c = quote.mark ∧
      (e = .braces ∧ inner = .string quote ∨ e = .tag ∧ inner = .value quote) := by
  cases e <;> simp only [Enclosure.move] at h <;> repeat' split at h
  all_goals cases h
  · next hc => exact .inr (.inr ⟨.single, hc, .inl ⟨rfl, rfl⟩⟩)
  · next hc => exact .inr (.inr ⟨.double, hc, .inl ⟨rfl, rfl⟩⟩)
  · next hc => exact .inr (.inl ⟨rfl, hc, rfl⟩)
  · next hc => exact .inl ⟨rfl, hc, rfl⟩
  · next hc => exact .inr (.inr ⟨.single, hc, .inr ⟨rfl, rfl⟩⟩)
  · next hc => exact .inr (.inr ⟨.double, hc, .inr ⟨rfl, rfl⟩⟩)

/-! ## Grammars grow as the scan goes on -/

section Holds

variable {e inner : Enclosure} {c : Char} {body cs : List Char}

theorem Enclosure.holds_nil (e : Enclosure) : e.Holds [] := by
  cases e with
  | braces => exact Code.nil
  | string quote => exact QuotedText.nil
  | template => exact LiteralText.nil
  | tag => exact TagText.nil
  | value quote => exact ValueText.nil

theorem Enclosure.Holds.plain
    (hm : e.move c = .stay ∨ e.move c = .dollar ∧ cs.head? ≠ some '\x7b') (h : e.Holds cs) :
    e.Holds (c :: cs) := by
  cases e with
  | braces => exact Code.char (by grind [Enclosure.move]) h
  | string quote => exact QuotedText.char (by grind [Enclosure.move]) (by grind [Enclosure.move]) h
  | template =>
      exact LiteralText.char (by grind [Enclosure.move]) (by grind [Enclosure.move])
        (by grind [Enclosure.move]) h
  | tag => exact TagText.char (by grind [Enclosure.move]) (by grind [Enclosure.move]) h
  | value quote =>
      exact ValueText.char (by grind [Enclosure.move]) (by grind [Enclosure.move])
        (by grind [Enclosure.move]) h

theorem Enclosure.Holds.escape (hm : e.move c = .escape) (d : Char) (h : e.Holds cs) :
    e.Holds (c :: d :: cs) := by
  cases Enclosure.eq_backslash_of_move hm
  cases e with
  | braces => exact absurd hm (by decide)
  | string quote => exact QuotedText.escape h
  | template => exact LiteralText.escape h
  | tag => exact absurd hm (by decide)
  | value quote => exact ValueText.escape h

theorem Enclosure.Holds.placeholder (hm : e.move c = .dollar) (hcode : Code body)
    (h : e.Holds cs) : e.Holds (c :: '\x7b' :: (body ++ '\x7d' :: cs)) := by
  cases Enclosure.eq_dollar_of_move hm
  cases e with
  | braces => exact absurd hm (by decide)
  | string quote => cases quote <;> exact absurd hm (by decide)
  | template => exact LiteralText.placeholder hcode h
  | tag => exact TagText.placeholder hcode h
  | value quote => exact ValueText.placeholder hcode h

theorem Enclosure.Holds.enter (hm : e.move c = .enter inner) (hbody : inner.Holds body)
    (h : e.Holds cs) : e.Holds (c :: (body ++ inner.closer :: cs)) := by
  rcases Enclosure.enter_cases hm with ⟨rfl, rfl, rfl⟩ | ⟨rfl, rfl, rfl⟩ | ⟨quote, rfl, hinner⟩
  · exact Code.braces hbody h
  · exact Code.literal hbody h
  · rcases hinner with ⟨rfl, rfl⟩ | ⟨rfl, rfl⟩
    · exact Code.string hbody h
    · exact TagText.value hbody h

end Holds

/-! ## The scan passes over what the grammars allow -/

/-- A scan inside an enclosure comes through a body with the same stack.  Behind
the body no brace follows, for a dollar at its end would look at it. -/
def Enclosure.Passes (e : Enclosure) (body : List Char) : Prop :=
  ∀ (outer : List Enclosure) {tail : List Char}, tail.head? ≠ some '\x7b' →
    closeIn e outer (body ++ tail) = closeIn e outer tail

section Passes

variable {e inner : Enclosure} {c : Char} {body cs : List Char}

theorem Enclosure.passes_nil (e : Enclosure) : e.Passes [] := fun _ _ _ => rfl

theorem Enclosure.Passes.plain
    (hm : e.move c = .stay ∨ e.move c = .dollar ∧ cs.head? ≠ some '\x7b') (h : e.Passes cs) :
    e.Passes (c :: cs) := by
  intro outer tail htail
  rw [List.cons_append, ← h outer htail]
  rcases hm with hm | ⟨hm, hcs⟩
  · exact closeIn_of_stay hm
  · refine closeIn_of_dollar hm ?_
    cases cs with
    | nil => exact htail
    | cons d ds => exact hcs

theorem Enclosure.Passes.escape (hm : e.move c = .escape) (d : Char) (h : e.Passes cs) :
    e.Passes (c :: d :: cs) := by
  intro outer tail htail
  rw [List.cons_append, List.cons_append, closeIn_of_escape hm, h outer htail]

/-- A body behind which the closer of its enclosure stands is passed over with it. -/
theorem Enclosure.Passes.closes (hbody : inner.Passes body) (outer : List Enclosure)
    (tail : List Char) :
    closeIn inner (e :: outer) (body ++ inner.closer :: tail) = closeIn e outer tail := by
  have hcloser : (inner.closer :: tail).head? ≠ some '\x7b' :=
    fun h => inner.closer_ne_brace (Option.some.inj h)
  rw [hbody (e :: outer) hcloser, closeIn_of_leave_outer inner.move_closer]

theorem Enclosure.Passes.enter (hm : e.move c = .enter inner) (hbody : inner.Passes body)
    (h : e.Passes cs) : e.Passes (c :: (body ++ inner.closer :: cs)) := by
  intro outer tail htail
  rw [List.cons_append, List.append_assoc, List.cons_append, closeIn_of_enter hm,
    hbody.closes, h outer htail]

theorem Enclosure.Passes.placeholder (hm : e.move c = .dollar)
    (hcode : Enclosure.braces.Passes body) (h : e.Passes cs) :
    e.Passes (c :: '\x7b' :: (body ++ '\x7d' :: cs)) := by
  intro outer tail htail
  rw [List.cons_append, List.cons_append, List.append_assoc, List.cons_append,
    closeIn_of_dollar_brace hm]
  exact (hcode.closes outer (cs ++ tail)).trans (h outer htail)

end Passes

theorem QuotedText.passes {quote : Quote} {body : List Char} (h : QuotedText quote body) :
    (Enclosure.string quote).Passes body := by
  induction h with
  | nil => exact Enclosure.passes_nil _
  | escape _ ih => exact .escape rfl _ ih
  | char hmark hback _ ih => exact .plain (.inl (by simp [Enclosure.move, hmark, hback])) ih

mutual

theorem Code.passes : ∀ {body : List Char}, Code body → Enclosure.braces.Passes body
  | _, .nil => Enclosure.passes_nil _
  | _, .char hc h => by
      simp only [List.mem_cons, List.not_mem_nil, or_false, not_or] at hc
      exact .plain (.inl (by simp [Enclosure.move, hc])) h.passes
  | _, .braces hcode h => .enter rfl hcode.passes h.passes
  | _, @Code.string quote _ _ hinside h => by
      have hm : Enclosure.braces.move quote.mark = .enter (.string quote) := by
        cases quote <;> rfl
      exact .enter hm hinside.passes h.passes
  | _, .literal hbody h => .enter rfl hbody.passes h.passes

theorem LiteralText.passes : ∀ {body : List Char}, LiteralText body →
    Enclosure.template.Passes body
  | _, .nil => Enclosure.passes_nil _
  | _, .escape h => .escape rfl _ h.passes
  | _, .placeholder hcode h => .placeholder rfl hcode.passes h.passes
  | _, .char htick hback hc h => .plain (by grind [Enclosure.move]) h.passes

end

theorem ValueText.passes {quote : Quote} {body : List Char} (h : ValueText quote body) :
    (Enclosure.value quote).Passes body := by
  induction h with
  | nil => exact Enclosure.passes_nil _
  | escape _ ih => exact .escape rfl _ ih
  | placeholder hcode _ ih =>
      have hm : (Enclosure.value quote).move '$' = .dollar := by cases quote <;> rfl
      exact .placeholder hm hcode.passes ih
  | char hmark hback hc _ ih => exact .plain (by grind [Enclosure.move]) ih

theorem TagText.passes {body : List Char} (h : TagText body) : Enclosure.tag.Passes body := by
  induction h with
  | nil => exact Enclosure.passes_nil _
  | placeholder hcode _ ih => exact .placeholder rfl hcode.passes ih
  | @value quote _ _ hinside _ ih =>
      have hm : Enclosure.tag.move quote.mark = .enter (.value quote) := by
        cases quote <;> rfl
      exact .enter hm hinside.passes ih
  | char hc hdollar _ ih => exact .plain (by grind [Enclosure.move]) ih

theorem Enclosure.Holds.passes {e : Enclosure} {body : List Char} (h : e.Holds body) :
    e.Passes body := by
  cases e with
  | braces => exact Code.passes h
  | string quote => exact QuotedText.passes h
  | template => exact LiteralText.passes h
  | tag => exact TagText.passes h
  | value quote => exact ValueText.passes h

/-! ## The scan closes exactly what the grammars allow -/

/-- A text that begins with a body and a closer for each enclosure of a stack, from
the inside out, and goes on with a rest. -/
def Closes : List Enclosure → List Char → List Char → Prop
  | [], cs, rest => cs = rest
  | e :: outer, cs, rest =>
      ∃ body after, cs = body ++ e.closer :: after ∧ e.Holds body ∧ Closes outer after rest

theorem Closes.of_closeIn {e : Enclosure} {outer : List Enclosure} {cs rest : List Char}
    (h : closeIn e outer cs = .closed rest) : Closes (e :: outer) cs rest := by
  fun_induction closeIn e outer cs with
  | case1 => cases h
  | case2 e outer c cs hm ih =>
      obtain ⟨body, after, rfl, hbody, hafter⟩ := ih h
      exact ⟨c :: body, after, rfl, hbody.plain (.inl hm), hafter⟩
  | case3 e c cs hm =>
      cases h
      exact ⟨[], rest, by rw [Enclosure.eq_closer_of_move hm]; rfl, e.holds_nil, rfl⟩
  | case4 e c cs hm o os ih =>
      exact ⟨[], cs, by rw [Enclosure.eq_closer_of_move hm]; rfl, e.holds_nil, ih h⟩
  | case5 e outer c cs inner hm ih =>
      obtain ⟨inside, _, rfl, hinside, body, after, rfl, hbody, hafter⟩ := ih h
      exact ⟨c :: (inside ++ inner.closer :: body), after, by simp, .enter hm hinside hbody, hafter⟩
  | case6 => cases h
  | case7 e outer c hm d cs ih =>
      obtain ⟨body, after, rfl, hbody, hafter⟩ := ih h
      exact ⟨c :: d :: body, after, rfl, hbody.escape hm d, hafter⟩
  | case8 e outer c hm cs ih =>
      obtain ⟨code, _, rfl, hcode, body, after, rfl, hbody, hafter⟩ := ih h
      exact ⟨c :: '\x7b' :: (code ++ '\x7d' :: body), after, by simp [Enclosure.closer],
        hbody.placeholder hm hcode, hafter⟩
  | case9 e outer c hm cs hne ih =>
      obtain ⟨body, after, rfl, hbody, hafter⟩ := ih h
      have hhead : body.head? ≠ some '\x7b' := by
        intro hb
        obtain ⟨ds, rfl⟩ := List.head?_eq_some_iff.mp hb
        exact hne _ rfl
      exact ⟨c :: body, after, rfl, hbody.plain (.inr ⟨hm, hhead⟩), hafter⟩

theorem Closes.closeIn : ∀ {outer : List Enclosure} {e : Enclosure} {cs rest : List Char},
    Closes (e :: outer) cs rest → TagColoring.closeIn e outer cs = .closed rest
  | [], e, _, rest, ⟨body, after, hcs, hbody, hafter⟩ => by
      have hcloser : (e.closer :: after).head? ≠ some '\x7b' :=
        fun h => e.closer_ne_brace (Option.some.inj h)
      rw [hcs, hbody.passes [] hcloser, closeIn_of_leave e.move_closer, hafter]
  | o :: os, e, _, rest, ⟨body, after, hcs, hbody, hafter⟩ => by
      rw [hcs, hbody.passes.closes, hafter.closeIn]

/-- A scan closes a text exactly if the text is one body and closer behind the
other, from the inside out. -/
theorem closeIn_eq_closed_iff {e : Enclosure} {outer : List Enclosure} {cs rest : List Char} :
    closeIn e outer cs = .closed rest ↔ Closes (e :: outer) cs rest :=
  ⟨Closes.of_closeIn, Closes.closeIn⟩

theorem Enclosure.close_eq_closed_iff {e : Enclosure} {window rest : List Char} :
    e.close window = .closed rest ↔ ∃ body, window = body ++ e.closer :: rest ∧ e.Holds body := by
  rw [Enclosure.close, closeIn_eq_closed_iff]
  constructor
  · rintro ⟨body, after, hwindow, hbody, rfl⟩
    exact ⟨body, hwindow, hbody⟩
  · rintro ⟨body, hwindow, hbody⟩
    exact ⟨body, rest, hwindow, hbody, rfl⟩

/-! ## Ends below a limit -/

/-- A search finds exactly the offsets with a property, of which there is at most
one. -/
structure Lookup.Finds (search : Lookup) (IsEnd : Nat → Prop) : Prop where
  found_iff : ∀ i, search = .found i ↔ IsEnd i
  unique : ∀ i j, IsEnd i → IsEnd j → i = j
  missing_iff : search = .missing ↔ ∀ i, ¬ IsEnd i

/-- A search that does not overrun the text finds what it is known to find. -/
theorem Lookup.finds_of_iff {search : Lookup} {IsEnd : Nat → Prop} (hover : search ≠ .overrun)
    (h : ∀ i, search = .found i ↔ IsEnd i) : search.Finds IsEnd := by
  refine ⟨h, fun i j hi hj => ?_, fun hmissing i hi => ?_, fun hnone => ?_⟩
  · exact Lookup.found.inj (((h i).mpr hi).symm.trans ((h j).mpr hj))
  · rw [(h i).mpr hi] at hmissing
    cases hmissing
  · cases hsearch : search with
    | found i => exact absurd ((h i).mp hsearch) (hnone i)
    | missing => rfl
    | overrun => exact absurd hsearch hover

section Limit

variable {text : List Char} {limit : Nat}

/-- The offset behind the closer of an enclosure is one with a body of the
enclosure in front of the closer. -/
theorem Enclosure.lookup_eq_found_iff (e : Enclosure) (hlimit : limit ≤ text.length)
    (pos i : Nat) : e.lookup text pos limit = .found i ↔
      pos < i ∧ i ≤ limit ∧ text[i - 1]? = some e.closer ∧ e.Holds (slice text pos (i - 1)) := by
  constructor
  · intro h
    rw [Enclosure.lookup] at h
    split at h
    · cases h
    · simp only [Int.toNat_natCast] at h
      split at h
      · next rest hclose =>
          obtain ⟨body, hwindow, hbody⟩ := Enclosure.close_eq_closed_iff.mp hclose
          obtain ⟨hfront, hback⟩ := slice_of_append hwindow.symm
          have hi : i = pos + body.length + 1 := by
            have hfound := Lookup.found.inj h
            rw [hwindow, List.length_append, List.length_cons] at hfound
            omega
          obtain ⟨hlt, hcloser, _⟩ := slice_eq_cons_iff.mp hback.symm
          rw [hi, Nat.add_sub_cancel, ← hfront]
          exact ⟨by omega, by omega, hcloser, hbody⟩
      · split at h <;> cases h
      · split at h <;> cases h
  · rintro ⟨hpos, hlt, hcloser, hbody⟩
    have hrest : slice text (i - 1) limit = e.closer :: slice text i limit :=
      slice_eq_cons_iff.mpr ⟨by omega, hcloser, by rw [Nat.sub_add_cancel (by omega)]⟩
    have hwindow : slice text pos limit
        = slice text pos (i - 1) ++ e.closer :: slice text i limit := by
      rw [← hrest, slice_append text (by omega) (by omega)]
    have hclose : e.close (slice text pos limit) = .closed (slice text i limit) :=
      Enclosure.close_eq_closed_iff.mpr ⟨_, hwindow, hbody⟩
    rw [Enclosure.lookup, if_neg (by omega)]
    simp only [Int.toNat_natCast, hclose, length_slice]
    congr 1
    omega

/-- The closer itself stands one offset before the end of the enclosure. -/
theorem Enclosure.lookup_pred_eq_found_iff (e : Enclosure) (hlimit : limit ≤ text.length)
    (pos i : Nat) :
    (e.lookup text pos limit).map (· - 1) = .found i ↔
      pos ≤ i ∧ i < limit ∧ text[i]? = some e.closer ∧ e.Holds (slice text pos i) := by
  have hsucc := e.lookup_eq_found_iff hlimit pos (i + 1)
  rw [Nat.add_sub_cancel, Nat.lt_succ_iff, Nat.succ_le_iff] at hsucc
  rw [← hsucc]
  cases hsearch : e.lookup text pos limit with
  | found j =>
      have hj := ((e.lookup_eq_found_iff hlimit pos j).mp hsearch).1
      simp only [Lookup.map, Lookup.found.injEq]
      omega
  | missing => simp [Lookup.map]
  | overrun => simp [Lookup.map]

end Limit

/-- Below a limit inside the text, the end of a placeholder is the offset behind the
brace that closes its code, and the end of a template literal is the offset of the
back-tick that closes its body.  There is at most one such offset, and if there is
none then nothing is found. -/
theorem placeholder_and_literal_ends {text : List Char} {limit : Nat}
    (hlimit : limit ≤ text.length) (pos : Nat) :
    ((placeholderEnd text pos limit).Finds fun stop =>
      pos < stop ∧ stop ≤ limit ∧ text[stop - 1]? = some '\x7d' ∧
        Code (slice text pos (stop - 1))) ∧
    (literalEnd text pos limit).Finds fun tick =>
      pos ≤ tick ∧ tick < limit ∧ text[tick]? = some '\x60' ∧
        LiteralText (slice text pos tick) := by
  have hover : ∀ e : Enclosure, e.lookup text pos limit ≠ .overrun := fun e =>
    Enclosure.lookup_ne_overrun (by omega)
  constructor
  · exact Lookup.finds_of_iff (hover .braces) (Enclosure.braces.lookup_eq_found_iff hlimit pos)
  · exact Lookup.finds_of_iff (Lookup.map_ne_overrun _ (hover .template))
      (Enclosure.template.lookup_pred_eq_found_iff hlimit pos)

/-- Strings, an escaped back-tick and a placeholder hide the closers in them. -/
theorem placeholder_and_literal_ends_nested :
    let text := ['\x27', '\x7d', '\x27', '\x60', '$', '\x7b', 'a', '\x7d', '\\', '\x60', '\x60',
      '\x7d', '\x60']
    13 ≤ text.length ∧ Code (slice text 0 11) ∧ LiteralText (slice text 4 10) ∧
      ¬ LiteralText (slice text 4 12) := by
  intro text
  have hends := fun pos => placeholder_and_literal_ends (show 13 ≤ text.length by decide) pos
  have hcode := ((hends 0).1.found_iff 12).mp (by decide)
  have hliteral := ((hends 4).2.found_iff 10).mp (by decide)
  refine ⟨by decide, hcode.2.2.2, hliteral.2.2.2, fun hlong => ?_⟩
  have heq := (hends 4).2.unique 10 12 hliteral ⟨by decide, by decide, by decide, hlong⟩
  exact absurd heq (by decide)

/-- Below a limit inside the text, the end of a tag is the offset of the bracket
that closes its text.  There is at most one such offset, and if there is none then
nothing is found. -/
theorem tag_ends {text : List Char} {limit : Nat} (hlimit : limit ≤ text.length) (pos : Nat) :
    (tagEnd text pos limit).Finds fun last =>
      pos ≤ last ∧ last < limit ∧ text[last]? = some '>' ∧ TagText (slice text pos last) :=
  Lookup.finds_of_iff (Lookup.map_ne_overrun _ (Enclosure.lookup_ne_overrun (by omega)))
    (Enclosure.tag.lookup_pred_eq_found_iff hlimit pos)

/-- Brackets in a value and in the code of a placeholder do not end a tag. -/
theorem tag_ends_quoted :
    let text := ['<', 'a', ' ', '\x22', '>', '\\', '\x22', '$', '\x7b', '\x27', '\x22', '\x27',
      '\x7d', '\x22', '\\', '>', '>']
    17 ≤ text.length ∧ TagText (slice text 1 15) ∧ ¬ TagText (slice text 1 16) := by
  intro text
  have hends := tag_ends (show 17 ≤ text.length by decide) 1
  have htag := (hends.found_iff 15).mp (by decide)
  refine ⟨by decide, htag.2.2.2, fun hlong => ?_⟩
  have heq := hends.unique 15 16 htag ⟨by decide, by decide, by decide, hlong⟩
  exact absurd heq (by decide)

end TagColoring
