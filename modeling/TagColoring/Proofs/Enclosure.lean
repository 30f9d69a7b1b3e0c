import TagColoring.Enclosure.Lookup

/-!
# Closed enclosures

A scan that closes an enclosure has read a *body* and one more character, the
one that closes.  `closeIn_closed` says everything about such a scan at once.
Let `b` be the outermost enclosure of the stack.  After the body the stack is
`b` alone, so the character that closes is one that leaves `b`, and the scan of
any other window with the same body goes on behind it in `b`.  A dollar at the
end of the body is the one thing that looks ahead, so the other window must not
go on with a brace.

It follows that only `>` closes a tag (`tag_close_last`).
-/

namespace TagColoring

/-! ## One character of a scan -/

section Step

variable {e : Enclosure} {outer : List Enclosure} {c : Char} {cs : List Char}

theorem closeIn_of_stay (h : e.move c = .stay) :
    closeIn e outer (c :: cs) = closeIn e outer cs := by
  rw [closeIn.eq_def]
  simp only [h]

theorem closeIn_of_leave (h : e.move c = .leave) : closeIn e [] (c :: cs) = .closed cs := by
  rw [closeIn.eq_def]
  simp only [h]

theorem closeIn_of_leave_outer {o : Enclosure} {os : List Enclosure} (h : e.move c = .leave) :
    closeIn e (o :: os) (c :: cs) = closeIn o os cs := by
  rw [closeIn.eq_def]
  simp only [h]

theorem closeIn_of_enter {inner : Enclosure} (h : e.move c = .enter inner) :
    closeIn e outer (c :: cs) = closeIn inner (e :: outer) cs := by
  rw [closeIn.eq_def]
  simp only [h]

theorem closeIn_of_escape {d : Char} (h : e.move c = .escape) :
    closeIn e outer (c :: d :: cs) = closeIn e outer cs := by
  rw [closeIn.eq_def]
  simp only [h]

theorem closeIn_of_escape_end (h : e.move c = .escape) :
    closeIn e outer [c] = .dangling := by
  rw [closeIn.eq_def]
  simp only [h]

theorem closeIn_of_dollar_brace (h : e.move c = .dollar) :
    closeIn e outer (c :: '\x7b' :: cs) = closeIn .braces (e :: outer) cs := by
  rw [closeIn.eq_def]
  simp only [h]

/-- A dollar that no brace follows does nothing. -/
theorem closeIn_of_dollar (h : e.move c = .dollar) (hcs : cs.head? ≠ some '\x7b') :
    closeIn e outer (c :: cs) = closeIn e outer cs := by
  rw [closeIn.eq_def]
  simp only [h]
  split
  · exact absurd rfl hcs
  · rfl

end Step

/-! ## Closed scans -/

theorem closeIn_closed {e : Enclosure} {outer : List Enclosure} {cs rest : List Char}
    (h : closeIn e outer cs = .closed rest) :
    ∃ body c, cs = body ++ c :: rest ∧
      ((e :: outer).getLast (List.cons_ne_nil e outer)).move c = .leave ∧
      ∀ tail : List Char, tail.head? ≠ some '\x7b' →
        closeIn e outer (body ++ tail)
          = closeIn ((e :: outer).getLast (List.cons_ne_nil e outer)) [] tail := by
  fun_induction closeIn e outer cs with
  | case1 => cases h
  | case2 e outer c cs hm ih =>
      obtain ⟨body, d, rfl, hd, htail⟩ := ih h
      refine ⟨c :: body, d, rfl, hd, fun tail ht => ?_⟩
      rw [List.cons_append, closeIn_of_stay hm]
      exact htail tail ht
  | case3 e c cs hm =>
      cases h
      exact ⟨[], c, rfl, hm, fun _ _ => rfl⟩
  | case4 e c cs hm o os ih =>
      obtain ⟨body, d, rfl, hd, htail⟩ := ih h
      refine ⟨c :: body, d, rfl, by simpa using hd, fun tail ht => ?_⟩
      rw [List.cons_append, closeIn_of_leave_outer hm]
      simpa using htail tail ht
  | case5 e outer c cs inner hm ih =>
      obtain ⟨body, d, rfl, hd, htail⟩ := ih h
      refine ⟨c :: body, d, rfl, by simpa using hd, fun tail ht => ?_⟩
      rw [List.cons_append, closeIn_of_enter hm]
      simpa using htail tail ht
  | case6 => cases h
  | case7 e outer c hm x cs ih =>
      obtain ⟨body, d, rfl, hd, htail⟩ := ih h
      refine ⟨c :: x :: body, d, rfl, hd, fun tail ht => ?_⟩
      rw [List.cons_append, List.cons_append, closeIn_of_escape hm]
      exact htail tail ht
  | case8 e outer c hm cs ih =>
      obtain ⟨body, d, rfl, hd, htail⟩ := ih h
      refine ⟨c :: '\x7b' :: body, d, rfl, by simpa using hd, fun tail ht => ?_⟩
      rw [List.cons_append, List.cons_append, closeIn_of_dollar_brace hm]
      simpa using htail tail ht
  | case9 e outer c hm cs hne ih =>
      obtain ⟨body, d, hcs, hd, htail⟩ := ih h
      refine ⟨c :: body, d, by rw [hcs]; rfl, hd, fun tail ht => ?_⟩
      have hhead : (body ++ tail).head? ≠ some '\x7b' := by
        cases body with
        | nil => exact ht
        | cons b body =>
            intro hb
            have hb : b = '\x7b' := by simpa using hb
            exact hne _ (by rw [hcs, hb]; rfl)
      rw [List.cons_append, closeIn_of_dollar hm hhead]
      exact htail tail ht

/-! ## The character that closes -/

/-- The character that closes an enclosure. -/
def Enclosure.closer : Enclosure → Char
  | .braces => '\x7d'
  | .string quote => quote.mark
  | .template => '\x60'
  | .tag => '>'
  | .value quote => quote.mark

theorem Enclosure.move_closer (e : Enclosure) : e.move e.closer = .leave := by
  cases e with
  | braces => rfl
  | string quote => cases quote <;> rfl
  | template => rfl
  | tag => rfl
  | value quote => cases quote <;> rfl

/-- No other character closes an enclosure. -/
theorem Enclosure.eq_closer_of_move {e : Enclosure} {c : Char} (h : e.move c = .leave) :
    c = e.closer := by
  cases e <;> simp only [Enclosure.move] at h <;> repeat' split at h
  all_goals first | assumption | cases h

/-- A closed tag ends with a bracket. -/
theorem tag_close_last {cs rest : List Char} (h : Enclosure.tag.close cs = .closed rest) :
    ∃ body, cs = body ++ '>' :: rest := by
  obtain ⟨body, c, rfl, hc, _⟩ := closeIn_closed h
  exact ⟨body, by rw [Enclosure.eq_closer_of_move hc]; rfl⟩

/-- A run of characters that mean nothing in an enclosure is passed over. -/
theorem closeIn_stay {e : Enclosure} {outer : List Enclosure} {cs : List Char} :
    ∀ {run : List Char}, (∀ c ∈ run, e.move c = .stay) →
      closeIn e outer (run ++ cs) = closeIn e outer cs
  | [], _ => rfl
  | c :: run, h => by
      have hc : e.move c = .stay := h c (List.mem_cons_self ..)
      have ih : closeIn e outer (run ++ cs) = closeIn e outer cs :=
        closeIn_stay fun d hd => h d (List.mem_cons_of_mem c hd)
      rw [List.cons_append, closeIn_of_stay hc, ih]

end TagColoring
