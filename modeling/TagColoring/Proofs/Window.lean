import TagColoring.Text.Window

/-!
# Slices and first occurrences

The characters between two offsets are taken apart here: the first of them, and
the parts before and behind an offset between the two.

`cutAt?` splits a window in front of the first occurrence of a mark.  The mark
stands nowhere in front of such a split (`cutAt?_first`), and every split in front
of a first occurrence is the one it gives (`cutAt?_of_first`).

A writer that puts a mark behind a piece of text knows only that the mark does
not occur in the piece.  The mark could still begin in the piece and end in
itself, as `aba` does in `ab` followed by `aba`.  An *unbordered* mark cannot:
none of its beginnings is also one of its ends.  All marks of the library are
of that sort.
-/

namespace TagColoring

/-! ## Slices -/

theorem slice_of_le {text : List Char} {start stop : Nat} (h : stop ≤ start) :
    slice text start stop = [] := by
  rw [slice, Nat.sub_eq_zero_of_le h, List.take_zero]

theorem slice_of_length_le {text : List Char} {start stop : Nat} (h : text.length ≤ start) :
    slice text start stop = [] := by
  rw [slice, List.drop_eq_nil_of_le h, List.take_nil]

theorem slice_eq_nil {text : List Char} {start stop : Nat}
    (h : ¬ (start < stop ∧ start < text.length)) : slice text start stop = [] := by
  by_cases hstop : start < stop
  · exact slice_of_length_le (by omega)
  · exact slice_of_le (by omega)

theorem slice_min_length (text : List Char) (start stop : Nat) :
    slice text start (min stop text.length) = slice text start stop := by
  rw [slice, slice, List.take_eq_take_iff, List.length_drop]
  omega

/-- A slice inside the text begins with the character at its start. -/
theorem slice_cons {text : List Char} {start stop : Nat} (hstop : start < stop)
    (hlen : start < text.length) :
    slice text start stop = text[start] :: slice text (start + 1) stop := by
  obtain ⟨n, hn⟩ : ∃ n, stop - start = n + 1 := ⟨stop - start - 1, by omega⟩
  rw [slice, slice, List.drop_eq_getElem_cons hlen, hn, List.take_succ_cons]
  congr 2
  omega

theorem slice_eq_cons_iff {text rest : List Char} {start stop : Nat} {c : Char} :
    slice text start stop = c :: rest ↔
      start < stop ∧ text[start]? = some c ∧ rest = slice text (start + 1) stop := by
  constructor
  · intro h
    have hlen := congrArg List.length h
    rw [length_slice, List.length_cons] at hlen
    have hstart : start < text.length := by omega
    rw [slice_cons (by omega) hstart] at h
    rw [List.getElem?_eq_getElem hstart, (List.cons.inj h).1, (List.cons.inj h).2]
    exact ⟨by omega, rfl, rfl⟩
  · rintro ⟨hstop, hc, rfl⟩
    obtain ⟨hstart, rfl⟩ := List.getElem?_eq_some_iff.mp hc
    exact slice_cons hstop hstart

/-- A slice inside the text ends with the character before its stop. -/
theorem slice_succ {text : List Char} {start stop : Nat} (hstart : start ≤ stop)
    (hlen : stop < text.length) :
    slice text start (stop + 1) = slice text start stop ++ [text[stop]] := by
  have hdrop : stop - start < (text.drop start).length := by
    rw [List.length_drop]
    omega
  rw [slice, slice, Nat.succ_sub hstart, List.take_succ_eq_append_getElem hdrop,
    List.getElem_drop]
  congr 3
  omega

theorem drop_slice (text : List Char) (start stop n : Nat) :
    (slice text start stop).drop n = slice text (start + n) stop := by
  rw [slice, slice, List.drop_take, List.drop_drop]
  congr 1
  omega

theorem take_slice (text : List Char) (start stop n : Nat) :
    (slice text start stop).take n = slice text start (min (start + n) stop) := by
  rw [slice, slice, List.take_take]
  congr 1
  omega

theorem slice_append (text : List Char) {i j k : Nat} (hij : i ≤ j) (hjk : j ≤ k) :
    slice text i j ++ slice text j k = slice text i k := by
  have hlen : k - i = (j - i) + (k - j) := by omega
  have hstart : i + (j - i) = j := by omega
  rw [slice, slice, slice, hlen, List.take_add, List.drop_drop, hstart]

/-- The two parts of a slice are slices. -/
theorem slice_of_append {text before rest : List Char} {start stop : Nat}
    (h : before ++ rest = slice text start stop) :
    before = slice text start (start + before.length) ∧
      rest = slice text (start + before.length) stop := by
  have hlen : before.length ≤ stop - start := by
    have := length_slice_le text start stop
    rw [← h, List.length_append] at this
    omega
  constructor
  · have htake := congrArg (List.take before.length) h
    rwa [List.take_left, slice, List.take_take, Nat.min_eq_left hlen,
      ← Nat.add_sub_cancel_left start before.length] at htake
  · have hdrop := congrArg (List.drop before.length) h
    rwa [List.drop_left, drop_slice] at hdrop

theorem take_append_slice (text : List Char) {start stop : Nat} (h : start ≤ stop) :
    text.take start ++ (slice text start stop ++ text.drop stop) = text := by
  have hdrop : text.drop stop = (text.drop start).drop (stop - start) := by
    rw [List.drop_drop]
    congr 1
    omega
  rw [slice, hdrop, List.take_append_drop, List.take_append_drop]

/-- A slice that ends in the text tells where it starts. -/
theorem slice_start_inj {text : List Char} {i j stop : Nat} (hstop : stop ≤ text.length)
    (hi : i ≤ stop) (hj : j ≤ stop) (h : slice text i stop = slice text j stop) : i = j := by
  have hlen := congrArg List.length h
  rw [length_slice, length_slice] at hlen
  omega

/-! ## The split of a window -/

theorem cutAt?_of_first {mark rest : List Char} (hmark : mark <+: rest) (hrest : rest ≠ []) :
    ∀ {before : List Char}, (∀ i < before.length, ¬ mark <+: (before ++ rest).drop i) →
      cutAt? mark (before ++ rest) = some (before, rest)
  | [], _ => by
      cases rest with
      | nil => exact absurd rfl hrest
      | cons c cs =>
          rw [List.nil_append, cutAt?, if_pos (List.isPrefixOf_iff_prefix.mpr hmark)]
  | c :: before, hfirst => by
      have hc : ¬ mark.isPrefixOf (c :: (before ++ rest)) = true := by
        intro h
        exact hfirst 0 (by simp) (List.isPrefixOf_iff_prefix.mp h)
      have ih : cutAt? mark (before ++ rest) = some (before, rest) := by
        apply cutAt?_of_first hmark hrest
        intro i hi
        exact hfirst (i + 1) (by simpa using hi)
      rw [List.cons_append, cutAt?, if_neg hc, ih]
      rfl

/-- The mark stands nowhere in front of a cut. -/
theorem cutAt?_first {mark : List Char} :
    ∀ {cs before rest : List Char}, cutAt? mark cs = some (before, rest) →
      ∀ i < before.length, ¬ mark <+: cs.drop i
  | [], _, _, h => by simp [cutAt?] at h
  | c :: cs, before, rest, h => by
      rw [cutAt?] at h
      split at h
      · cases h
        intro i hi
        exact absurd hi (Nat.not_lt_zero i)
      · next hc =>
          obtain ⟨cut, hcut, heq⟩ := Option.map_eq_some_iff.mp h
          cases heq
          intro i hi
          cases i with
          | zero => exact fun hp => hc (List.isPrefixOf_iff_prefix.mpr hp)
          | succ i => exact cutAt?_first hcut i (by simpa using hi)

/-- A window without a cut does not have the mark. -/
theorem not_mem_of_cutAt?_none {c : Char} :
    ∀ {cs : List Char}, cutAt? [c] cs = none → c ∉ cs
  | [], _ => List.not_mem_nil
  | d :: cs, h => by
      rw [cutAt?] at h
      split at h
      · cases h
      · next hd =>
          have hrest := not_mem_of_cutAt?_none (Option.map_eq_none_iff.mp h)
          have hne : c ≠ d := by
            rintro rfl
            exact hd (by simp)
          exact fun hmem => (List.mem_cons.mp hmem).elim hne hrest

/-- What stands before a cut at a character does not have it. -/
theorem not_mem_before {c : Char} {cs before rest : List Char}
    (h : cutAt? [c] cs = some (before, rest)) : c ∉ before := by
  intro hmem
  obtain ⟨i, hi, hc⟩ := List.getElem_of_mem hmem
  refine cutAt?_first h i hi ⟨(cs.drop i).tail, ?_⟩
  have hcs := cutAt?_append h
  have hlen : i < cs.length := by
    rw [← hcs, List.length_append]
    omega
  have hget : cs[i] = c := by
    subst hcs
    rw [List.getElem_append_left hi, hc]
  rw [List.drop_eq_getElem_cons hlen, hget]
  rfl

/-- A window without a cut has the mark nowhere. -/
theorem cutAt?_eq_none_iff {mark : List Char} (hmark : mark ≠ []) :
    ∀ {cs : List Char}, cutAt? mark cs = none ↔ ∀ i, ¬ mark <+: cs.drop i
  | [] => by simp [cutAt?, hmark]
  | c :: cs => by
      rw [cutAt?]
      split
      · next hc =>
          have hc : mark <+: c :: cs := List.isPrefixOf_iff_prefix.mp hc
          exact iff_of_false (by simp) fun h => h 0 hc
      · next hc =>
          rw [Option.map_eq_none_iff, cutAt?_eq_none_iff hmark]
          constructor
          · rintro h (_ | i)
            · exact fun hp => hc (List.isPrefixOf_iff_prefix.mpr hp)
            · exact h i
          · exact fun h i => h (i + 1)

/-- The offset of the first occurrence of a mark between two offsets. -/
def findAt (text mark : List Char) (start stop : Nat) : Option Nat :=
  (cutAt? mark (slice text start stop)).map fun cut => start + cut.1.length

/-- A cut of a slice is a cut at the offset of the mark. -/
theorem cutAt?_slice (text mark : List Char) (start stop : Nat) :
    cutAt? mark (slice text start stop)
      = (findAt text mark start stop).map fun i => (slice text start i, slice text i stop) := by
  rw [findAt]
  cases h : cutAt? mark (slice text start stop) with
  | none => rfl
  | some cut =>
      obtain ⟨hbefore, hrest⟩ := slice_of_append (cutAt?_append h)
      show some (cut.1, cut.2) = some (_, _)
      rw [← hbefore, ← hrest]

theorem findAt_isPrefixOf {text mark : List Char} {start stop i : Nat}
    (h : findAt text mark start stop = some i) :
    start ≤ i ∧ mark.isPrefixOf (slice text i stop) = true := by
  have hcut := cutAt?_slice text mark start stop
  rw [h] at hcut
  obtain ⟨cut, _, rfl⟩ := Option.map_eq_some_iff.mp h
  exact ⟨Nat.le_add_right _ _, cutAt?_isPrefixOf hcut⟩

/-- A mark that is found ends in front of the second offset. -/
theorem findAt_le {text mark : List Char} {start stop i : Nat}
    (h : findAt text mark start stop = some i) : mark.length ≤ stop - i := by
  have hmark := List.isPrefixOf_iff_prefix.mp (findAt_isPrefixOf h).2
  exact Nat.le_trans hmark.length_le (length_slice_le text i stop)

theorem findAt_length {text mark : List Char} {start stop i : Nat}
    (h : findAt text mark start stop = some i) : start + (slice text start i).length = i := by
  obtain ⟨cut, hcut, rfl⟩ := Option.map_eq_some_iff.mp h
  rw [← (slice_of_append (cutAt?_append hcut)).1]

theorem findAt_lt {text : List Char} {c : Char} {start stop i : Nat}
    (h : findAt text [c] start stop = some i) : start ≤ i ∧ i < stop := by
  have hle := findAt_le h
  rw [List.length_singleton] at hle
  exact ⟨(findAt_isPrefixOf h).1, by omega⟩

theorem findAt_first {text mark : List Char} {start stop i : Nat}
    (h : findAt text mark start stop = some i) :
    ∀ j, start ≤ j → j < i → ¬ mark <+: slice text j stop := by
  intro j hj hji
  have hcut := cutAt?_slice text mark start stop
  rw [h] at hcut
  have hlen := findAt_length h
  have hfirst := cutAt?_first hcut (j - start) (by omega)
  rwa [drop_slice, Nat.add_sub_cancel' hj] at hfirst

theorem findAt_eq_none_iff {text mark : List Char} {start stop : Nat} (hmark : mark ≠ []) :
    findAt text mark start stop = none ↔ ∀ i, start ≤ i → ¬ mark <+: slice text i stop := by
  rw [findAt, Option.map_eq_none_iff, cutAt?_eq_none_iff hmark]
  constructor
  · intro h i hi
    have hdrop := h (i - start)
    rwa [drop_slice, Nat.add_sub_cancel' hi] at hdrop
  · intro h i
    rw [drop_slice]
    exact h (start + i) (Nat.le_add_right _ _)

/-- A mark stands at an offset and nowhere between the start and the offset. -/
def FirstAt (text mark : List Char) (start stop i : Nat) : Prop :=
  start ≤ i ∧ mark <+: slice text i stop ∧
    ∀ j, start ≤ j → j < i → ¬ mark <+: slice text j stop

/-- What is found is the first offset at which the mark stands. -/
theorem findAt_eq_some_iff {text mark : List Char} {start stop i : Nat} (hmark : mark ≠ []) :
    findAt text mark start stop = some i ↔ FirstAt text mark start stop i := by
  constructor
  · intro h
    obtain ⟨hstart, hstands⟩ := findAt_isPrefixOf h
    exact ⟨hstart, List.isPrefixOf_iff_prefix.mp hstands, findAt_first h⟩
  · rintro ⟨hstart, hstands, hfirst⟩
    cases hfind : findAt text mark start stop with
    | none => exact absurd hstands ((findAt_eq_none_iff hmark).mp hfind i hstart)
    | some j =>
        obtain ⟨hj, hstands'⟩ := findAt_isPrefixOf hfind
        have hstands' := List.isPrefixOf_iff_prefix.mp hstands'
        rcases Nat.lt_trichotomy i j with hij | rfl | hji
        · exact absurd hstands (findAt_first hfind i hstart hij)
        · rfl
        · exact absurd hstands' (hfirst j hj hji)

/-! ## Marks that do not overlap themselves -/

/-- No beginning of the mark, other than the whole of it, is also an end. -/
def Unbordered (mark : List Char) : Prop :=
  ∀ n < mark.length, 0 < n → mark.take n ≠ mark.drop (mark.length - n)

instance (mark : List Char) : Decidable (Unbordered mark) :=
  inferInstanceAs (Decidable (∀ n < mark.length, 0 < n → mark.take n ≠ mark.drop (mark.length - n)))

/-- A mark whose first character comes only once is unbordered. -/
theorem unbordered_cons {c : Char} {cs : List Char} (h : c ∉ cs) : Unbordered (c :: cs) := by
  intro n hn hpos heq
  obtain ⟨m, rfl⟩ : ∃ m, n = m + 1 := ⟨n - 1, by omega⟩
  obtain ⟨k, hk⟩ : ∃ k, (c :: cs).length - (m + 1) = k + 1 :=
    ⟨cs.length - m - 1, by simp at hn ⊢; omega⟩
  rw [hk, List.take_succ_cons, List.drop_succ_cons] at heq
  exact h (List.mem_of_mem_drop (heq ▸ List.mem_cons_self ..))

/-- An unbordered mark that begins in front of a copy of itself ends there too. -/
theorem Unbordered.prefix_left {mark p rest : List Char} (hu : Unbordered mark) (hp : p ≠ [])
    (h : mark <+: p ++ (mark ++ rest)) : mark <+: p := by
  by_cases hle : mark.length ≤ p.length
  · exact List.prefix_of_prefix_length_le h (List.prefix_append p _) hle
  · -- `p` is a proper beginning of the mark, so what is left of the mark is both its
    -- end and, read in the copy, its beginning.
    exfalso
    obtain ⟨q, rfl⟩ : p <+: mark :=
      List.prefix_of_prefix_length_le (List.prefix_append p _) h (by omega)
    have hq : q <+: (p ++ q) ++ rest := (List.prefix_append_right_inj p).mp h
    have hlen := List.length_pos_iff.mpr hp
    rw [List.length_append] at hle
    refine hu q.length (by simp; omega) (by omega) ?_
    have htake : (p ++ q).take q.length = q := by
      have := List.prefix_iff_eq_take.mp hq
      rw [List.take_append_of_le_length (by simp)] at this
      exact this.symm
    rw [htake, List.length_append, Nat.add_sub_cancel, List.drop_left]

/-- A piece in which the mark does not occur is cut off in front of the mark
that follows it. -/
theorem cutAt?_of_not_infix {mark before rest : List Char} (hu : Unbordered mark)
    (hmark : mark ≠ []) (hbefore : ¬ mark <:+: before) :
    cutAt? mark (before ++ (mark ++ rest)) = some (before, mark ++ rest) := by
  refine cutAt?_of_first (List.prefix_append mark rest) (by simp [hmark]) ?_
  intro i hi hp
  rw [List.drop_append_of_le_length (Nat.le_of_lt hi)] at hp
  have hdrop : before.drop i ≠ [] := by
    intro h
    have := congrArg List.length h
    rw [List.length_drop, List.length_nil] at this
    omega
  have hmid : mark <+: before.drop i := hu.prefix_left hdrop hp
  exact hbefore (hmid.isInfix.trans (List.drop_suffix i before).isInfix)

end TagColoring
