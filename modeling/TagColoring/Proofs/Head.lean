import Mathlib.Data.List.TakeWhile
import TagColoring.Enclosure
import TagColoring.Tag.Head

/-!
# Heads that are written and read

The characters of a name are letters, digits, colons and hyphens of plain ASCII.
So a name has no white space, no bracket and no slash in it, nothing in it means
anything to the scan for the end of a tag, and it stays a name in lower case.

`readName?_name` reads back a name that was written behind white space, and
`readName?_spec` takes apart whatever was read.
-/

namespace TagColoring

/-! ## The characters of a name -/

theorem isUpper_iff_toNat {c : Char} : c.isUpper = true ↔ 65 ≤ c.toNat ∧ c.toNat ≤ 90 := by
  delta Char.isUpper
  simp only [decide_eq_true_eq, ge_iff_le, UInt32.le_iff_toNat_le]
  exact Iff.rfl

theorem isLower_iff_toNat {c : Char} : c.isLower = true ↔ 97 ≤ c.toNat ∧ c.toNat ≤ 122 := by
  delta Char.isLower
  simp only [Bool.and_eq_true, decide_eq_true_eq, ge_iff_le, UInt32.le_iff_toNat_le]
  exact Iff.rfl

theorem isAlpha_iff {c : Char} : c.isAlpha = true ↔ c.isUpper = true ∨ c.isLower = true :=
  Bool.or_eq_true_iff

theorem isAlpha_toNat {c : Char} (h : c.isAlpha = true) :
    65 ≤ c.toNat ∧ c.toNat ≤ 90 ∨ 97 ≤ c.toNat ∧ c.toNat ≤ 122 :=
  (isAlpha_iff.mp h).imp isUpper_iff_toNat.mp isLower_iff_toNat.mp

theorem isNameChar_toNat {c : Char} (h : isNameChar c = true) :
    c.toNat = 45 ∨ 48 ≤ c.toNat ∧ c.toNat ≤ 58 ∨
      65 ≤ c.toNat ∧ c.toNat ≤ 90 ∨ 97 ≤ c.toNat ∧ c.toNat ≤ 122 := by
  simp only [isNameChar, Char.isAlphanum, Bool.or_eq_true, beq_iff_eq] at h
  rcases h with ((h | h) | rfl) | rfl
  · have := isAlpha_toNat h
    omega
  · simp only [Char.isDigit, Bool.and_eq_true, decide_eq_true_eq, ge_iff_le,
      UInt32.le_iff_toNat_le] at h
    have : 48 ≤ c.toNat ∧ c.toNat ≤ 57 := h
    omega
  · decide
  · decide

theorem isNameChar_of_isAlpha {c : Char} (h : c.isAlpha = true) : isNameChar c = true := by
  simp [isNameChar, Char.isAlphanum, h]

theorem isBlank_toNat {c : Char} (h : isBlank c = true) :
    c.toNat ≤ 32 ∨ 133 ≤ c.toNat := by
  simp only [isBlank, inRanges, blankRanges, List.any_cons, List.any_nil, Bool.or_eq_true,
    Bool.and_eq_true, decide_eq_true_eq, Bool.or_false] at h
  omega

theorem isNameChar_of_isBlank {c : Char} (h : isBlank c = true) : isNameChar c = false := by
  cases hn : isNameChar c with
  | false => rfl
  | true =>
      have h1 := isBlank_toNat h
      have h2 := isNameChar_toNat hn
      omega

theorem isBlank_of_isNameChar {c : Char} (h : isNameChar c = true) : isBlank c = false := by
  cases hb : isBlank c with
  | false => rfl
  | true => rw [isNameChar_of_isBlank hb] at h; cases h

/-- A character outside the ranges of names is none of a name. -/
theorem ne_of_isNameChar {c d : Char} (h : isNameChar c = true) (hd : isNameChar d = false) :
    c ≠ d := by
  rintro rfl
  rw [h] at hd
  cases hd

theorem tag_move_isNameChar {c : Char} (h : isNameChar c = true) :
    Enclosure.tag.move c = .stay := by
  have h1 : c ≠ '\x27' := ne_of_isNameChar h (by decide)
  have h2 : c ≠ '\x22' := ne_of_isNameChar h (by decide)
  have h3 : c ≠ '$' := ne_of_isNameChar h (by decide)
  have h4 : c ≠ '>' := ne_of_isNameChar h (by decide)
  simp [Enclosure.move, h1, h2, h3, h4]

/-! ## Lower case -/

theorem toLower_of_isLower {c : Char} (h : c.isLower = true) : c.toLower = c := by
  have hlower := isLower_iff_toNat.mp h
  delta Char.toLower
  split
  · next hupper =>
      have hupper : c.toNat ≤ 90 := hupper.2
      omega
  · rfl

/-- The lower case of a character is the character itself or a small letter. -/
theorem toLower_eq_or_isLower (c : Char) : c.toLower = c ∨ c.toLower.isLower = true := by
  delta Char.toLower
  split
  · next h =>
      have hupper : 65 ≤ c.toNat ∧ c.toNat ≤ 90 := h
      have hbound : c.toNat + 32 < 2 ^ 32 := by omega
      have hsum : (c.val + ('a'.val - 'A'.val)).toNat = c.toNat + 32 :=
        (UInt32.toNat_add _ _).trans (Nat.mod_eq_of_lt hbound)
      have hlower : 97 ≤ c.toNat + 32 ∧ c.toNat + 32 ≤ 122 := by omega
      rw [← hsum] at hlower
      exact .inr (isLower_iff_toNat.mpr hlower)
  · exact .inl rfl

theorem toLower_toLower (c : Char) : c.toLower.toLower = c.toLower := by
  rcases toLower_eq_or_isLower c with heq | hlower
  · rw [heq, heq]
  · exact toLower_of_isLower hlower

theorem isAlpha_toLower {c : Char} (h : c.isAlpha = true) : c.toLower.isAlpha = true := by
  rcases toLower_eq_or_isLower c with heq | hlower
  · rwa [heq]
  · exact isAlpha_iff.mpr (.inr hlower)

theorem isNameChar_toLower {c : Char} (h : isNameChar c = true) :
    isNameChar c.toLower = true := by
  rcases toLower_eq_or_isLower c with heq | hlower
  · rwa [heq]
  · exact isNameChar_of_isAlpha (isAlpha_iff.mpr (.inr hlower))

/-! ## Reading a name -/

/-- A name as the library reads it: a letter, and then characters of a name. -/
def IsName (name : List Char) : Prop :=
  name.head?.any Char.isAlpha = true ∧ ∀ c ∈ name, isNameChar c = true

instance (name : List Char) : Decidable (IsName name) :=
  @instDecidableAnd _ _ _ (List.decidableBAll (fun c => isNameChar c = true) name)

/-- A text that does not go on a name: it is empty or starts with another
character. -/
def EndsName (rest : List Char) : Prop := rest.head?.any isNameChar = false

instance (rest : List Char) : Decidable (EndsName rest) :=
  inferInstanceAs (Decidable (_ = _))

/-- A name starts with a letter. -/
theorem IsName.exists_cons {name : List Char} (h : IsName name) :
    ∃ c cs, name = c :: cs ∧ c.isAlpha = true := by
  cases name with
  | nil => exact absurd h.1 (by simp)
  | cons c cs => exact ⟨c, cs, rfl, by simpa using h.1⟩

theorem IsName.toLower {name : List Char} (h : IsName name) : IsName (name.map Char.toLower) := by
  obtain ⟨c, cs, rfl, hc⟩ := h.exists_cons
  refine ⟨isAlpha_toLower hc, fun d hd => ?_⟩
  obtain ⟨d', hd', rfl⟩ := List.mem_map.mp hd
  exact isNameChar_toLower (h.2 d' hd')

theorem IsName.not_mem {name : List Char} (h : IsName name) {d : Char}
    (hd : isNameChar d = false) : d ∉ name :=
  fun hmem => ne_of_isNameChar (h.2 d hmem) hd rfl

theorem takeWhile_isNameChar {name rest : List Char} (h : ∀ c ∈ name, isNameChar c = true)
    (hrest : EndsName rest) : (name ++ rest).takeWhile isNameChar = name := by
  rw [List.takeWhile_append_of_pos h]
  cases rest with
  | nil => simp
  | cons c cs =>
      have hc : isNameChar c = false := by simpa [EndsName] using hrest
      rw [List.takeWhile_cons_of_neg (by simp [hc]), List.append_nil]

/-- A name that was written behind white space is read back. -/
theorem readName?_name {slash : Bool} {gap name rest : List Char}
    (hgap : ∀ c ∈ gap, isBlank c = true) (hname : IsName name) (hrest : EndsName rest) :
    readName? slash (gap ++ (name ++ rest)) = some ⟨slash, gap, name⟩ := by
  obtain ⟨c, cs, rfl, hc⟩ := hname.exists_cons
  have hblank : ¬ isBlank c = true := by
    rw [isBlank_of_isNameChar (isNameChar_of_isAlpha hc)]
    exact Bool.false_ne_true
  have hdrop : (gap ++ ((c :: cs) ++ rest)).dropWhile isBlank = (c :: cs) ++ rest := by
    rw [List.dropWhile_append_of_pos hgap, List.cons_append, List.dropWhile_cons_of_neg hblank]
  have htake : (gap ++ ((c :: cs) ++ rest)).takeWhile isBlank = gap := by
    rw [List.takeWhile_append_of_pos hgap, List.cons_append, List.takeWhile_cons_of_neg hblank,
      List.append_nil]
  simp only [readName?, hdrop, htake, takeWhile_isNameChar hname.2 hrest]
  rw [if_pos (by simpa using hc)]

/-- The head of a written tag is read back. -/
theorem Head.read?_written {name rest : List Char} (hname : IsName name) (hrest : EndsName rest)
    (slash : Bool) :
    Head.read? ('<' :: ((if slash then ['/'] else []) ++ (name ++ rest)))
      = some ⟨slash, [], name⟩ := by
  have hread : readName? slash ([] ++ (name ++ rest)) = some ⟨slash, [], name⟩ :=
    readName?_name (by simp) hname hrest
  cases slash with
  | true => exact hread
  | false =>
      obtain ⟨c, cs, rfl, hc⟩ := hname.exists_cons
      have hslash : c ≠ '/' := ne_of_isNameChar (isNameChar_of_isAlpha hc) (by decide)
      simp only [Bool.false_eq_true, if_false, List.nil_append, List.cons_append] at hread ⊢
      rw [Head.read?]
      · exact hread
      · intro cs' heq
        exact hslash (List.cons.inj heq).1

theorem endsName_dropWhile (cs : List Char) : EndsName (cs.dropWhile isNameChar) := by
  have hnot := List.head?_dropWhile_not isNameChar cs
  unfold EndsName
  cases hd : (cs.dropWhile isNameChar).head? with
  | none => rfl
  | some d => rw [hd] at hnot; simpa using hnot

theorem IsName.append_takeWhile {name : List Char} (h : IsName name) (rest : List Char) :
    IsName (name ++ rest.takeWhile isNameChar) := by
  obtain ⟨c, cs, rfl, hc⟩ := h.exists_cons
  refine ⟨by simpa using hc, fun d hd => ?_⟩
  rcases List.mem_append.mp hd with hd | hd
  · exact h.2 d hd
  · exact List.mem_takeWhile_imp hd

/-- A name behind white space is read with all that goes on with it. -/
theorem readName?_longest (slash : Bool) {gap name : List Char}
    (hgap : ∀ c ∈ gap, isBlank c = true) (hname : IsName name) (rest : List Char) :
    readName? slash (gap ++ (name ++ rest))
      = some ⟨slash, gap, name ++ rest.takeWhile isNameChar⟩ := by
  have hread : readName? slash (gap ++ ((name ++ rest.takeWhile isNameChar)
      ++ rest.dropWhile isNameChar)) = _ :=
    readName?_name hgap (hname.append_takeWhile rest) (endsName_dropWhile rest)
  rwa [List.append_assoc, List.takeWhile_append_dropWhile] at hread

/-- What was read stands in the text, with nothing but white space before the
name, and the name is as long as it can be. -/
theorem readName?_spec {slash : Bool} {cs : List Char} {h : Head}
    (hr : readName? slash cs = some h) :
    h.slash = slash ∧ (∀ c ∈ h.gap, isBlank c = true) ∧ IsName h.name ∧
      ∃ rest, cs = h.gap ++ (h.name ++ rest) ∧ EndsName rest := by
  simp only [readName?] at hr
  split at hr
  · next halpha =>
      cases hr
      refine ⟨rfl, fun c hc => ?_, ⟨?_, fun c hc => ?_⟩,
        (cs.dropWhile isBlank).dropWhile isNameChar, ?_, ?_⟩
      · exact (List.mem_takeWhile_imp hc)
      · cases hd : cs.dropWhile isBlank with
        | nil => rw [hd] at halpha; simp at halpha
        | cons d ds =>
            rw [hd] at halpha
            have hd' : d.isAlpha = true := by simpa using halpha
            rw [List.takeWhile_cons_of_pos (isNameChar_of_isAlpha hd')]
            simpa using hd'
      · exact (List.mem_takeWhile_imp hc)
      · rw [List.takeWhile_append_dropWhile, List.takeWhile_append_dropWhile]
      · exact endsName_dropWhile _
  · cases hr

/-- A text with a head begins with its characters, and the name goes no further. -/
theorem Head.read?_spec {cs : List Char} {h : Head} (hr : Head.read? cs = some h) :
    (∀ c ∈ h.gap, isBlank c = true) ∧ IsName h.name ∧
      ∃ rest, cs = h.text ++ rest ∧ EndsName rest := by
  unfold Head.read? at hr
  split at hr
  · obtain ⟨hs, hgap, hname, rest, rfl, hrest⟩ := readName?_spec hr
    exact ⟨hgap, hname, rest, by simp [Head.text, hs], hrest⟩
  · obtain ⟨hs, hgap, hname, rest, rfl, hrest⟩ := readName?_spec hr
    exact ⟨hgap, hname, rest, by simp [Head.text, hs], hrest⟩
  · cases hr

theorem Head.length_text (h : Head) : h.text.length = h.nameStop := by
  cases hs : h.slash <;> simp [Head.text, Head.nameStop, Head.nameStart, hs] <;> omega

/-- A slash follows the bracket only if it belongs to the head. -/
theorem Head.isPrefixOf_text {h : Head} (hgap : ∀ c ∈ h.gap, isBlank c = true)
    (hname : IsName h.name) (rest : List Char) :
    ['<', '/'].isPrefixOf (h.text ++ rest) = h.slash := by
  cases hs : h.slash with
  | true => simp [Head.text, hs]
  | false =>
      -- What follows the bracket is white space or a letter.
      obtain ⟨c, cs, hcs, hc⟩ : ∃ c cs, h.gap ++ (h.name ++ rest) = c :: cs ∧ c ≠ '/' := by
        cases hg : h.gap with
        | nil =>
            obtain ⟨c, cs, hn, hc⟩ := hname.exists_cons
            exact ⟨c, cs ++ rest, by rw [hn]; rfl,
              ne_of_isNameChar (isNameChar_of_isAlpha hc) (by decide)⟩
        | cons c cs =>
            refine ⟨c, cs ++ (h.name ++ rest), rfl, ?_⟩
            rintro rfl
            have hblank := hgap '/' (by rw [hg]; exact List.mem_cons_self ..)
            exact absurd hblank (by decide)
      have htext : h.text ++ rest = '<' :: c :: cs := by simp [Head.text, hs, ← hcs]
      rw [htext, List.isPrefixOf, List.isPrefixOf, beq_false_of_ne hc.symm]
      rfl

/-- A text begins with a bracket, perhaps a slash, perhaps white space, and a name. -/
def HasTagName (chars : List Char) : Prop :=
  ∃ (h : Head) (rest : List Char), (∀ c ∈ h.gap, isBlank c = true) ∧ IsName h.name ∧
    chars = h.text ++ rest

/-- A head is read exactly from a text that begins with one. -/
theorem Head.read?_isSome_iff (chars : List Char) :
    (Head.read? chars).isSome = true ↔ HasTagName chars := by
  constructor
  · intro hsome
    obtain ⟨h, hr⟩ := Option.isSome_iff_exists.mp hsome
    obtain ⟨hgap, hname, rest, hrest, _⟩ := Head.read?_spec hr
    exact ⟨h, rest, hgap, hname, hrest⟩
  · rintro ⟨h, rest, hgap, hname, rfl⟩
    have hread := Option.isSome_of_eq_some (readName?_longest h.slash hgap hname rest)
    have hslash := Head.isPrefixOf_text hgap hname rest
    cases hs : h.slash with
    | true =>
        rw [hs] at hread
        simpa [Head.text, hs, Head.read?] using hread
    | false =>
        rw [hs] at hread hslash
        have htext : h.text ++ rest = '<' :: (h.gap ++ (h.name ++ rest)) := by
          simp [Head.text, hs]
        rw [htext] at hslash ⊢
        rw [Head.read?]
        · exact hread
        · intro cs heq
          rw [heq] at hslash
          simp at hslash

end TagColoring
