import TagColoring.Coloring

/-!
# Rotation in closed form

`Rotation.run` colors a list of events one after another.  The color of a tag
that opens depends on the state only through the parent and the number of tags
opened in it before, and `siblingColor` gives it in closed form.  At the top the
colors go round the palette.  In an element they go round the palette without
the color of the element, starting behind it.

A run gives only colors of the palette, since a state holds no others
(`Rotation.InPalette.assign`).

`Rotation.AtSibling` ties a state to the closed form.  One step keeps it
(`AtSibling.openClosed`), and so does `Rotation.pass`, which is any number of
tags that open and end at once.  An element whose content acts like `pass` acts
itself like one such tag (`run_element`).
-/

namespace TagColoring

/-- A document is one window with one rotation. -/
theorem coloredTags_markup (v : Vocabulary) (size : Nat) (text : List Char) :
    coloredTags v size .markup text = (Rotation.start size).colorTags (tagsOfWindow v 0 text) := by
  rw [coloredTags, segments, List.flatMap_singleton, Range.coloredTags, tagsBetween,
    Int.toNat_natCast, slice_zero_length]
  all_goals exact ContentKind.noConfusion

namespace Rotation

/-! ## Runs -/

/-- The colors of the events of a list, and the state behind them. -/
def run (r : Rotation) : List TagEvent → List Int × Rotation
  | [] => ([], r)
  | e :: es => ((r.assign e).1 :: ((r.assign e).2.run es).1, ((r.assign e).2.run es).2)
termination_by structural es => es

theorem run_append : ∀ (r : Rotation) (es fs : List TagEvent),
    r.run (es ++ fs) = ((r.run es).1 ++ ((r.run es).2.run fs).1, ((r.run es).2.run fs).2)
  | _, [], _ => rfl
  | r, e :: es, fs => by
      rw [List.cons_append, run, run_append (r.assign e).2 es fs, run]
      rfl

theorem length_run : ∀ (r : Rotation) (es : List TagEvent), (r.run es).1.length = es.length
  | _, [] => rfl
  | r, e :: es => congrArg (· + 1) (length_run (r.assign e).2 es)

theorem offer_size (r : Rotation) (color : Int) : (r.offer color).size = r.size := by
  unfold offer
  split <;> rfl

/-- The palette never changes. -/
theorem assign_size (r : Rotation) (event : TagEvent) : (r.assign event).2.size = r.size := by
  cases event with
  | opens name => exact offer_size r _
  | opensClosed name => exact offer_size r _
  | closes name =>
      show (r.close name).2.size = r.size
      unfold close
      split <;> rfl

/-- The colors of the events of a list, and the state behind them, unless a tag is
refused. -/
def run? (r : Rotation) : List TagEvent → Option (List Int × Rotation)
  | [] => some ([], r)
  | e :: es => do
      let (color, next) ← r.assign? e
      let (colors, last) ← next.run? es
      return (color :: colors, last)
termination_by structural es => es

/-- With colors in the palette, a run goes through. -/
theorem run?_eq_some : ∀ {r : Rotation} (es : List TagEvent), r.size ≠ 0 →
    r.run? es = some (r.run es)
  | _, [], _ => rfl
  | r, e :: es, h => by
      have hsize : (r.assign e).2.size ≠ 0 := by rwa [assign_size]
      simp only [run?, run, assign?_eq_some h, Option.bind_eq_bind, Option.bind_some,
        run?_eq_some es hsize]
      rfl

theorem colorTags_fst : ∀ (r : Rotation) (ts : List Tag), (r.colorTags ts).map Prod.fst = ts
  | _, [] => rfl
  | r, t :: ts => congrArg (t :: ·) (colorTags_fst (r.assign t.event).2 ts)

theorem colorTags_snd : ∀ (r : Rotation) (ts : List Tag),
    (r.colorTags ts).map Prod.snd = (r.run (ts.map Tag.event)).1
  | _, [] => rfl
  | r, t :: ts => congrArg ((r.assign t.event).1 :: ·) (colorTags_snd (r.assign t.event).2 ts)

/-! ## Colors in the palette -/

/-- A color of a palette of a size. -/
def IsColor (size : Nat) (color : Int) : Prop := 0 ≤ color ∧ color < size

/-- Every color that a state holds is in the palette. -/
structure InPalette (size : Nat) (r : Rotation) : Prop where
  size_eq : r.size = size
  next : IsColor size r.next
  color : ∀ e ∈ r.opened, IsColor size e.color
  offered : ∀ e ∈ r.opened, IsColor size e.next

section Palette

variable {size : Nat} {r : Rotation}

theorem inPalette_start (hsize : 0 < size) : InPalette size (start size) where
  size_eq := rfl
  next := ⟨Int.le_refl 0, Int.natCast_pos.mpr hsize⟩
  color := fun _ he => absurd he List.not_mem_nil
  offered := fun _ he => absurd he List.not_mem_nil

theorem after_isColor (hsize : 0 < size) (h : r.size = size) (color : Int) :
    IsColor size (r.after color) := by
  rw [after, h]
  exact ⟨Int.fmod_nonneg_of_pos _ (by omega), Int.fmod_lt_of_pos _ (by omega)⟩

theorem InPalette.chosen (hsize : 0 < size) (h : InPalette size r) : IsColor size r.chosen := by
  unfold Rotation.chosen
  split
  · exact h.next
  · next e es hopened =>
      have he : e ∈ r.opened := by rw [hopened]; exact List.mem_cons_self ..
      split
      · exact after_isColor hsize h.size_eq _
      · exact h.offered e he

theorem InPalette.offer (h : InPalette size r) {color : Int} (hcolor : IsColor size color) :
    InPalette size (r.offer color) := by
  unfold Rotation.offer
  split
  · exact ⟨h.size_eq, hcolor, h.color, h.offered⟩
  · next e es hopened =>
      have hcolors := h.color
      have hoffered := h.offered
      rw [hopened] at hcolors hoffered
      refine ⟨h.size_eq, h.next, fun d hd => ?_, fun d hd => ?_⟩
      · rcases List.mem_cons.mp hd with rfl | hd
        · exact hcolors e (List.mem_cons_self ..)
        · exact hcolors d (List.mem_cons_of_mem e hd)
      · rcases List.mem_cons.mp hd with rfl | hd
        · exact hcolor
        · exact hoffered d (List.mem_cons_of_mem e hd)

theorem InPalette.push (hsize : 0 < size) (h : InPalette size r) (name : String) {color : Int}
    (hcolor : IsColor size color) : InPalette size (r.push name color) := by
  refine ⟨h.size_eq, h.next, fun d hd => ?_, fun d hd => ?_⟩
  · rcases List.mem_cons.mp hd with rfl | hd
    · exact hcolor
    · exact h.color d hd
  · rcases List.mem_cons.mp hd with rfl | hd
    · exact after_isColor hsize h.size_eq _
    · exact h.offered d hd

theorem InPalette.close (h : InPalette size r) (name : String) :
    IsColor size (r.close name).1 ∧ InPalette size (r.close name).2 := by
  unfold Rotation.close
  split
  · refine ⟨?_, h⟩
    unfold Rotation.offered
    split
    · exact h.next
    · next e es hopened => exact h.offered e (by rw [hopened]; exact List.mem_cons_self ..)
  · next e es hdrop =>
      have hsuffix : e :: es <:+ r.opened := hdrop ▸ List.dropWhile_suffix _
      have hes : ∀ d ∈ es, d ∈ r.opened := fun d hd =>
        hsuffix.subset (List.mem_cons_of_mem e hd)
      exact ⟨h.color e (hsuffix.subset (List.mem_cons_self ..)), h.size_eq, h.next,
        fun d hd => h.color d (hes d hd), fun d hd => h.offered d (hes d hd)⟩

/-- One tag gets a color of the palette, and all colors stay in it. -/
theorem InPalette.assign (hsize : 0 < size) (h : InPalette size r) (event : TagEvent) :
    IsColor size (r.assign event).1 ∧ InPalette size (r.assign event).2 := by
  have hchosen := h.chosen hsize
  have hoffer := h.offer (after_isColor hsize h.size_eq r.chosen)
  cases event with
  | opens name => exact ⟨hchosen, hoffer.push hsize name hchosen⟩
  | opensClosed name => exact ⟨hchosen, hoffer⟩
  | closes name => exact h.close name

theorem InPalette.run (hsize : 0 < size) : ∀ {r : Rotation} (es : List TagEvent),
    InPalette size r → InPalette size (r.run es).2
  | _, [], h => h
  | _, e :: es, h => (h.assign hsize e).2.run hsize es

/-- Every tag of a run gets a color of the palette. -/
theorem InPalette.colorTags (hsize : 0 < size) :
    ∀ {r : Rotation} (ts : List Tag), InPalette size r →
      ∀ t ∈ r.colorTags ts, IsColor size t.2
  | _, [], _, _, ht => absurd ht List.not_mem_nil
  | r, t :: ts, h, u, hu => by
      have hstep := h.assign hsize t.event
      rcases List.mem_cons.mp hu with rfl | hu
      · exact hstep.1
      · exact InPalette.colorTags hsize ts hstep.2 u hu

end Palette

/-! ## The color of a sibling -/

/-- The color of the tag that is opened after `k` others in an element with a
color, or at the top. -/
def siblingColor (size : Nat) : Option Nat → Nat → Nat
  | none, k => k % size
  | some p, k => (p + 1 + k % (size - 1)) % size

theorem siblingColor_lt {size : Nat} (hsize : 0 < size) (parent : Option Nat) (k : Nat) :
    siblingColor size parent k < size := by
  cases parent with
  | none => exact Nat.mod_lt _ hsize
  | some p => exact Nat.mod_lt _ hsize

theorem succ_mod_eq {m : Nat} (hm : 0 < m) (k : Nat) :
    (k + 1) % m = if k % m + 1 = m then 0 else k % m + 1 := by
  rw [← Nat.mod_add_mod]
  split
  · next h => rw [h, Nat.mod_self]
  · next h => exact Nat.mod_eq_of_lt (Nat.lt_of_le_of_ne (Nat.mod_lt k hm) h)

/-- Going round by less than a whole turn does not lead back. -/
theorem add_mod_ne {n p d : Nat} (hd : 0 < d) (hdn : d < n) : (p + d) % n ≠ p := by
  intro h
  have hp : p < n := h ▸ Nat.mod_lt _ (by omega)
  by_cases hlt : p + d < n
  · rw [Nat.mod_eq_of_lt hlt] at h
    omega
  · rw [Nat.mod_eq_sub_mod (by omega), Nat.mod_eq_of_lt (by omega)] at h
    omega

/-- The next sibling has the next color, or the one after it if the parent has
that color. -/
theorem siblingColor_succ {size p : Nat} (hp : p < size) (k : Nat) :
    siblingColor size (some p) (k + 1) =
      if (siblingColor size (some p) k + 1) % size = p then
        ((siblingColor size (some p) k + 1) % size + 1) % size
      else (siblingColor size (some p) k + 1) % size := by
  simp only [siblingColor, Nat.mod_add_mod]
  by_cases hone : size = 1
  · subst hone
    simp [Nat.mod_one]
  · have hm : 0 < size - 1 := by omega
    have hj : k % (size - 1) < size - 1 := Nat.mod_lt k hm
    rw [succ_mod_eq hm]
    by_cases hlast : k % (size - 1) + 1 = size - 1
    · -- The sibling before was the last of its turn, and the next color is the parent's.
      have hturn : p + 1 + k % (size - 1) + 1 = p + size := by omega
      rw [if_pos hlast, hturn, Nat.add_mod_right, Nat.mod_eq_of_lt hp, if_pos rfl,
        Nat.add_right_comm p size 1, Nat.add_mod_right, Nat.add_zero]
    · have hne : (p + 1 + k % (size - 1) + 1) % size ≠ p := by
        have := @add_mod_ne size p (k % (size - 1) + 2) (by omega) (by omega)
        rwa [show p + (k % (size - 1) + 2) = p + 1 + k % (size - 1) + 1 by omega] at this
      rw [if_neg hlast, if_neg hne]
      congr 1

/-- The first sibling in an element has the color after that of the element. -/
theorem siblingColor_zero (size p : Nat) : siblingColor size (some p) 0 = (p + 1) % size := by
  rw [siblingColor, Nat.zero_mod, Nat.add_zero]

/-! ## States that are about to color a sibling -/

/-- The next tag that opens is the one after `k` others in its parent, and its
color is the one of the closed form. -/
structure AtSibling (size : Nat) (parent : Option Nat) (k : Nat) (r : Rotation) : Prop where
  size_eq : r.size = size
  parent_eq : r.opened.head?.map OpenElement.color = parent.map Int.ofNat
  chosen_eq : r.chosen = siblingColor size parent k

theorem after_natCast {r : Rotation} {size : Nat} (h : r.size = size) (color : Nat) :
    r.after color = ((color + 1) % size : Nat) := by
  rw [after, h, Int.fmod_eq_emod_of_nonneg _ (Int.natCast_nonneg size)]
  rfl

theorem atSibling_start (size : Nat) : AtSibling size none 0 (start size) where
  size_eq := rfl
  parent_eq := rfl
  chosen_eq := by
    rw [siblingColor, Nat.zero_mod]
    rfl

theorem offer_parent (r : Rotation) (color : Int) :
    (r.offer color).opened.head?.map OpenElement.color
      = r.opened.head?.map OpenElement.color := by
  unfold offer
  split
  · rfl
  · next h => rw [h]; rfl

theorem chosen_push (r : Rotation) (name : String) (color : Int) :
    (r.push name color).chosen
      = if r.after color = color then r.after (r.after color) else r.after color := rfl

section Sibling

variable {size : Nat} {parent : Option Nat} {k : Nat} {r : Rotation}

/-- A tag that opens and ends at once moves to the next sibling. -/
theorem AtSibling.openClosed (hparent : ∀ p ∈ parent, p < size)
    (h : AtSibling size parent k r) : AtSibling size parent (k + 1) r.openClosed.2 where
  size_eq := (offer_size r _).trans h.size_eq
  parent_eq := (offer_parent r _).trans h.parent_eq
  chosen_eq := by
    have hafter : r.after r.chosen = ((siblingColor size parent k + 1) % size : Nat) := by
      rw [h.chosen_eq, after_natCast h.size_eq]
    have hopened := h.parent_eq
    simp only [Rotation.openClosed, hafter]
    cases parent with
    | none =>
        have hnil : r.opened = [] := by simpa using hopened
        simp only [offer, hnil, chosen, siblingColor, Nat.mod_add_mod]
    | some p =>
        obtain ⟨e, he, hcolor⟩ := Option.map_eq_some_iff.mp hopened
        obtain ⟨es, hes⟩ := List.head?_eq_some_iff.mp he
        have hcolor : e.color = (p : Int) := hcolor
        rw [siblingColor_succ (hparent p rfl)]
        simp only [offer, hes, chosen, hcolor, Int.natCast_inj]
        split
        · exact after_natCast h.size_eq _
        · rfl

/-- The first child of an element comes next behind the tag that opens it. -/
theorem atSibling_openElement {p : Nat} (hsize : r.size = size) (hchosen : r.chosen = p)
    (name : String) : AtSibling size (some p) 0 (r.openElement name).2 where
  size_eq := (offer_size r _).trans hsize
  parent_eq := congrArg some hchosen
  chosen_eq := by
    have hsize : ∀ c, (r.offer c).size = size := fun c => (offer_size r c).trans hsize
    rw [siblingColor_zero, Rotation.openElement, chosen_push, hchosen, after_natCast (hsize _)]
    split
    · next heq =>
        -- Only a palette of one color comes back to the color of the element.
        rw [heq, after_natCast (hsize _), heq]
    · rfl

theorem AtSibling.openElement (h : AtSibling size parent k r) (name : String) :
    AtSibling size (some (siblingColor size parent k)) 0 (r.openElement name).2 :=
  atSibling_openElement h.size_eq h.chosen_eq name

end Sibling

/-! ## Elements that act like one tag -/

/-- The state after some tags that open and end at once. -/
def pass (r : Rotation) : Nat → Rotation
  | 0 => r
  | n + 1 => r.openClosed.2.pass n
termination_by structural n => n

theorem AtSibling.pass {size : Nat} {parent : Option Nat} (hparent : ∀ p ∈ parent, p < size) :
    ∀ {k : Nat} {r : Rotation} (n : Nat), AtSibling size parent k r →
      AtSibling size parent (k + n) (r.pass n)
  | _, _, 0, h => h
  | k, r, n + 1, h => by
      have ih := AtSibling.pass hparent n (h.openClosed hparent)
      rwa [Nat.add_assoc, Nat.add_comm 1 n] at ih

theorem pass_add : ∀ (r : Rotation) (m n : Nat), (r.pass m).pass n = r.pass (m + n)
  | _, 0, n => by rw [Nat.zero_add]; rfl
  | r, m + 1, n => by
      rw [pass, pass_add r.openClosed.2 m n, Nat.add_right_comm, pass]

/-- Tags that end at once change only what the innermost element offers. -/
theorem pass_opened {e : OpenElement} {es : List OpenElement} :
    ∀ {r : Rotation} (n : Nat), r.opened = e :: es →
      ∃ next, r.pass n = { r with opened := { e with next := next } :: es }
  | r, 0, h => ⟨e.next, by rw [pass, ← h]⟩
  | r, n + 1, h => by
      have hstep : r.openClosed.2
          = { r with opened := { e with next := r.after r.chosen } :: es } := by
        simp only [openClosed, offer, h]
      have hopened : r.openClosed.2.opened = { e with next := r.after r.chosen } :: es := by
        rw [hstep]
      obtain ⟨next, hnext⟩ := pass_opened n hopened
      exact ⟨next, by rw [pass, hnext, hstep]⟩

/-- Tags that end at once in a new element change only what it offers. -/
theorem pass_openElement (r : Rotation) (name : String) (n : Nat) :
    ∃ next, (r.openElement name).2.pass n
      = { r.openClosed.2 with
          opened := ⟨name, r.chosen, next⟩ :: r.openClosed.2.opened } := by
  have hopened : (r.openElement name).2.opened = ⟨name, r.chosen, _⟩ :: r.openClosed.2.opened :=
    rfl
  obtain ⟨next, hnext⟩ := pass_opened n hopened
  exact ⟨next, hnext⟩

theorem run_opensClosed (r : Rotation) (name : String) :
    r.run [.opensClosed name] = ([r.chosen], r.pass 1) := rfl

/-- An element whose content acts like tags that end at once acts like one
itself, and its two tags have one color. -/
theorem run_element {r : Rotation} {name : String} {es : List TagEvent} {colors : List Int}
    {n : Nat} (h : (r.openElement name).2.run es = (colors, (r.openElement name).2.pass n)) :
    r.run (.opens name :: (es ++ [.closes name]))
      = (r.chosen :: (colors ++ [r.chosen]), r.pass 1) := by
  obtain ⟨next, hnext⟩ := pass_openElement r name n
  have hclose : ((r.openElement name).2.pass n).close name = (r.chosen, r.openClosed.2) := by
    rw [hnext]
    simp [close]
  have hopens : r.assign (.opens name) = r.openElement name := rfl
  have hcloses : ((r.openElement name).2.pass n).assign (.closes name)
      = (r.chosen, r.openClosed.2) := hclose
  rw [run, run_append, hopens, h]
  simp only [run, hcloses]
  rfl

end Rotation

end TagColoring
