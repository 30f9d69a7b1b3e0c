import Mathlib.Data.Nat.Count
import TagColoring.Proofs.Nesting

/-!
# Siblings rotate in any run

The colors of the tags opened in one place follow a closed form.  At the top the
tag after `k` others has color `k` modulo the size of the palette.  In an element
the colors go round the palette without its own, starting behind it.  It does not
matter what happens between two siblings: subtrees, closing tags without an
element, or elements that are ended by the closing tag of another one.

Tags are named by their indices in a list of events.  `Rotation.IsInnermost` says
that the element opened at one index is the innermost open one at a later index.
It speaks of depths only.  The element is still open if there never were fewer
elements open than with it, and it is the innermost one if no more are open.
Every tag is at the top or in such an element (`exists_isInnermost`).

`stateBefore_eq_above` carries the closed form along a run.  As long as an element
is open, the state is that of the element after some siblings, with other
elements on top.  The siblings are the tags that were opened while nothing was on
top.
-/

namespace TagColoring

namespace Rotation

/-! ## States and depths along a run -/

/-- The state before the event at an index. -/
def stateBefore (size : Nat) (es : List TagEvent) (i : Nat) : Rotation :=
  ((start size).run (es.take i)).2

/-- The number of open elements before the event at an index. -/
def depthBefore (size : Nat) (es : List TagEvent) (i : Nat) : Nat := (stateBefore size es i).depth

/-- There is a tag at an index, and it opens an element. -/
def OpensAt (es : List TagEvent) (i : Nat) : Prop := ∃ e ∈ es[i]?, e.isOpening = true

/-- The event at an index opened an element, and that very element is the
innermost open one before the event at a later index. -/
def IsInnermost (size : Nat) (es : List TagEvent) (opener i : Nat) : Prop :=
  OpensAt es opener ∧ opener < i ∧
  (∀ m ≤ i, opener < m → depthBefore size es opener < depthBefore size es m) ∧
  depthBefore size es i = depthBefore size es opener + 1

instance (es : List TagEvent) (i : Nat) : Decidable (OpensAt es i) :=
  inferInstanceAs (Decidable (∃ e ∈ es[i]?, e.isOpening = true))

instance (size : Nat) (es : List TagEvent) (opener i : Nat) :
    Decidable (IsInnermost size es opener i) :=
  inferInstanceAs (Decidable (_ ∧ _ ∧ _ ∧ _))

section

variable {size : Nat} {es : List TagEvent} {i : Nat} {e : TagEvent}

theorem stateBefore_succ (h : es[i]? = some e) :
    stateBefore size es (i + 1) = ((stateBefore size es i).assign e).2 := by
  rw [stateBefore, List.take_add_one, h, run_append]
  rfl

theorem stateBefore_succ_of_none (h : es[i]? = none) :
    stateBefore size es (i + 1) = stateBefore size es i := by
  rw [stateBefore, List.take_add_one, h, Option.toList_none, List.append_nil]
  rfl

/-- The color at an index is the one that the state before it gives. -/
theorem getElem?_run (h : es[i]? = some e) (r : Rotation) :
    (r.run es).1[i]? = some ((r.run (es.take i)).2.assign e).1 := by
  induction es generalizing i r with
  | nil => cases h
  | cons d ds ih =>
      cases i with
      | zero =>
          cases h
          rfl
      | succ i => exact ih h (r.assign d).2

theorem depth_eq_length_names (r : Rotation) : r.depth = r.names.length :=
  (List.length_map _).symm

/-- Only a tag that opens an element and does not end it adds to the depth. -/
theorem depth_assign_le (r : Rotation) (h : ∀ name, e ≠ .opens name) :
    (r.assign e).2.depth ≤ r.depth := by
  rw [depth_eq_length_names, depth_eq_length_names, names_assign]
  cases e with
  | opens name => exact absurd rfl (h name)
  | opensClosed name => exact Nat.le_refl _
  | closes name =>
      show (if name ∈ r.names then _ else _ : List String).length ≤ r.names.length
      split
      · rw [List.length_drop]
        exact Nat.sub_le _ _
      · exact Nat.le_refl _

/-- The depth rises only where an element is opened, and then by one. -/
theorem opens_of_depth_lt (h : depthBefore size es i < depthBefore size es (i + 1)) :
    ∃ name, es[i]? = some (.opens name) ∧
      depthBefore size es (i + 1) = depthBefore size es i + 1 := by
  cases he : es[i]? with
  | none =>
      rw [depthBefore, depthBefore, stateBefore_succ_of_none he] at h
      exact absurd h (Nat.lt_irrefl _)
  | some e =>
      by_cases hopens : ∃ name, e = .opens name
      · obtain ⟨name, rfl⟩ := hopens
        refine ⟨name, rfl, ?_⟩
        rw [depthBefore, stateBefore_succ he, depth_eq_length_names, names_assign, depthBefore,
          depth_eq_length_names]
        rfl
      · rw [depthBefore, depthBefore, stateBefore_succ he] at h
        exact absurd (depth_assign_le _ (not_exists.mp hopens)) (Nat.not_le_of_lt h)

/-- A tag that is not at the top is in an element. -/
theorem exists_isInnermost (h : depthBefore size es i ≠ 0) :
    ∃ opener, IsInnermost size es opener i := by
  have hzero : depthBefore size es 0 = 0 := rfl
  have hpos : 0 < i := by
    rcases Nat.eq_zero_or_pos i with rfl | hpos
    · exact absurd hzero h
    · exact hpos
  -- The element was opened where the depth was smaller for the last time.
  let lower := fun m => depthBefore size es m < depthBefore size es i
  have hlower : lower 0 := Nat.pos_of_ne_zero h
  let opener := Nat.findGreatest lower (i - 1)
  have hopener : lower opener := Nat.findGreatest_spec (Nat.zero_le _) hlower
  have hbefore : opener < i := Nat.lt_of_le_of_lt (Nat.findGreatest_le _) (by omega)
  have hafter : ∀ m ≤ i, opener < m → depthBefore size es i ≤ depthBefore size es m := by
    intro m hm hlt
    rcases Nat.eq_or_lt_of_le hm with rfl | hm
    · exact Nat.le_refl _
    · have hnot : ¬ lower m := Nat.findGreatest_is_greatest hlt (by omega)
      exact Nat.le_of_not_lt hnot
  have hnext := hafter (opener + 1) hbefore (Nat.lt_succ_self _)
  obtain ⟨name, hopens, hstep⟩ := opens_of_depth_lt (Nat.lt_of_lt_of_le hopener hnext)
  refine ⟨opener, ⟨_, hopens, rfl⟩, hbefore, ?_, ?_⟩
  · intro m hm hlt
    exact Nat.lt_of_lt_of_le hopener (hafter m hm hlt)
  · have hopener : depthBefore size es opener < depthBefore size es i := hopener
    omega

end

/-! ## One place of a run -/

/-- A closing tag of an element below leaves fewer elements open than there are
below. -/
theorem depth_close_below {r : Rotation} {inner : List OpenElement} {name : String}
    (hinner : name ∉ inner.map OpenElement.name) (hname : name ∈ r.names) :
    ((r.above inner).close name).2.depth < r.depth := by
  obtain ⟨before, e, outer, hopened, rfl, hbefore⟩ := exists_innermost hname
  have habove : (r.above inner).opened = (inner ++ before) ++ e :: outer := by
    simp [above, hopened]
  have hnot : e.name ∉ (inner ++ before).map OpenElement.name := by
    rw [List.map_append, List.mem_append]
    exact fun h => h.elim hinner hbefore
  rw [close_innermost habove hnot]
  simp [depth, hopened]
  omega

theorem depth_pass (r : Rotation) (n : Nat) : (r.pass n).depth = r.depth := by
  rw [depth_eq_length_names, names_pass, depth_eq_length_names]

section

variable {size : Nat} {es : List TagEvent}

/-- As long as no fewer elements are open than at an index, the state is the one
there after some siblings, with other elements on top.  The siblings are the tags
opened while nothing was on top. -/
theorem stateBefore_eq_above {base i : Nat} (hbase : base ≤ i)
    (hstays : ∀ m ≤ i, base ≤ m → depthBefore size es base ≤ depthBefore size es m) :
    ∃ inner, stateBefore size es i
      = ((stateBefore size es base).pass (Nat.count (fun m => OpensAt es m ∧ base ≤ m ∧
          depthBefore size es m = depthBefore size es base) i)).above inner := by
  induction i, hbase using Nat.le_induction with
  | base =>
      have hnone : Nat.count (fun m => OpensAt es m ∧ base ≤ m ∧
          depthBefore size es m = depthBefore size es base) base = 0 := by
        rw [Nat.count_iff_forall_not]
        intro m hm h
        exact absurd h.2.1 (Nat.not_le_of_lt hm)
      rw [hnone]
      exact ⟨[], rfl⟩
  | succ i hbase ih =>
      obtain ⟨inner, hinner⟩ := ih fun m hm => hstays m (Nat.le_succ_of_le hm)
      let place := fun m => OpensAt es m ∧ base ≤ m ∧
        depthBefore size es m = depthBefore size es base
      have hdepth : depthBefore size es i = inner.length + depthBefore size es base := by
        rw [depthBefore, hinner, depth, above, List.length_append]
        exact congrArg (inner.length + ·) (depth_pass _ _)
      rw [Nat.count_succ]
      cases he : es[i]? with
      | none =>
          have hnot : ¬ place i := by
            rintro ⟨⟨e, hmem, _⟩, _⟩
            rw [he] at hmem
            cases hmem
          rw [if_neg hnot, stateBefore_succ_of_none he]
          exact ⟨inner, hinner⟩
      | some e =>
          have hplace : place i ↔ e.isOpening ∧ inner = [] := by
            simp [place, OpensAt, he, hbase, hdepth]
          let below := (stateBefore size es base).pass (Nat.count place i)
          have hclose : ∀ name, e = .closes name →
              name ∈ inner.map OpenElement.name ∨ name ∉ below.names := by
            rintro name rfl
            by_cases hmem : name ∈ inner.map OpenElement.name
            · exact .inl hmem
            · refine .inr fun hname => ?_
              -- A closing tag of something below would leave too few elements open.
              have hlt := depth_close_below hmem hname
              have hle := hstays (i + 1) (Nat.le_refl _) (Nat.le_succ_of_le hbase)
              rw [depth_pass] at hlt
              rw [depthBefore, depthBefore, stateBefore_succ he, hinner] at hle
              exact absurd hlt (Nat.not_lt_of_le hle)
          obtain ⟨next, hnext, _⟩ := assign_above below inner e hclose
          refine ⟨next, ?_⟩
          rw [stateBefore_succ he, hinner, hnext, pass_add]
          simp only [← hplace]
          rfl

/-- If no elements are open but those below, the siblings are all there is. -/
theorem chosen_of_atSibling {parent : Option Nat} {base i : Nat}
    (hparent : ∀ p ∈ parent, p < size)
    (hsibling : AtSibling size parent 0 (stateBefore size es base)) (hbase : base ≤ i)
    (hstays : ∀ m ≤ i, base ≤ m → depthBefore size es base ≤ depthBefore size es m)
    (hdepth : depthBefore size es i = depthBefore size es base) :
    (stateBefore size es i).chosen
      = siblingColor size parent (Nat.count (fun m => OpensAt es m ∧ base ≤ m ∧
          depthBefore size es m = depthBefore size es base) i) := by
  obtain ⟨inner, hinner⟩ := stateBefore_eq_above hbase hstays
  have hnil : inner = [] := by
    rw [depthBefore, hinner, depth_eq_length_names, names_above, names_pass, List.length_append,
      List.length_map, ← depth_eq_length_names] at hdepth
    have hdepth : inner.length + depthBefore size es base = depthBefore size es base := hdepth
    exact List.eq_nil_of_length_eq_zero (by omega)
  rw [hinner, hnil, above_nil, (hsibling.pass hparent _).chosen_eq, Nat.zero_add]

theorem chosen_at_top {i : Nat} (h : depthBefore size es i = 0) :
    (stateBefore size es i).chosen
      = siblingColor size none
          (Nat.count (fun m => OpensAt es m ∧ depthBefore size es m = 0) i) := by
  have hstart : AtSibling size none 0 (stateBefore size es 0) := atSibling_start size
  have hzero : depthBefore size es 0 = 0 := rfl
  have hchosen := chosen_of_atSibling (by simp) hstart (Nat.zero_le i)
    (fun m _ _ => Nat.zero_le _) h
  simpa [hzero] using hchosen

theorem chosen_in_element (hsize : 0 < size) {opener i : Nat} (h : IsInnermost size es opener i)
    {p : Nat} (hp : ((start size).run es).1[opener]? = some (p : Int)) :
    (stateBefore size es i).chosen
      = siblingColor size (some p)
          (Nat.count (fun m => OpensAt es m ∧ IsInnermost size es opener m) i) := by
  obtain ⟨_, hbefore, hstays, hdepth⟩ := h
  obtain ⟨name, hopens, hnext⟩ :=
    opens_of_depth_lt (hstays (opener + 1) hbefore (Nat.lt_succ_self _))
  have hstate : stateBefore size es (opener + 1)
      = ((stateBefore size es opener).openElement name).2 := stateBefore_succ hopens
  have hpalette : InPalette size (stateBefore size es opener) :=
    (inPalette_start hsize).run hsize (es.take opener)
  have hchosen : (stateBefore size es opener).chosen = p :=
    Option.some.inj ((getElem?_run hopens (start size)).symm.trans hp)
  have hlt : p < size := by
    have := (hpalette.chosen hsize).2
    rw [hchosen] at this
    exact Int.ofNat_lt.mp this
  have hcount : Nat.count (fun m => OpensAt es m ∧ IsInnermost size es opener m) i
      = Nat.count (fun m => OpensAt es m ∧ opener + 1 ≤ m ∧
          depthBefore size es m = depthBefore size es (opener + 1)) i := by
    apply Nat.le_antisymm
    · apply Nat.count_mono_left
      rintro m _ ⟨hm, _, hlt, _, heq⟩
      exact ⟨hm, hlt, heq.trans hnext.symm⟩
    · apply Nat.count_mono_left
      rintro m hmi ⟨hm, hlt, heq⟩
      exact ⟨hm, ⟨_, hopens, rfl⟩, hlt,
        fun l hl hol => hstays l (Nat.le_trans hl (Nat.le_of_lt hmi)) hol, heq.trans hnext⟩
  rw [hcount]
  apply chosen_of_atSibling (fun q hq => Option.some.inj hq ▸ hlt)
  · rw [hstate]
    exact atSibling_openElement hpalette.size_eq hchosen name
  · exact hbefore
  · intro m hm hom
    rw [hnext]
    exact hstays m hm hom
  · exact hdepth.trans hnext.symm

end

/-- A tag that opens an element has the color that the state before it chooses. -/
theorem getElem?_run_of_opensAt {size : Nat} {es : List TagEvent} {i : Nat} (h : OpensAt es i) :
    ((start size).run es).1[i]? = some (stateBefore size es i).chosen := by
  obtain ⟨e, he, hopening⟩ := h
  rw [getElem?_run he]
  cases e with
  | opens name => rfl
  | opensClosed name => rfl
  | closes name => cases hopening

/-- In any run, a tag opened after `k` others at the top has color `k` modulo the
size.  A tag opened after `k` others in an element with color `p` has the color that
comes `k` places behind that of the first, on the way round the palette without `p`.
Each tag is at the top or in an element. -/
theorem siblings_rotate {size : Nat} (hsize : 2 ≤ size) (es : List TagEvent) :
    ∃ colors last, (start size).run? es = some (colors, last) ∧
    (∀ i, OpensAt es i → depthBefore size es i = 0 →
      colors[i]? = some ((Nat.count (fun m => OpensAt es m ∧ depthBefore size es m = 0) i
        % size : Nat) : Int)) ∧
    (∀ (opener : Nat) (p : Int) (i : Nat), colors[opener]? = some p → OpensAt es i →
      IsInnermost size es opener i → colors[i]? = some ((p + 1 + (Nat.count (fun m => OpensAt es m ∧
        IsInnermost size es opener m) i % (size - 1) : Nat)) % size)) ∧
    ∀ i, depthBefore size es i = 0 ∨ ∃ opener, IsInnermost size es opener i := by
  have hpos : 0 < size := Nat.lt_of_lt_of_le Nat.zero_lt_two hsize
  have hstart : (start size).size ≠ 0 := Int.natCast_ne_zero.mpr (Nat.ne_of_gt hpos)
  refine ⟨_, _, run?_eq_some es hstart, ?_, ?_, ?_⟩
  · intro i hi htop
    rw [getElem?_run_of_opensAt hi, chosen_at_top htop]
    rfl
  · intro opener p i hp hi hinner
    have hcolor : IsColor size p := by
      rw [Option.some.inj (hp.symm.trans (getElem?_run_of_opensAt hinner.1))]
      exact ((inPalette_start hpos).run hpos (es.take opener)).chosen hpos
    obtain ⟨q, rfl⟩ := Int.eq_ofNat_of_zero_le hcolor.1
    rw [getElem?_run_of_opensAt hi, chosen_in_element hpos hinner hp]
    rfl
  · intro i
    rcases Nat.eq_zero_or_pos (depthBefore size es i) with hzero | hdepth
    · exact .inl hzero
    · exact .inr (exists_isInnermost (Nat.ne_of_gt hdepth))

/-- The third child of an element, behind a closing tag without an element, a tag
that ends at once, and an element that is closed with another one open in it. -/
theorem siblings_rotate_third_child :
    let es : List TagEvent := [.opens "a", .closes "x", .opensClosed "br", .opens "b",
      .opens "c", .closes "b", .opens "d"]
    2 ≤ 3 ∧ OpensAt es 6 ∧ IsInnermost 3 es 0 6 ∧
    ∃ colors last, (start (3 : Nat)).run? es = some (colors, last) ∧
      colors[0]? = some 0 ∧ colors[6]? = some 1 := by
  intro es
  obtain ⟨colors, last, hrun, htop, hchild, _⟩ := siblings_rotate (by decide : 2 ≤ 3) es
  have hopener : colors[0]? = some 0 := htop 0 (by decide) (by decide)
  have hcount : Nat.count (fun m => OpensAt es m ∧ IsInnermost 3 es 0 m) 6 = 2 := by decide
  have hthird := hchild 0 0 6 hopener (by decide) (by decide)
  rw [hcount] at hthird
  exact ⟨by decide, by decide, by decide, colors, last, hrun, hopener, hthird⟩

end Rotation

end TagColoring
