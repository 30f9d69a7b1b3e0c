import TagColoring.Proofs.Rotation

/-!
# Elements with contents

The tags inside an element act on the open elements above it.  They leave what is
below it alone, whatever is wrong with their nesting, as long as none of them
closes the element or something around it.

`Rotation.above` puts open elements on top of a state.  `assign_above` says what
one tag does there.  It changes the elements on top, and the state below moves by
one sibling if nothing was on top and the tag opens an element.  So a run on top
of a state is a run of the same tags by themselves, as far as the names of the
open elements go (`run_above`).

`closed_element_acts_like_one_tag` follows.  An element with its contents acts
like one tag that opens and ends at once.
-/

namespace TagColoring

/-- Whether a tag opens an element. -/
def TagEvent.isOpening : TagEvent → Bool
  | .opens _ => true
  | .opensClosed _ => true
  | .closes _ => false

/-- What a tag does to the names of the open elements, innermost first. -/
def TagEvent.nest : TagEvent → List String → List String
  | .opens name, names => name :: names
  | .opensClosed _, names => names
  | .closes name, names => if name ∈ names then names.drop (names.idxOf name + 1) else names

/-- A closing tag ends the elements through the innermost one with its name. -/
theorem TagEvent.nest_closes {name : String} {inner : List String} (h : name ∉ inner)
    (outer : List String) : (closes name).nest (inner ++ name :: outer) = outer := by
  have hindex : (inner ++ name :: outer).idxOf name = inner.length := by
    rw [List.idxOf_append, if_neg h, List.idxOf_cons_self, Nat.zero_add]
  have hmem : name ∈ inner ++ name :: outer := by simp
  rw [nest, if_pos hmem, hindex, List.drop_append, List.drop_of_length_le (Nat.le_succ _)]
  simp

namespace Rotation

/-- The names of the open elements, innermost first. -/
def names (r : Rotation) : List String := r.opened.map OpenElement.name

/-! ## Closing tags -/

/-- The innermost open element with a name. -/
theorem exists_innermost {es : List OpenElement} {name : String}
    (h : name ∈ es.map OpenElement.name) :
    ∃ inner e outer, es = inner ++ e :: outer ∧ e.name = name ∧
      name ∉ inner.map OpenElement.name := by
  induction es with
  | nil => cases h
  | cons d ds ih =>
      by_cases hd : d.name = name
      · exact ⟨[], d, ds, rfl, hd, List.not_mem_nil⟩
      · have hds : name ∈ ds.map OpenElement.name := by
          rcases List.mem_cons.mp h with heq | hmem
          · exact absurd heq.symm hd
          · exact hmem
        obtain ⟨inner, e, outer, rfl, he, hinner⟩ := ih hds
        refine ⟨d :: inner, e, outer, rfl, he, ?_⟩
        intro hmem
        rcases List.mem_cons.mp hmem with heq | hmem
        · exact hd heq.symm
        · exact hinner hmem

/-- A closing tag takes the color of its element, and ends all elements from the
innermost through that one. -/
theorem close_innermost {r : Rotation} {inner outer : List OpenElement} {e : OpenElement}
    (hopened : r.opened = inner ++ e :: outer) (hinner : e.name ∉ inner.map OpenElement.name) :
    r.close e.name = (e.color, { r with opened := outer }) := by
  have hpass : ∀ d ∈ inner, (d.name != e.name) = true := by
    intro d hd
    exact bne_iff_ne.mpr fun heq => hinner (heq ▸ List.mem_map_of_mem hd)
  simp [close, hopened, List.dropWhile_append_of_pos hpass]

/-- A closing tag without an open element changes nothing. -/
theorem close_orphan {r : Rotation} {name : String} (h : name ∉ r.names) :
    r.close name = (r.offered, r) := by
  have hpass : ∀ d ∈ r.opened, (d.name != name) = true := by
    intro d hd
    exact bne_iff_ne.mpr fun heq => h (heq ▸ List.mem_map_of_mem hd)
  have hdrop : r.opened.dropWhile (fun e => e.name != name) = [] := by
    rw [← List.append_nil r.opened, List.dropWhile_append_of_pos hpass, List.dropWhile_nil]
  simp [close, hdrop]

/-! ## Elements on top of a state -/

/-- A state with more elements open on top. -/
def above (r : Rotation) (inner : List OpenElement) : Rotation :=
  { r with opened := inner ++ r.opened }

@[simp] theorem above_nil (r : Rotation) : r.above [] = r := rfl

@[simp] theorem names_above (r : Rotation) (inner : List OpenElement) :
    (r.above inner).names = inner.map OpenElement.name ++ r.names := by
  simp [names, above]

theorem push_above (r : Rotation) (inner : List OpenElement) (name : String) (color : Int) :
    ∃ next, (r.above inner).push name color = r.above (⟨name, color, next⟩ :: inner) :=
  ⟨_, rfl⟩

/-- A tag that opens and ends at once changes the innermost element only. -/
theorem openClosed_above (r : Rotation) (inner : List OpenElement) :
    ∃ inner', (r.above inner).openClosed.2
        = (r.pass (if inner = [] then 1 else 0)).above inner' ∧
      inner'.map OpenElement.name = inner.map OpenElement.name := by
  cases inner with
  | nil => exact ⟨[], rfl, rfl⟩
  | cons d ds =>
      exact ⟨{ d with next := (r.above (d :: ds)).after (r.above (d :: ds)).chosen } :: ds,
        rfl, rfl⟩

/-- What one tag does on top of a state.  It must not close anything below. -/
theorem assign_above (r : Rotation) (inner : List OpenElement) (event : TagEvent)
    (hclose : ∀ name, event = .closes name →
      name ∈ inner.map OpenElement.name ∨ name ∉ r.names) :
    ∃ inner', ((r.above inner).assign event).2
        = (r.pass (if event.isOpening ∧ inner = [] then 1 else 0)).above inner' ∧
      inner'.map OpenElement.name = event.nest (inner.map OpenElement.name) := by
  obtain ⟨inner', hoffer, hnames⟩ := openClosed_above r inner
  cases event with
  | opensClosed name => exact ⟨inner', by simpa [assign, TagEvent.isOpening] using hoffer, hnames⟩
  | opens name =>
      -- The element is pushed onto what a tag that ends at once leaves.
      have hpush : ((r.above inner).assign (.opens name)).2
          = (r.above inner).openClosed.2.push name (r.above inner).chosen := rfl
      obtain ⟨next, hnext⟩ := push_above (r.pass (if inner = [] then 1 else 0)) inner' name
        (r.above inner).chosen
      refine ⟨⟨name, (r.above inner).chosen, next⟩ :: inner', ?_, ?_⟩
      · rw [hpush, hoffer, hnext]
        simp [TagEvent.isOpening]
      · simp [TagEvent.nest, hnames]
  | closes name =>
      show ∃ inner', ((r.above inner).close name).2 = r.above inner' ∧ _
      by_cases hmem : name ∈ inner.map OpenElement.name
      · obtain ⟨before, e, outer, rfl, rfl, hbefore⟩ := exists_innermost hmem
        have hopened : (r.above (before ++ e :: outer)).opened
            = before ++ e :: (outer ++ r.opened) := by
          simp [above]
        refine ⟨outer, by rw [close_innermost hopened hbefore]; rfl, ?_⟩
        rw [List.map_append, List.map_cons, TagEvent.nest_closes hbefore]
      · have hbelow : name ∉ r.names := (hclose name rfl).resolve_left hmem
        have horphan : name ∉ (r.above inner).names := by
          rw [names_above, List.mem_append]
          exact fun h => h.elim hmem hbelow
        exact ⟨inner, by rw [close_orphan horphan], (if_neg hmem).symm⟩

theorem names_offer (r : Rotation) (color : Int) : (r.offer color).names = r.names := by
  unfold offer
  split
  · rfl
  · next h => simp [names, h]

theorem names_pass (r : Rotation) (n : Nat) : (r.pass n).names = r.names := by
  induction n generalizing r with
  | zero => rfl
  | succ n ih => exact (ih r.openClosed.2).trans (names_offer r _)

/-- The names of the open elements after a tag depend on those before it alone. -/
theorem names_assign (r : Rotation) (event : TagEvent) :
    (r.assign event).2.names = event.nest r.names := by
  -- A state is its open elements on top of a state without any.
  let root : Rotation := { r with opened := [] }
  have hroot : root.above r.opened = r := by simp [root, above]
  obtain ⟨inner, hinner, hnames⟩ := assign_above root r.opened event
    fun name _ => .inr List.not_mem_nil
  rw [hroot] at hinner
  rw [hinner, names_above, names_pass, hnames]
  exact List.append_nil _

/-! ## Runs on top of a state -/

/-- The elements of closing tags are open. -/
def Matched (r : Rotation) : TagEvent → Prop
  | .closes name => name ∈ r.names
  | _ => True

/-- No closing tag of a run is without an open element. -/
def NoOrphan (r : Rotation) : List TagEvent → Prop
  | [] => True
  | e :: es => r.Matched e ∧ (r.assign e).2.NoOrphan es

instance (r : Rotation) : (event : TagEvent) → Decidable (r.Matched event)
  | .opens _ => isTrue trivial
  | .opensClosed _ => isTrue trivial
  | .closes name => inferInstanceAs (Decidable (name ∈ r.names))

instance decidableNoOrphan : (r : Rotation) → (es : List TagEvent) → Decidable (r.NoOrphan es)
  | _, [] => isTrue trivial
  | r, e :: es =>
      have := decidableNoOrphan (r.assign e).2 es
      inferInstanceAs (Decidable (r.Matched e ∧ (r.assign e).2.NoOrphan es))

/-- Tags whose closing tags have their elements among them leave a state below
them alone, but for the number of siblings in its innermost element. -/
theorem run_above {es : List TagEvent} : ∀ (r : Rotation) {alone : Rotation}
    (inner : List OpenElement), alone.names = inner.map OpenElement.name → alone.NoOrphan es →
    ∃ n inner', ((r.above inner).run es).2 = (r.pass n).above inner' ∧
      inner'.map OpenElement.name = (alone.run es).2.names := by
  induction es with
  | nil =>
      intro r alone inner hnames _
      exact ⟨0, inner, rfl, hnames.symm⟩
  | cons e es ih =>
      intro r alone inner hnames horphan
      have hclose : ∀ name, e = .closes name →
          name ∈ inner.map OpenElement.name ∨ name ∉ r.names := by
        rintro name rfl
        exact .inl (hnames ▸ horphan.1)
      obtain ⟨next, hnext, hnest⟩ := assign_above r inner e hclose
      have hnext_names : (alone.assign e).2.names = next.map OpenElement.name := by
        rw [names_assign, hnames, hnest]
      obtain ⟨n, inner', hrun, hinner⟩ := ih (r.pass _) next hnext_names horphan.2
      rw [pass_add] at hrun
      exact ⟨_, inner', by rw [run, hnext, hrun], hinner⟩

/-- An element that was opened, with siblings in it and elements above it, is
closed by its name, unless that is the name of one above it. -/
theorem close_above_openElement (r : Rotation) (n : Nat) {name : String}
    {inner : List OpenElement} (h : name ∉ inner.map OpenElement.name) :
    (((r.openElement name).2.pass n).above inner).close name = (r.chosen, r.openClosed.2) := by
  obtain ⟨next, hnext⟩ := pass_openElement r name n
  have habove : (((r.openElement name).2.pass n).above inner).opened
      = inner ++ ⟨name, r.chosen, next⟩ :: r.openClosed.2.opened := by
    rw [hnext]
    rfl
  rw [close_innermost habove h, hnext]
  rfl

/-- An element acts on a state like one tag that opens and ends at once, whatever
its contents leave open, unless that has its name.  Its two tags have one color. -/
theorem run_contents {r alone : Rotation} {name : String} {contents : List TagEvent}
    (halone : alone.names = []) (horphan : alone.NoOrphan contents)
    (hname : name ∉ (alone.run contents).2.names) :
    ∃ colors, r.run (.opens name :: (contents ++ [.closes name]))
      = (r.chosen :: (colors ++ [r.chosen]), r.openClosed.2) := by
  obtain ⟨n, inner, hrun, hinner⟩ := run_above (r.openElement name).2 [] halone horphan
  rw [above_nil] at hrun
  have hopens : r.assign (.opens name) = r.openElement name := rfl
  have hclose : ((r.openElement name).2.run contents).2.assign (.closes name)
      = (r.chosen, r.openClosed.2) := by
    rw [hrun]
    exact close_above_openElement r n (hinner ▸ hname)
  refine ⟨((r.openElement name).2.run contents).1, ?_⟩
  simp only [run, run_append, hopens, hclose]
  rfl

/-- In any state that a run can reach, an element acts like one tag that opens and
ends at once.  Its two tags have the color of that tag, and the state behind it is
the one behind that tag.  The contents may leave elements open, but none with the
name of the element, and their closing tags must have their elements among them. -/
theorem closed_element_acts_like_one_tag {size : Nat} (hsize : 0 < size)
    (before contents : List TagEvent) (name : String)
    (horphan : (start size).NoOrphan contents)
    (hname : name ∉ ((start size).run contents).2.names) :
    ∃ (earlier inner : List Int) (color : Int) (after : Rotation),
      earlier.length = before.length ∧ inner.length = contents.length ∧
      (start size).run? (before ++ .opens name :: (contents ++ [.closes name]))
        = some (earlier ++ color :: (inner ++ [color]), after) ∧
      (start size).run? (before ++ [.opensClosed name]) = some (earlier ++ [color], after) := by
  have hstart : (start size).size ≠ 0 := Int.natCast_ne_zero.mpr (Nat.ne_of_gt hsize)
  let r := ((start size).run before).2
  obtain ⟨inner, hrun⟩ := run_contents (r := r) rfl horphan hname
  refine ⟨((start size).run before).1, inner, r.chosen, r.openClosed.2, length_run _ _, ?_, ?_, ?_⟩
  · have hlength := length_run r (.opens name :: (contents ++ [.closes name]))
    rw [hrun] at hlength
    simpa using hlength
  · rw [run?_eq_some _ hstart, run_append, hrun]
  · rw [run?_eq_some _ hstart, run_append]
    rfl

/-- The contents open an element of the same name, end it by its closing tag with
another one still open in it, and leave a third one open. -/
theorem closed_element_open_contents :
    let before : List TagEvent := [.closes "b", .opens "a", .opensClosed "br", .opens "p"]
    let contents : List TagEvent := [.opens "p", .opens "i", .closes "p", .opens "u"]
    (start (3 : Nat)).NoOrphan contents ∧ "p" ∉ ((start (3 : Nat)).run contents).2.names ∧
    ∃ (earlier inner : List Int) (color : Int) (after : Rotation),
      earlier.length = before.length ∧ inner.length = contents.length ∧
      (start (3 : Nat)).run? (before ++ .opens "p" :: (contents ++ [.closes "p"]))
        = some (earlier ++ color :: (inner ++ [color]), after) ∧
      (start (3 : Nat)).run? (before ++ [.opensClosed "p"]) = some (earlier ++ [color], after) :=
  ⟨by decide, by decide,
    closed_element_acts_like_one_tag (by decide) _ _ "p" (by decide) (by decide)⟩

end Rotation

end TagColoring
