import Mathlib.Data.List.Chain
import TagColoring.Proofs.Ledger
import TagColoring.Proofs.Nesting

/-!
# Ledgers stay sound

A ledger keeps the open elements and the offered colors in two lists, which its
steps change one after the other.  `Ledger.Sound` says that the lists fit
together, that they hold colors of the palette only, and that no element has the
color of its parent if there is another one.  Every run keeps that
(`ledger_stays_sound`).

Two facts about a rotation carry it.  Its colors are in the palette, and the
color of the next tag is not that of its parent (`chosen_ne_parent`).
-/

namespace TagColoring

open Rotation (IsColor InPalette)

namespace Ledger

/-- The colors of the events of a list, and the ledger behind them. -/
def run (l : Ledger) : List TagEvent → Except Fault (List Int × Ledger)
  | [] => .ok ([], l)
  | e :: es => do
      let (color, next) ← l.assign e
      let (colors, last) ← next.run es
      .ok (color :: colors, last)
termination_by structural es => es

/-- The lists of a ledger fit together, and its colors are where they may be. -/
structure Sound (size : Nat) (l : Ledger) : Prop where
  length_nextAt : l.nextAt.length = l.stack.length + 1
  color : ∀ e ∈ l.stack, IsColor size e.2
  offered : ∀ color ∈ l.nextAt, IsColor size color
  /-- With two colors or more, an element differs from the one around it. -/
  adjacent : 2 ≤ size → l.stack.IsChain fun outer inner => outer.2 ≠ inner.2

end Ledger

namespace Rotation

/-! ## Parents and children -/

/-- No open element has the color of the one around it. -/
def Alternates (r : Rotation) : Prop := (r.opened.map OpenElement.color).IsChain (· ≠ ·)

section

variable {size : Nat} {r : Rotation}

/-- With two colors or more, the one after a color is another one. -/
theorem after_ne (hsize : 2 ≤ size) (h : r.size = size) {color : Int}
    (hcolor : IsColor size color) : r.after color ≠ color := by
  obtain ⟨c, rfl⟩ := Int.eq_ofNat_of_zero_le hcolor.1
  rw [after_natCast h]
  intro heq
  exact add_mod_ne Nat.one_pos hsize (Int.ofNat_inj.mp heq)

/-- With two colors or more, the next tag does not get the color of its parent. -/
theorem chosen_ne_parent (hsize : 2 ≤ size) (h : InPalette size r) {e : OpenElement}
    {es : List OpenElement} (hopened : r.opened = e :: es) : r.chosen ≠ e.color := by
  have hcolor : IsColor size e.color := h.color e (by rw [hopened]; exact List.mem_cons_self ..)
  simp only [chosen, hopened]
  split
  · next heq =>
      rw [heq]
      exact after_ne hsize h.size_eq hcolor
  · next hne => exact hne

theorem colors_offer (r : Rotation) (color : Int) :
    (r.offer color).opened.map OpenElement.color = r.opened.map OpenElement.color := by
  unfold offer
  split
  · rfl
  · next h => simp [h]

theorem Alternates.assign (hsize : 2 ≤ size) (hpalette : InPalette size r) (h : r.Alternates)
    (event : TagEvent) : (r.assign event).2.Alternates := by
  cases event with
  | opensClosed name =>
      show ((r.offer _).opened.map OpenElement.color).IsChain _
      rw [colors_offer]
      exact h
  | opens name =>
      show (r.chosen :: (r.offer _).opened.map OpenElement.color).IsChain _
      rw [colors_offer]
      rw [Alternates] at h
      cases hopened : r.opened with
      | nil => exact List.isChain_singleton _
      | cons e es =>
          rw [hopened] at h
          exact List.isChain_cons_cons.mpr ⟨chosen_ne_parent hsize hpalette hopened, h⟩
  | closes name =>
      show (r.close name).2.Alternates
      by_cases hname : name ∈ r.names
      · obtain ⟨inner, e, outer, hopened, rfl, hinner⟩ := exists_innermost hname
        rw [close_innermost hopened hinner]
        rw [Alternates, hopened, List.map_append] at h
        exact (List.isChain_append.mp h).2.1.tail
      · rw [close_orphan hname]
        exact h

theorem Alternates.run (hsize : 2 ≤ size) : ∀ {r : Rotation} (es : List TagEvent),
    InPalette size r → r.Alternates → (r.run es).2.Alternates
  | _, [], _, h => h
  | _, e :: es, hpalette, h =>
      Alternates.run hsize es (hpalette.assign (by omega) e).2 (h.assign hsize hpalette e)

/-! ## The ledger of a rotation -/

theorem sound_ledger (hpalette : InPalette size r) (halternates : 2 ≤ size → r.Alternates) :
    r.ledger.Sound size where
  length_nextAt := by
    show r.offers.length = r.stack.length + 1
    rw [length_offers, length_stack, depth]
  color := by
    intro e he
    obtain ⟨d, hd, rfl⟩ := List.mem_map.mp he
    exact hpalette.color d (List.mem_reverse.mp hd)
  offered := by
    intro color hcolor
    rcases List.mem_cons.mp hcolor with rfl | hcolor
    · exact hpalette.next
    · obtain ⟨d, hd, rfl⟩ := List.mem_map.mp hcolor
      exact hpalette.offered d (List.mem_reverse.mp hd)
  adjacent := by
    intro hsize
    show (r.opened.reverse.map _).IsChain _
    rw [List.isChain_map, List.isChain_reverse]
    have hchain := List.isChain_map OpenElement.color |>.mp (halternates hsize)
    exact hchain.imp fun _ _ h => h.symm

/-- A run of the ledger of a rotation gives the colors of the rotation. -/
theorem run_ledger : ∀ {r : Rotation} (es : List TagEvent), r.size ≠ 0 →
    r.ledger.run es = .ok ((r.run es).1, (r.run es).2.ledger)
  | _, [], _ => rfl
  | r, e :: es, h => by
      have hsize : (r.assign e).2.size ≠ 0 := by rwa [assign_size]
      have hstep := assign_ledger r e
      rw [assign?_eq_some h] at hstep
      rw [Ledger.run, hstep]
      show ((r.assign e).2.ledger.run es).bind _ = _
      rw [run_ledger es hsize]
      rfl

theorem getLast?_stack (r : Rotation) :
    r.stack.getLast? = r.opened.head?.map fun e => (e.name, e.color) := by
  rw [stack, List.getLast?_map, List.getLast?_reverse]

theorem names_stack (r : Rotation) : r.stack.map Prod.fst = r.names.reverse := by
  simp [stack, names]

/-- Closing cuts both lists off in front of the innermost element with the name. -/
theorem close_stack {name : String} {color : Int} {outer inner : List (String × Int)}
    (hstack : r.stack = outer ++ (name, color) :: inner) (hinner : name ∉ inner.map Prod.fst) :
    (r.close name).1 = color ∧ (r.close name).2.stack = outer ∧
      (r.close name).2.offers = r.offers.take (outer.length + 1) := by
  obtain ⟨before, rest, hreverse, houter, hrest⟩ := List.map_eq_append_iff.mp hstack
  obtain ⟨e, after, rfl, he, hafter⟩ := List.map_eq_cons_iff.mp hrest
  obtain ⟨rfl, rfl⟩ := Prod.mk.inj he
  have hopened : r.opened = after.reverse ++ e :: before.reverse := by
    simpa using congrArg List.reverse hreverse
  have hnot : e.name ∉ after.reverse.map OpenElement.name := by
    intro hmem
    apply hinner
    rw [← hafter, List.map_map]
    simpa using hmem
  have hledger := ledger_suffix hopened
  have hlength : before.reverse.length = outer.length := by
    rw [← houter, List.length_reverse, List.length_map]
  rw [close_innermost hopened hnot]
  refine ⟨rfl, ?_, ?_⟩
  · simp [stack, houter]
  · rw [hlength] at hledger
    exact congrArg Ledger.nextAt hledger

end

/-- Any run of a ledger with colors in its palette goes through, and so does the
next tag.  The ledger is that of a rotation and sound behind each tag.  The tag has
a color of the palette.  With two colors or more, a tag that opens an element does
not have the color of its parent.  A closing tag without an element changes
nothing.  Any other one takes the color of the innermost element with its name, and
cuts both lists off in front of that element. -/
theorem ledger_stays_sound {size : Nat} (hsize : 0 < size) (es : List TagEvent)
    (event : TagEvent) :
    ∃ (colors : List Int) (color : Int) (r next : Rotation),
      (start size).run? es = some (colors, r) ∧ r.assign? event = some (color, next) ∧
      (Ledger.start size).run es = .ok (colors, r.ledger) ∧
      r.ledger.assign event = .ok (color, next.ledger) ∧
      next.ledger.Sound size ∧ IsColor size color ∧
      (2 ≤ size → event.isOpening → ∀ parent ∈ r.stack.getLast?, color ≠ parent.2) ∧
      (∀ name, event = .closes name → name ∉ r.stack.map Prod.fst → next = r) ∧
      (∀ name own outer inner, event = .closes name →
        r.stack = outer ++ (name, own) :: inner → name ∉ inner.map Prod.fst →
        color = own ∧ next.stack = outer ∧ next.offers = r.offers.take (outer.length + 1)) := by
  have hstart : (start size).size ≠ 0 := Int.natCast_ne_zero.mpr (Nat.ne_of_gt hsize)
  let r := ((start size).run es).2
  have hpalette : InPalette size r := (inPalette_start hsize).run hsize es
  have hnext := hpalette.assign hsize event
  have hr : r.size ≠ 0 := by
    rw [hpalette.size_eq]
    exact hstart
  have halternates : 2 ≤ size → r.Alternates := fun htwo =>
    Alternates.run htwo es (inPalette_start hsize) List.isChain_nil
  have hledger := assign_ledger r event
  rw [assign?_eq_some hr] at hledger
  refine ⟨_, (r.assign event).1, r, (r.assign event).2, run?_eq_some es hstart,
    assign?_eq_some hr event, ?_, hledger, ?_, hnext.1, ?_, ?_, ?_⟩
  · rw [← ledger_start]
    exact run_ledger es hstart
  · exact sound_ledger hnext.2 fun htwo => (halternates htwo).assign htwo hpalette event
  · intro htwo hopening parent hparent
    rw [getLast?_stack] at hparent
    obtain ⟨e, he, rfl⟩ := Option.map_eq_some_iff.mp hparent
    obtain ⟨rest, hopened⟩ := List.head?_eq_some_iff.mp he
    have hne := chosen_ne_parent htwo hpalette hopened
    cases event with
    | opens name => exact hne
    | opensClosed name => exact hne
    | closes name => cases hopening
  · rintro name rfl hname
    rw [names_stack, List.mem_reverse] at hname
    exact congrArg Prod.snd (close_orphan hname)
  · rintro name own outer inner rfl hstack hinner
    exact close_stack hstack hinner

/-- Of two elements with one name the closing tag ends the inner one, and the
element that is still open in it. -/
theorem ledger_stays_sound_two_of_a_name :
    let es : List TagEvent := [.opens "a", .opens "b", .opens "a", .opens "c"]
    0 < 2 ∧ ∃ (colors : List Int) (color : Int) (r next : Rotation),
      (start (2 : Nat)).run? es = some (colors, r) ∧
      r.assign? (.closes "a") = some (color, next) ∧ next.ledger.Sound 2 ∧ color = 0 ∧
      next.stack = [("a", 0), ("b", 1)] := by
  intro es
  obtain ⟨colors, color, r, next, hrun, hnext, _, _, hsound, _, _, _, hclose⟩ :=
    ledger_stays_sound (by decide : 0 < 2) es (.closes "a")
  have hstack : r.stack = [("a", 0), ("b", 1)] ++ ("a", 0) :: [("c", 1)] := by
    have hmap : ((start (2 : Nat)).run? es).map (fun last => last.2.stack)
        = some ([("a", 0), ("b", 1)] ++ ("a", 0) :: [("c", 1)]) := by decide
    rw [hrun] at hmap
    exact Option.some.inj hmap
  have hclosed := hclose "a" 0 _ _ rfl hstack (by decide)
  exact ⟨by decide, colors, color, r, next, hrun, hnext, hsound, hclosed.1, hclosed.2.1⟩

end Rotation

end TagColoring
