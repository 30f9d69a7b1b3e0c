import TagColoring.Proofs.Cursor
import TagColoring.Proofs.Rotation

/-!
# Rotation with lists that are read by index

A rotation keeps what it offers in the open elements themselves, so nothing can
be missing.  A *ledger* keeps it apart: a list of the open elements, outermost
first, and a list of the colors offered at each depth, which is meant to be one
longer.  Its steps read both lists by index, cut them off at an index, and take
remainders by the size of the palette.  Any of these can fault.

`assign_ledger` says that the ledger of a rotation takes the same steps as the
rotation.  So no entry is ever missing, and a remainder fails exactly if the
palette is empty and a tag opens.
-/

namespace TagColoring

/-- The entry of a list at an index. -/
def entryAt {α : Type} (entries : List α) (i : Nat) : Except Fault α :=
  match entries[i]? with
  | some entry => .ok entry
  | none => .error .missingEntry

theorem entryAt_append {α : Type} (before : List α) (entry : α) (rest : List α) :
    entryAt (before ++ entry :: rest) before.length = .ok entry := by
  rw [entryAt, List.getElem?_append_right (Nat.le_refl _), Nat.sub_self]
  rfl

/-- The remainder of a division, with the sign of the divisor. -/
def remainder (a b : Int) : Except Fault Int :=
  if b = 0 then .error .zeroModulus else .ok (Int.fmod a b)

/-- The open elements and the colors offered, in two lists. -/
structure Ledger where
  /-- The size of the palette. -/
  size : Int
  /-- The open elements with their colors, outermost first. -/
  stack : List (String × Int)
  /-- The color offered to the next tag opened at each depth. -/
  nextAt : List Int
deriving DecidableEq, Repr

namespace Ledger

/-- The ledger before the first tag. -/
def start (size : Int) : Ledger := ⟨size, [], [0]⟩

/-- The color after a color. -/
def after (l : Ledger) (color : Int) : Except Fault Int := remainder (color + 1) l.size

/-- The color of the next tag that opens. -/
def chosen (l : Ledger) : Except Fault Int := do
  let offered ← entryAt l.nextAt l.stack.length
  if 0 < l.stack.length then
    let parent ← entryAt l.stack (l.stack.length - 1)
    if offered = parent.2 then l.after offered else .ok offered
  else .ok offered

/-- Color a tag that opens an element, which stays open unless the tag also ends
it. -/
def openTag (l : Ledger) (name : String) (ends : Bool) : Except Fault (Int × Ledger) := do
  let color ← l.chosen
  let next ← l.after color
  let nextAt := l.nextAt.set l.stack.length next
  if ends then .ok (color, { l with nextAt := nextAt })
  else .ok (color, { l with stack := l.stack ++ [(name, color)], nextAt := nextAt ++ [next] })

/-- The innermost of the first elements of a stack that has a name: its index and
its color. -/
def findOpen (stack : List (String × Int)) (name : String) : Nat → Except Fault (Option (Nat × Int))
  | 0 => .ok none
  | i + 1 => do
      let element ← entryAt stack i
      if element.1 = name then .ok (some (i, element.2)) else findOpen stack name i
termination_by structural n => n

/-- Color a closing tag. -/
def closeTag (l : Ledger) (name : String) : Except Fault (Int × Ledger) := do
  match ← findOpen l.stack name l.stack.length with
  | some (i, color) =>
      .ok (color, { l with stack := l.stack.take i, nextAt := l.nextAt.take (i + 1) })
  | none =>
      let color ← entryAt l.nextAt l.stack.length
      .ok (color, l)

/-- Color one tag. -/
def assign (l : Ledger) : TagEvent → Except Fault (Int × Ledger)
  | .opens name => l.openTag name false
  | .opensClosed name => l.openTag name true
  | .closes name => l.closeTag name

/-- Color tags one after another. -/
def colorTags (l : Ledger) : List Tag → Except Fault (List (Tag × Int))
  | [] => .ok []
  | t :: ts => do
      let (color, l) ← l.assign t.event
      let rest ← l.colorTags ts
      .ok ((t, color) :: rest)
termination_by structural ts => ts

end Ledger

/-! ## The ledger of a rotation -/

namespace Rotation

/-- What a rotation holds, in two lists. -/
def ledger (r : Rotation) : Ledger := ⟨r.size, r.stack, r.offers⟩

theorem ledger_start (size : Int) : (start size).ledger = Ledger.start size := rfl

theorem length_stack (r : Rotation) : r.stack.length = r.opened.length := by
  rw [stack, List.length_map, List.length_reverse]

section Cons

variable {r : Rotation} {e : OpenElement} {es : List OpenElement}

theorem stack_cons (h : r.opened = e :: es) :
    r.stack = es.reverse.map (fun e => (e.name, e.color)) ++ [(e.name, e.color)] := by
  rw [stack, h, List.reverse_cons, List.map_append]
  rfl

theorem offers_cons (h : r.opened = e :: es) :
    r.offers = (r.next :: es.reverse.map OpenElement.next) ++ [e.next] := by
  rw [offers, h, List.reverse_cons, List.map_append]
  rfl

end Cons

/-- The entry at the depth of a rotation is the color it offers. -/
theorem entryAt_offers (r : Rotation) : entryAt r.offers r.stack.length = .ok r.offered := by
  rw [length_stack, offered]
  cases h : r.opened with
  | nil => rw [offers, h]; rfl
  | cons e es =>
      have hlen : (e :: es).length = (r.next :: es.reverse.map OpenElement.next).length := by
        simp
      rw [offers_cons h, hlen, entryAt_append]

theorem after_ledger {r : Rotation} (h : r.size ≠ 0) (color : Int) :
    r.ledger.after color = .ok (r.after color) := by
  show remainder (color + 1) r.size = _
  rw [remainder, if_neg h, after]

/-- The entry for the next tag is there, and so is that of its parent. -/
theorem chosen_ledger_eq (r : Rotation) :
    r.ledger.chosen = match r.opened with
      | [] => .ok r.next
      | e :: _ => if e.next = e.color then r.ledger.after e.next else .ok e.next := by
  show (entryAt r.offers r.stack.length).bind _ = _
  rw [entryAt_offers, offered]
  cases hopened : r.opened with
  | nil =>
      have hlen : ¬ 0 < r.stack.length := by rw [length_stack, hopened]; simp
      exact if_neg hlen
  | cons e es =>
      have hlen : r.stack.length = es.length + 1 := by rw [length_stack, hopened]; rfl
      have hparent : entryAt r.stack (r.stack.length - 1) = .ok (e.name, e.color) := by
        have hes : es.length = (es.reverse.map fun e => (e.name, e.color)).length := by simp
        rw [hlen, Nat.add_sub_cancel, stack_cons hopened, hes, entryAt_append]
      show (if 0 < r.stack.length then (entryAt r.stack (r.stack.length - 1)).bind _ else _) = _
      rw [if_pos (by omega), hparent]
      rfl

theorem chosen_ledger {r : Rotation} (h : r.size ≠ 0) : r.ledger.chosen = .ok r.chosen := by
  rw [chosen_ledger_eq, chosen]
  cases r.opened with
  | nil => rfl
  | cons e es =>
      simp only [after_ledger h]
      exact (apply_ite Except.ok (e.next = e.color) (r.after e.next) e.next).symm

/-- Offering another color sets the entry at the depth of the rotation. -/
theorem offers_offer (r : Rotation) (color : Int) :
    (r.offer color).offers = r.offers.set r.stack.length color := by
  rw [length_stack]
  cases h : r.opened with
  | nil => simp [offer, offers, h]
  | cons e es => simp [offer, offers, h]

theorem stack_offer (r : Rotation) (color : Int) : (r.offer color).stack = r.stack := by
  cases h : r.opened with
  | nil => simp [offer, stack, h]
  | cons e es => simp [offer, stack, h]

theorem openTag_ledger {r : Rotation} (h : r.size ≠ 0) (name : String) (ends : Bool) :
    r.ledger.openTag name ends
      = .ok (if ends then (r.openClosed.1, r.openClosed.2.ledger)
          else ((r.openElement name).1, (r.openElement name).2.ledger)) := by
  have hoffered : (r.offer (r.after r.chosen)).ledger
      = { r.ledger with nextAt := r.offers.set r.stack.length (r.after r.chosen) } := by
    simp only [ledger, offer_size, stack_offer, offers_offer]
  have hpushed : (r.openElement name).2.ledger
      = { r.ledger with
          stack := r.stack ++ [(name, r.chosen)]
          nextAt := r.offers.set r.stack.length (r.after r.chosen) ++ [r.after r.chosen] } := by
    have hstack : (r.openElement name).2.stack = r.stack ++ [(name, r.chosen)] := by
      rw [stack_cons rfl, ← stack_offer r (r.after r.chosen)]
      rfl
    have hoffers : (r.openElement name).2.offers
        = r.offers.set r.stack.length (r.after r.chosen) ++ [r.after r.chosen] := by
      rw [offers_cons rfl, ← offers_offer]
      simp only [openElement, push, after, offer_size]
      rfl
    simp only [ledger, hstack, hoffers]
    simp only [openElement, push, offer_size]
  unfold Ledger.openTag
  rw [chosen_ledger h]
  show (r.ledger.after r.chosen).bind _ = _
  rw [after_ledger h]
  cases ends with
  | true => exact congrArg (fun l => Except.ok (r.chosen, l)) hoffered.symm
  | false => exact congrArg (fun l => Except.ok (r.chosen, l)) hpushed.symm

/-- With an empty palette a tag that opens has no color. -/
theorem openTag_ledger_of_size {r : Rotation} (h : r.size = 0) (name : String) (ends : Bool) :
    r.ledger.openTag name ends = .error .zeroModulus := by
  have hafter : ∀ color, r.ledger.after color = .error .zeroModulus := fun _ => if_pos h
  unfold Ledger.openTag
  rw [chosen_ledger_eq]
  simp only [hafter]
  cases r.opened with
  | nil => rfl
  | cons e es =>
      dsimp only
      split <;> rfl

/-! ## Closing tags -/

/-- The search from the innermost element outwards stops where the rotation
stops. -/
theorem findOpen_reverse (name : String) :
    ∀ (es : List OpenElement) (inner : List (String × Int)),
      Ledger.findOpen (es.reverse.map (fun e => (e.name, e.color)) ++ inner) name es.length
        = .ok (match es.dropWhile (fun e => e.name != name) with
          | [] => none
          | e :: es => some (es.length, e.color))
  | [], _ => rfl
  | e :: es, inner => by
      have hentry : entryAt ((e :: es).reverse.map (fun e => (e.name, e.color)) ++ inner) es.length
          = .ok (e.name, e.color) := by
        have hlen : es.length = (es.reverse.map fun e => (e.name, e.color)).length := by simp
        rw [List.reverse_cons, List.map_append, List.append_assoc, hlen]
        exact entryAt_append _ _ _
      rw [List.length_cons, Ledger.findOpen, hentry]
      by_cases hname : e.name = name
      · rw [List.dropWhile_cons_of_neg (by simpa using hname)]
        exact if_pos hname
      · rw [List.dropWhile_cons_of_pos (by simpa using hname)]
        have ih := findOpen_reverse name es ((e.name, e.color) :: inner)
        rw [← ih, List.reverse_cons, List.map_append, List.append_assoc]
        exact if_neg hname

/-- Closing an element cuts both lists off in front of it. -/
theorem ledger_suffix {r : Rotation} {inner : List OpenElement} {e : OpenElement}
    {es : List OpenElement} (h : r.opened = inner ++ e :: es) :
    { r with opened := es }.ledger
      = { r.ledger with
          stack := r.stack.take es.length
          nextAt := r.offers.take (es.length + 1) } := by
  have hlen : ∀ {α : Type} (f : OpenElement → α), (es.reverse.map f).length = es.length := by
    intro α f
    simp
  have hmap : ∀ {α : Type} (f : OpenElement → α),
      (r.opened.reverse.map f).take es.length = es.reverse.map f := by
    intro α f
    rw [h, List.reverse_append, List.reverse_cons, List.append_assoc, List.map_append,
      ← hlen f, List.take_left]
  simp only [ledger, stack, offers, List.take_succ_cons, hmap]

theorem closeTag_ledger (r : Rotation) (name : String) :
    r.ledger.closeTag name = .ok ((r.close name).1, (r.close name).2.ledger) := by
  have hfind := findOpen_reverse name r.opened []
  rw [List.append_nil, ← length_stack] at hfind
  unfold Ledger.closeTag
  show (Ledger.findOpen (r.opened.reverse.map fun e => (e.name, e.color)) name
    r.stack.length).bind _ = _
  rw [hfind, close]
  cases hdrop : r.opened.dropWhile (fun e => e.name != name) with
  | nil =>
      show (entryAt r.offers r.stack.length).bind _ = _
      rw [entryAt_offers]
      rfl
  | cons e es =>
      obtain ⟨inner, hinner⟩ := List.dropWhile_suffix (l := r.opened) fun e => e.name != name
      rw [hdrop] at hinner
      exact congrArg (fun l => Except.ok (e.color, l)) (ledger_suffix hinner.symm).symm

/-! ## Runs -/

/-- The ledger of a rotation takes the steps of the rotation.  It faults only
where the rotation refuses a tag. -/
theorem assign_ledger (r : Rotation) (event : TagEvent) :
    r.ledger.assign event
      = match r.assign? event with
        | some (color, next) => .ok (color, next.ledger)
        | none => .error .zeroModulus := by
  cases event with
  | closes name => exact closeTag_ledger r name
  | opens name =>
      by_cases h : r.size = 0
      · simp only [assign?, h, if_true]
        exact openTag_ledger_of_size h name false
      · rw [assign?_eq_some h]
        exact openTag_ledger h name false
  | opensClosed name =>
      by_cases h : r.size = 0
      · simp only [assign?, h, if_true]
        exact openTag_ledger_of_size h name true
      · rw [assign?_eq_some h]
        exact openTag_ledger h name true

/-- With colors in the palette, a run of the ledger never faults and gives the
colors of the rotation. -/
theorem colorTags_ledger : ∀ {r : Rotation} (ts : List Tag), r.size ≠ 0 →
    r.ledger.colorTags ts = .ok (r.colorTags ts)
  | _, [], _ => rfl
  | r, t :: ts, h => by
      have hsize : (r.assign t.event).2.size ≠ 0 := by rwa [assign_size]
      have hstep := assign_ledger r t.event
      rw [assign?_eq_some h] at hstep
      rw [Ledger.colorTags, hstep]
      show ((r.assign t.event).2.ledger.colorTags ts).bind _ = _
      rw [colorTags_ledger ts hsize]
      rfl

end Rotation

end TagColoring
