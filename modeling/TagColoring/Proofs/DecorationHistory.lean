import Mathlib.Data.List.DropRight
import Mathlib.Data.List.Induction
import TagColoring.Proofs.Decoration

/-!
# Decorations after a history of changes

A set of decorations is extended and cleared many times.  An extension that meets a color
outside of the palette stops there and keeps what it has already taken, so a history may
hold extensions that fail halfway.

What is left of a history is said here without the buckets.  A span counts if its
extension had met no foreign color before it and nothing was cleared since
(`acceptedSinceClear`).  Each change does to the buckets what it does to these spans
(`filled_extend`, `filled_clear`), so after a history the buckets are filled with them
(`after_empty`).  The main statement reads buckets, size and order off that form.
-/

namespace TagColoring

open Rotation (IsColor)

/-! ## Histories -/

/-- Whether the color of a span is in a palette. -/
def inPalette (size : Nat) (s : Span) : Bool := decide (0 ≤ s.color ∧ s.color < size)

theorem inPalette_iff {size : Nat} {s : Span} : inPalette size s = true ↔ IsColor size s.color :=
  decide_eq_true_iff

/-- A change to a set of decorations. -/
inductive Change where
  /-- Put spans into their buckets, up to the first one that has none. -/
  | extend (spans : List Span)
  /-- Remove all spans. -/
  | clear
deriving DecidableEq, Repr

/-- The spans that a change adds: those in front of the first one whose color is not in the
palette. -/
def Change.accepted (size : Nat) : Change → List Span
  | .extend spans => spans.takeWhile (inPalette size)
  | .clear => []

/-- The spans that were added behind the last clearing of a history, in their order. -/
def acceptedSinceClear (size : Nat) (history : List Change) : List Span :=
  (history.rtakeWhile (· ≠ .clear)).flatMap (Change.accepted size)

theorem acceptedSinceClear_clear (size : Nat) (history : List Change) :
    acceptedSinceClear size (history ++ [.clear]) = [] := by
  rw [acceptedSinceClear, List.rtakeWhile_concat_neg _ _ _ (by simp)]
  rfl

theorem acceptedSinceClear_extend (size : Nat) (history : List Change) (spans : List Span) :
    acceptedSinceClear size (history ++ [.extend spans])
      = acceptedSinceClear size history ++ spans.takeWhile (inPalette size) := by
  rw [acceptedSinceClear, List.rtakeWhile_concat_pos _ _ _ (by simp), List.flatMap_append,
    List.flatMap_singleton]
  rfl

theorem isColor_of_accepted {size : Nat} {history : List Change} {s : Span}
    (h : s ∈ acceptedSinceClear size history) : IsColor size s.color := by
  obtain ⟨change, _, hs⟩ := List.mem_flatMap.mp h
  cases change with
  | extend spans => exact inPalette_iff.mp (List.mem_takeWhile_imp hs)
  | clear => cases hs

theorem Bucket.extend_append (b : Bucket) (spans more : List Span) :
    (b.extend spans).extend more = b.extend (spans ++ more) := by
  have hholds : (b.extend spans).holds = b.holds := rfl
  rw [Bucket.extend, hholds, Bucket.extend, Bucket.extend, List.filter_append, List.append_assoc]

namespace Decorations

/-- The decorations after a change. -/
def change (d : Decorations) : Change → Decorations
  | .extend spans => (d.extend spans).1
  | .clear => d.clear

/-- The decorations after a history of changes. -/
def after (d : Decorations) (history : List Change) : Decorations := history.foldl change d

theorem after_concat (d : Decorations) (history : List Change) (c : Change) :
    d.after (history ++ [c]) = (d.after history).change c := by
  rw [after, List.foldl_append]
  rfl

/-! ## Filled buckets -/

/-- The decorations of a palette that hold some spans. -/
def filled (size : Nat) (spans : List Span) : Decorations := ⟨size, sorted size spans⟩

theorem empty_eq_filled (size : Nat) : empty size = filled size [] := by
  simp [empty, filled, sorted]

/-- A span has a bucket exactly if its color is in the palette. -/
theorem accepts_filled (size : Nat) (held : List Span) :
    (filled size held).accepts = inPalette size := by
  funext s
  rw [Bool.eq_iff_iff, inPalette_iff, accepts, hasBucket, List.any_eq_true]
  constructor
  · rintro ⟨b, hb, hhas⟩
    obtain ⟨channel, index, hindex, rfl⟩ := mem_sorted.mp hb
    simp only [Bucket.has, Bool.and_eq_true, beq_iff_eq] at hhas
    exact ⟨by omega, by omega⟩
  · rintro ⟨hlow, hhigh⟩
    obtain ⟨index, hindex⟩ := Int.eq_ofNat_of_zero_le hlow
    refine ⟨_, mem_sorted.mpr ⟨s.channel, index, by omega, rfl⟩, ?_⟩
    simp [Bucket.has, hindex]

/-- Spans go behind those that the buckets hold. -/
theorem map_extend_sorted (size : Nat) (held spans : List Span) :
    (sorted size held).map (fun b => b.extend spans) = sorted size (held ++ spans) := by
  rw [← sorted_eq, ← sorted_eq, List.map_map]
  exact List.map_congr_left fun b _ => b.extend_append held spans

/-- An extension adds the spans in front of the first foreign color, and tells which span
that is. -/
theorem filled_extend (size : Nat) (held spans : List Span) :
    (filled size held).extend spans
      = (filled size (held ++ spans.takeWhile (inPalette size)),
        spans.find? fun s => !inPalette size s) := by
  rw [extend_eq, accepts_filled]
  congr 1
  exact congrArg (Decorations.mk size) (map_extend_sorted size held _)

theorem filled_clear (size : Nat) (held : List Span) :
    (filled size held).clear = filled size [] := by
  simp [clear, filled, sorted, Channel.all, Function.comp_def]

/-- After a history of changes the buckets are filled with the spans it has left. -/
theorem after_empty (size : Nat) (history : List Change) :
    (empty size).after history = filled size (acceptedSinceClear size history) := by
  induction history using List.reverseRecOn with
  | nil => exact empty_eq_filled size
  | append_singleton history c ih =>
      rw [after_concat, ih]
      cases c with
      | extend spans => rw [change, filled_extend, acceptedSinceClear_extend]
      | clear => rw [change, filled_clear, acceptedSinceClear_clear]

/-! ## What is read off filled buckets -/

theorem ranges?_filled {size : Nat} (held : List Span) (channel : Channel) {index : Nat}
    (h : index < size) :
    (filled size held).ranges? channel index
      = some (held.filter fun s => s.channel == channel && s.color == (index : Int)) := by
  rw [ranges?, filled, find?_sorted held channel h]
  rfl

theorem total_lengths (buckets : List Bucket) :
    total (buckets.map fun b => b.spans.length) = (buckets.flatMap Bucket.spans).length := by
  induction buckets with
  | nil => rfl
  | cons b buckets ih =>
      rw [List.map_cons, total_cons, ih, List.flatMap_cons, List.length_append]

theorem size_filled {size : Nat} {held : List Span} (h : ∀ s ∈ held, IsColor size s.color) :
    (filled size held).size = held.length := by
  rw [Decorations.size, total_lengths]
  exact (sorted_perm h).length_eq

/-- The buckets come in the order of the channels, and in each channel in the order of the
colors. -/
theorem keys_filled (size : Nat) (held : List Span) :
    (filled size held).buckets.map (fun b => (b.channel, b.index))
      = (List.range size).map (Channel.delimiter, ·)
        ++ (List.range size).map (Channel.name, ·) := by
  simp [filled, sorted, Channel.all, Function.comp_def]

/-- A foreign color behind spans of the palette stops an extension right there. -/
theorem filled_extend_foreign {size : Nat} (held : List Span) {front back : List Span} {s : Span}
    (hfront : ∀ t ∈ front, IsColor size t.color) (hs : ¬ IsColor size s.color) :
    (filled size held).extend (front ++ s :: back)
      = (((filled size held).extend front).1, some s) := by
  have hall : ∀ t ∈ front, inPalette size t = true := fun t ht => inPalette_iff.mpr (hfront t ht)
  have hforeign : ¬ inPalette size s = true := mt inPalette_iff.mp hs
  have hnone : front.find? (fun t => !inPalette size t) = none :=
    List.find?_eq_none.mpr fun t ht => by simp [hall t ht]
  rw [filled_extend, filled_extend, List.takeWhile_append_of_pos hall,
    List.takeWhile_cons_of_neg hforeign, List.append_nil, List.takeWhile_eq_self_iff.mpr hall,
    List.find?_append, hnone, Option.none_or, List.find?_cons_of_pos (by simp [hforeign])]

/-- Take any palette and any history of changes, and the spans that the history has left.  An
extension fails exactly at a color outside of the palette, and the spans in front of the
first one stay.  Each bucket holds the spans of its channel and color that are left, in their
order, the size counts all of them, and the buckets come once each, the delimiters before the
names and the colors in ascending order. -/
theorem buckets_after_history (size : Nat) (history : List Change) :
    let d := (empty size).after history
    let left := acceptedSinceClear size history
    (∀ spans, (d.extend spans).2 = none ↔ ∀ s ∈ spans, IsColor size s.color) ∧
    (∀ front s back, (∀ t ∈ front, IsColor size t.color) → ¬ IsColor size s.color →
      d.extend (front ++ s :: back) = ((d.extend front).1, some s)) ∧
    (∀ channel, ∀ index < size, d.ranges? channel index
      = some (left.filter fun s => s.channel == channel && s.color == (index : Int))) ∧
    d.size = left.length ∧
    d.buckets.map (fun b => (b.channel, b.index))
      = (List.range size).map (Channel.delimiter, ·) ++ (List.range size).map (Channel.name, ·) ∧
    ∀ b ∈ d.buckets, d.ranges? b.channel b.index = some b.spans := by
  intro d left
  have hd : d = filled size left := after_empty size history
  rw [hd]
  refine ⟨fun spans => ?_, fun front s back hfront hs => ?_, fun channel index h => ?_, ?_,
    keys_filled size left, fun b hb => ?_⟩
  · rw [filled_extend, List.find?_eq_none]
    refine forall₂_congr fun s _ => ?_
    rw [Bool.not_eq_true', Bool.not_eq_false, inPalette_iff]
  · exact filled_extend_foreign left hfront hs
  · exact ranges?_filled left channel h
  · exact size_filled fun s hs => isColor_of_accepted hs
  · obtain ⟨channel, index, hindex, rfl⟩ := mem_sorted.mp hb
    exact ranges?_filled left channel hindex

end Decorations

end TagColoring
