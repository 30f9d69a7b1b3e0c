import Mathlib.Data.List.TakeWhile
import TagColoring.Decoration
import TagColoring.Proofs.Rotation

/-!
# What a set of decorations holds

Decorations take spans one at a time.  All spans of a list together do to a
bucket what `Bucket.extend` does: they put those of its channel and color behind
what it has, in their order.  `extend_eq` says so of every list, up to the first
span that has no bucket.

A palette has one bucket for each channel and each of its colors
(`countP_has_empty`).  So spans with colors of the palette are all taken, and
each of them stands in one bucket (`ofSpans_perm`).
-/

namespace TagColoring

open Rotation (IsColor)

/-- Whether a span belongs into a bucket. -/
def Bucket.holds (b : Bucket) (s : Span) : Bool := b.has s.channel s.color

/-- Put the spans of a list that belong into a bucket behind those it has. -/
def Bucket.extend (b : Bucket) (spans : List Span) : Bucket :=
  { b with spans := b.spans ++ spans.filter b.holds }

theorem Bucket.extend_nil (b : Bucket) : b.extend [] = b := by
  rw [Bucket.extend, List.filter_nil, List.append_nil]

theorem Bucket.extend_cons (b : Bucket) (s : Span) (ss : List Span) :
    b.extend (s :: ss) = (if b.holds s then b.push s else b).extend ss := by
  by_cases h : b.holds s = true
  · have hpush : (b.push s).holds = b.holds := rfl
    rw [if_pos h, Bucket.extend, Bucket.extend, hpush, List.filter_cons_of_pos h]
    simp only [Bucket.push, List.append_assoc, List.singleton_append]
  · rw [if_neg h, Bucket.extend, Bucket.extend, List.filter_cons_of_neg h]

namespace Decorations

/-- Whether there is a bucket for a span. -/
def accepts (d : Decorations) (s : Span) : Bool := d.hasBucket s.channel s.color

theorem accepts_insert (d : Decorations) (s : Span) : (d.insert s).accepts = d.accepts := by
  funext t
  simp only [accepts, hasBucket, insert, List.any_map]
  congr 1
  funext b
  show (if b.has s.channel s.color then b.push s else b).has t.channel t.color = _
  split <;> rfl

/-- A list of spans goes into the buckets up to the first span that has none. -/
theorem extend_eq : ∀ (d : Decorations) (spans : List Span),
    d.extend spans
      = ({ d with buckets := d.buckets.map fun b => b.extend (spans.takeWhile d.accepts) },
        spans.find? fun s => !d.accepts s)
  | d, [] => by
      have hid : (fun b : Bucket => b.extend ([].takeWhile d.accepts)) = id := by
        funext b
        rw [List.takeWhile_nil, Bucket.extend_nil]
        rfl
      rw [extend, hid, List.map_id]
      rfl
  | d, s :: ss => by
      show (if d.accepts s then (d.insert s).extend ss else (d, some s)) = _
      by_cases h : d.accepts s = true
      · have hmap : (d.insert s).buckets.map (fun b => b.extend (ss.takeWhile d.accepts))
            = d.buckets.map fun b => b.extend ((s :: ss).takeWhile d.accepts) := by
          rw [List.takeWhile_cons_of_pos h, insert, List.map_map]
          refine List.map_congr_left fun b _ => ?_
          exact (Bucket.extend_cons b s _).symm
        have hfind : (s :: ss).find? (fun s => !d.accepts s) = ss.find? fun s => !d.accepts s :=
          List.find?_cons_of_neg (by simp [h])
        rw [if_pos h, extend_eq (d.insert s) ss, accepts_insert, hmap, hfind]
        rfl
      · have hid : (fun b : Bucket => b.extend ((s :: ss).takeWhile d.accepts)) = id := by
          funext b
          rw [List.takeWhile_cons_of_neg h, Bucket.extend_nil]
          rfl
        have hfind : (s :: ss).find? (fun s => !d.accepts s) = some s :=
          List.find?_cons_of_pos (by simp [h])
        rw [if_neg h, hid, List.map_id, hfind]

/-! ## The buckets of a palette -/

/-- Each channel and each color of the palette has one bucket. -/
theorem countP_has_empty {size : Nat} (channel : Channel) {color : Int}
    (h : IsColor size color) :
    (empty size).buckets.countP (fun b => b.has channel color) = 1 := by
  obtain ⟨i, rfl⟩ := Int.eq_ofNat_of_zero_le h.1
  have hi : i < size := Int.ofNat_lt.mp h.2
  have hcount : (List.range size).countP (fun index : Nat => (index : Int) == (i : Int)) = 1 := by
    have hone : (List.range size).count i = 1 := by
      rw [List.count_range, if_pos hi]
    rw [← hone, List.count_eq_countP]
    refine List.countP_congr fun index _ => ?_
    simp only [beq_iff_eq, Int.natCast_inj]
  have hname : (Channel.name == Channel.delimiter) = false := rfl
  have hdelimiter : (Channel.delimiter == Channel.name) = false := rfl
  cases channel with
  | delimiter =>
      simpa [empty, Channel.all, List.countP_map, Function.comp_def, Bucket.has, hname] using hcount
  | name =>
      simpa [empty, Channel.all, List.countP_map, Function.comp_def, Bucket.has, hdelimiter]
        using hcount

theorem accepts_empty {size : Nat} {s : Span} (h : IsColor size s.color) :
    (empty size).accepts s = true := by
  have hone := countP_has_empty s.channel h
  have hpos : 0 < (empty size).buckets.countP (fun b => b.has s.channel s.color) := by omega
  obtain ⟨b, hb, hhas⟩ := List.countP_pos_iff.mp hpos
  exact List.any_eq_true.mpr ⟨b, hb, hhas⟩

/-- The buckets of a palette, each with its spans of a list. -/
def sorted (size : Nat) (spans : List Span) : List Bucket :=
  Channel.all.flatMap fun channel =>
    (List.range size).map fun index =>
      ⟨channel, index, spans.filter fun s => s.channel == channel && s.color == (index : Int)⟩

theorem sorted_eq (size : Nat) (spans : List Span) :
    (empty size).buckets.map (fun b => b.extend spans) = sorted size spans := by
  have hholds : ∀ (channel : Channel) (index : Nat),
      (⟨channel, index, []⟩ : Bucket).holds
        = fun s => s.channel == channel && s.color == (index : Int) := by
    intro channel index
    funext s
    rw [Bucket.holds, Bucket.has, Bool.beq_comm (a := channel), Bool.beq_comm (a := (index : Int))]
  simp [empty, sorted, Channel.all, Bucket.extend, Function.comp_def, hholds]

theorem mem_sorted {size : Nat} {spans : List Span} {b : Bucket} :
    b ∈ sorted size spans ↔ ∃ channel : Channel, ∃ index < size,
      b = ⟨channel, index,
        spans.filter fun s => s.channel == channel && s.color == (index : Int)⟩ := by
  have hall : ∀ channel : Channel, channel ∈ Channel.all := by
    intro channel
    cases channel <;> decide
  simp only [sorted, List.mem_flatMap, List.mem_map, List.mem_range, hall, true_and, eq_comm]

/-- The bucket of a channel and a color has their spans, in the order of the list. -/
theorem find?_sorted {size : Nat} (spans : List Span) (channel : Channel) {index : Nat}
    (h : index < size) :
    (sorted size spans).find? (fun b => b.has channel index)
      = some ⟨channel, index,
          spans.filter fun s => s.channel == channel && s.color == (index : Int)⟩ := by
  cases hfind : (sorted size spans).find? (fun b => b.has channel index) with
  | none =>
      have hbucket := List.find?_eq_none.mp hfind _ (mem_sorted.mpr ⟨channel, index, h, rfl⟩)
      simp [Bucket.has] at hbucket
  | some b =>
      obtain ⟨channel', index', _, rfl⟩ := mem_sorted.mp (List.mem_of_find?_eq_some hfind)
      have hhas := List.find?_some hfind
      simp only [Bucket.has, Bool.and_eq_true, beq_iff_eq, Int.natCast_inj] at hhas
      obtain ⟨rfl, rfl⟩ := hhas
      rfl

/-- Spans with colors of the palette are all taken, each into its own bucket and
in their order. -/
theorem ofSpans_eq {size : Nat} {spans : List Span} (h : ∀ s ∈ spans, IsColor size s.color) :
    ofSpans size spans = (⟨size, sorted size spans⟩, none) := by
  have hall : ∀ s ∈ spans, (empty size).accepts s = true := fun s hs => accepts_empty (h s hs)
  have htake : spans.takeWhile (empty size).accepts = spans := List.takeWhile_eq_self_iff.mpr hall
  have hfind : spans.find? (fun s => !(empty size).accepts s) = none := by
    rw [List.find?_eq_none]
    intro s hs
    simp [hall s hs]
  rw [ofSpans, extend_eq, htake, hfind, sorted_eq]
  rfl

theorem count_extend (s : Span) (spans : List Span) : ∀ buckets : List Bucket,
    ((buckets.map fun b => b.extend spans).flatMap Bucket.spans).count s
      = (buckets.flatMap Bucket.spans).count s
        + buckets.countP (fun b => b.holds s) * spans.count s
  | [] => by simp
  | b :: bs => by
      have ih := count_extend s spans bs
      have hfilter : (spans.filter b.holds).count s
          = (if b.holds s then 1 else 0) * spans.count s := by
        by_cases h : b.holds s = true
        · rw [List.count_filter h, if_pos h, Nat.one_mul]
        · rw [if_neg h, Nat.zero_mul, List.count_eq_zero]
          exact fun hs => h (List.mem_filter.mp hs).2
      have hspans : (b.extend spans).spans = b.spans ++ spans.filter b.holds := rfl
      simp only [List.map_cons, List.flatMap_cons, List.count_append, ih, hspans, hfilter,
        List.countP_cons, Nat.add_mul]
      omega

/-- Every span stands in the buckets as often as in the list. -/
theorem sorted_perm {size : Nat} {spans : List Span} (h : ∀ s ∈ spans, IsColor size s.color) :
    ((sorted size spans).flatMap Bucket.spans).Perm spans := by
  have hempty : ∀ s, ((empty size).buckets.flatMap Bucket.spans).count s = 0 := by
    intro s
    rw [List.count_eq_zero]
    simp [empty, Channel.all]
  rw [List.perm_iff_count]
  intro s
  rw [← sorted_eq, count_extend, hempty, Nat.zero_add]
  by_cases hs : s ∈ spans
  · have hone : (empty size).buckets.countP (fun b => b.holds s) = 1 :=
      countP_has_empty s.channel (h s hs)
    rw [hone, Nat.one_mul]
  · rw [List.count_eq_zero.mpr hs, Nat.mul_zero]

end Decorations

end TagColoring
