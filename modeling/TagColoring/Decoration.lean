import TagColoring.Span

/-!
# Decorations

A renderer owns one style for each channel and color, and replaces all ranges of
a style at once.  A set of *decorations* holds the spans of a scan in that form.
It has one bucket for each channel and each color of the palette, also for those
that no span uses, so that applying the set also removes what an earlier scan
painted.  Buckets come in a fixed order: all colors of the delimiters, then all
colors of the names.

A span whose color is not in the palette has no bucket.  `extend` takes spans up
to the first of that sort and tells which one it was.
-/

namespace TagColoring

/-- The spans of one channel and one color, in the order they came. -/
structure Bucket where
  channel : Channel
  index : Nat
  spans : List Span
deriving DecidableEq, Repr

/-- Whether a bucket is that of a channel and a color. -/
def Bucket.has (b : Bucket) (channel : Channel) (color : Int) : Bool :=
  b.channel == channel && (b.index : Int) == color

/-- Put a span at the end of a bucket. -/
def Bucket.push (b : Bucket) (s : Span) : Bucket := { b with spans := b.spans ++ [s] }

/-- Spans by channel and color. -/
structure Decorations where
  /-- The size of the palette, as it was given. -/
  paletteSize : Int
  buckets : List Bucket
deriving DecidableEq, Repr

namespace Decorations

/-- Decorations without spans.  A palette of a negative size has no colors. -/
def empty (paletteSize : Int) : Decorations :=
  ⟨paletteSize, Channel.all.flatMap fun channel =>
    (List.range paletteSize.toNat).map fun index => ⟨channel, index, []⟩⟩

/-- Whether there is a bucket for a channel and a color. -/
def hasBucket (d : Decorations) (channel : Channel) (color : Int) : Bool :=
  d.buckets.any fun b => b.has channel color

/-- Put a span into its bucket, if it has one. -/
def insert (d : Decorations) (s : Span) : Decorations :=
  { d with buckets := d.buckets.map fun b => if b.has s.channel s.color then b.push s else b }

/-- Put spans into their buckets, up to the first one that has none.  That span
is the second part of the result. -/
def extend (d : Decorations) : List Span → Decorations × Option Span
  | [] => (d, none)
  | s :: ss =>
      if d.hasBucket s.channel s.color then (d.insert s).extend ss else (d, some s)
termination_by structural ss => ss

/-- Decorations with some spans. -/
def ofSpans (paletteSize : Int) (spans : List Span) : Decorations × Option Span :=
  (empty paletteSize).extend spans

/-- The spans of a channel and a color. -/
def ranges? (d : Decorations) (channel : Channel) (color : Int) : Option (List Span) :=
  (d.buckets.find? fun b => b.has channel color).map Bucket.spans

/-- Remove all spans. -/
def clear (d : Decorations) : Decorations :=
  { d with buckets := d.buckets.map fun b => { b with spans := [] } }

/-- The number of spans. -/
def size (d : Decorations) : Nat := total (d.buckets.map fun b => b.spans.length)

/-- A palette has two buckets for each color. -/
theorem length_buckets_empty (paletteSize : Int) :
    (empty paletteSize).buckets.length = 2 * paletteSize.toNat := by
  simp [empty, Channel.all]
  omega

theorem length_buckets_insert (d : Decorations) (s : Span) :
    (d.insert s).buckets.length = d.buckets.length := by
  simp [insert]

/-- Spans do not add buckets. -/
theorem length_buckets_extend (d : Decorations) (ss : List Span) :
    (d.extend ss).1.buckets.length = d.buckets.length := by
  induction ss generalizing d with
  | nil => rfl
  | cons s ss ih =>
      rw [extend]
      split
      · rw [ih, length_buckets_insert]
      · rfl

end Decorations

end TagColoring
