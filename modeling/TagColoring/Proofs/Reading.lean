import Mathlib.Data.List.Basic
import TagColoring.Proofs.Enclosure
import TagColoring.Proofs.Head
import TagColoring.Proofs.Window
import TagColoring.Tag

/-!
# Reading tags from left to right

The tags of a window are those of its first regions and then those of the rest
(`tagsOfWindow_cons`).  Each lemma below puts one piece of markup in front of a
window and says which tags it adds: none for text and for a comment, one for a
bracketed span with a head, and two for a raw text element.
-/

namespace TagColoring

/-! ## Regions in a row -/

theorem regionChars_append (rs ts : List Region) :
    regionChars (rs ++ ts) = regionChars rs ++ regionChars ts := by
  simp [regionChars]

theorem tagsOfRegions_append (v : Vocabulary) :
    ∀ (start : Nat) (rs ts : List Region), tagsOfRegions v start (rs ++ ts)
      = tagsOfRegions v start rs ++ tagsOfRegions v (start + (regionChars rs).length) ts
  | _, [], _ => rfl
  | start, r :: rs, ts => by
      have hlen : (regionChars (r :: rs)).length = r.chars.length + (regionChars rs).length := by
        simp [regionChars]
      rw [List.cons_append, tagsOfRegions, tagsOfRegions_append v _ rs ts, tagsOfRegions, hlen,
        Nat.add_assoc, List.append_assoc]

/-- A tag comes from a region, at the offset of that region. -/
theorem mem_tagsOfRegions {v : Vocabulary} {t : Tag} :
    ∀ {start : Nat} {rs : List Region}, t ∈ tagsOfRegions v start rs →
      ∃ pre r post, rs = pre ++ r :: post ∧
        r.tag? v (start + (regionChars pre).length) = some t
  | _, [], h => absurd h List.not_mem_nil
  | start, r :: rs, h => by
      rw [tagsOfRegions] at h
      rcases List.mem_append.mp h with hr | hrest
      · exact ⟨[], r, rs, rfl, Option.mem_toList.mp hr⟩
      · obtain ⟨pre, s, post, rfl, hs⟩ := mem_tagsOfRegions hrest
        refine ⟨r :: pre, s, post, rfl, ?_⟩
        rw [← hs]
        congr 1
        simp only [regionChars, List.flatMap_cons, List.length_append]
        omega

theorem tagsOfWindow_nil (v : Vocabulary) (start : Nat) : tagsOfWindow v start [] = [] := by
  rw [tagsOfWindow, tile]
  rfl

theorem tagsOfWindow_cons (v : Vocabulary) (start : Nat) (c : Char) (cs : List Char) :
    tagsOfWindow v start (c :: cs) = tagsOfRegions v start (firstRegions v c cs).1
      ++ tagsOfWindow v (start + (regionChars (firstRegions v c cs).1).length)
          (firstRegions v c cs).2 := by
  rw [tagsOfWindow, tile, tagsOfRegions_append]
  rfl

/-! ## Text and comments -/

theorem firstRegions_text (v : Vocabulary) {c : Char} (h : c ≠ '<') (cs : List Char) :
    firstRegions v c cs
      = ([⟨.text, c :: cs.takeWhile (· ≠ '<')⟩], cs.dropWhile (· ≠ '<')) := by
  rw [firstRegions, if_pos h]

theorem tagsOfRegions_text (v : Vocabulary) (start : Nat) (chars : List Char) :
    tagsOfRegions v start [⟨.text, chars⟩] = [] := rfl

theorem tagsOfWindow_text_cons (v : Vocabulary) (start : Nat) {c : Char} (h : c ≠ '<')
    (cs : List Char) : tagsOfWindow v start (c :: cs) = tagsOfWindow v (start + 1) cs := by
  rw [tagsOfWindow_cons, firstRegions_text v h, tagsOfRegions_text, List.nil_append]
  cases cs with
  | nil => rfl
  | cons d ds =>
      by_cases hd : d = '<'
      · subst hd
        rfl
      · rw [tagsOfWindow_cons v (start + 1), firstRegions_text v hd, tagsOfRegions_text,
          List.nil_append]
        have htake : (d :: ds).takeWhile (· ≠ '<') = d :: ds.takeWhile (· ≠ '<') :=
          List.takeWhile_cons_of_pos (by simpa using hd)
        have hdrop : (d :: ds).dropWhile (· ≠ '<') = ds.dropWhile (· ≠ '<') :=
          List.dropWhile_cons_of_pos (by simpa using hd)
        rw [htake, hdrop]
        congr 1
        simp only [regionChars, List.flatMap_cons, List.flatMap_nil, List.append_nil,
          List.length_cons]
        omega

/-- Text has no tags. -/
theorem tagsOfWindow_text (v : Vocabulary) (cs : List Char) :
    ∀ (start : Nat) (run : List Char), '<' ∉ run →
      tagsOfWindow v start (run ++ cs) = tagsOfWindow v (start + run.length) cs
  | _, [], _ => rfl
  | start, c :: run, h => by
      have hc : c ≠ '<' := fun heq => h (heq ▸ List.mem_cons_self ..)
      have hrun : '<' ∉ run := fun hmem => h (List.mem_cons_of_mem c hmem)
      rw [List.cons_append, tagsOfWindow_text_cons v start hc,
        tagsOfWindow_text v cs (start + 1) run hrun, List.length_cons]
      congr 1
      omega

/-- A comment has no tags, whatever is in it. -/
theorem tagsOfWindow_comment (v : Vocabulary) (start : Nat) {body : List Char}
    (h : ¬ commentClose <:+: body) (cs : List Char) :
    tagsOfWindow v start (commentOpen ++ (body ++ (commentClose ++ cs)))
      = tagsOfWindow v (start + (commentOpen ++ (body ++ commentClose)).length) cs := by
  have hcut : cutAfter commentClose (body ++ (commentClose ++ cs))
      = (body ++ commentClose, cs) := by
    rw [cutAfter, cutAt?_of_not_infix (by decide) (by decide) h]
    simp only [List.take_left, List.drop_left]
  have hfirst : firstRegions v '<' ('!' :: '-' :: '-' :: (body ++ (commentClose ++ cs)))
      = ([⟨.comment, commentOpen ++ (body ++ commentClose)⟩], cs) := by
    have hopen : commentOpen.isPrefixOf ('<' :: '!' :: '-' :: '-' :: (body ++ (commentClose ++ cs)))
        = true := rfl
    rw [firstRegions, if_neg (by decide), if_pos hopen]
    simp only [List.drop_succ_cons, List.drop_zero, hcut]
    rfl
  show tagsOfWindow v start ('<' :: '!' :: '-' :: '-' :: (body ++ (commentClose ++ cs))) = _
  rw [tagsOfWindow_cons, hfirst]
  simp [tagsOfRegions, Region.tag?, regionChars]

/-! ## Bracketed spans -/

/-- A bracket that is not followed by an exclamation mark starts no comment and
no doctype. -/
theorem not_marked {span : List Char} (h : span.head? ≠ some '!') (hspan : span ≠ [])
    (mark rest : List Char) : ¬ ('<' :: '!' :: mark).isPrefixOf ('<' :: (span ++ rest)) = true := by
  intro hp
  cases span with
  | nil => exact hspan rfl
  | cons c cs =>
      have hc : '!' = c := by simp at hp; exact hp.1
      exact h (by rw [hc]; rfl)

theorem endsSlashed_append (cs : List Char) :
    endsSlashed (cs ++ ['>']) = true ↔ cs.getLast? = some '/' := by
  rw [endsSlashed, List.isSuffixOf_iff_suffix, List.getLast?_eq_some_iff]
  constructor
  · rintro ⟨front, h⟩
    have h : (front ++ ['/']) ++ ['>'] = cs ++ ['>'] := by simpa using h
    exact ⟨front, (List.append_inj' h rfl).1.symm⟩
  · rintro ⟨front, rfl⟩
    exact ⟨front, by simp⟩

/-- A tag that ends a name does not end with a slash. -/
theorem endsSlashed_name {front name : List Char} (h : IsName name) :
    endsSlashed (front ++ (name ++ ['>'])) = false := by
  rw [← Bool.not_eq_true, ← List.append_assoc, endsSlashed_append]
  intro hlast
  obtain ⟨c, cs, rfl, _⟩ := h.exists_cons
  have hmem : '/' ∈ c :: cs := by
    rw [List.getLast?_append_of_ne_nil _ (List.cons_ne_nil c cs)] at hlast
    exact List.mem_of_getLast? hlast
  exact h.not_mem (by decide) hmem

section Span

variable (v : Vocabulary) (start : Nat) {span rest : List Char}

/-- A span that closes is a region, and it has nothing of the rest. -/
theorem firstRegions_closed (hcomment : ¬ commentOpen.isPrefixOf ('<' :: (span ++ rest)) = true)
    (hdoctype : ¬ doctypeOpen.isPrefixOf ('<' :: (span ++ rest)) = true)
    (hclose : Enclosure.tag.close (span ++ rest) = .closed rest)
    (raw : Option (String × List Char × List Char × List Char))
    (hraw : ((rawTextName? v ('<' :: span)).bind fun name =>
      (rawText? name rest).map fun parts => (name, parts)) = raw) :
    firstRegions v '<' (span ++ rest)
      = (⟨.bracketed, '<' :: span⟩ :: (raw.toList.flatMap fun (name, body, closer, _) =>
          [⟨.rawBody, body⟩, ⟨.rawCloser name, closer⟩]),
        raw.elim rest fun (_, _, _, after) => after) := by
  have htake : (span ++ rest).take ((span ++ rest).length - rest.length) = span := by
    rw [List.length_append, Nat.add_sub_cancel, List.take_left]
  rw [firstRegions, if_neg (by decide), if_neg hcomment, if_neg hdoctype, hclose]
  simp only [htake, hraw]
  cases raw with
  | none => rfl
  | some parts => simp

/-- A span that opens no raw text element adds its own tag. -/
theorem tagsOfWindow_span (h : span.head? ≠ some '!') (hspan : span ≠ [])
    (hclose : Enclosure.tag.close (span ++ rest) = .closed rest)
    (hraw : rawTextName? v ('<' :: span) = none) {t : Tag}
    (ht : Tag.ofSpan? v start ('<' :: span) = some t) :
    tagsOfWindow v start ('<' :: (span ++ rest))
      = t :: tagsOfWindow v (start + ('<' :: span).length) rest := by
  rw [tagsOfWindow_cons, firstRegions_closed v (not_marked h hspan _ rest)
    (not_marked h hspan _ rest) hclose none (by rw [hraw]; rfl)]
  simp [tagsOfRegions, Region.tag?, ht, regionChars]

/-- A span that opens a raw text element adds its own tag and that of its
closer, and nothing from between them. -/
theorem tagsOfWindow_rawText (h : span.head? ≠ some '!') (hspan : span ≠ [])
    (hclose : Enclosure.tag.close (span ++ rest) = .closed rest) {name : String}
    (hraw : rawTextName? v ('<' :: span) = some name) {body closer after : List Char}
    (hparts : rawText? name rest = some (body, closer, after)) {t : Tag}
    (ht : Tag.ofSpan? v start ('<' :: span) = some t) :
    tagsOfWindow v start ('<' :: (span ++ rest))
      = t :: Tag.ofRawCloser (start + ('<' :: (span ++ body)).length) name closer
        :: tagsOfWindow v (start + ('<' :: (span ++ (body ++ closer))).length) after := by
  rw [tagsOfWindow_cons, firstRegions_closed v (not_marked h hspan _ rest)
    (not_marked h hspan _ rest) hclose
    (some (name, body, closer, after)) (by rw [hraw, Option.bind_some, hparts]; rfl)]
  simp [tagsOfRegions, Region.tag?, ht, regionChars, Nat.add_assoc, Nat.add_comm,
    Nat.add_left_comm]

end Span

end TagColoring
