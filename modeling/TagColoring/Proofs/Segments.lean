import TagColoring.Content
import TagColoring.Proofs.Cursor

/-!
# Segments stand in order

The search for segments takes ranges of code from a list, last in, first out,
and puts each segment where its start belongs.  Reading host code from left to
right would be simpler: the segments of a range are, literal by literal, the body
if the literal is tagged, and else the segments of its placeholders.
`codeSegments` is that reading, and `hostSegments_eq` says that the search finds
the same segments in the same order.

The reading goes down into literals and placeholders, which lie inside of each
other and next to each other.  `InOrder` says so of a list of ranges, and it is
closed under replacing each range by ranges inside of it (`InOrder.flatMap`).  So
the segments of a text stand in order (`segments_inOrder`), each of them apart
from the next.
-/

namespace TagColoring

/-! ## Ranges in order -/

/-- Ranges between two offsets from left to right, with at least one character
behind each of them. -/
def InOrder (lo hi : Nat) : List Range → Prop
  | [] => True
  | r :: rs => lo ≤ r.start ∧ r.start ≤ r.stop ∧ r.stop < hi ∧ InOrder (r.stop + 1) hi rs

theorem InOrder.mono : ∀ {lo lo' hi hi' : Nat} {rs : List Range}, lo' ≤ lo → hi ≤ hi' →
    InOrder lo hi rs → InOrder lo' hi' rs
  | _, _, _, _, [], _, _, _ => trivial
  | _, _, _, _, r :: rs, hlo, hhi, ⟨h1, h2, h3, hrest⟩ =>
      ⟨by omega, h2, by omega, hrest.mono (Nat.le_refl _) hhi⟩

theorem InOrder.append : ∀ {lo mid hi : Nat} {rs ts : List Range}, mid ≤ hi →
    InOrder lo mid rs → InOrder mid hi ts → lo ≤ mid → InOrder lo hi (rs ++ ts)
  | _, _, _, [], _, _, _, hts, hlo => hts.mono hlo (Nat.le_refl _)
  | _, _, _, r :: rs, ts, hhi, ⟨h1, h2, h3, hrest⟩, hts, _ =>
      ⟨h1, h2, by omega, InOrder.append hhi hrest hts h3⟩

/-- Ranges in order stay so if each gives way to ranges inside of it. -/
theorem InOrder.flatMap {f : Range → List Range} :
    ∀ {lo hi : Nat} {rs : List Range}, InOrder lo hi rs →
      (∀ r ∈ rs, InOrder r.start (r.stop + 1) (f r)) → InOrder lo hi (rs.flatMap f)
  | _, _, [], _, _ => trivial
  | lo, hi, r :: rs, ⟨h1, h2, h3, hrest⟩, hf => by
      have hr : InOrder lo (r.stop + 1) (f r) :=
        (hf r (List.mem_cons_self ..)).mono h1 (Nat.le_refl _)
      have hrs : InOrder (r.stop + 1) hi (rs.flatMap f) :=
        hrest.flatMap fun s hs => hf s (List.mem_cons_of_mem r hs)
      rw [List.flatMap_cons]
      exact hr.append h3 hrs (by omega)

theorem InOrder.mem : ∀ {lo hi : Nat} {rs : List Range}, InOrder lo hi rs →
    ∀ r ∈ rs, lo ≤ r.start ∧ r.start ≤ r.stop ∧ r.stop < hi
  | _, _, [], _, _, hr => absurd hr List.not_mem_nil
  | _, _, s :: rs, ⟨h1, h2, h3, hrest⟩, r, hr => by
      rcases List.mem_cons.mp hr with rfl | hr
      · exact ⟨h1, h2, h3⟩
      · have := hrest.mem r hr
        omega

theorem InOrder.pairwise : ∀ {lo hi : Nat} {rs : List Range}, InOrder lo hi rs →
    rs.Pairwise fun r s => r.stop < s.start
  | _, _, [], _ => List.Pairwise.nil
  | _, _, _ :: _, ⟨_, _, _, hrest⟩ =>
      List.Pairwise.cons (fun s hs => (hrest.mem s hs).1) hrest.pairwise

/-! ## Literals and placeholders -/

theorem literalBodies_inOrder (i : Nat) (code : List Char) :
    InOrder (i + 1) (i + code.length) (literalBodies i code) := by
  fun_induction literalBodies i code with
  | case1 => trivial
  | case2 i cs rest h hlt after ih =>
      simp only [InOrder, List.length_cons]
      exact ⟨Nat.le_refl _, by omega, by omega, ih.mono (by omega) (by omega)⟩
  | case3 i cs h ih =>
      refine ih.mono (by omega) ?_
      simp only [List.length_cons]
      omega
  | case4 i c cs h ih =>
      refine ih.mono (by omega) ?_
      simp only [List.length_cons]
      omega

theorem placeholdersFrom_inOrder (i : Nat) (body : List Char) :
    InOrder (i + 2) (i + body.length) (placeholdersFrom i body).1 := by
  fun_induction placeholdersFrom i body with
  | case1 => trivial
  | case2 => trivial
  | case3 i c cs ih =>
      refine ih.mono (by omega) ?_
      simp only [List.length_cons]
      omega
  | case4 i cs rest h hlt after ranges ending hrec ih =>
      rw [hrec] at ih
      simp only [InOrder, List.length_cons]
      exact ⟨Nat.le_refl _, by omega, by omega, ih.mono (by omega) (by omega)⟩
  | case5 => trivial
  | case6 => trivial
  | case7 i c cs h1 h2 h3 ih =>
      refine ih.mono (by omega) ?_
      simp only [List.length_cons]
      omega

/-- The literals of a range stand in order inside of it. -/
theorem Range.literals_inOrder {text : List Char} {code : Range} (h : code.start ≤ code.stop) :
    InOrder (code.start + 1) code.stop (code.literals text) := by
  have hlen := length_slice_le text code.start code.stop
  exact (literalBodies_inOrder _ _).mono (Nat.le_refl _) (by omega)

/-- The placeholders of a literal stand in order inside of its body. -/
theorem Range.placeholders_inOrder {text : List Char} {body : Range}
    (h : body.start ≤ body.stop) :
    InOrder (body.start + 2) body.stop (body.placeholders text) := by
  have hlen := length_slice_le text body.start body.stop
  exact (placeholdersFrom_inOrder _ _).mono (Nat.le_refl _) (by omega)

/-! ## Reading host code from left to right -/

theorem length_lt_of_mem_nestedCode {text : List Char} {code inner : Range}
    (h : inner ∈ code.nestedCode text) : inner.length < code.length := by
  have hsum := code.nestedCode_size text
  obtain ⟨before, behind, hsplit⟩ := List.append_of_mem h
  rw [hsplit, rangesSize_append] at hsum
  simp only [rangesSize, List.map_cons, total_cons] at hsum
  omega

theorem mem_nestedCode {text : List Char} {code body inner : Range}
    (hbody : body ∈ code.literals text) (htag : ¬ body.isTagged text = true)
    (hinner : inner ∈ body.placeholders text) : inner ∈ code.nestedCode text :=
  List.mem_flatMap.mpr ⟨body, List.mem_filter.mpr ⟨hbody, by simpa using htag⟩, hinner⟩

/-- The segments of a range of code, literal by literal. -/
def codeSegments (text : List Char) (code : Range) : List Range :=
  (code.literals text).attach.flatMap fun ⟨body, hbody⟩ =>
    if htag : body.isTagged text then [body]
    else (body.placeholders text).attach.flatMap fun ⟨inner, hinner⟩ =>
      have := length_lt_of_mem_nestedCode (mem_nestedCode hbody htag hinner)
      codeSegments text inner
termination_by code.length

theorem codeSegments_eq (text : List Char) (code : Range) :
    codeSegments text code = (code.literals text).flatMap fun body =>
      if body.isTagged text then [body]
      else (body.placeholders text).flatMap (codeSegments text) := by
  rw [codeSegments]
  simp only [List.flatMap_subtype, List.unattach_attach, dite_eq_ite]

theorem codeSegments_inOrder (text : List Char) (code : Range) (h : code.start ≤ code.stop) :
    InOrder (code.start + 1) code.stop (codeSegments text code) := by
  rw [codeSegments_eq]
  refine (Range.literals_inOrder h).flatMap fun body hbody => ?_
  have hlit := (Range.literals_inOrder h).mem body hbody
  split
  · exact ⟨Nat.le_refl _, hlit.2.1, Nat.lt_succ_self _, trivial⟩
  · next htag =>
      have hnested : InOrder (body.start + 2) body.stop
          ((body.placeholders text).flatMap (codeSegments text)) := by
        refine (Range.placeholders_inOrder hlit.2.1).flatMap fun inner hinner => ?_
        have hlt := length_lt_of_mem_nestedCode (mem_nestedCode hbody htag hinner)
        have hle := (Range.placeholders_inOrder hlit.2.1).mem inner hinner
        exact (codeSegments_inOrder text inner hle.2.1).mono (by omega) (by omega)
      exact hnested.mono (by omega) (by omega)
termination_by code.length

/-! ## The search finds the same segments -/

theorem insertByStart_perm (r : Range) : ∀ rs : List Range, (insertByStart r rs).Perm (r :: rs)
  | [] => List.Perm.refl _
  | s :: ss => by
      rw [insertByStart]
      split
      · exact List.Perm.refl _
      · exact ((insertByStart_perm r ss).cons s).trans (List.Perm.swap r s ss)

theorem insertByStart_pairwise (r : Range) : ∀ {rs : List Range},
    rs.Pairwise (fun s t => s.start ≤ t.start) →
      (insertByStart r rs).Pairwise fun s t => s.start ≤ t.start
  | [], _ => List.pairwise_singleton _ _
  | s :: ss, h => by
      obtain ⟨hs, hss⟩ := List.pairwise_cons.mp h
      rw [insertByStart]
      split
      · next hlt =>
          refine List.Pairwise.cons (fun t ht => ?_) h
          rcases List.mem_cons.mp ht with rfl | ht
          · exact Nat.le_of_lt hlt
          · exact Nat.le_trans (Nat.le_of_lt hlt) (hs t ht)
      · next hlt =>
          refine List.Pairwise.cons (fun t ht => ?_) (insertByStart_pairwise r hss)
          rcases List.mem_cons.mp ((insertByStart_perm r ss).mem_iff.mp ht) with rfl | ht
          · exact Nat.not_lt.mp hlt
          · exact hs t ht

theorem foldl_insertByStart_perm : ∀ (rs found : List Range),
    (rs.foldl (fun found body => insertByStart body found) found).Perm (found ++ rs)
  | [], found => by rw [List.append_nil]; rfl
  | r :: rs, found => by
      rw [List.foldl_cons]
      refine (foldl_insertByStart_perm rs _).trans ?_
      refine ((insertByStart_perm r found).append_right rs).trans ?_
      exact List.perm_middle.symm

theorem foldl_insertByStart_pairwise : ∀ (rs : List Range) {found : List Range},
    found.Pairwise (fun s t => s.start ≤ t.start) →
      (rs.foldl (fun found body => insertByStart body found) found).Pairwise
        fun s t => s.start ≤ t.start
  | [], _, h => h
  | r :: rs, _, h => foldl_insertByStart_pairwise rs (insertByStart_pairwise r h)

/-- The segments of a range are its tagged literals and those of the code nested
in it. -/
theorem codeSegments_perm (text : List Char) (code : Range) :
    (codeSegments text code).Perm ((code.literals text).filter (Range.isTagged text)
      ++ (code.nestedCode text).flatMap (codeSegments text)) := by
  rw [codeSegments_eq, Range.nestedCode]
  induction code.literals text with
  | nil => exact List.Perm.refl _
  | cons body bodies ih =>
      rw [List.flatMap_cons]
      by_cases htag : body.isTagged text = true
      · rw [if_pos htag, List.filter_cons_of_pos htag, List.filter_cons_of_neg (by simp [htag])]
        exact ih.cons body
      · rw [if_neg htag, List.filter_cons_of_neg htag, List.filter_cons_of_pos (by simp [htag]),
          List.flatMap_cons, List.flatMap_append]
        refine (ih.append_left _).trans ?_
        rw [← List.append_assoc, ← List.append_assoc]
        exact List.perm_append_comm.append_right _

theorem drain_perm (text : List Char) (pending found : List Range) :
    (drain text pending found).Perm (found ++ pending.flatMap (codeSegments text)) := by
  fun_induction drain text pending found with
  | case1 found => rw [List.flatMap_nil, List.append_nil]
  | case2 found code pending ih =>
      refine ih.trans ?_
      rw [List.flatMap_cons, List.flatMap_append, ← List.append_assoc, ← List.append_assoc]
      refine List.Perm.append_right _ ?_
      refine ((foldl_insertByStart_perm _ found).append
        ((List.reverse_perm _).flatMap_right (codeSegments text))).trans ?_
      rw [List.append_assoc]
      exact (codeSegments_perm text code).symm.append_left found

theorem drain_pairwise (text : List Char) (pending found : List Range)
    (h : found.Pairwise fun s t => s.start ≤ t.start) :
    (drain text pending found).Pairwise fun s t => s.start ≤ t.start := by
  fun_induction drain text pending found with
  | case1 found => exact h
  | case2 found code pending ih => exact ih (foldl_insertByStart_pairwise _ h)

/-- The search finds the segments in the order of the text. -/
theorem hostSegments_eq (text : List Char) :
    hostSegments text = codeSegments text ⟨0, text.length⟩ := by
  have horder := codeSegments_inOrder text ⟨0, text.length⟩ (Nat.zero_le _)
  have hlt : (codeSegments text ⟨0, text.length⟩).Pairwise fun r s => r.start < s.start := by
    refine horder.pairwise.imp_of_mem fun hr _ hrs => ?_
    exact Nat.lt_of_le_of_lt (horder.mem _ hr).2.1 hrs
  have hperm : (hostSegments text).Perm (codeSegments text ⟨0, text.length⟩) := by
    have h := drain_perm text [⟨0, text.length⟩] []
    rwa [List.nil_append, List.flatMap_singleton] at h
  refine hperm.eq_of_pairwise (fun r s hr hs hrs hsr => ?_)
    (drain_pairwise text _ [] List.Pairwise.nil) (hlt.imp fun h => Nat.le_of_lt h)
  -- No two segments start at one offset, so the order by starts leaves no choice.
  obtain ⟨i, hi, rfl⟩ := List.getElem_of_mem (hperm.mem_iff.mp hr)
  obtain ⟨j, hj, rfl⟩ := List.getElem_of_mem hs
  rcases Nat.lt_trichotomy i j with hij | rfl | hij
  · exact absurd hsr (Nat.not_le.mpr (List.pairwise_iff_getElem.mp hlt i j hi hj hij))
  · rfl
  · exact absurd hrs (Nat.not_le.mpr (List.pairwise_iff_getElem.mp hlt j i hj hi hij))

/-- The segments of a text stand in order inside of it. -/
theorem segments_inOrder (text : List Char) (kind : ContentKind) :
    InOrder 0 (text.length + 1) (segments text kind) := by
  have hwhole : InOrder 0 (text.length + 1) [⟨0, text.length⟩] :=
    ⟨Nat.le_refl 0, Nat.zero_le _, Nat.lt_succ_self _, trivial⟩
  cases kind with
  | markup => exact hwhole
  | markupWithExpressions => exact hwhole
  | hostLanguage =>
      show InOrder 0 (text.length + 1) (hostSegments text)
      rw [hostSegments_eq]
      exact (codeSegments_inOrder text ⟨0, text.length⟩ (Nat.zero_le _)).mono (Nat.zero_le _)
        (Nat.le_succ _)

end TagColoring
