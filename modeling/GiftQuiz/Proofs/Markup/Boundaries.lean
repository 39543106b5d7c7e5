import GiftQuiz.Proofs.Markup.SourceText

/-!
# Spans fall between characters

A source text is cut by bytes, and not every byte is the first one of a character. A span `Fits` a
source if both of its ends fall between two characters of it; `sourceText?_isSome_iff` says that
these are the spans with a text.

Every span of a tree fits what stands behind the byte order mark of the document, as the element is
spelled there by tokens of its own (`Document.fits_of_mem_subtree`). In a document without such a
mark this is the document itself.
-/

namespace GiftQuiz

namespace Markup

open Token (spelling extent)

/-- A range of bytes with both ends between two characters of a source. -/
def Fits (source : List Char) (span : Span) : Prop :=
  ∃ before t after, source = before ++ t ++ after ∧
    span = ⟨Utf8.size before, Utf8.size before + Utf8.size t⟩

theorem dropBytes?_eq_some {n : Nat} {t u : List Char} (h : dropBytes? n t = some u) :
    ∃ before, t = before ++ u ∧ Utf8.size before = n := by
  fun_induction dropBytes? n t with
  | case1 t =>
      cases h
      exact ⟨[], rfl, rfl⟩
  | case2 n => cases h
  | case3 n c t hle ih =>
      obtain ⟨before, rfl, hsize⟩ := ih h
      refine ⟨c :: before, rfl, ?_⟩
      rw [Utf8.size_cons, hsize]
      omega
  | case4 n c t hle => cases h

theorem takeBytesFrom?_eq_some {done : List Char} {n : Nat} {t u : List Char}
    (h : takeBytesFrom? done n t = some u) :
    ∃ taken after, t = taken ++ after ∧ Utf8.size taken = n := by
  fun_induction takeBytesFrom? done n t with
  | case1 done t => exact ⟨[], t, rfl, rfl⟩
  | case2 done n => cases h
  | case3 done n c t hle ih =>
      obtain ⟨taken, after, rfl, hsize⟩ := ih h
      refine ⟨c :: taken, after, rfl, ?_⟩
      rw [Utf8.size_cons, hsize]
      omega
  | case4 done n c t hle => cases h

namespace Fits

variable {source : List Char} {span : Span}

theorem stop_le (h : Fits source span) :
    span.start ≤ span.stop ∧ span.stop ≤ Utf8.size source := by
  obtain ⟨before, t, after, rfl, rfl⟩ := h
  simp only [Utf8.size_append]
  omega

theorem of_slice? {t : List Char} (h : slice? source span = some t) : Fits source span := by
  obtain ⟨start, stop⟩ := span
  simp only [slice?] at h
  split at h
  · rename_i hle
    obtain ⟨rest, hdrop, htake⟩ := Option.bind_eq_some_iff.mp h
    obtain ⟨before, rfl, rfl⟩ := dropBytes?_eq_some hdrop
    obtain ⟨taken, after, rfl, hsize⟩ := takeBytesFrom?_eq_some htake
    refine ⟨before, taken, after, (List.append_assoc ..).symm, ?_⟩
    rw [hsize]
    congr 1
    omega
  · cases h

theorem exists_slice? (h : Fits source span) : ∃ t, slice? source span = some t := by
  obtain ⟨before, t, after, rfl, rfl⟩ := h
  exact ⟨t, slice?_append before t after⟩

end Fits

theorem Element.subtree_eq (e : Element) : e.subtree = e :: subtreeAll e.children := by
  cases e
  rw [subtree]

theorem Element.subtreeAll_trans {nodes : List (Node Element)} {e e' : Element}
    (h : e ∈ subtreeAll nodes) (h' : e' ∈ subtreeAll e.children) : e' ∈ subtreeAll nodes := by
  induction nodes using nodes_induction with
  | nil => cases h
  | text t rest ih => exact ih h
  | element e₀ rest inner ih =>
      rcases mem_subtreeAll_cons.mp h with rfl | h | h
      · exact mem_subtreeAll_cons.mpr (Or.inr (Or.inl h'))
      · exact mem_subtreeAll_cons.mpr (Or.inr (Or.inl (inner h)))
      · exact mem_subtreeAll_cons.mpr (Or.inr (Or.inr (ih h)))

/-- What is inside an element of a tree is inside the tree. -/
theorem Element.subtree_trans {root e e' : Element} (h : e ∈ root.subtree)
    (h' : e' ∈ subtreeAll e.children) : e' ∈ root.subtree := by
  rw [subtree_eq] at h ⊢
  rcases List.mem_cons.mp h with rfl | h
  · exact List.mem_cons_of_mem _ h'
  · exact List.mem_cons_of_mem _ (subtreeAll_trans h h')

/-- An element has a source text exactly where both ends of its span fall between characters. -/
theorem Element.sourceText?_isSome_iff {source : List Char} {e : Element} :
    (e.sourceText? source).isSome ↔ Fits source e.span := by
  unfold sourceText?
  rw [Option.isSome_map]
  constructor
  · intro h
    obtain ⟨t, ht⟩ := Option.isSome_iff_exists.mp h
    exact .of_slice? ht
  · intro h
    obtain ⟨t, ht⟩ := h.exists_slice?
    rw [ht]
    rfl

namespace Document

theorem size_dropMark_le (source : List Char) :
    Utf8.size (dropMark source) ≤ Utf8.size source := by
  unfold dropMark
  split
  · exact Nat.le_refl _
  · split
    · rw [Utf8.size_cons]
      omega
    · exact Nat.le_refl _

/-- An element of a document is spelled by a stretch of what stands behind the byte order mark. -/
theorem exists_spells {xml : String} {document : Document} (h : parse xml = .ok document)
    {e : Element} (he : e ∈ document.root.subtree) :
    ∃ before own after : List Token,
      dropMark xml.toList =
        before.flatMap spelling ++ own.flatMap spelling ++ after.flatMap spelling ∧
      Spells (extent before) own e := by
  obtain ⟨-, hfault, hroot⟩ := spelledIn_of_parse h
  obtain ⟨before, own, after, htokens, hown⟩ := hroot.inside he
  rw [Nat.zero_add] at hown
  refine ⟨before, own, after, ?_, hown⟩
  rw [← List.flatMap_append, ← List.flatMap_append, ← htokens]
  exact (Token.flatMap_spelling_scan hfault).symm

theorem fits_of_mem_subtree {xml : String} {document : Document} (h : parse xml = .ok document)
    {e : Element} (he : e ∈ document.root.subtree) : Fits (dropMark xml.toList) e.span := by
  obtain ⟨before, own, after, htext, hown⟩ := exists_spells h he
  exact ⟨_, _, _, htext, hown.span_eq⟩

/-- In a document without a byte order mark an element has a source text, which is in angle
brackets. -/
theorem exists_sourceText? {xml : String} {document : Document} (h : parse xml = .ok document)
    (hmark : xml.toList.head? ≠ some '\uFEFF') {e : Element}
    (he : e ∈ document.root.subtree) :
    ∃ t, e.sourceText? document.source = some (String.ofList ('<' :: t ++ ['>'])) := by
  obtain ⟨before, own, after, htext, hown⟩ := exists_spells h he
  rw [dropMark_eq_self hmark, ← (spelledIn_of_parse h).1] at htext
  obtain ⟨t, ht⟩ := hown.delimited
  refine ⟨e.name.toList ++ t, ?_⟩
  have hsource := hown.sourceText?_eq ⟨_, _, htext, rfl⟩
  rw [ht] at hsource
  exact hsource

end Document

end Markup

end GiftQuiz
