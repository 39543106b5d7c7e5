import GiftQuiz.Proofs.Markup.Boundaries
import GiftQuiz.Proofs.Quiz.Numbering

/-!
# How many questions a document has room for

Every element takes a byte of its own for the angle bracket that opens its tag. So a document has no
more elements than bytes (`Document.length_subtree_le`), and no more responses than elements. The
numbers do not give out as long as there is one left for every byte (`convert_ne_idsExhausted`).
-/

namespace GiftQuiz

open Markup (Content Document Element Node Token)
open Markup.Token (extent enclose)

namespace Markup

/-- There are no more elements in content than bytes. -/
theorem Content.length_subtreeAll_le {p : Nat} {ks : List Token} {ns : List (Node Element)}
    (h : Content p ks ns) : (Element.subtreeAll ns).length ≤ extent ks := by
  induction h with
  | nil p => exact Nat.le_refl 0
  | skip skipped rest ih =>
      rw [Token.extent_cons]
      omega
  | text unescaped rest ih =>
      rw [Token.extent_cons, Element.subtreeAll]
      omega
  | cdata rest ih =>
      rw [Token.extent_cons, Element.subtreeAll]
      omega
  | empty tag rest ih =>
      rw [Token.extent_cons, Token.size_emptyTag, Element.length_subtreeAll_cons,
        Element.subtreeAll, List.length_nil]
      omega
  | element tag inside close rest ihi ih =>
      rw [Token.extent_append, enclose, Token.extent_cons, Token.extent_append,
        Token.size_startTag, Element.length_subtreeAll_cons]
      dsimp only
      omega

theorem Document.length_subtree_le {xml : String} {document : Document}
    (h : Document.parse xml = .ok document) :
    document.root.subtree.length ≤ Utf8.size xml.toList := by
  have hroot : document.root ∈ document.root.subtree := by
    cases document.root
    exact List.mem_cons_self ..
  obtain ⟨before, own, after, htext, hown⟩ := Document.exists_spells h hroot
  have hsize := Document.size_dropMark_le xml.toList
  have helements := hown.content.length_subtreeAll_le
  rw [htext, Utf8.size_append, Utf8.size_append] at hsize
  rw [Element.subtreeAll, Element.subtreeAll, List.append_nil, extent] at helements
  omega

theorem Element.length_responsesAmong_le (ns : List (Node Element)) :
    (responsesAmong ns).length ≤ (subtreeAll ns).length := by
  induction ns using nodes_induction with
  | nil => exact Nat.zero_le _
  | text t rest ih =>
      rw [responsesAmong, subtreeAll]
      exact ih
  | element e rest inner ih =>
      rw [responsesAmong, length_subtreeAll_cons]
      cases Role.ofName e.name with
      | problem =>
          simp only [List.length_append, responses_eq]
          omega
      | response kind =>
          simp only [List.length_cons]
          omega
      | content =>
          simp only
          omega

theorem Document.length_responses_le {xml : String} {document : Document}
    (h : Document.parse xml = .ok document) :
    document.root.responses.length ≤ Utf8.size xml.toList := by
  have hresponses := Element.length_responsesAmong_le document.root.children
  have hsubtree := Document.length_subtree_le h
  have hroot : (Element.subtreeAll document.root.children).length ≤
      document.root.subtree.length := by
    cases document.root
    simp only [Element.subtree, List.length_cons]
    omega
  rw [Element.responses_eq]
  omega

end Markup

/-- Where there is a number for every byte of a document, none of its questions is the last that can
be numbered. -/
theorem convert_ne_idsExhausted {xml : String} {options : Options}
    (h : options.startId.toNat + Utf8.size xml.toList < UInt64.size) (last : UInt64) :
    convert xml options ≠ .error (.idsExhausted last) := by
  intro hconvert
  cases hdocument : Document.parse xml with
  | error e =>
      rw [convert_eq_unreadable hdocument] at hconvert
      cases hconvert
  | ok document =>
      obtain ⟨y, hy, hnumbers, -⟩ := exists_convert_eq_result hdocument options
      rw [hy] at hconvert
      rcases hnumbers.result_cases with ⟨_, -, -, hsize⟩ | ⟨_, hresult⟩ | ⟨hresult, -⟩
      · have hresponses := Document.length_responses_le hdocument
        have hstart : (Counter.fresh options.startId).next.toNat = options.startId.toNat := rfl
        omega
      all_goals
        rw [hresult] at hconvert
        cases hconvert

/-- Then a document that can be read has a quiz, unless its conversion is undefined. -/
theorem exists_convert_eq_ok {xml : String} {options : Options} {document : Document}
    (h : Document.parse xml = .ok document)
    (hnumbers : options.startId.toNat + Utf8.size xml.toList < UInt64.size)
    (hdefined : ∀ span, convert xml options ≠ .error (.offBoundary span)) :
    ∃ c, convert xml options = .ok c := by
  cases hconvert : convert xml options with
  | ok c => exact ⟨c, rfl⟩
  | error e =>
      cases e with
      | unreadable e =>
          rw [convert_eq_unreadable_iff, h] at hconvert
          cases hconvert
      | idsExhausted last => exact absurd hconvert (convert_ne_idsExhausted hnumbers last)
      | offBoundary span => exact absurd hconvert (hdefined span)

end GiftQuiz
