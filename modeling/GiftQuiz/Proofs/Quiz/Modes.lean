import GiftQuiz.Proofs.Markup.SourceText
import GiftQuiz.Proofs.Quiz.Layout
import Mathlib.Data.List.Forall2

/-!
# Title modes

The two title modes collect different titles and give different warnings about them. Nothing else
depends on the mode. `Alike` relates what two stretches in different modes yield: the same end, the
same counter and questions that differ in their titles only. It is kept when stretches follow one
another, whatever titles the open levels hold meanwhile, so `alike_ofNodes` has it for all stretches
where the elements have a source text.

`convertChildren_modes` says this of two conversions, for the pieces that they append.
-/

namespace GiftQuiz

open Markup (Element Node)
open Markup.Element (subtreeAll forall_mem_subtreeAll_cons)

/-! ## Questions with other titles -/

/-- The same question with a title for each mode. -/
structure Question.Alike (q r : Question) : Prop where
  id : q.id = r.id
  follows : q.follows = r.follows
  body : q.body = r.body
  markup : q.html = true
  text : r.html = false

/-- The same piece of a document, or two headers with the same beginning and number. -/
def SamePiece (piece piece' : String) : Prop :=
  (piece = piece' ∧ Question.isHeader piece = false) ∨
    ∃ newline id title title', piece = headerText .markup newline id title ∧
      piece' = headerText .text newline id title'

namespace Question.Alike

variable {q r : Question}

theorem fragments (h : Alike q r) : List.Forall₂ SamePiece q.fragments r.fragments := by
  rw [fragments_eq, fragments_eq]
  refine .cons (Or.inr ⟨q.follows, q.id.toNat, q.title, r.title, header_eq h.markup, ?_⟩) ?_
  · rw [h.follows, h.id]
    exact header_eq h.text
  · rw [h.body]
    refine List.forall₂_same.mpr ?_
    intro piece hpiece
    exact Or.inl ⟨rfl, isHeader_of_mem_fragments hpiece⟩

theorem answerWarning? (h : Alike q r) :
    Session.answerWarning? q = Session.answerWarning? r := by
  unfold Session.answerWarning?
  rw [h.body, h.id]

end Question.Alike

theorem forall₂_fragments {qs rs : List Question} (h : List.Forall₂ Question.Alike qs rs) :
    List.Forall₂ SamePiece (qs.flatMap Question.fragments) (rs.flatMap Question.fragments) :=
  List.rel_flatMap h fun _ _ hq => hq.fragments

theorem filterMap_answerWarning? {qs rs : List Question}
    (h : List.Forall₂ Question.Alike qs rs) :
    qs.filterMap Session.answerWarning? = rs.filterMap Session.answerWarning? := by
  induction h with
  | nil => rfl
  | cons hq _ ih => rw [List.filterMap_cons, List.filterMap_cons, hq.answerWarning?, ih]

/-! ## Two stretches side by side -/

namespace Yield

/-- Two stretches with the same end that differ in titles and in the warnings about them. -/
structure Alike (y z : Yield) : Prop where
  error? : y.error? = z.error?
  counter : y.counter = z.counter
  questions : List.Forall₂ Question.Alike y.questions z.questions
  defined : ∀ span, y.error? ≠ some (.offBoundary span)

theorem alike_warn (warnings warnings' : List Warning) (counter : Counter) :
    Alike { warnings, counter } { warnings := warnings', counter } where
  error? := rfl
  counter := rfl
  questions := .nil
  defined := fun _ h => by cases h

theorem alike_asked (title title' : Title) (kind : ResponseKind) (response : Element)
    (counter : Counter) :
    Alike (asked .markup title kind response counter)
      (asked .text title' kind response counter) := by
  have hquestion : List.Forall₂ Question.Alike [questionAt .markup title kind response counter]
      [questionAt .text title' kind response counter] :=
    .cons ⟨rfl, rfl, rfl, rfl, rfl⟩ .nil
  unfold asked
  cases counter.succ? with
  | none => exact ⟨rfl, rfl, hquestion, fun _ h => by cases h⟩
  | some c => exact ⟨rfl, rfl, hquestion, fun _ h => by cases h⟩

theorem Alike.andThen {y z : Yield} {next next' : Counter → Yield} (h : Alike y z)
    (h' : ∀ c, Alike (next c) (next' c)) : Alike (y.andThen next) (z.andThen next') := by
  obtain ⟨questions, warnings, counter, error?⟩ := y
  obtain ⟨questions', warnings', counter', error?'⟩ := z
  obtain ⟨herror, hcounter, hquestions, hdefined⟩ := h
  simp only at herror hcounter hquestions hdefined
  subst herror hcounter
  cases error? with
  | none =>
      obtain ⟨herror', hcounter', hquestions', hdefined'⟩ := h' counter
      exact ⟨herror', hcounter', List.rel_append hquestions hquestions', hdefined'⟩
  | some error => exact ⟨rfl, rfl, hquestions, hdefined⟩

/-- Of the same children, with any titles so far, both modes make stretches that are alike. -/
theorem alike_ofNodes {source : List Char} (title title' : Title) (counter : Counter)
    {nodes : List (Node Element)} (h : ∀ e ∈ subtreeAll nodes, (e.sourceText? source).isSome) :
    Alike (ofNodes source .markup title counter nodes)
      (ofNodes source .text title' counter nodes) := by
  induction nodes using Element.nodes_induction generalizing title title' counter with
  | nil =>
      rw [ofNodes, ofNodes]
      exact alike_warn ..
  | text t rest ih =>
      rw [ofNodes, ofNodes]
      exact ih title title' counter h
  | element e rest inner ih =>
      obtain ⟨hself, hinner, hrest⟩ := forall_mem_subtreeAll_cons.mp h
      rw [ofNodes, ofNodes]
      cases Role.ofName e.name with
      | problem =>
          simp only [ofElement_eq]
          exact (inner {} {} counter hinner).andThen fun c => ih title title' c hrest
      | response kind =>
          exact (alike_asked title title' kind e counter).andThen fun c => ih {} {} c hrest
      | content =>
          obtain ⟨m, hm⟩ := Option.isSome_iff_exists.mp hself
          simp only [TitleMode.contribution, hm]
          by_cases hp : e.name = TitleMode.paragraph
          · rw [if_pos hp]
            exact ih _ _ counter hrest
          · -- Text mode warns here, which leaves questions and counter as they are.
            rw [if_neg hp]
            have hwarn := (alike_warn [] [.unsupportedElement e.name] counter).andThen
              fun c => ih (title.push (Text.escaped m)) title' c hrest
            rw [nil_andThen] at hwarn
            exact hwarn

end Yield

/-! ## Two conversions side by side -/

namespace Session

/-- The two modes convert the children of an element alike, from the same session on, if all
elements inside have a source text. Neither needs a text that is not there; both come to their end
or run out of numbers together, with the same counter. The pieces that they append agree one by one
but for the titles in headers, and so do the warnings about answers. -/
theorem convertChildren_modes (source : List Char) (s : Session) (e : Element)
    (h : ∀ e' ∈ subtreeAll e.children, (e'.sourceText? source).isSome) :
    let markup := s.convertChildren source .markup e
    let text := s.convertChildren source .text e
    markup.error? = text.error? ∧
      (∀ span, markup.error? ≠ some (.offBoundary span)) ∧
      markup.session.counter = text.session.counter ∧
      (∃ pieces pieces',
        markup.session.conversion.fragments = s.conversion.fragments ++ pieces ∧
        text.session.conversion.fragments = s.conversion.fragments ++ pieces' ∧
        List.Forall₂ SamePiece pieces pieces') ∧
      ∃ warnings warnings',
        markup.session.conversion.warnings = s.conversion.warnings ++ warnings ∧
        text.session.conversion.warnings = s.conversion.warnings ++ warnings' ∧
        warnings.filter Warning.isMissingAnswer = warnings'.filter Warning.isMissingAnswer := by
  have halike := Yield.alike_ofNodes {} {} s.counter h
  have hreports := Yield.reportsAnswers_ofNodes source .markup {} s.counter e.children
  have hreports' := Yield.reportsAnswers_ofNodes source .text {} s.counter e.children
  intro markup text
  simp only [markup, text, convertChildren_eq_extend, Yield.ofElement_eq]
  refine ⟨halike.error?, halike.defined, halike.counter, ?_, ?_⟩
  · exact ⟨_, _, fragments_extend .., fragments_extend .., forall₂_fragments halike.questions⟩
  · refine ⟨_, _, warnings_extend .., warnings_extend .., ?_⟩
    rw [hreports, hreports']
    exact filterMap_answerWarning? halike.questions

def mixedSource : List Char :=
  "<p>a</p><b/><numericalresponse/>".toList

/-- A problem inside a problem, both with the elements of `mixedSource`. -/
def mixed : Element :=
  let paragraph : Element := ⟨"p", [], [.text "a"], ⟨0, 8⟩⟩
  let bold : Element := ⟨"b", [], [], ⟨8, 12⟩⟩
  let response : Element := ⟨"numericalresponse", [], [], ⟨12, 32⟩⟩
  let children := [.element paragraph, .element bold, .element response]
  ⟨"problem", [], .element ⟨"problem", [], children, ⟨0, 32⟩⟩ :: children, ⟨0, 32⟩⟩

/-- The last two numbers are not enough in either mode. -/
theorem mixed_modes :
    (∀ e' ∈ subtreeAll mixed.children, (e'.sourceText? mixedSource).isSome) ∧
      let s : Session := { counter := .fresh 0xFFFFFFFFFFFFFFFE }
      let markup := s.convertChildren mixedSource .markup mixed
      let text := s.convertChildren mixedSource .text mixed
      markup.error? = some (.idsExhausted 0xFFFFFFFFFFFFFFFF) ∧ text.error? = markup.error? ∧
        List.Forall₂ SamePiece markup.session.conversion.fragments
          text.session.conversion.fragments := by
  have hspans : ∀ e' ∈ subtreeAll mixed.children, (e'.sourceText? mixedSource).isSome := by
    decide +kernel
  obtain ⟨herror, -, -, ⟨pieces, pieces', hpieces, hpieces', hsame⟩, -⟩ :=
    convertChildren_modes mixedSource { counter := .fresh 0xFFFFFFFFFFFFFFFE } mixed hspans
  refine ⟨hspans, by decide +kernel, herror.symm, ?_⟩
  rw [hpieces, hpieces']
  exact hsame

end Session

end GiftQuiz
