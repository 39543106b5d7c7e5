import GiftQuiz.Proofs.Quiz.Layout
import Mathlib.Data.List.Forall2

/-!
# Conversions under other numbers

The number that a conversion starts with is a choice of its caller. The agenda of a problem does not
mention numbers, so two runs of one agenda from different counters can only differ in them. `Moved`
relates what two such runs yield: every number lies as far from the start of its own run as the
number in the same place of the other one. It is kept by each act (`moved_ofAct`) unless one of the
runs is out of numbers, and hence by all of them (`moved_ofActs`).

`convert_moves_numbers` says this of two conversions of a document, for the pieces and the warnings.
-/

namespace GiftQuiz

open Markup (Document)

/-! ## Numbers, pieces and warnings -/

/-- The number `j` is the number `i` with the difference of the numbers `s` and `t` added. -/
def Moved (s t i j : UInt64) : Prop :=
  (j.toNat : Int) = i.toNat + (t.toNat - s.toNat)

/-- The same piece of a document, or two headers that differ in their numbers only. -/
def MovedPiece (mode : TitleMode) (s t : UInt64) (piece piece' : String) : Prop :=
  (piece = piece' ∧ Question.isHeader piece = false) ∨
    ∃ newline i j title, Moved s t i j ∧ piece = headerText mode newline i.toNat title ∧
      piece' = headerText mode newline j.toNat title

/-- The same warning, or two warnings that differ in the numbers of their questions only. -/
inductive MovedWarning (s t : UInt64) : Warning → Warning → Prop
  | missingAnswer {i j : UInt64} (moved : Moved s t i j) :
      MovedWarning s t (.missingAnswer i) (.missingAnswer j)
  | other {w : Warning} (silent : w.isMissingAnswer = false) : MovedWarning s t w w

/-- The same question of a mode under another number. -/
structure Question.Moved (mode : TitleMode) (s t : UInt64) (q r : Question) : Prop where
  id : GiftQuiz.Moved s t q.id r.id
  follows : q.follows = r.follows
  title : q.title = r.title
  body : q.body = r.body
  html : q.html = (mode == .markup)
  html' : r.html = (mode == .markup)

/-- Two counters that have used equally many numbers, from `s` and from `t` on. -/
structure Counter.Moved (s t : UInt64) (c d : Counter) : Prop where
  first : c.first = s
  first' : d.first = t
  next : GiftQuiz.Moved s t c.next d.next

namespace Question.Moved

variable {mode : TitleMode} {s t : UInt64} {q r : Question}

theorem fragments (h : Question.Moved mode s t q r) :
    List.Forall₂ (MovedPiece mode s t) q.fragments r.fragments := by
  rw [fragments_eq, fragments_eq, ← h.body]
  refine .cons (Or.inr ⟨q.follows, q.id, r.id, q.title, h.id, header_eq h.html, ?_⟩) ?_
  · rw [h.follows, h.title]
    exact header_eq h.html'
  · exact List.forall₂_same.mpr fun piece hpiece => Or.inl ⟨rfl, isHeader_of_mem_fragments hpiece⟩

theorem answerWarning? (h : Question.Moved mode s t q r) :
    List.Forall₂ (MovedWarning s t) (Session.answerWarning? q).toList
      (Session.answerWarning? r).toList := by
  unfold Session.answerWarning?
  rw [← h.body]
  split
  · exact .cons (.missingAnswer h.id) .nil
  · exact .nil

end Question.Moved

namespace Counter.Moved

variable {s t : UInt64} {c d : Counter}

theorem fresh (s t : UInt64) : Counter.Moved s t (.fresh s) (.fresh t) where
  first := rfl
  first' := rfl
  next := by
    show (t.toNat : Int) = s.toNat + (t.toNat - s.toNat)
    omega

/-- Both counters stand at their first number or none of them does. -/
theorem next_bne_first (h : Counter.Moved s t c d) :
    (c.next != c.first) = (d.next != d.first) := by
  have hnext : (d.next.toNat : Int) = c.next.toNat + (t.toNat - s.toNat) := h.next
  rw [h.first, h.first', Bool.eq_iff_iff, bne_iff_ne, bne_iff_ne, Ne, Ne, ← UInt64.toNat_inj,
    ← UInt64.toNat_inj]
  omega

theorem succ {c' d' : Counter} (h : Counter.Moved s t c d) (hc : c.succ? = some c')
    (hd : d.succ? = some d') : Counter.Moved s t c' d' := by
  have hnext : (d.next.toNat : Int) = c.next.toNat + (t.toNat - s.toNat) := h.next
  obtain ⟨hfirst, hsucc⟩ := Counter.next_of_succ? hc
  obtain ⟨hfirst', hsucc'⟩ := Counter.next_of_succ? hd
  refine ⟨hfirst.trans h.first, hfirst'.trans h.first', ?_⟩
  show (d'.next.toNat : Int) = c'.next.toNat + (t.toNat - s.toNat)
  omega

theorem used_eq (h : Counter.Moved s t c d) : c.used = d.used := by
  have hnext : (d.next.toNat : Int) = c.next.toNat + (t.toNat - s.toNat) := h.next
  have hle := UInt64.le_iff_toNat_le.mp c.first_le_next
  have hle' := UInt64.le_iff_toNat_le.mp d.first_le_next
  rw [← UInt64.toNat_inj, Counter.toNat_used, Counter.toNat_used]
  rw [h.first] at hle ⊢
  rw [h.first'] at hle' ⊢
  omega

end Counter.Moved

/-! ## Two runs side by side -/

namespace Yield

/-- Two stretches that differ in their numbers only. -/
structure Moved (mode : TitleMode) (s t : UInt64) (y z : Yield) : Prop where
  error? : y.error? = z.error?
  counter : Counter.Moved s t y.counter z.counter
  questions : List.Forall₂ (Question.Moved mode s t) y.questions z.questions
  warnings : List.Forall₂ (MovedWarning s t) y.warnings z.warnings

def Exhausted (y : Yield) : Prop :=
  ∃ last, y.error? = some (.idsExhausted last)

variable {mode : TitleMode} {s t : UInt64} {c d : Counter}

/-- An act does the same under other numbers, if there are any left for both runs. -/
theorem moved_ofAct (h : Counter.Moved s t c d) {act : Act}
    (hact : ∀ w, act = .warn w → w.isMissingAnswer = false) :
    Exhausted (ofAct mode c act) ∨ Exhausted (ofAct mode d act) ∨
      Moved mode s t (ofAct mode c act) (ofAct mode d act) := by
  cases act with
  | ask title kind response =>
      have hquestion : Question.Moved mode s t (questionAt mode title kind response c)
          (questionAt mode title kind response d) :=
        ⟨h.next, h.next_bne_first, rfl, rfl, rfl, rfl⟩
      unfold ofAct asked
      cases hc : c.succ? with
      | none => exact Or.inl ⟨c.next, rfl⟩
      | some c' =>
          cases hd : d.succ? with
          | none => exact Or.inr (Or.inl ⟨d.next, rfl⟩)
          | some d' =>
              exact Or.inr (Or.inr ⟨rfl, h.succ hc hd, .cons hquestion .nil,
                hquestion.answerWarning?⟩)
  | warn w => exact Or.inr (Or.inr ⟨rfl, h, .nil, .cons (.other (hact w rfl)) .nil⟩)
  | halt span => exact Or.inr (Or.inr ⟨rfl, h, .nil, .nil⟩)

theorem Exhausted.andThen {y : Yield} (h : Exhausted y) (next : Counter → Yield) :
    Exhausted (y.andThen next) := by
  obtain ⟨last, hlast⟩ := h
  rw [andThen_of_some hlast]
  exact ⟨last, hlast⟩

/-- Two stretches and what follows them differ in their numbers only, or there are none left. -/
theorem Moved.andThen {y z : Yield} {next : Counter → Yield} (h : Moved mode s t y z)
    (h' : ∀ c d, Counter.Moved s t c d →
      Exhausted (next c) ∨ Exhausted (next d) ∨ Moved mode s t (next c) (next d)) :
    Exhausted (y.andThen next) ∨ Exhausted (z.andThen next) ∨
      Moved mode s t (y.andThen next) (z.andThen next) := by
  obtain ⟨questions, warnings, c, error?⟩ := y
  obtain ⟨questions', warnings', d, error?'⟩ := z
  obtain ⟨herror, hcounter, hquestions, hwarnings⟩ := h
  simp only at herror hcounter hquestions hwarnings
  subst herror
  cases error? with
  | some e => exact Or.inr (Or.inr ⟨rfl, hcounter, hquestions, hwarnings⟩)
  | none =>
      rcases h' c d hcounter with hexhausted | hexhausted | hmoved
      · exact Or.inl hexhausted
      · exact Or.inr (Or.inl hexhausted)
      · exact Or.inr (Or.inr ⟨hmoved.error?, hmoved.counter,
          List.rel_append hquestions hmoved.questions,
          List.rel_append hwarnings hmoved.warnings⟩)

/-- Acts do the same under other numbers, if there are enough of them for both runs. -/
theorem moved_ofActs (h : Counter.Moved s t c d) {acts : List Act}
    (hacts : ∀ w, .warn w ∈ acts → w.isMissingAnswer = false) :
    Exhausted (ofActs mode c acts) ∨ Exhausted (ofActs mode d acts) ∨
      Moved mode s t (ofActs mode c acts) (ofActs mode d acts) := by
  induction acts generalizing c d with
  | nil => exact Or.inr (Or.inr ⟨rfl, h, .nil, .nil⟩)
  | cons act acts ih =>
      have hhead : ∀ w, act = .warn w → w.isMissingAnswer = false := by
        rintro w rfl
        exact hacts w (List.mem_cons_self ..)
      rw [ofActs, ofActs]
      rcases moved_ofAct h hhead with hexhausted | hexhausted | hmoved
      · exact Or.inl (hexhausted.andThen _)
      · exact Or.inr (Or.inl (hexhausted.andThen _))
      · exact hmoved.andThen fun c d hcounter =>
          ih hcounter fun w hw => hacts w (List.mem_cons_of_mem _ hw)

end Yield

/-- Warnings about answers are not on the agenda, as they come with their questions. -/
theorem Markup.Element.isMissingAnswer_of_warn_mem_agenda {source : List Char} {mode : TitleMode}
    {e : Element} {w : Warning} (h : .warn w ∈ e.agenda source mode) :
    w.isMissingAnswer = false := by
  have hall : ∀ act ∈ agendaFrom source mode {} e.children, ∀ w, act = .warn w →
      w.isMissingAnswer = false := by
    refine agendaFrom_induction (S := fun _ => True) (P := fun _ => True) trivial
      (fun _ _ _ _ _ _ => trivial) ?_ ?_ ?_ ?_ (fun _ _ => trivial) trivial
    · rintro title kind response - w ⟨⟩
    · rintro title - w ⟨⟩
      rfl
    · rintro e' name - - w ⟨⟩
      rfl
    · rintro e' span - - w ⟨⟩
  rw [agenda_eq] at h
  exact hall _ h w rfl

/-! ## Two conversions side by side -/

namespace Yield

variable {mode : TitleMode} {s t : UInt64} {y z : Yield}

theorem Exhausted.exists_result_eq (h : Exhausted y) :
    ∃ last, y.result = .error (.idsExhausted last) := by
  obtain ⟨last, hlast⟩ := h
  exact ⟨last, by simp only [result, hlast]⟩

theorem Moved.result_eq_error_iff (h : Moved mode s t y z) (e : ConversionError) :
    y.result = .error e ↔ z.result = .error e := by
  simp only [result, ← h.error?]
  cases y.error? with
  | some e' => exact Iff.rfl
  | none =>
      constructor
      · rintro ⟨⟩
      · rintro ⟨⟩

theorem Moved.exists_result_eq_ok (h : Moved mode s t y z) {c : Conversion}
    (hc : y.result = .ok c) :
    ∃ c', z.result = .ok c' ∧ List.Forall₂ (MovedPiece mode s t) c.fragments c'.fragments ∧
      List.Forall₂ (MovedWarning s t) c.warnings c'.warnings ∧ c'.count = c.count ∧
      GiftQuiz.Moved s t c.nextId c'.nextId := by
  obtain ⟨herror, hcounter, hquestions, hwarnings⟩ := h
  simp only [result, ← herror] at hc ⊢
  cases hstop : y.error? with
  | some e =>
      simp only [hstop] at hc
      cases hc
  | none =>
      simp only [hstop] at hc
      cases hc
      exact ⟨_, rfl, List.rel_flatMap hquestions fun _ _ hq => hq.fragments, hwarnings,
        hcounter.used_eq.symm, hcounter.next⟩

end Yield

/-- Two conversions of a document in one mode, from any two numbers that are small enough for it,
end alike. If they fail it is for the same reason. Else they have the same pieces in the same order,
but for the numbers in the headers, and the same warnings in the same order, but for the numbers of
questions without an answer; these numbers, and the first one that is not used, differ by the
difference of the numbers that the conversions start with. -/
theorem convert_moves_numbers (xml : String) (mode : TitleMode) (s t : UInt64)
    (hs : ∀ last, convert xml ⟨s, mode⟩ ≠ .error (.idsExhausted last))
    (ht : ∀ last, convert xml ⟨t, mode⟩ ≠ .error (.idsExhausted last)) :
    (∀ e, convert xml ⟨s, mode⟩ = .error e ↔ convert xml ⟨t, mode⟩ = .error e) ∧
      ∀ c, convert xml ⟨s, mode⟩ = .ok c → ∃ c', convert xml ⟨t, mode⟩ = .ok c' ∧
        List.Forall₂ (MovedPiece mode s t) c.fragments c'.fragments ∧
        List.Forall₂ (MovedWarning s t) c.warnings c'.warnings ∧
        c'.count = c.count ∧ Moved s t c.nextId c'.nextId := by
  cases hdocument : Document.parse xml with
  | error e =>
      rw [convert_eq_unreadable hdocument, convert_eq_unreadable hdocument]
      exact ⟨fun _ => Iff.rfl, fun _ => by rintro ⟨⟩⟩
  | ok document =>
      let acts := document.root.agenda document.source mode
      have hresult (start : UInt64) : convert xml ⟨start, mode⟩ =
          (Yield.ofActs mode (.fresh start) acts).result := by
        rw [convert_eq_result hdocument, Yield.ofElement_eq_ofActs]
      have hacts : ∀ w, .warn w ∈ acts → w.isMissingAnswer = false := fun w =>
        Markup.Element.isMissingAnswer_of_warn_mem_agenda
      rw [hresult] at hs ht
      rw [hresult, hresult]
      have hmoved : Yield.Exhausted (.ofActs mode (.fresh s) acts) ∨
          Yield.Exhausted (.ofActs mode (.fresh t) acts) ∨
          Yield.Moved mode s t (.ofActs mode (.fresh s) acts) (.ofActs mode (.fresh t) acts) :=
        Yield.moved_ofActs (.fresh s t) hacts
      rcases hmoved with hexhausted | hexhausted | hmoved
      · obtain ⟨last, hlast⟩ := hexhausted.exists_result_eq
        exact absurd hlast (hs last)
      · obtain ⟨last, hlast⟩ := hexhausted.exists_result_eq
        exact absurd hlast (ht last)
      · exact ⟨hmoved.result_eq_error_iff, fun c hc => hmoved.exists_result_eq_ok hc⟩

/-- From the number 1 and from the greatest one but two on, with a response that lacks an answer and
an element that gives a warning of its own. -/
theorem threeResponses_moves_numbers :
    (∀ last, convert threeResponses ⟨1, .text⟩ ≠ .error (.idsExhausted last)) ∧
      (∀ last, convert threeResponses ⟨0xFFFFFFFFFFFFFFFD, .text⟩ ≠
        .error (.idsExhausted last)) ∧
      ∃ c c', convert threeResponses ⟨1, .text⟩ = .ok c ∧
        convert threeResponses ⟨0xFFFFFFFFFFFFFFFD, .text⟩ = .ok c' ∧
        c.warnings = [.missingAnswer 1, .unsupportedElement "b"] ∧ c.nextId = 3 ∧
        List.Forall₂ (MovedPiece .text 1 0xFFFFFFFFFFFFFFFD) c.fragments c'.fragments ∧
        List.Forall₂ (MovedWarning 1 0xFFFFFFFFFFFFFFFD) c.warnings c'.warnings ∧
        c'.count = c.count ∧ Moved 1 0xFFFFFFFFFFFFFFFD c.nextId c'.nextId := by
  have hlow : (convert threeResponses ⟨1, .text⟩).toOption.map (fun c => (c.warnings, c.nextId)) =
      some ([.missingAnswer 1, .unsupportedElement "b"], 3) := by decide +kernel
  have hhigh : (convert threeResponses ⟨0xFFFFFFFFFFFFFFFD, .text⟩).toOption.isSome = true := by
    decide +kernel
  have hs : ∀ last, convert threeResponses ⟨1, .text⟩ ≠ .error (.idsExhausted last) := by
    intro last h
    rw [h] at hlow
    cases hlow
  have ht : ∀ last, convert threeResponses ⟨0xFFFFFFFFFFFFFFFD, .text⟩ ≠
      .error (.idsExhausted last) := by
    intro last h
    rw [h] at hhigh
    cases hhigh
  refine ⟨hs, ht, ?_⟩
  obtain ⟨-, hmoves⟩ := convert_moves_numbers threeResponses .text 1 0xFFFFFFFFFFFFFFFD hs ht
  obtain ⟨c, hc, hvalues⟩ := exists_convert_eq_ok_of_map hlow
  obtain ⟨hwarnings, hnext⟩ := Prod.mk.inj hvalues
  obtain ⟨c', hc', hmoved⟩ := hmoves c hc
  exact ⟨c, c', hc, hc', hwarnings, hnext, hmoved⟩

end GiftQuiz
