import GiftQuiz.Proofs.Markup.Boundaries
import GiftQuiz.Proofs.Quiz.Agenda

/-!
# Titles quote the document

A title is made of what the elements before a response contribute, and what holds of every such part
holds of the parts of every title (`forall_parts_of_ask_mem`). In markup mode the parts are source
texts. An element without one stops a conversion, and nothing but this makes a conversion undefined:
every other end is a quiz or an error that is meant to be.

`convert_defined_unless_marked` says when it can happen. The spans of a tree fall between characters
of what stands behind the byte order mark, so in a document without a mark every element has its
source text. The bytes of a mark are not counted, although it stays in the source, so behind a mark
a span is cut three bytes too early, and there may be the inside of a character.
-/

namespace GiftQuiz

open Markup (Element Node Span Document Fits)

/-! ## What elements contribute -/

theorem TitleMode.contribution_eq_offBoundary {mode : TitleMode} {source : List Char} {e : Element}
    {span : Span} (h : mode.contribution source e = .offBoundary span) :
    mode = .markup ∧ e.span = span ∧ e.sourceText? source = none := by
  cases mode with
  | markup =>
      simp only [contribution] at h
      cases hsource : e.sourceText? source with
      | none =>
          rw [hsource] at h
          exact ⟨rfl, Contribution.offBoundary.inj h, rfl⟩
      | some m =>
          rw [hsource] at h
          cases h
  | text =>
      simp only [contribution] at h
      split at h <;> cases h

theorem TitleMode.contribution_eq_part {mode : TitleMode} {source : List Char} {e : Element}
    {part : String} (h : mode.contribution source e = .part part) :
    ∃ m, part = Text.escaped m ∧ (mode = .markup → e.sourceText? source = some m) := by
  cases mode with
  | markup =>
      simp only [contribution] at h
      cases hsource : e.sourceText? source with
      | none =>
          rw [hsource] at h
          cases h
      | some m =>
          rw [hsource] at h
          exact ⟨m, (Contribution.part.inj h).symm, fun _ => rfl⟩
  | text =>
      simp only [contribution] at h
      split at h
      · refine ⟨_, (Contribution.part.inj h).symm, ?_⟩
        rintro ⟨⟩
      · cases h

/-- What holds of the parts of titles holds of the parts of the titles that are asked under. -/
theorem Markup.Element.forall_parts_of_ask_mem {source : List Char} {mode : TitleMode} {e : Element}
    {R : String → Prop}
    (hpart : ∀ e' ∈ subtreeAll e.children, ∀ part,
      mode.contribution source e' = .part part → R part)
    {title : Title} {kind : ResponseKind} {response : Element}
    (h : .ask title kind response ∈ e.agenda source mode) : ∀ part ∈ title.parts, R part := by
  have hall : ∀ act ∈ agendaFrom source mode {} e.children, ∀ title kind response,
      act = .ask title kind response → ∀ part ∈ title.parts, R part := by
    refine agendaFrom_induction (S := (· ∈ subtreeAll e.children))
      (P := fun title => ∀ part ∈ title.parts, R part) ?_ ?_ ?_ ?_ ?_ ?_ (fun _ he => he) ?_
    · intro part hmem
      cases hmem
    · intro e' title part he' htitle hcontributes part' hmem
      rcases List.mem_append.mp hmem with hmem | hmem
      · exact htitle part' hmem
      · obtain rfl := List.mem_singleton.mp hmem
        exact hpart e' he' part' hcontributes
    · rintro title kind e' htitle _ _ _ ⟨⟩
      exact htitle
    · rintro title - _ _ _ ⟨⟩
    · rintro e' name - - _ _ _ ⟨⟩
    · rintro e' span - - _ _ _ ⟨⟩
    · intro part hmem
      cases hmem
  rw [agenda_eq] at h
  exact hall _ h title kind response rfl

/-! ## Undefined conversions -/

/-- What stops a descent is on the agenda only for an element of the problem that has no source
text. -/
theorem Markup.Element.of_halt_mem_agenda {source : List Char} {mode : TitleMode} {e : Element}
    {span : Span} (h : .halt span ∈ e.agenda source mode) :
    mode = .markup ∧
      ∃ e' ∈ subtreeAll e.children, e'.span = span ∧ e'.sourceText? source = none := by
  have hall : ∀ act ∈ agendaFrom source mode {} e.children, ∀ span, act = .halt span →
      mode = .markup ∧
        ∃ e' ∈ subtreeAll e.children, e'.span = span ∧ e'.sourceText? source = none := by
    refine agendaFrom_induction (S := (· ∈ subtreeAll e.children)) (P := fun _ => True) trivial
      (fun _ _ _ _ _ _ => trivial) ?_ ?_ ?_ ?_ (fun _ he => he) trivial
    · rintro title kind response - span ⟨⟩
    · rintro title - span ⟨⟩
    · rintro e' name - - span ⟨⟩
    · rintro e' span' he' hpart span ⟨⟩
      obtain ⟨hmode, hspan, hnone⟩ := TitleMode.contribution_eq_offBoundary hpart
      exact ⟨hmode, e', he', hspan, hnone⟩
  rw [agenda_eq] at h
  exact hall _ h span rfl

/-- Acts that are stopped have run out of numbers or have a stop among them. -/
theorem Yield.ofActs_eq_some {mode : TitleMode} {counter : Counter} {acts : List Act}
    {e : ConversionError} (h : (ofActs mode counter acts).error? = some e) :
    (∃ last, e = .idsExhausted last) ∨ ∃ span, .halt span ∈ acts ∧ e = .offBoundary span := by
  rcases ofActs_cases mode counter acts with hall | ⟨done, act, rest, e', hacts, hdone, hact, heq⟩
  · rw [hall] at h
    cases h
  · have herror : (ofActs mode counter acts).error? = some e' := by
      rw [heq, ofActs_concat, error?_andThen hdone, hact]
    obtain rfl := Option.some.inj (h.symm.trans herror)
    rcases ofAct_eq_some hact with ⟨title, kind, response, -, hlast, -⟩ | ⟨span, rfl, hspan⟩
    · exact Or.inl ⟨_, hlast⟩
    · refine Or.inr ⟨span, ?_, hspan⟩
      rw [hacts]
      exact List.mem_append_right _ (List.mem_cons_self ..)

/-- Acts that are undefined have a stop among them. -/
theorem Yield.halt_mem_of_ofActs {mode : TitleMode} {counter : Counter} {acts : List Act}
    {span : Span} (h : (ofActs mode counter acts).error? = some (.offBoundary span)) :
    .halt span ∈ acts := by
  rcases ofActs_eq_some h with ⟨last, ⟨⟩⟩ | ⟨span', hmem, hspan⟩
  rw [ConversionError.offBoundary.inj hspan]
  exact hmem

/-- An undefined conversion has met an element without a source text, in markup mode. -/
theorem exists_of_convert_eq_offBoundary {xml : String} {options : Options} {span : Span}
    (h : convert xml options = .error (.offBoundary span)) :
    options.titleMode = .markup ∧ ∃ document e, Document.parse xml = .ok document ∧
      e ∈ document.root.subtree ∧ e.span = span ∧ e.sourceText? document.source = none := by
  cases hdocument : Document.parse xml with
  | error error =>
      rw [convert_eq_unreadable hdocument] at h
      cases h
  | ok document =>
      rw [convert_eq_result hdocument, Yield.ofElement_eq_ofActs, Yield.result] at h
      split at h
      · rename_i error herror
        cases h
        obtain ⟨hmode, e, he, hspan, hnone⟩ :=
          Element.of_halt_mem_agenda (Yield.halt_mem_of_ofActs herror)
        refine ⟨hmode, document, e, rfl, ?_, hspan, hnone⟩
        rw [Element.subtree_eq]
        exact List.mem_cons_of_mem _ he
      · cases h

/-- In a document that is read, the span of every element lies within the source text, and its ends
fall between characters of what stands behind the byte order mark. Without a mark this is the source
text, where every element then has its text. So a conversion is undefined only behind a mark, in
markup mode, and for an element whose span cuts a character of the source. -/
theorem convert_defined_unless_marked (xml : String) (options : Options) :
    (∀ document, Document.parse xml = .ok document → ∀ e ∈ document.root.subtree,
      e.span.start ≤ e.span.stop ∧ e.span.stop ≤ Utf8.size document.source ∧
        Fits (Document.dropMark document.source) e.span ∧
        (xml.toList.head? ≠ some '\uFEFF' →
          Fits document.source e.span ∧ (e.sourceText? document.source).isSome)) ∧
      ∀ span, convert xml options = .error (.offBoundary span) →
        xml.toList.head? = some '\uFEFF' ∧ options.titleMode = .markup ∧
          ∃ document e, Document.parse xml = .ok document ∧ e ∈ document.root.subtree ∧
            e.span = span ∧ ¬ Fits document.source span := by
  refine ⟨fun document hdocument e he => ?_, fun span h => ?_⟩
  · have hsource := (Document.spelledIn_of_parse hdocument).1
    have hfits := Document.fits_of_mem_subtree hdocument he
    rw [← hsource] at hfits ⊢
    have hlength := Document.size_dropMark_le document.source
    obtain ⟨hstart, hstop⟩ := hfits.stop_le
    refine ⟨hstart, Nat.le_trans hstop hlength, hfits, fun hmark => ?_⟩
    rw [Document.dropMark_eq_self hmark] at hfits
    exact ⟨hfits, Element.sourceText?_isSome_iff.mpr hfits⟩
  · obtain ⟨hmode, document, e, hdocument, he, rfl, hnone⟩ := exists_of_convert_eq_offBoundary h
    have hcut : ¬ Fits document.source e.span := by
      rw [← Element.sourceText?_isSome_iff, hnone]
      exact Bool.false_ne_true
    refine ⟨?_, hmode, document, e, hdocument, he, rfl, hcut⟩
    refine Decidable.of_not_not fun hmark => ?_
    have hfits := Document.fits_of_mem_subtree hdocument he
    rw [Document.dropMark_eq_self hmark, ← (Document.spelledIn_of_parse hdocument).1] at hfits
    exact hcut hfits

def accented : String := "<a>éé<p/><numericalresponse answer=\"1\"/></a>"

theorem convert_marked_accented :
    convert ("\uFEFF" ++ accented) {} = .error (.offBoundary ⟨7, 11⟩) := by
  have hstop : (match convert ("\uFEFF" ++ accented) {} with
      | .ok _ => none
      | .error error => some error) = some (.offBoundary ⟨7, 11⟩) := by decide +kernel
  split at hstop
  · cases hstop
  · rename_i error herror
    rw [herror, Option.some.inj hstop]

/-- Without a mark the elements have their texts, and behind one a span cuts a character. -/
theorem accented_defined :
    (accented.toList.head? ≠ some '\uFEFF' ∧
        ∃ document, Document.parse accented = .ok document ∧
          document.root.subtree.map (·.span) = [⟨0, 46⟩, ⟨7, 11⟩, ⟨11, 42⟩] ∧
          ∀ e ∈ document.root.subtree, Fits document.source e.span ∧
            (e.sourceText? document.source).isSome) ∧
      ∃ document e, Document.parse ("\uFEFF" ++ accented) = .ok document ∧
        e ∈ document.root.subtree ∧ e.span = ⟨7, 11⟩ ∧ ¬ Fits document.source ⟨7, 11⟩ := by
  have hmark : accented.toList.head? ≠ some '\uFEFF' := by decide +kernel
  have hspans : (Document.parse accented).toOption.map (·.root.subtree.map (·.span)) =
      some [⟨0, 46⟩, ⟨7, 11⟩, ⟨11, 42⟩] := by decide +kernel
  refine ⟨⟨hmark, ?_⟩, ((convert_defined_unless_marked _ _).2 _ convert_marked_accented).2.2⟩
  cases hdocument : Document.parse accented with
  | error error =>
      rw [hdocument] at hspans
      cases hspans
  | ok document =>
      rw [hdocument] at hspans
      refine ⟨document, rfl, Option.some.inj hspans, fun e he => ?_⟩
      exact ((convert_defined_unless_marked accented {}).1 document hdocument e he).2.2.2 hmark

/-- Behind a mark the spans are the same, but they do not count its three bytes. The one of the
second element begins inside the second accented character. -/
theorem marked_accented_undefined :
    (Document.parse ("\uFEFF" ++ accented)).toOption.map (·.root.subtree.map (·.span)) =
        some [⟨0, 46⟩, ⟨7, 11⟩, ⟨11, 42⟩] ∧
      convert ("\uFEFF" ++ accented) {} = .error (.offBoundary ⟨7, 11⟩) ∧
      ∃ document e, Document.parse ("\uFEFF" ++ accented) = .ok document ∧
        e ∈ document.root.subtree ∧ e.span = ⟨7, 11⟩ ∧ ¬ Fits document.source ⟨7, 11⟩ := by
  have hspans : (Document.parse ("\uFEFF" ++ accented)).toOption.map
      (·.root.subtree.map (·.span)) = some [⟨0, 46⟩, ⟨7, 11⟩, ⟨11, 42⟩] := by decide +kernel
  obtain ⟨-, document, e, hdocument, he, hspan, hnone⟩ :=
    exists_of_convert_eq_offBoundary convert_marked_accented
  refine ⟨hspans, convert_marked_accented, document, e, hdocument, he, hspan, ?_⟩
  rw [← hspan, ← Element.sourceText?_isSome_iff, hnone]
  exact Bool.false_ne_true

end GiftQuiz
