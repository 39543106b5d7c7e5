import GiftQuiz.Proofs.Markup.Insertion
import GiftQuiz.Proofs.Quiz.Yield

/-!
# Comments and sections in a document

In text mode a conversion asks for names, attributes and texts of elements only, and none of these
tells how character data is divided into children, or where in the document anything stands. So two
documents whose roots are the same when they are spread are converted alike
(`convert_eq_of_spread_eq`).

`convert_text_unchanged` draws the conclusion: a comment may be put anywhere between the tokens of a
document and inside of its character data, and character data may be written as a CDATA section. In
markup mode neither holds, as a title is then the source text of elements with all comments in it.
-/

namespace GiftQuiz

open Markup (Element Node Document Token Gap Stretch unescape)
open Markup.Element (spreadAll singly)

/-! ## What a response asks for -/

theorem Choice.ofElement_spread (e : Element) : ofElement e.spread = ofElement e := by
  rw [ofElement, Element.attribute?_spread, Element.leadingText_spread, ofElement]

theorem Body.tolerance?_spread (e : Element) : tolerance? e.spread = tolerance? e := by
  rw [tolerance?, Element.child?_spread, tolerance?]
  cases e.child? "responseparam" with
  | none => rfl
  | some param => simp only [Option.map_some, Element.attribute?_spread]

theorem Body.ofResponse_spread (kind : ResponseKind) (e : Element) :
    ofResponse kind e.spread = ofResponse kind e := by
  have hchoices (path : String) : (e.spread.select path).map Choice.ofElement =
      (e.select path).map Choice.ofElement := by
    rw [Element.select_spread, List.map_map]
    exact List.map_congr_left fun e' _ => Choice.ofElement_spread e'
  cases kind with
  | multipleChoice => rw [ofResponse, hchoices, ofResponse]
  | checkboxes => rw [ofResponse, hchoices, ofResponse]
  | numerical => rw [ofResponse, Element.attribute?_spread, tolerance?_spread, ofResponse]

/-! ## What a problem yields -/

theorem TitleMode.contribution_spread (source source' : List Char) (e : Element) :
    TitleMode.text.contribution source e.spread = TitleMode.text.contribution source' e := by
  simp only [contribution, Element.name_spread, Element.textContent_spread]

namespace Yield

theorem asked_spread (mode : TitleMode) (title : Title) (kind : ResponseKind) (e : Element)
    (counter : Counter) :
    asked mode title kind e.spread counter = asked mode title kind e counter := by
  simp only [asked, questionAt, Body.ofResponse_spread]

theorem ofNodes_singly (source : List Char) (mode : TitleMode) (title : Title) (counter : Counter)
    (t : List Char) (rest : List (Node Element)) :
    ofNodes source mode title counter (singly t ++ rest) =
      ofNodes source mode title counter rest := by
  induction t with
  | nil => rfl
  | cons c t ih =>
      rw [singly, List.map_cons, List.cons_append, ofNodes]
      exact ih

/-- What children yield in text mode, they yield when they are spread, in whatever document. -/
theorem ofNodes_spreadAll (source source' : List Char) (title : Title) (counter : Counter)
    (ns : List (Node Element)) :
    ofNodes source .text title counter (spreadAll ns) = ofNodes source' .text title counter ns := by
  induction ns using Element.nodes_induction generalizing title counter with
  | nil => rw [spreadAll, ofNodes, ofNodes]
  | text t rest ih => rw [spreadAll, ofNodes_singly, ofNodes, ih]
  | element e rest inner ih =>
      rw [spreadAll, ofNodes, ofNodes, Element.name_spread]
      cases Role.ofName e.name with
      | problem => simp only [ofElement_eq, Element.children_spread, inner, ih]
      | response kind => simp only [asked_spread, ih]
      | content =>
          simp only [TitleMode.contribution_spread source source']
          cases TitleMode.text.contribution source' e with
          | part part => exact ih _ _
          | unsupported name => simp only [ih]
          | offBoundary span => rfl

theorem ofElement_spread (source source' : List Char) (counter : Counter) (e : Element) :
    ofElement source .text counter e.spread = ofElement source' .text counter e := by
  rw [ofElement_eq, Element.children_spread, ofNodes_spreadAll source source', ofElement_eq]

end Yield

/-- Two documents whose roots differ in places and in the division of character data only are
converted alike in text mode. -/
theorem convert_eq_of_spread_eq {xml xml' : String} {document document' : Document}
    (h : Document.parse xml = .ok document) (h' : Document.parse xml' = .ok document')
    (hroot : document'.root.spread = document.root.spread) {options : Options}
    (hmode : options.titleMode = .text) : convert xml' options = convert xml options := by
  have hyield : Yield.ofElement document'.source .text (.fresh options.startId) document'.root =
      Yield.ofElement document.source .text (.fresh options.startId) document.root := by
    rw [← Yield.ofElement_spread [], hroot, Yield.ofElement_spread []]
  rw [convert_eq_result h, convert_eq_result h', hmode, hyield]

/-! ## Documents with a comment or a section more -/

/-- A document that is converted in text mode is converted into the same quiz with a comment more,
wherever that stands between two tokens or in character data without cutting a reference. And a
stretch of character data stands for a text that may be put there as a CDATA section, unless the
text would end the section. -/
theorem convert_text_unchanged {xml : String} {options : Options} {c : Conversion}
    (hmode : options.titleMode = .text) (hmark : xml.toList.head? ≠ some '\uFEFF')
    (h : convert xml options = .ok c) :
    (∀ before after comment, Gap xml.toList before after → '>' ∉ comment →
      before ++ after = xml.toList ∧
        convert (String.ofList
          (before ++ (Token.commentOpen ++ comment ++ Token.commentClose) ++ after)) options =
            .ok c) ∧
      ∀ before run after, Stretch xml.toList before run after →
        before ++ run ++ after = xml.toList ∧
          ∃ v, unescape run = .ok v ∧ (¬ Token.cdataClose <:+: v →
            convert (String.ofList
              (before ++ (Token.cdataOpen ++ v ++ Token.cdataClose) ++ after)) options =
                .ok c) := by
  cases hparse : Document.parse xml with
  | error e =>
      rw [convert_eq_unreadable hparse] at h
      cases h
  | ok document =>
      have hfault := Document.fault_of_parse hmark hparse
      constructor
      · intro before after comment hgap hcomment
        refine ⟨hgap.append_eq hfault, ?_⟩
        obtain ⟨document', hparse', hroot⟩ := Document.parse_gap hmark hparse hgap hcomment
        exact (convert_eq_of_spread_eq hparse hparse' hroot hmode).trans h
      · intro before run after hstretch
        refine ⟨hstretch.append_eq hfault, ?_⟩
        obtain ⟨v, hv, hplace⟩ := Document.parse_stretch hmark hparse hstretch
        refine ⟨v, Markup.unescape_eq_ok_iff.mpr hv, fun hsection => ?_⟩
        obtain ⟨document', hparse', hroot⟩ :=
          hplace (.cdata v) rfl (Token.legible_cdata hsection) rfl
        exact (convert_eq_of_spread_eq hparse hparse' hroot hmode).trans h

/-- A question whose title has a reference in it. -/
def titled : String := "<a><p>x&amp;y</p><numericalresponse answer=\"1\"/></a>"

/-- The same with comments in the title and behind the root. -/
def titleCommented : String := "<a><p>x&amp;<!--<z-->y</p><numericalresponse answer=\"1\"/></a>"

def endCommented : String := "<a><p>x&amp;y</p><numericalresponse answer=\"1\"/></a><!---->"

/-- The same with the title in a section. -/
def titleInSection : String := "<a><p><![CDATA[x&y]]></p><numericalresponse answer=\"1\"/></a>"

theorem titled_unchanged :
    ∃ c, convert titled ⟨1, .text⟩ = .ok c ∧
      c.fragments = ["::Q1::x&y\x7b", "#\n", "\t=%100%1\n", "\x7d\n"] ∧
      convert titleCommented ⟨1, .text⟩ = .ok c ∧ convert endCommented ⟨1, .text⟩ = .ok c ∧
      convert titleInSection ⟨1, .text⟩ = .ok c := by
  have hread : (convert titled ⟨1, .text⟩).toOption.map Conversion.fragments =
      some ["::Q1::x&y\x7b", "#\n", "\t=%100%1\n", "\x7d\n"] := by
    decide +kernel
  have htokens : (Token.scan titled.toList).tokens =
      [.startTag "a".toList, .startTag "p".toList] ++ .text "x&amp;y".toList ::
        [.endTag "p".toList, .emptyTag "numericalresponse answer=\"1\"".toList,
          .endTag "a".toList] := by
    decide +kernel
  have hmiddle : Stretch titled.toList "<a><p>x&amp;".toList []
      "y</p><numericalresponse answer=\"1\"/></a>".toList := by
    have hcut : ¬ Markup.CutsReference "x&amp;".toList "y".toList :=
      fun hcut => absurd hcut.mem_right (by decide)
    exact @Stretch.intro _ _ _ "x&amp;".toList [] "y".toList htokens hcut hcut
  have hwhole : Stretch titled.toList "<a><p>".toList "x&amp;y".toList
      "</p><numericalresponse answer=\"1\"/></a>".toList :=
    @Stretch.intro _ _ _ [] "x&amp;y".toList [] htokens
      (fun hcut => absurd hcut.mem_left (by decide))
      (fun hcut => absurd hcut.mem_right (by decide))
  have hend : Gap titled.toList titled.toList [] :=
    @Gap.between _ _ [] (htokens.trans (List.append_nil _).symm)
  have hstands : (unescape "x&amp;y".toList).toOption = some "x&y".toList := by
    decide +kernel
  obtain ⟨c, hc, hfragments⟩ := exists_convert_eq_ok_of_map hread
  obtain ⟨hcomment, hsection⟩ := convert_text_unchanged rfl (by decide) hc
  obtain ⟨-, v, hv, hplace⟩ := hsection _ _ _ hwhole
  rw [hv] at hstands
  cases hstands
  exact ⟨c, hc, hfragments, (hcomment _ _ "<z".toList (.inside hmiddle) (by decide)).2,
    (hcomment _ _ [] hend (by decide)).2, hplace (by decide)⟩

end GiftQuiz
