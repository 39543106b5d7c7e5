import GiftQuiz.Proofs.Markup.SourceText
import GiftQuiz.Proofs.Markup.Tag

/-!
# Written trees are read back

The written form of a tree is the spelling of some tokens: a tag of its own for an element without
children, the written children between two tags for any other one, and a token for every run of
character data. `Element.tokens` lists them. They are a run, also in front of other tokens as long
as these do not begin with character data (`run_tokensAll`), because no run of character data stands
beside another one. And they are the content that the tree says they are, wherever they stand
(`content_tokensAll`).

So a written tree is a document (`Document.parse_print`). What comes back is the tree, and the text
of every element in it is its own written form, which `Element.written` says in one.
-/

namespace GiftQuiz

namespace Markup

open Token (spelling extent enclose Run)

namespace Element

mutual

def tokens : Element → List Token
  | ⟨name, attributes, children, _⟩ =>
    if children.isEmpty then [.emptyTag (tagText name attributes)]
    else enclose (tagText name attributes) (tokensAll children) name.toList

def tokensAll : List (Node Element) → List Token
  | [] => []
  | .text t :: rest => .text (guardNamed t.toList) :: tokensAll rest
  | .element e :: rest => tokens e ++ tokensAll rest

end

mutual

/-- An element apart from its place, with its written form as its text. -/
def written : Element → View
  | ⟨name, attributes, children, span⟩ =>
    ⟨name, attributes, writtenAll children,
      some (String.ofList (print ⟨name, attributes, children, span⟩))⟩

def writtenAll : List (Node Element) → List (Node View)
  | [] => []
  | .text t :: rest => .text t :: writtenAll rest
  | .element e :: rest => .element (written e) :: writtenAll rest

end

theorem print_eq (e : Element) : e.print =
    '<' :: e.name.toList ++ e.attributes.flatMap Attribute.print ++
      if e.children.isEmpty then ['/', '>']
      else '>' :: printAll e.children ++ '<' :: '/' :: e.name.toList ++ ['>'] := by
  cases e
  rw [print]

theorem tokens_eq (e : Element) : e.tokens =
    if e.children.isEmpty then [.emptyTag (tagText e.name e.attributes)]
    else enclose (tagText e.name e.attributes) (tokensAll e.children) e.name.toList := by
  cases e
  rw [tokens]

theorem written_eq (e : Element) : e.written =
    ⟨e.name, e.attributes, writtenAll e.children, some (String.ofList e.print)⟩ := by
  cases e
  rw [written]

theorem printable_iff {e : Element} : e.printable = true ↔
    isName e.name = true ∧ areAttributes e.attributes = true ∧ areRuns e.children = true ∧
      allPrintable e.children = true := by
  cases e
  rw [printable]
  simp only [Bool.and_eq_true, and_assoc]

/-! ## The text of the tokens -/

theorem flatMap_spelling_tokens {e : Element}
    (h : (tokensAll e.children).flatMap spelling = printAll e.children) :
    e.tokens.flatMap spelling = e.print := by
  rw [tokens_eq, print_eq]
  by_cases hchildren : e.children.isEmpty = true
  · rw [if_pos hchildren, if_pos hchildren]
    simp [spelling, tagText]
  · rw [if_neg hchildren, if_neg hchildren]
    simp [enclose, spelling, tagText, h]

theorem flatMap_spelling_tokensAll (ns : List (Node Element)) :
    (tokensAll ns).flatMap spelling = printAll ns := by
  induction ns using nodes_induction with
  | nil => rw [tokensAll, printAll, List.flatMap_nil]
  | text t rest ih => rw [tokensAll, printAll, List.flatMap_cons, ih, spelling]
  | element e rest inner ih =>
      rw [tokensAll, printAll, List.flatMap_append, flatMap_spelling_tokens inner, ih]

/-! ## The tokens are read one by one -/

def OpensOrEnds (t : List Char) : Prop :=
  ∀ c, t.head? = some c → c = '<'

theorem opensOrEnds_print (e : Element) (t : List Char) : OpensOrEnds (e.print ++ t) := by
  intro c hc
  rw [print_eq] at hc
  cases hc
  rfl

/-- A run of written character data is a token if none stands behind it. -/
theorem legible_text {t : List Char} (ht : t ≠ []) {rest : List Char} (hrest : OpensOrEnds rest) :
    (Token.text (guardNamed t)).Legible rest := by
  have hplain : ∀ c ∈ guardNamed t, c ≠ '<' := fun c hc => (of_mem_guardNamed hc).1
  exact Token.legible_text_iff.mpr ⟨guardNamed_ne_nil ht, hplain, hrest⟩

/-- Written children are a run in front of whatever does not begin with character data. -/
theorem run_tokensAll {ns : List (Node Element)} (hruns : areRuns ns = true)
    (hall : allPrintable ns = true) {after : List Token} (hafter : Run after)
    (hopens : OpensOrEnds (after.flatMap spelling)) : Run (tokensAll ns ++ after) := by
  induction ns using nodes_induction generalizing after with
  | nil =>
      rw [tokensAll]
      exact hafter
  | text t rest ih =>
      simp only [areRuns, Bool.and_eq_true, Bool.not_eq_true'] at hruns
      obtain ⟨⟨hnonempty, hnext⟩, hrest⟩ := hruns
      rw [allPrintable] at hall
      rw [tokensAll, List.cons_append]
      refine ⟨legible_text ?_ ?_, ih hrest hall hafter hopens⟩
      · rw [Ne, String.toList_eq_nil_iff]
        exact fun hnil => by simp [hnil] at hnonempty
      · rw [List.flatMap_append, flatMap_spelling_tokensAll]
        cases rest with
        | nil => exact hopens
        | cons n rest =>
            cases n with
            | text u => cases hnext
            | element e =>
                rw [printAll, List.append_assoc]
                exact opensOrEnds_print e _
  | element e rest inner ih =>
      rw [areRuns] at hruns
      simp only [allPrintable, Bool.and_eq_true] at hall
      obtain ⟨hname, hattributes, hchildren, hinside⟩ := printable_iff.mp hall.1
      have hbehind : Run (tokensAll rest ++ after) := ih hruns hall.2 hafter hopens
      rw [tokensAll, List.append_assoc, tokens_eq]
      by_cases hempty : e.children.isEmpty = true
      · rw [if_pos hempty]
        exact ⟨Token.legible_emptyTag hname hattributes _, hbehind⟩
      · -- The end tag is behind the children, so the induction is for all that may stand there.
        rw [if_neg hempty, enclose, List.cons_append, List.append_assoc]
        refine ⟨Token.legible_startTag hname hattributes _, inner hchildren hinside ?_ ?_⟩
        · exact ⟨Token.legible_endTag hname _, hbehind⟩
        · intro c hc
          cases hc
          rfl

/-! ## The tokens are the tree -/

theorem endName_name {name : String} (h : isName name = true) :
    Reader.endName name.toList = name := by
  obtain ⟨hnonempty, hall⟩ := isKey_iff.mp (isName_iff.mp h).1
  have hlast : ∀ c, name.toList.reverse.head? = some c → isSpace c = false := fun c hc =>
    (inName_iff.mp (hall c (List.mem_reverse.mp (List.mem_of_head? hc)))).1
  have hkept : name.toList.reverse.dropWhile isSpace = name.toList.reverse :=
    dropWhile_append_eq (t := []) (fun _ hc => nomatch hc) hlast
  have hnonempty' : name.toList.reverse.isEmpty = false := by simpa using hnonempty
  simp only [Reader.endName, hkept, hnonempty', Bool.false_eq_true, if_false, List.reverse_reverse,
    String.ofList_toList]

/-- Content that is read back as what was written. -/
def ReadsBack (p : Nat) (ns : List (Node Element)) : Prop :=
  ∃ ns', Content p (tokensAll ns) ns' ∧
    ∀ source, StandsAt source p (printAll ns) → viewAll source ns' = writtenAll ns

/-- A written element is read back if its children are. -/
theorem spells_tokens {e : Element} (h : e.printable = true)
    (hchildren : ∀ p, ReadsBack p e.children) (p : Nat) :
    ∃ e', Spells p e.tokens e' ∧
      ∀ source, StandsAt source p e.print → e'.view source = e.written := by
  obtain ⟨hname, hattributes, -, -⟩ := printable_iff.mp h
  have htag := Attribute.readTag_tagText (isName_iff.mp hname).1 hattributes
  have htext := flatMap_spelling_tokens (flatMap_spelling_tokensAll e.children)
  rw [written_eq]
  rw [tokens_eq] at htext ⊢
  by_cases hempty : e.children.isEmpty = true
  · rw [if_pos hempty] at htext ⊢
    refine ⟨_, .empty htag, fun source hsource => ?_⟩
    have hspells : Spells p _ _ := .empty htag
    rw [← htext] at hsource ⊢
    rw [view, hspells.sourceText?_eq hsource, List.isEmpty_iff.mp hempty, viewAll, writtenAll]
  · rw [if_neg hempty] at htext ⊢
    obtain ⟨children, hcontent, hview⟩ :=
      hchildren (p + (Token.startTag (tagText e.name e.attributes)).size)
    have hspells : Spells p _ _ := .full htag hcontent (endName_name hname)
    refine ⟨_, hspells, fun source hsource => ?_⟩
    rw [← htext] at hsource ⊢
    have hinside := hsource.inside
    rw [flatMap_spelling_tokensAll] at hinside
    rw [view, hspells.sourceText?_eq hsource, hview source hinside]

theorem content_tokensAll {ns : List (Node Element)} (h : allPrintable ns = true) (p : Nat) :
    ReadsBack p ns := by
  induction ns using nodes_induction generalizing p with
  | nil =>
      refine ⟨[], ?_, fun source _ => by rw [viewAll, writtenAll]⟩
      rw [tokensAll]
      exact .nil p
  | text t rest ih =>
      rw [allPrintable] at h
      obtain ⟨ns', hcontent, hview⟩ := ih h (p + (Token.text (guardNamed t.toList)).size)
      refine ⟨.text (String.ofList t.toList) :: ns', ?_, fun source hsource => ?_⟩
      · rw [tokensAll]
        exact .text (unescape_guardNamed t.toList) hcontent
      · rw [printAll] at hsource
        rw [viewAll, writtenAll, hview source hsource.right, String.ofList_toList]
  | element e rest inner ih =>
      simp only [allPrintable, Bool.and_eq_true] at h
      obtain ⟨hprintable, hrest⟩ := h
      obtain ⟨-, -, -, hinside⟩ := printable_iff.mp hprintable
      obtain ⟨e', hspells, hview⟩ := spells_tokens hprintable (inner hinside) p
      obtain ⟨ns', hcontent, hviews⟩ := ih hrest (p + extent e.tokens)
      refine ⟨.element e' :: ns', ?_, fun source hsource => ?_⟩
      · rw [tokensAll]
        exact hspells.content.append hcontent
      · rw [printAll] at hsource
        have hbehind := hsource.right
        rw [← flatMap_spelling_tokens (flatMap_spelling_tokensAll e.children)] at hbehind
        rw [viewAll, writtenAll, hview source hsource.left, hviews source hbehind]

end Element

/-- A written tree is read back: with the same names, attributes and children, and the text of every
element in it is its written form. -/
theorem Document.parse_print {e : Element} (h : e.printable = true) :
    ∃ document, parse (String.ofList e.print) = .ok document ∧ document.source = e.print ∧
      document.root.view document.source = e.written := by
  obtain ⟨hname, hattributes, hruns, hall⟩ := Element.printable_iff.mp h
  obtain ⟨e', hspells, hview⟩ := Element.spells_tokens h (Element.content_tokensAll hall) 0
  have htext := Element.flatMap_spelling_tokens (Element.flatMap_spelling_tokensAll e.children)
  have hrun : Run e.tokens := by
    have hone : Run (Element.tokensAll [.element e] ++ []) :=
      Element.run_tokensAll rfl (by simp [Element.allPrintable, h]) trivial fun c hc => nomatch hc
    simpa [Element.tokensAll] using hone
  have hparse := parse_flatMap_spelling hspells hrun
  rw [htext] at hparse
  exact ⟨_, hparse, rfl, hview _ (.whole _)⟩

/-- A tree with all characters that have a name in a value and in a run of character data. -/
def guarded : Element :=
  ⟨"a", [⟨"x", "<\"'&>"⟩, ⟨"!", ""⟩],
    [.text "</a>&amp;", .element ⟨"é", [], [], ⟨0, 0⟩⟩, .text " "], ⟨0, 0⟩⟩

theorem Document.parse_print_guarded :
    String.ofList guarded.print =
        "<a x=\"&lt;&quot;&apos;&amp;&gt;\" !=\"\">&lt;/a&gt;&amp;amp;<é/> </a>" ∧
      guarded.printable = true ∧
      ∃ document, parse (String.ofList guarded.print) = .ok document ∧
        document.source = guarded.print ∧ document.root.view document.source = guarded.written := by
  have hprintable : guarded.printable = true := by decide +kernel
  exact ⟨by decide +kernel, hprintable, parse_print hprintable⟩

end Markup

end GiftQuiz
