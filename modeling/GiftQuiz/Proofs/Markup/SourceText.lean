import GiftQuiz.Proofs.Markup.Content
import GiftQuiz.Proofs.Markup.Legible

/-!
# The text of an element

An element knows its span in the document it was read from, and `Element.sourceText?` is the text
of that span. As a document is the spellings of its tokens one after the other, and each element is
spelled by a stretch of them, its text is what this stretch spells (`Spells.sourceText?_eq`).

Tokens can be read without what stands before and behind them, and the rules of the format say
nothing about the byte that tokens stand at. So the text of an element is a document of its own,
whose root is the element again, though at another place. `Element.view` is what there is to an
element apart from its place, and `sourceText_parses_back` says that all of it comes back.
-/

namespace GiftQuiz

namespace Markup

open Token (spelling extent enclose)

/-! ## Texts in a source -/

/-- A text stands in a source at a byte. -/
def StandsAt (source : List Char) (p : Nat) (t : List Char) : Prop :=
  ∃ before after, source = before ++ t ++ after ∧ Utf8.size before = p

namespace StandsAt

variable {source t u : List Char} {p : Nat}

theorem whole (t : List Char) : StandsAt t 0 t :=
  ⟨[], [], (List.append_nil t).symm, rfl⟩

theorem left (h : StandsAt source p (t ++ u)) : StandsAt source p t := by
  obtain ⟨before, after, rfl, hp⟩ := h
  exact ⟨before, u ++ after, by simp only [List.append_assoc], hp⟩

theorem right (h : StandsAt source p (t ++ u)) : StandsAt source (p + Utf8.size t) u := by
  obtain ⟨before, after, rfl, rfl⟩ := h
  exact ⟨before ++ t, after, by simp only [List.append_assoc], Utf8.size_append before t⟩

theorem sourceText?_eq {e : Element} (h : StandsAt source p t)
    (hspan : e.span = ⟨p, p + Utf8.size t⟩) :
    e.sourceText? source = some (String.ofList t) := by
  obtain ⟨before, after, rfl, rfl⟩ := h
  rw [Element.sourceText?, hspan, slice?_append]
  rfl

end StandsAt

/-! ## Trees apart from their place -/

/-- What there is to an element apart from its place: its name, its attributes and its children, and
its text. -/
structure View where
  name : String
  attributes : List Attribute
  children : List (Node View)
  sourceText? : Option String

namespace Element

mutual

/-- An element of the document with the given source, apart from its place. -/
def view (source : List Char) : Element → View
  | ⟨name, attributes, children, span⟩ =>
    ⟨name, attributes, viewAll source children,
      sourceText? source ⟨name, attributes, children, span⟩⟩

def viewAll (source : List Char) : List (Node Element) → List (Node View)
  | [] => []
  | .text t :: rest => .text t :: viewAll source rest
  | .element e :: rest => .element (view source e) :: viewAll source rest

end

mutual

/-- An element and all elements inside it, in document order. -/
def subtree : Element → List Element
  | ⟨name, attributes, children, span⟩ =>
    ⟨name, attributes, children, span⟩ :: subtreeAll children

def subtreeAll : List (Node Element) → List Element
  | [] => []
  | .text _ :: rest => subtreeAll rest
  | .element e :: rest => subtree e ++ subtreeAll rest

end

theorem mem_subtreeAll_cons {e e' : Element} {ns : List (Node Element)} :
    e ∈ subtreeAll (.element e' :: ns) ↔
      e = e' ∨ e ∈ subtreeAll e'.children ∨ e ∈ subtreeAll ns := by
  cases e'
  simp only [subtreeAll, subtree, List.cons_append, List.mem_cons, List.mem_append]

theorem forall_mem_subtreeAll_cons {P : Element → Prop} {e' : Element} {ns : List (Node Element)} :
    (∀ e ∈ subtreeAll (.element e' :: ns), P e) ↔
      P e' ∧ (∀ e ∈ subtreeAll e'.children, P e) ∧ ∀ e ∈ subtreeAll ns, P e := by
  simp only [mem_subtreeAll_cons, or_imp, forall_and, forall_eq]

theorem length_subtreeAll_cons (e : Element) (ns : List (Node Element)) :
    (subtreeAll (.element e :: ns)).length =
      1 + (subtreeAll e.children).length + (subtreeAll ns).length := by
  cases e
  simp only [subtreeAll, subtree, List.length_append, List.length_cons]
  omega

end Element

/-! ## Elements inside elements -/

/-- Whatever is inside of content is spelled by a stretch of it. -/
theorem Content.spelledIn {p : Nat} {ks : List Token} {ns : List (Node Element)} {e : Element}
    (h : Content p ks ns) (he : e ∈ Element.subtreeAll ns) : SpelledIn p ks e := by
  induction h with
  | nil p => cases he
  | skip skipped rest ih => exact (ih he).cons
  | text unescaped rest ih => exact (ih he).cons
  | cdata rest ih => exact (ih he).cons
  | @empty p content name attributes ks ns tag rest ih =>
      rcases Element.mem_subtreeAll_cons.mp he with rfl | hchild | hrest
      · exact (SpelledIn.of_spells (.empty tag)).append ks
      · cases hchild
      · exact (ih hrest).cons
  | @element p content last name attributes inner ks children ns tag inside close rest ihi ih =>
      rcases Element.mem_subtreeAll_cons.mp he with rfl | hchild | hrest
      · exact (SpelledIn.of_spells (.full tag inside close)).append ks
      · exact ((ihi hchild).append [.endTag last]).cons.append ks
      · exact (ih hrest).prepend

theorem Spells.content {p : Nat} {ks : List Token} {e : Element} (h : Spells p ks e) :
    Content p ks [.element e] := by
  cases h with
  | empty tag => exact .empty tag (.nil _)
  | full tag inside close =>
      have helement := Content.element tag inside close (.nil _)
      rw [List.append_nil] at helement
      exact helement

theorem Spells.spelledIn {p : Nat} {ks : List Token} {e e' : Element} (h : Spells p ks e)
    (he : e' ∈ e.subtree) : SpelledIn p ks e' :=
  h.content.spelledIn (by simpa [Element.subtreeAll] using he)

/-- With an element everything inside it is spelled. -/
theorem SpelledIn.inside {p : Nat} {ks : List Token} {e e' : Element} (h : SpelledIn p ks e)
    (he : e' ∈ e.subtree) : SpelledIn p ks e' := by
  obtain ⟨before, own, after, rfl, hown⟩ := h
  exact ((hown.spelledIn he).prepend).append after

/-! ## Spans -/

theorem Spells.span_eq {p : Nat} {ks : List Token} {e : Element} (h : Spells p ks e) :
    e.span = ⟨p, p + extent ks⟩ := by
  cases h with
  | empty tag => simp
  | full tag inside close => rfl

/-- An element that is spelled in a source has what its tokens spell as its text. -/
theorem Spells.sourceText?_eq {p : Nat} {ks : List Token} {e : Element} {source : List Char}
    (h : Spells p ks e) (hsource : StandsAt source p (ks.flatMap spelling)) :
    e.sourceText? source = some (String.ofList (ks.flatMap spelling)) :=
  hsource.sourceText?_eq h.span_eq

namespace Token

theorem utf8Size_delimiters : '<'.utf8Size = 1 ∧ '/'.utf8Size = 1 ∧ '>'.utf8Size = 1 :=
  ⟨rfl, rfl, rfl⟩

theorem size_startTag (content : List Char) :
    (startTag content).size = Utf8.size content + 2 := by
  have := utf8Size_delimiters
  simp [size, spelling]
  omega

theorem size_emptyTag (content : List Char) :
    (emptyTag content).size = Utf8.size content + 3 := by
  have := utf8Size_delimiters
  simp [size, spelling]
  omega

theorem size_endTag (content : List Char) :
    (endTag content).size = Utf8.size content + 3 := by
  have := utf8Size_delimiters
  simp [size, spelling]
  omega

end Token

/-- Elements stand one behind the other, none of them empty, between two bytes. -/
def InOrder : (p q : Nat) → List Element → Prop
  | p, q, [] => p ≤ q
  | p, q, e :: es => p ≤ e.span.start ∧ e.span.start < e.span.stop ∧ InOrder e.span.stop q es

namespace InOrder

variable {p q : Nat} {es : List Element}

theorem of_le {p' : Nat} (hp : p ≤ p') (h : InOrder p' q es) : InOrder p q es := by
  cases es with
  | nil => exact Nat.le_trans hp h
  | cons e es => exact ⟨Nat.le_trans hp h.1, h.2⟩

theorem le (h : InOrder p q es) : p ≤ q := by
  induction es generalizing p with
  | nil => exact h
  | cons e es ih => exact Nat.le_trans h.1 (Nat.le_trans (Nat.le_of_lt h.2.1) (ih h.2.2))

theorem of_mem {e : Element} (h : InOrder p q es) (he : e ∈ es) :
    p ≤ e.span.start ∧ e.span.start < e.span.stop ∧ e.span.stop ≤ q := by
  induction es generalizing p with
  | nil => cases he
  | cons e' es ih =>
      rcases List.mem_cons.mp he with rfl | he
      · exact ⟨h.1, h.2.1, h.2.2.le⟩
      · exact ih (h.2.2.of_le (Nat.le_trans h.1 (Nat.le_of_lt h.2.1))) he

theorem pairwise (h : InOrder p q es) :
    es.Pairwise fun a b => a.span.stop ≤ b.span.start := by
  induction es generalizing p with
  | nil => exact .nil
  | cons e es ih => exact .cons (fun e' he' => (h.2.2.of_mem he').1) (ih h.2.2)

end InOrder

/-- Children stand one behind the other between the first and the last byte of their tokens. -/
theorem Content.inOrder {p : Nat} {ks : List Token} {ns : List (Node Element)}
    (h : Content p ks ns) : InOrder p (p + extent ks) (ns.filterMap Node.element?) := by
  induction h with
  | nil p => exact Nat.le_refl p
  | skip skipped rest ih =>
      rw [Token.extent_cons, ← Nat.add_assoc]
      exact ih.of_le (Nat.le_add_right ..)
  | text unescaped rest ih =>
      rw [Token.extent_cons, ← Nat.add_assoc]
      exact ih.of_le (Nat.le_add_right ..)
  | cdata rest ih =>
      rw [Token.extent_cons, ← Nat.add_assoc]
      exact ih.of_le (Nat.le_add_right ..)
  | empty tag rest ih =>
      rw [Token.extent_cons, ← Nat.add_assoc]
      exact ⟨Nat.le_refl _, Nat.lt_add_of_pos_right (by simp [Token.size_emptyTag]), ih⟩
  | element tag inside close rest _ ih =>
      rw [Token.extent_append, ← Nat.add_assoc]
      refine ⟨Nat.le_refl _, Nat.lt_add_of_pos_right ?_, ih⟩
      rw [enclose, Token.extent_cons, Token.size_startTag]
      omega

/-- The children of an element stand one behind the other inside of its tags. -/
theorem Spells.inOrder {p : Nat} {ks : List Token} {e : Element} (h : Spells p ks e) :
    ∃ start stop, e.span.start < start ∧ stop < e.span.stop ∧ InOrder start stop e.elements := by
  cases h with
  | empty tag =>
      refine ⟨p + 1, p + 1, Nat.lt_succ_self p, ?_, Nat.le_refl _⟩
      show p + 1 < p + (Token.emptyTag _).size
      rw [Token.size_emptyTag]
      omega
  | @full content last name attributes inner children tag inside close =>
      refine ⟨_, _, ?_, ?_, inside.inOrder⟩
      · show p < p + (Token.startTag content).size
        rw [Token.size_startTag]
        omega
      · show _ < p + extent (enclose content inner last)
        simp only [enclose, Token.extent_cons, Token.extent_append, Token.size_endTag]
        omega

/-! ## The text of an element -/

theorem Attribute.prefix_of_readTag {content : List Char} {name : String}
    {attributes : List Attribute} (h : readTag content = .ok (name, attributes)) :
    ∃ t, content = name.toList ++ t := by
  simp only [readTag] at h
  split at h
  · cases h
    exact ⟨content.dropWhile (!isSpace ·),
      by rw [String.toList_ofList, List.takeWhile_append_dropWhile]⟩
  · cases h

/-- The tokens of an element spell a text that begins with its name in an angle bracket and ends
with an angle bracket. -/
theorem Spells.delimited {p : Nat} {ks : List Token} {e : Element} (h : Spells p ks e) :
    ∃ t, ks.flatMap spelling = '<' :: (e.name.toList ++ t ++ ['>']) := by
  cases h with
  | @empty content name attributes tag =>
      obtain ⟨t, rfl⟩ := Attribute.prefix_of_readTag tag
      exact ⟨t ++ ['/'], by simp [spelling]⟩
  | @full content last name attributes inner children tag inside close =>
      obtain ⟨t, rfl⟩ := Attribute.prefix_of_readTag tag
      exact ⟨t ++ '>' :: inner.flatMap spelling ++ '<' :: '/' :: last,
        by simp [enclose, spelling]⟩

/-! ## Reading it again -/

/-- What is found in a source with some tokens at the byte `p` is what is found in another one with
the same tokens at the byte `q`. -/
def Alike {α : Type} (p q : Nat) (ks : List Token) (v v' : List Char → α) : Prop :=
  ∀ ⦃source source' : List Char⦄, StandsAt source p (ks.flatMap spelling) →
    StandsAt source' q (ks.flatMap spelling) → v source = v' source'

theorem StandsAt.inside {source content last : List Char} {p : Nat} {inner : List Token}
    (h : StandsAt source p ((enclose content inner last).flatMap spelling)) :
    StandsAt source (p + (Token.startTag content).size) (inner.flatMap spelling) := by
  have hbehind : StandsAt source (p + (Token.startTag content).size)
      ((inner ++ [Token.endTag last]).flatMap spelling) := StandsAt.right h
  rw [List.flatMap_append] at hbehind
  exact hbehind.left

/-- Elements with the same tokens are alike if their children are. -/
theorem Element.view_eq_of_spells {p q : Nat} {ks : List Token} {source source' : List Char}
    {name : String} {attributes : List Attribute} {children children' : List (Node Element)}
    {span span' : Span} (h : Spells p ks ⟨name, attributes, children, span⟩)
    (h' : Spells q ks ⟨name, attributes, children', span'⟩)
    (hsource : StandsAt source p (ks.flatMap spelling))
    (hsource' : StandsAt source' q (ks.flatMap spelling))
    (hchildren : viewAll source children = viewAll source' children') :
    view source ⟨name, attributes, children, span⟩ =
      view source' ⟨name, attributes, children', span'⟩ := by
  simp only [view, h.sourceText?_eq hsource, h'.sourceText?_eq hsource', hchildren]

/-- Content can stand at any other byte, where it is the same apart from its place. -/
theorem Content.relocate {p : Nat} {ks : List Token} {ns : List (Node Element)}
    (h : Content p ks ns) (q : Nat) :
    ∃ ns', Content q ks ns' ∧ Alike p q ks (Element.viewAll · ns) (Element.viewAll · ns') := by
  induction h generalizing q with
  | nil p => exact ⟨[], .nil q, fun _ _ _ _ => rfl⟩
  | skip skipped rest ih =>
      obtain ⟨ns', hns', hview⟩ := ih _
      exact ⟨ns', .skip skipped hns', fun _ _ h h' => hview h.right h'.right⟩
  | text unescaped rest ih =>
      obtain ⟨ns', hns', hview⟩ := ih _
      exact ⟨_, .text unescaped hns', fun _ _ h h' => congrArg _ (hview h.right h'.right)⟩
  | cdata rest ih =>
      obtain ⟨ns', hns', hview⟩ := ih _
      exact ⟨_, .cdata hns', fun _ _ h h' => congrArg _ (hview h.right h'.right)⟩
  | @empty p content name attributes ks ns tag rest ih =>
      obtain ⟨ns', hns', hview⟩ := ih _
      refine ⟨_, .empty tag hns', fun source source' h h' => ?_⟩
      have hstands : StandsAt source p (List.flatMap spelling [.emptyTag content]) := by
        simpa using h.left
      have hstands' : StandsAt source' q (List.flatMap spelling [.emptyTag content]) := by
        simpa using h'.left
      have helement := Element.view_eq_of_spells (.empty tag) (.empty tag) hstands hstands' rfl
      have hrest : Element.viewAll source ns = Element.viewAll source' ns' :=
        hview h.right h'.right
      simp only [Element.viewAll, helement, hrest]
  | @element p content last name attributes inner ks children ns tag inside close rest ihi ih =>
      obtain ⟨children', hchildren', hview⟩ := ihi _
      obtain ⟨ns', hns', hviews⟩ := ih _
      refine ⟨_, .element tag hchildren' close hns', fun source source' h h' => ?_⟩
      rw [List.flatMap_append] at h h'
      have helement := Element.view_eq_of_spells (.full tag inside close)
        (.full tag hchildren' close) h.left h'.left (hview h.left.inside h'.left.inside)
      have hrest : Element.viewAll source ns = Element.viewAll source' ns' :=
        hviews h.right h'.right
      simp only [Element.viewAll, helement, hrest]

/-- An element can stand at any other byte, where it is the same apart from its place. -/
theorem Spells.relocate {p : Nat} {ks : List Token} {e : Element} (h : Spells p ks e) (q : Nat) :
    ∃ e', Spells q ks e' ∧ Alike p q ks (Element.view · e) (Element.view · e') := by
  cases h with
  | empty tag =>
      exact ⟨_, .empty tag, fun _ _ h h' =>
        Element.view_eq_of_spells (.empty tag) (.empty tag) h h' rfl⟩
  | full tag inside close =>
      obtain ⟨children', hchildren', hview⟩ := inside.relocate _
      exact ⟨_, .full tag hchildren' close, fun _ _ h h' =>
        Element.view_eq_of_spells (.full tag inside close) (.full tag hchildren' close) h h'
          (hview h.inside h'.inside)⟩

namespace Document

theorem dropMark_eq_self {t : List Char} (h : t.head? ≠ some '\uFEFF') : dropMark t = t := by
  cases t with
  | nil => rfl
  | cons c t => exact if_neg fun hc => h (by rw [hc]; rfl)

/-- What an element spells is a document with this root. -/
theorem parse_flatMap_spelling {ks : List Token} {e : Element} (h : Spells 0 ks e)
    (hrun : Token.Run ks) :
    parse (String.ofList (ks.flatMap spelling)) = .ok ⟨ks.flatMap spelling, e⟩ := by
  obtain ⟨t, ht⟩ := h.delimited
  have hmark : dropMark (ks.flatMap spelling) = ks.flatMap spelling :=
    dropMark_eq_self (by rw [ht, List.head?_cons]; decide)
  have hroot : ks.foldlM step ({}, {}) = .ok (⟨0 + extent ks, []⟩, ⟨[], some e⟩) :=
    h.foldlM_step [] (b := {}) fun _ => rfl
  simp only [parse, parseRoot, String.toList_ofList, hmark, Token.scan_flatMap_spelling hrun, hroot,
    Builder.finish]

/-- All tokens of a document that is read are taken in, and behind them the builder has its root. -/
theorem foldlM_step_of_parse {xml : String} {document : Document} (h : parse xml = .ok document) :
    document.source = xml.toList ∧ (Token.scan (dropMark xml.toList)).fault = none ∧
      ∃ r, (Token.scan (dropMark xml.toList)).tokens.foldlM step ({}, {}) =
        .ok (r, ⟨[], some document.root⟩) := by
  simp only [parse, parseRoot] at h
  split at h
  · rename_i root hroot
    cases h
    split at hroot
    · cases hroot
    · rename_i reader builder hks
      split at hroot
      · cases hroot
      · rename_i hfault
        obtain rfl := Builder.finish_eq_ok_iff.mp hroot
        exact ⟨rfl, hfault, reader, hks⟩
  · cases h

/-- Behind its byte order mark a document is what its tokens spell, and they spell its root. -/
theorem spelledIn_of_parse {xml : String} {document : Document} (h : parse xml = .ok document) :
    document.source = xml.toList ∧ (Token.scan (dropMark xml.toList)).fault = none ∧
      SpelledIn 0 (Token.scan (dropMark xml.toList)).tokens document.root := by
  obtain ⟨hsource, hfault, r, hks⟩ := foldlM_step_of_parse h
  exact ⟨hsource, hfault, spelledIn_of_foldlM hks⟩

/-- Every element of a document without a byte order mark is spelled by a stretch of its tokens,
from its own start tag to its own end tag. Its text is what the stretch spells, taken from the
document as it is, and begins with the name of the element. Its children stand one behind the other
inside of its tags. Its text is a document of its own, whose root is the element again: with the
same name, attributes and children, and the same texts of all elements inside it. -/
theorem sourceText_parses_back {xml : String} {document : Document}
    (hmark : xml.toList.head? ≠ some '\uFEFF') (h : parse xml = .ok document) :
    document.source = xml.toList ∧ ∀ e ∈ document.root.subtree,
      (∃ before own after, (Token.scan xml.toList).tokens = before ++ own ++ after ∧
        Spells (extent before) own e ∧
        xml.toList = before.flatMap spelling ++ own.flatMap spelling ++ after.flatMap spelling ∧
        e.sourceText? document.source = some (String.ofList (own.flatMap spelling)) ∧
        ∃ t, own.flatMap spelling = '<' :: (e.name.toList ++ t ++ ['>'])) ∧
      e.elements.Pairwise (fun a b => a.span.stop ≤ b.span.start) ∧
      (∀ c ∈ e.elements, e.span.start < c.span.start ∧ c.span.start < c.span.stop ∧
        c.span.stop < e.span.stop) ∧
      ∃ markup again, e.sourceText? document.source = some markup ∧ parse markup = .ok again ∧
        again.source = markup.toList ∧
        again.root.view again.source = e.view document.source := by
  obtain ⟨hsource, hfault, hroot⟩ := spelledIn_of_parse h
  rw [dropMark_eq_self hmark] at hfault hroot
  refine ⟨hsource, fun e he => ?_⟩
  obtain ⟨before, own, after, htokens, hown⟩ := hroot.inside he
  rw [Nat.zero_add] at hown
  have hrun : Token.Run (before ++ own ++ after) := by
    rw [← htokens]
    exact Token.run_scan xml.toList hfault
  have htext : xml.toList = before.flatMap spelling ++ own.flatMap spelling ++
      after.flatMap spelling := by
    rw [← List.flatMap_append, ← List.flatMap_append, ← htokens]
    exact (Token.flatMap_spelling_scan hfault).symm
  have hstands : StandsAt document.source (extent before) (own.flatMap spelling) :=
    ⟨_, _, hsource.trans htext, rfl⟩
  have hmarkup := hown.sourceText?_eq hstands
  obtain ⟨start, stop, hstart, hstop, horder⟩ := hown.inOrder
  have hinside : ∀ c ∈ e.elements, e.span.start < c.span.start ∧ c.span.start < c.span.stop ∧
      c.span.stop < e.span.stop := by
    intro c hc
    obtain ⟨hc₁, hc₂, hc₃⟩ := horder.of_mem hc
    exact ⟨Nat.lt_of_lt_of_le hstart hc₁, hc₂, Nat.lt_of_le_of_lt hc₃ hstop⟩
  -- The same tokens at the byte 0 are the element as it stands in a document of its own.
  obtain ⟨e', he', halike⟩ := hown.relocate 0
  have hagain := parse_flatMap_spelling he' hrun.stretch
  have hview := halike hstands (.whole _)
  exact ⟨⟨before, own, after, htokens, hown, htext, hmarkup, hown.delimited⟩, horder.pairwise,
    hinside, _, _, hmarkup, hagain, String.toList_ofList.symm, hview.symm⟩

/-- A document with a prolog, quotes, a comment, a doctype inside an element and a CDATA section. -/
def nested : String :=
  "<!DOCTYPE a [<!ENTITY e \"x\">]>\n<a x=\">\">é<!--<b>-->" ++
    "<b>&lt;<!DOCTYPE b><c y=\"</c>\"/></b><![CDATA[</a>]]></a >\n"

theorem nested_parses_back :
    ∃ document, parse nested = .ok document ∧
      document.root.subtree.map (Element.sourceText? document.source) =
        [some "<a x=\">\">é<!--<b>--><b>&lt;<!DOCTYPE b><c y=\"</c>\"/></b><![CDATA[</a>]]></a >",
          some "<b>&lt;<!DOCTYPE b><c y=\"</c>\"/></b>", some "<c y=\"</c>\"/>"] ∧
      ∀ e ∈ document.root.subtree, ∃ markup again,
        e.sourceText? document.source = some markup ∧ parse markup = .ok again ∧
          again.source = markup.toList ∧
          again.root.view again.source = e.view document.source := by
  have htexts : ((parse nested).toOption.map fun document =>
      document.root.subtree.map (Element.sourceText? document.source)) = some
        [some "<a x=\">\">é<!--<b>--><b>&lt;<!DOCTYPE b><c y=\"</c>\"/></b><![CDATA[</a>]]></a >",
          some "<b>&lt;<!DOCTYPE b><c y=\"</c>\"/></b>", some "<c y=\"</c>\"/>"] := by
    decide +kernel
  cases h : parse nested with
  | error e =>
      rw [h] at htexts
      cases htexts
  | ok document =>
      rw [h] at htexts
      exact ⟨document, rfl, Option.some.inj htexts,
        fun e he => ((sourceText_parses_back (by decide +kernel) h).2 e he).2.2.2⟩

end Document

end Markup

end GiftQuiz
