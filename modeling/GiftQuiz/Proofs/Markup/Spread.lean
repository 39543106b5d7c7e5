import GiftQuiz.Proofs.Markup.Gathering

/-!
# Character data, however it is divided

A comment in the middle of character data leaves two children where there was one, and a CDATA
section may do the same. `Element.spread` is what two such trees have in common: every character of
character data becomes a child of its own, and where the elements stand is forgotten.

The accessors of elements read through this. Names, attributes and the elements on a path are those
of the tree (`select_spread`), and so are the leading text and the text of the whole tree
(`leadingText_spread`, `textContent_spread`), because each of them puts the pieces together again.
-/

namespace GiftQuiz

namespace Markup

namespace Element

def singly (t : List Char) : List (Node Element) :=
  t.map fun c => .text (String.singleton c)

mutual

/-- An element apart from its place, with a child for each character of its character data. -/
def spread : Element → Element
  | ⟨name, attributes, children, _⟩ => ⟨name, attributes, spreadAll children, ⟨0, 0⟩⟩

def spreadAll : List (Node Element) → List (Node Element)
  | [] => []
  | .text t :: rest => singly t.toList ++ spreadAll rest
  | .element e :: rest => .element (spread e) :: spreadAll rest

end

/-! ## The children -/

@[simp] theorem name_spread (e : Element) : e.spread.name = e.name := by
  cases e
  rw [spread]

@[simp] theorem attributes_spread (e : Element) : e.spread.attributes = e.attributes := by
  cases e
  rw [spread]

@[simp] theorem children_spread (e : Element) : e.spread.children = spreadAll e.children := by
  cases e
  rw [spread]

@[simp] theorem attribute?_spread (e : Element) (key : String) :
    e.spread.attribute? key = e.attribute? key := by
  rw [attribute?, attributes_spread, attribute?]

@[simp] theorem singly_append (t u : List Char) : singly (t ++ u) = singly t ++ singly u :=
  List.map_append

theorem spreadAll_append (ns ms : List (Node Element)) :
    spreadAll (ns ++ ms) = spreadAll ns ++ spreadAll ms := by
  induction ns with
  | nil => rw [spreadAll, List.nil_append, List.nil_append]
  | cons n ns ih =>
      cases n with
      | text t => rw [List.cons_append, spreadAll, spreadAll, ih, List.append_assoc]
      | element e => rw [List.cons_append, spreadAll, spreadAll, ih, List.cons_append]

@[simp] theorem spreadAll_text (t : String) : spreadAll [.text t] = singly t.toList := by
  rw [spreadAll, spreadAll, List.append_nil]

@[simp] theorem spreadAll_element (e : Element) :
    spreadAll [.element e] = [.element e.spread] := by
  rw [spreadAll, spreadAll]

/-! ## Child elements -/

theorem filterMap_element?_singly (t : List Char) :
    (singly t).filterMap Node.element? = [] := by
  simp [singly, Node.element?, Function.comp_def]

theorem elements_spread (e : Element) : e.spread.elements = e.elements.map spread := by
  have hall (ns : List (Node Element)) :
      (spreadAll ns).filterMap Node.element? = (ns.filterMap Node.element?).map spread := by
    induction ns with
    | nil => rw [spreadAll, List.filterMap_nil, List.map_nil]
    | cons n ns ih =>
        cases n with
        | text t =>
            rw [spreadAll, List.filterMap_append, filterMap_element?_singly, ih]
            rfl
        | element e =>
            simp only [spreadAll, List.filterMap_cons, Node.element?, ih, List.map_cons]
  rw [elements, children_spread, hall, elements]

theorem child?_spread (e : Element) (name : String) :
    e.spread.child? name = (e.child? name).map spread := by
  simp only [child?, elements_spread, List.find?_map, Function.comp_def, name_spread]

theorem named_spread (name : String) (e : Element) :
    named name e.spread = (named name e).map spread := by
  simp only [named, elements_spread, List.filter_map, Function.comp_def, name_spread]

theorem follow_spread (names : List String) (e : Element) :
    follow names e.spread = (follow names e).map spread := by
  induction names generalizing e with
  | nil => rfl
  | cons name names ih =>
      simp only [follow_cons, named_spread, List.flatMap_map, ih, List.map_flatMap]

/-- What a path leads to. -/
theorem select_spread (e : Element) (path : String) :
    e.spread.select path = (e.select path).map spread :=
  follow_spread (steps path) e

/-! ## Texts -/

theorem join_filterMap_text?_singly (t : String) :
    String.join ((singly t.toList).filterMap Node.text?) = t := by
  rw [← String.toList_inj, String.toList_join]
  simp [singly, Node.text?, List.flatMap_map, Function.comp_def]

theorem leadingText_spread (e : Element) : e.spread.leadingText = e.leadingText := by
  have hall (ns : List (Node Element)) :
      String.join (((spreadAll ns).takeWhile (·.text?.isSome)).filterMap Node.text?) =
        String.join ((ns.takeWhile (·.text?.isSome)).filterMap Node.text?) := by
    induction ns with
    | nil => rw [spreadAll]
    | cons n ns ih =>
        cases n with
        | text t =>
            have htext : ∀ n ∈ singly t.toList, n.text?.isSome = true := by
              simp [singly, Node.text?]
            rw [spreadAll, List.takeWhile_append_of_pos htext, List.filterMap_append,
              String.join_append, join_filterMap_text?_singly, ih,
              List.takeWhile_cons_of_pos (by rfl)]
            simp only [List.filterMap_cons, Node.text?, String.join_cons]
        | element e =>
            rw [spreadAll, List.takeWhile_cons_of_neg (by simp [Node.text?]),
              List.takeWhile_cons_of_neg (by simp [Node.text?])]
  rw [leadingText, children_spread, hall, leadingText]

theorem join_textsAll_singly (t : String) : String.join (textsAll (singly t.toList)) = t := by
  have hsingly : singly t.toList = (t.toList.map String.singleton).map Node.text := by
    rw [List.map_map]
    rfl
  rw [hsingly, textsAll_map_text, ← String.toList_inj, String.toList_join]
  simp [List.flatMap_map]

theorem textContent_spread (e : Element) : e.spread.textContent = e.textContent := by
  have hall (ns : List (Node Element)) :
      String.join (textsAll (spreadAll ns)) = String.join (textsAll ns) := by
    induction ns using nodes_induction with
    | nil => rw [spreadAll]
    | text t rest ih =>
        rw [spreadAll, textsAll_append, String.join_append, ih, join_textsAll_singly, textsAll,
          String.join_cons]
    | element e rest inner ih =>
        simp only [spreadAll, textsAll, String.join_append, texts_eq, children_spread, inner, ih]
  rw [textContent_eq_join_texts, textContent_eq_join_texts, texts_eq, texts_eq, children_spread,
    hall]

end Element

end Markup

end GiftQuiz
