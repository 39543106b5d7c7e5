import GiftQuiz.Proofs.Markup.Paths
import GiftQuiz.Proofs.Markup.SourceText

/-!
# The character data of a tree

`Element.gather` walks through a tree with the open levels on a list. A pass of it takes the next
child of the innermost level, or leaves that level if there is none. `Gathering.passes` counts the
passes: behind those for some children, the level goes on behind them and their texts have been
written (`passes_nodes`). So the walk through a tree ends, with one pass for every text and two for
every element, of which the first enters it and the second leaves it.

What has been written then are the texts of the tree. `Element.texts` lists them by recursion on the
tree, and there is one for every place where the tree holds character data, in document order
(`enumerates_texts`). The leading text is made of those in front of the first child element
(`leadingText_eq`), which are the first ones in the tree.
-/

namespace GiftQuiz

namespace Markup

namespace Element

/-! ## Texts -/

mutual

/-- The runs of character data inside an element, at any depth, in document order. -/
def texts : Element → List String
  | ⟨_, _, children, _⟩ => textsAll children

/-- The runs of character data among children and inside them, in document order. -/
def textsAll : List (Node Element) → List String
  | [] => []
  | .text t :: rest => t :: textsAll rest
  | .element e :: rest => texts e ++ textsAll rest

end

theorem texts_eq (e : Element) : e.texts = textsAll e.children := by
  cases e
  rw [texts]

def textsOf : Node Element → List String
  | .text t => [t]
  | .element e => e.texts

theorem textsAll_eq (nodes : List (Node Element)) : textsAll nodes = nodes.flatMap textsOf := by
  induction nodes with
  | nil => rw [textsAll, List.flatMap_nil]
  | cons node nodes ih => cases node <;> rw [textsAll, ih, List.flatMap_cons] <;> rfl

theorem textsAll_append (nodes nodes' : List (Node Element)) :
    textsAll (nodes ++ nodes') = textsAll nodes ++ textsAll nodes' := by
  simp only [textsAll_eq, List.flatMap_append]

theorem textsAll_map_text (ts : List String) : textsAll (ts.map Node.text) = ts := by
  rw [textsAll_eq, List.flatMap_map]
  exact List.flatMap_singleton' ts

/-- A run of character data stands at a place in an element. -/
inductive HoldsText : Element → List Nat → String → Prop
  | here {e : Element} {i : Nat} {t : String} (step : e.children[i]? = some (.text t)) :
    HoldsText e [i] t
  | inside {e child : Element} {i : Nat} {inner : List Nat} {t : String}
    (step : e.children[i]? = some (.element child)) (way : HoldsText child inner t) :
    HoldsText e (i :: inner) t

/-- A run of character data stands at a place in a child, if it is not the child itself. -/
def HoldsTextIn : Node Element → List Nat → String → Prop
  | .text u, place, t => place = [] ∧ t = u
  | .element e, place, t => e.HoldsText place t

theorem holdsText_iff {e : Element} {place : List Nat} {t : String} :
    e.HoldsText place t ↔ Below e.children HoldsTextIn place t := by
  constructor
  · rintro (⟨step⟩ | ⟨step, way⟩)
    · exact ⟨_, _, [], rfl, step, rfl, rfl⟩
    · exact ⟨_, _, _, rfl, step, way⟩
  · rintro ⟨i, node, inner, rfl, step, hinner⟩
    cases node with
    | text u =>
        obtain ⟨rfl, rfl⟩ := hinner
        exact .here step
    | element child => exact .inside step hinner

/-- Induction over an element: what holds of its child elements holds of it. -/
theorem element_induction {motive : Element → Prop}
    (element : ∀ e, (∀ child, .element child ∈ e.children → motive child) → motive e)
    (e : Element) : motive e := by
  have hall (nodes : List (Node Element)) : ∀ child, .element child ∈ nodes → motive child := by
    induction nodes using nodes_induction with
    | nil => exact fun _ h => absurd h List.not_mem_nil
    | text t rest ih => exact fun child h => ih child (by simpa using h)
    | element e rest inner ih =>
        intro child h
        rcases List.mem_cons.mp h with h | h
        · cases h
          exact element _ inner
        · exact ih child h
  exact element e (hall e.children)

theorem enumerates_texts (e : Element) : Enumerates e.texts e.HoldsText := by
  induction e using element_induction with
  | element e ih =>
      rw [texts_eq, textsAll_eq]
      refine (Enumerates.below fun node hnode => ?_).congr fun _ _ => holdsText_iff
      cases node with
      | text t => exact .single t
      | element child => exact ih child hnode

end Element

/-! ## Passes -/

/-- What a walk through a tree goes on with: the open levels, the innermost first, and what it has
written. -/
structure Gathering where
  levels : List (List (Node Element))
  out : String

namespace Gathering

open Element

/-- A pass of the walk, unless no level is open. -/
def pass? : Gathering → Option Gathering
  | ⟨[], _⟩ => none
  | ⟨[] :: levels, out⟩ => some ⟨levels, out⟩
  | ⟨(.text t :: rest) :: levels, out⟩ => some ⟨rest :: levels, out ++ t⟩
  | ⟨(.element e :: rest) :: levels, out⟩ => some ⟨e.children :: rest :: levels, out⟩

def passes : Nat → Gathering → Option Gathering
  | 0, s => some s
  | n + 1, s => s.pass?.bind (passes n)

variable {m n : Nat} {s s' s'' : Gathering}

theorem passes_step (h : s.pass? = some s') (h' : passes n s' = some s'') :
    passes (n + 1) s = some s'' := by
  rw [passes, h]
  exact h'

theorem passes_trans (h : passes m s = some s') (h' : passes n s' = some s'') :
    passes (m + n) s = some s'' := by
  induction m generalizing s with
  | zero =>
      cases h
      rwa [Nat.zero_add]
  | succ m ih =>
      obtain ⟨s₁, hfirst, hrest⟩ := Option.bind_eq_some_iff.mp h
      rw [Nat.add_right_comm]
      exact passes_step hfirst (ih hrest)

/-- `gather` makes the passes one after the other. -/
theorem gather_of_pass? (h : s.pass? = some s') :
    gather s.levels s.out = gather s'.levels s'.out := by
  unfold pass? at h
  split at h <;> cases h <;> rw [gather]

theorem gather_of_passes (h : passes n s = some s') :
    gather s.levels s.out = gather s'.levels s'.out := by
  induction n generalizing s with
  | zero =>
      cases h
      rfl
  | succ n ih =>
      obtain ⟨s₁, hfirst, hrest⟩ := Option.bind_eq_some_iff.mp h
      exact (gather_of_pass? hfirst).trans (ih hrest)

/-- The passes for children that other ones follow. -/
theorem passes_nodes (nodes rest : List (Node Element)) (levels : List (List (Node Element)))
    (out : String) :
    passes ((textsAll nodes).length + 2 * (subtreeAll nodes).length)
        ⟨(nodes ++ rest) :: levels, out⟩ =
      some ⟨rest :: levels, out ++ String.join (textsAll nodes)⟩ := by
  induction nodes using nodes_induction generalizing rest levels out with
  | nil => simp [textsAll, subtreeAll, passes]
  | text t more ih =>
      have hrest := ih rest levels (out ++ t)
      have hpasses : (textsAll (.text t :: more)).length +
            2 * (subtreeAll (.text t :: more)).length =
          (textsAll more).length + 2 * (subtreeAll more).length + 1 := by
        rw [textsAll, subtreeAll, List.length_cons]
        omega
      rw [hpasses, textsAll, String.join_cons, ← String.append_assoc]
      exact passes_step rfl hrest
  | element e more inner ih =>
      have hinside := inner [] ((more ++ rest) :: levels) out
      have hrest := ih rest levels (out ++ String.join (textsAll e.children))
      rw [List.append_nil] at hinside
      have hpasses : (textsAll (.element e :: more)).length +
            2 * (subtreeAll (.element e :: more)).length =
          (textsAll e.children).length + 2 * (subtreeAll e.children).length +
            ((textsAll more).length + 2 * (subtreeAll more).length + 1) + 1 := by
        rw [textsAll, length_subtreeAll_cons, List.length_append, texts_eq]
        omega
      rw [hpasses, textsAll, texts_eq, String.join_append, ← String.append_assoc]
      -- The first pass enters the element, and the one behind its children leaves it.
      exact passes_step rfl (passes_trans hinside (passes_step rfl hrest))

/-- The walk through a tree ends with its texts written. -/
theorem passes_element (e : Element) :
    passes (e.texts.length + 2 * (subtreeAll e.children).length + 1) ⟨[e.children], ""⟩ =
      some ⟨[], String.join e.texts⟩ := by
  have hnodes := passes_nodes e.children [] [] ""
  rw [List.append_nil, String.empty_append, ← texts_eq] at hnodes
  exact passes_trans hnodes (passes_step rfl rfl)

end Gathering

namespace Element

theorem textContent_eq_join_texts (e : Element) : e.textContent = String.join e.texts := by
  have hwalk := Gathering.gather_of_passes (Gathering.passes_element e)
  rwa [gather] at hwalk

/-! ## The leading text -/

/-- The children that stand in front of the first child element are runs of character data. -/
theorem exists_leading (nodes : List (Node Element)) :
    ∃ (before : List String) (behind : List (Node Element)),
      nodes = before.map Node.text ++ behind ∧ ∀ t, behind.head? ≠ some (.text t) := by
  induction nodes with
  | nil => exact ⟨[], [], rfl, by simp⟩
  | cons node nodes ih =>
      cases node with
      | text t =>
          obtain ⟨before, behind, rfl, hbehind⟩ := ih
          exact ⟨t :: before, behind, rfl, hbehind⟩
      | element e => exact ⟨[], .element e :: nodes, rfl, by simp⟩

theorem leadingText_eq {e : Element} {before : List String} {behind : List (Node Element)}
    (h : e.children = before.map Node.text ++ behind)
    (hbehind : ∀ t, behind.head? ≠ some (.text t)) : e.leadingText = String.join before := by
  have htext : ∀ node ∈ before.map Node.text, node.text?.isSome = true := by
    simp [Node.text?]
  have hstop : behind.takeWhile (·.text?.isSome) = [] := by
    match behind, hbehind with
    | [], _ => rfl
    | .element _ :: _, _ => rfl
    | .text t :: _, hbehind => exact absurd rfl (hbehind t)
  have hread : (before.map Node.text).filterMap Node.text? = before := by
    rw [List.filterMap_map]
    exact List.filterMap_some
  rw [leadingText, h, List.takeWhile_append_of_pos htext, hstop, List.append_nil, hread]

/-- The walk over open levels ends, after one pass for each text, two for each element inside and
one that leaves the outermost level, and has then written the texts of the tree: those that stand at
the places in it, each once and in document order. The leading text is made of the texts in front of
the first child element. It begins the text of the tree, and is all of it where there is no child
element. -/
theorem textContent_gathers_texts (e : Element) :
    Gathering.passes (e.texts.length + 2 * (subtreeAll e.children).length + 1)
        ⟨[e.children], ""⟩ = some ⟨[], e.textContent⟩ ∧
      e.textContent = String.join e.texts ∧ Enumerates e.texts e.HoldsText ∧
      (∀ (before : List String) (behind : List (Node Element)),
        e.children = before.map Node.text ++ behind → (∀ t, behind.head? ≠ some (.text t)) →
          e.leadingText = String.join before) ∧
      (∃ rest, e.leadingText ++ rest = e.textContent) ∧
      (e.elements = [] → e.leadingText = e.textContent) := by
  obtain ⟨before, behind, hchildren, hbehind⟩ := exists_leading e.children
  have hleading := leadingText_eq hchildren hbehind
  have hcontent : e.textContent = e.leadingText ++ String.join (textsAll behind) := by
    rw [textContent_eq_join_texts, texts_eq, hchildren, textsAll_append, textsAll_map_text,
      String.join_append, hleading]
  refine ⟨?_, textContent_eq_join_texts e, enumerates_texts e, fun _ _ => leadingText_eq,
    ⟨_, hcontent.symm⟩, fun hnone => ?_⟩
  · rw [textContent_eq_join_texts]
    exact Gathering.passes_element e
  · have hbehind : behind = [] := by
      match behind, hbehind with
      | [], _ => rfl
      | .text t :: _, hbehind => exact absurd rfl (hbehind t)
      | .element child :: rest, _ =>
          rw [elements, hchildren] at hnone
          simp [Node.element?] at hnone
    rw [hcontent, hbehind, textsAll]
    exact (String.append_empty).symm

def boldWord : Element :=
  ⟨"b", [], [.text "two"], ⟨0, 0⟩⟩

/-- A sentence with a word in bold letters, the beginning of which a comment divides. -/
def sentence : Element :=
  ⟨"p", [], [.text "on", .text "e ", .element boldWord, .text " three"], ⟨0, 0⟩⟩

/-- The sentence begins with two texts, and the word in it has no element inside. -/
theorem sentence_gathers_texts :
    sentence.children = ["on", "e "].map Node.text ++ [.element boldWord, .text " three"] ∧
      (∀ t, [.element boldWord, .text " three"].head? ≠ some (Node.text t)) ∧
      sentence.leadingText = String.join ["on", "e "] ∧
      sentence.textContent = "one two three" ∧
      boldWord.elements = [] ∧ boldWord.leadingText = boldWord.textContent := by
  have hbehind : ∀ t, [.element boldWord, .text " three"].head? ≠ some (Node.text t) := by
    simp
  obtain ⟨-, hcontent, -, hleading, -, -⟩ := textContent_gathers_texts sentence
  obtain ⟨-, -, -, -, -, hall⟩ := textContent_gathers_texts boldWord
  exact ⟨rfl, hbehind, hleading _ _ rfl hbehind, hcontent.trans (by decide +kernel), rfl, hall rfl⟩

end Element

end Markup

end GiftQuiz
