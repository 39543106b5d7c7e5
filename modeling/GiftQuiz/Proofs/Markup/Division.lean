import GiftQuiz.Proofs.Markup.SourceText
import GiftQuiz.Proofs.Markup.Spread

/-!
# Reading character data in other pieces

Tokens that have no other meaning than some characters `Holds` these characters: runs of character
data, CDATA sections, and comments and the like between them. In a document such tokens can be
replaced by others that hold the same characters. The document is read as before, and its root is
the same up to `Element.spread` (`Document.parse_of_holds`).

Two readings are compared token by token. They are `Similar` when the same elements are open, with
children that are the same when they are spread. The positions, and with them all spans, may differ.
A token that both of them read keeps them similar (`similar_step`), and so do two stretches that
hold the same characters (`Holds.similar`).
-/

namespace GiftQuiz

namespace Markup

open Element (spread spreadAll singly)

/-! ## Trees in the making, spread -/

namespace Unfinished

/-- An open element apart from its place, with a child for each character of character data. -/
def spread (o : Unfinished) : Unfinished :=
  ⟨o.name, o.attributes, (spreadAll o.children.reverse).reverse, 0⟩

theorem spread_push (o : Unfinished) (n : Node Element) :
    (o.push n).spread = o.spread.pushAll (spreadAll [n]) := by
  simp only [spread, push, pushAll, List.reverse_cons, Element.spreadAll_append,
    List.reverse_append]

theorem spread_close {o o' : Unfinished} (h : o.spread = o'.spread) (stop stop' : Nat) :
    (o.close stop).spread = (o'.close stop').spread := by
  simp only [spread, mk.injEq, List.reverse_inj] at h
  obtain ⟨hname, hattributes, hchildren, -⟩ := h
  simp only [close, Element.spread, hname, hattributes, hchildren]

end Unfinished

namespace Builder

/-- A tree in the making with a child for each character of character data. -/
def spread (b : Builder) : Builder :=
  ⟨b.opened.map Unfinished.spread, b.root.map Element.spread⟩

theorem spread_eq_cons {o : Unfinished} {os : List Unfinished} {root : Option Element}
    {b : Builder} (h : spread ⟨o :: os, root⟩ = b.spread) :
    ∃ o' os' root', b = ⟨o' :: os', root'⟩ ∧ o.spread = o'.spread ∧
      spread ⟨os, root⟩ = spread ⟨os', root'⟩ := by
  obtain ⟨opened, root'⟩ := b
  simp only [spread, mk.injEq, List.map_cons] at h
  obtain ⟨o', os', rfl, ho, hos⟩ := List.map_eq_cons_iff.mp h.1.symm
  exact ⟨o', os', root', rfl, ho.symm, by simp only [spread, hos, h.2]⟩

theorem spread_eq_top {root : Option Element} {b : Builder} (h : spread ⟨[], root⟩ = b.spread) :
    ∃ root', b = ⟨[], root'⟩ ∧ root.map Element.spread = root'.map Element.spread := by
  obtain ⟨opened, root'⟩ := b
  simp only [spread, mk.injEq, List.map_nil] at h
  obtain rfl := List.map_eq_nil_iff.mp h.1.symm
  exact ⟨root', rfl, h.2⟩

theorem spread_cons {o o' : Unfinished} {os os' : List Unfinished} {root root' : Option Element}
    (ho : o.spread = o'.spread) (h : spread ⟨os, root⟩ = spread ⟨os', root'⟩) :
    spread ⟨o :: os, root⟩ = spread ⟨o' :: os', root'⟩ := by
  simp only [spread, mk.injEq] at h
  simp only [spread, List.map_cons, ho, h.1, h.2]

/-! ## Adding an event to similar trees -/

variable {b b' b₁ : Builder}

theorem similar_addElement {e e' : Element} {p p' : Nat} (h : b.spread = b'.spread)
    (he : e.spread = e'.spread) (hadd : b.addElement e p = .ok b₁) :
    ∃ b₁', b'.addElement e' p' = .ok b₁' ∧ b₁.spread = b₁'.spread := by
  obtain ⟨opened, root⟩ := b
  rcases addElement_eq_ok hadd with ⟨o, os, rfl, rfl⟩ | ⟨rfl, rfl, rfl⟩
  · obtain ⟨o', os', root', rfl, ho, hos⟩ := spread_eq_cons h
    refine ⟨_, rfl, spread_cons ?_ hos⟩
    rw [Unfinished.spread_push, Unfinished.spread_push, ho, Element.spreadAll_element,
      Element.spreadAll_element, he]
  · obtain ⟨root', rfl, hroot⟩ := spread_eq_top h
    obtain rfl := Option.map_eq_none_iff.mp hroot.symm
    exact ⟨_, rfl, by simp only [spread, Option.map_some, he]⟩

theorem similar_addText {t : String} {p p' : Nat} (h : b.spread = b'.spread)
    (hadd : b.addText t p = .ok b₁) :
    ∃ b₁', b'.addText t p' = .ok b₁' ∧ b₁.spread = b₁'.spread := by
  obtain ⟨opened, root⟩ := b
  rcases addText_eq_ok hadd with ⟨o, os, rfl, rfl⟩ | ⟨rfl, hblank, rfl⟩
  · obtain ⟨o', os', root', rfl, ho, hos⟩ := spread_eq_cons h
    refine ⟨_, rfl, spread_cons ?_ hos⟩
    rw [Unfinished.spread_push, Unfinished.spread_push, ho]
  · obtain ⟨root', rfl, -⟩ := spread_eq_top h
    exact ⟨_, if_pos hblank, h⟩

/-- The same event at other positions keeps two trees similar. -/
theorem similar_add {l l' : Located} (h : b.spread = b'.spread) (hevent : l.event = l'.event)
    (hadd : b.add l = .ok b₁) : ∃ b₁', b'.add l' = .ok b₁' ∧ b₁.spread = b₁'.spread := by
  obtain ⟨span, event⟩ := l
  obtain ⟨span', event'⟩ := l'
  obtain rfl : event = event' := hevent
  cases event with
  | opened name attributes =>
      cases hadd
      exact ⟨_, rfl, spread_cons rfl h⟩
  | empty name attributes =>
      exact similar_addElement h (by simp only [Element.spread]) hadd
  | closed =>
      obtain ⟨_ | ⟨o, os⟩, root⟩ := b
      · cases hadd
      · obtain ⟨o', os', root', rfl, ho, hos⟩ := spread_eq_cons h
        exact similar_addElement hos (Unfinished.spread_close ho _ _) hadd
  | text t => exact similar_addText h hadd
  | skipped =>
      cases hadd
      exact ⟨b', rfl, h⟩

end Builder

/-! ## Similar readings -/

/-- What a token means depends on the names of the open elements, but not on where it stands. -/
theorem Reader.decode_anywhere {r r' : Reader} {span : Span} {k : Token}
    {found : Event × List String} (h : r.opened = r'.opened) (hdecode : r.decode span k = .ok found)
    (span' : Span) : r'.decode span' k = .ok found := by
  cases k with
  | text content =>
      simp only [decode, h] at hdecode ⊢
      cases ht : unescape content <;> simp only [ht] at hdecode ⊢
      · cases hdecode
      · exact hdecode
  | startTag content =>
      simp only [decode, h] at hdecode ⊢
      cases htag : Attribute.readTag content <;> simp only [htag] at hdecode ⊢
      · cases hdecode
      · exact hdecode
  | emptyTag content =>
      simp only [decode, h] at hdecode ⊢
      cases htag : Attribute.readTag content <;> simp only [htag] at hdecode ⊢
      · cases hdecode
      · exact hdecode
  | endTag content =>
      simp only [decode, h] at hdecode ⊢
      cases hnames : r'.opened with
      | nil =>
          rw [hnames] at hdecode
          cases hdecode
      | cons expected names =>
          rw [hnames] at hdecode
          by_cases hname : endName content = expected
          · simp only [if_pos hname] at hdecode ⊢
            exact hdecode
          · simp only [if_neg hname] at hdecode
            cases hdecode
  | _ =>
      simp only [decode, h] at hdecode ⊢
      exact hdecode

theorem Reader.step_anywhere {r r' r₁ : Reader} {k : Token} {l : Located}
    (h : r.opened = r'.opened) (hstep : r.step k = .ok (l, r₁)) :
    ∃ l' r₁', r'.step k = .ok (l', r₁') ∧ l.event = l'.event ∧ r₁.opened = r₁'.opened := by
  have hdecode := decode_anywhere h (step_eq_ok hstep).2.2 ⟨r'.position, r'.position + k.size⟩
  refine ⟨⟨⟨r'.position, r'.position + k.size⟩, l.event⟩, ⟨r'.position + k.size, r₁.opened⟩, ?_,
    rfl, rfl⟩
  simp only [step, hdecode]

namespace Document

/-- The same elements are open, and the trees are the same when they are spread. -/
structure Similar (state state' : Reader × Builder) : Prop where
  names : state.1.opened = state'.1.opened
  tree : state.2.spread = state'.2.spread

theorem similar_step {state state' state₁ : Reader × Builder} {k : Token}
    (h : Similar state state') (hstep : step state k = .ok state₁) :
    ∃ state₁', step state' k = .ok state₁' ∧ Similar state₁ state₁' := by
  obtain ⟨r, b⟩ := state
  obtain ⟨r', b'⟩ := state'
  obtain ⟨r₁, b₁⟩ := state₁
  obtain ⟨l, hr, hb⟩ := step_eq_ok_iff.mp hstep
  obtain ⟨l', r₁', hr', hevent, hnames⟩ := Reader.step_anywhere h.names hr
  obtain ⟨b₁', hb', htree⟩ := Builder.similar_add h.tree hevent hb
  exact ⟨(r₁', b₁'), step_eq_ok_iff.mpr ⟨l', hr', hb'⟩, hnames, htree⟩

theorem similar_foldlM {ks : List Token} {state state' state₁ : Reader × Builder}
    (h : Similar state state') (hks : ks.foldlM step state = .ok state₁) :
    ∃ state₁', ks.foldlM step state' = .ok state₁' ∧ Similar state₁ state₁' := by
  induction ks generalizing state state' with
  | nil =>
      cases hks
      exact ⟨state', rfl, h⟩
  | cons k ks ih =>
      rw [List.foldlM_cons] at hks
      obtain ⟨state₂, hstep, hrest⟩ := bind_eq_ok_iff.mp hks
      obtain ⟨state₂', hstep', hsimilar⟩ := similar_step h hstep
      obtain ⟨state₁', hrest', hend⟩ := ih hsimilar hrest
      exact ⟨state₁', by rw [List.foldlM_cons, hstep']; exact hrest', hend⟩

end Document

/-! ## Stretches of character data -/

/-- The characters that a token means, if it means characters and nothing else. -/
def Token.characters? : Token → Option (List Char)
  | .text content => (unescape content).toOption
  | .cdata content => some content
  | .comment _ => some []
  | .doctype _ => some []
  | .instruction _ => some []
  | _ => none

/-- Tokens that mean some characters, one after the other, and nothing else. -/
inductive Holds : List Token → List Char → Prop
  | nil : Holds [] []
  | cons {k : Token} {ks : List Token} {t v : List Char} (characters : k.characters? = some t)
      (rest : Holds ks v) : Holds (k :: ks) (t ++ v)

theorem Holds.append {ks ks' : List Token} {v v' : List Char} (h : Holds ks v)
    (h' : Holds ks' v') : Holds (ks ++ ks') (v ++ v') := by
  induction h with
  | nil => exact h'
  | cons characters rest ih =>
      rw [List.append_assoc]
      exact .cons characters ih

theorem Holds.single {k : Token} {t : List Char} (h : k.characters? = some t) : Holds [k] t := by
  have hone := Holds.cons h .nil
  rwa [List.append_nil] at hone

namespace Builder

/-- With some characters in the innermost open element; at the top they leave no trace. -/
def take (b : Builder) (v : List Char) : Builder :=
  match b.opened with
  | [] => b
  | o :: os => { b with opened := o.push (.text (String.ofList v)) :: os }

theorem addText_eq_take {b : Builder} {v : List Char} {p : Nat}
    (h : b.opened = [] → v.all Text.isBlank) :
    b.addText (String.ofList v) p = .ok (b.take v) := by
  obtain ⟨_ | ⟨o, os⟩, root⟩ := b
  · rw [addText, String.toList_ofList, if_pos (h rfl)]
    rfl
  · rfl

theorem opened_take_eq_nil {b : Builder} {v : List Char} :
    (b.take v).opened = [] ↔ b.opened = [] := by
  obtain ⟨_ | ⟨o, os⟩, root⟩ := b
  · exact Iff.rfl
  · exact iff_of_false (List.cons_ne_nil _ _) (List.cons_ne_nil _ _)

theorem spread_take_nil (b : Builder) : (b.take []).spread = b.spread := by
  obtain ⟨_ | ⟨o, os⟩, root⟩ := b
  · rfl
  · refine spread_cons ?_ rfl
    rw [Unfinished.spread_push, Element.spreadAll_text]
    rfl

theorem spread_take_append (b : Builder) (t v : List Char) :
    ((b.take t).take v).spread = (b.take (t ++ v)).spread := by
  obtain ⟨_ | ⟨o, os⟩, root⟩ := b
  · rfl
  · refine spread_cons ?_ rfl
    simp only [Unfinished.spread_push, Element.spreadAll_text, String.toList_ofList,
      Unfinished.pushAll_pushAll, Element.singly_append]

theorem spread_take {b b' : Builder} (h : b.spread = b'.spread) (v : List Char) :
    (b.take v).spread = (b'.take v).spread := by
  obtain ⟨_ | ⟨o, os⟩, root⟩ := b
  · obtain ⟨root', rfl, -⟩ := spread_eq_top h
    exact h
  · obtain ⟨o', os', root', rfl, ho, hos⟩ := spread_eq_cons h
    refine spread_cons ?_ hos
    rw [Unfinished.spread_push, Unfinished.spread_push, ho]

theorem opened_eq_nil {b b' : Builder} (h : b.spread = b'.spread) :
    b.opened = [] ↔ b'.opened = [] := by
  have hopened : b.opened.map Unfinished.spread = b'.opened.map Unfinished.spread :=
    congrArg opened h
  rw [← List.map_eq_nil_iff (f := Unfinished.spread), hopened, List.map_eq_nil_iff]

end Builder

open Document (step Similar)

section

variable {k : Token} {t : List Char} {r : Reader} {b : Builder}

theorem Document.step_characters (h : k.characters? = some t) (r : Reader)
    (hblank : b.opened = [] → t.all Text.isBlank) :
    ∃ r₁ b₁, step (r, b) k = .ok (r₁, b₁) ∧ r₁.opened = r.opened ∧
      b₁.spread = (b.take t).spread := by
  cases k with
  | text content =>
      have ht : unescape content = .ok t := by
        cases hcontent : unescape content <;> simp_all [Token.characters?, Except.toOption]
      refine ⟨⟨r.position + (Token.text content).size, r.opened⟩, b.take t, ?_, rfl, rfl⟩
      simp only [step, Reader.step, Reader.decode, ht, Builder.add,
        Builder.addText_eq_take hblank]
  | cdata content =>
      cases h
      refine ⟨⟨r.position + (Token.cdata t).size, r.opened⟩, b.take t, ?_, rfl, rfl⟩
      simp only [step, Reader.step, Reader.decode, Builder.add, Builder.addText_eq_take hblank]
  | startTag content => cases h
  | emptyTag content => cases h
  | endTag content => cases h
  | _ =>
      cases h
      exact ⟨_, b, rfl, rfl, (Builder.spread_take_nil b).symm⟩

theorem Document.all_isBlank_of_step {state : Reader × Builder} (h : k.characters? = some t)
    (hopened : b.opened = []) (hstep : step (r, b) k = .ok state) :
    t.all Text.isBlank ∧ state.2.opened = [] := by
  obtain ⟨opened, root⟩ := b
  obtain rfl : opened = [] := hopened
  cases k with
  | text content =>
      obtain ⟨u, b₁, hu, hadd, rfl⟩ := step_text_eq_ok hstep
      simp only [Token.characters?, hu] at h
      cases h
      rcases Builder.addText_eq_ok hadd with ⟨o, os, ⟨⟩, -⟩ | ⟨-, hblank, rfl⟩
      rw [String.toList_ofList] at hblank
      exact ⟨hblank, rfl⟩
  | cdata content =>
      cases h
      obtain ⟨b₁, hadd, rfl⟩ := step_cdata_eq_ok hstep
      rcases Builder.addText_eq_ok hadd with ⟨o, os, ⟨⟩, -⟩ | ⟨-, hblank, rfl⟩
      rw [String.toList_ofList] at hblank
      exact ⟨hblank, rfl⟩
  | startTag content => cases h
  | emptyTag content => cases h
  | endTag content => cases h
  | _ =>
      cases h
      cases hstep
      exact ⟨rfl, rfl⟩

end

namespace Holds

variable {ks ks' : List Token} {v : List Char}

/-- Tokens that mean characters are read wherever they may stand, and put them there. -/
theorem foldlM_step (h : Holds ks v) (r : Reader) {b : Builder}
    (hblank : b.opened = [] → v.all Text.isBlank) :
    ∃ r₁ b₁, ks.foldlM step (r, b) = .ok (r₁, b₁) ∧ r₁.opened = r.opened ∧
      b₁.spread = (b.take v).spread := by
  induction h generalizing r b with
  | nil => exact ⟨r, b, rfl, rfl, (Builder.spread_take_nil b).symm⟩
  | @cons k ks t v characters rest ih =>
      simp only [List.all_append, Bool.and_eq_true] at hblank
      obtain ⟨r₂, b₂, hstep, hnames, htree⟩ :=
        Document.step_characters characters r fun hopened => (hblank hopened).1
      -- A token that means characters neither opens nor closes an element, so the rest may follow.
      have hopened : b₂.opened = [] ↔ b.opened = [] :=
        (Builder.opened_eq_nil htree).trans Builder.opened_take_eq_nil
      obtain ⟨r₁, b₁, hrun, hnames', htree'⟩ := ih r₂ fun h => (hblank (hopened.mp h)).2
      refine ⟨r₁, b₁, by rw [List.foldlM_cons, hstep]; exact hrun, hnames'.trans hnames, ?_⟩
      rw [htree', Builder.spread_take htree, Builder.spread_take_append]

/-- At the top only blanks are read. -/
theorem all_isBlank (h : Holds ks v) {r : Reader} {b : Builder} {state : Reader × Builder}
    (hopened : b.opened = []) (hrun : ks.foldlM step (r, b) = .ok state) :
    v.all Text.isBlank := by
  induction h generalizing r b with
  | nil => rfl
  | cons characters rest ih =>
      rw [List.foldlM_cons] at hrun
      obtain ⟨⟨r₂, b₂⟩, hstep, hrest⟩ := bind_eq_ok_iff.mp hrun
      obtain ⟨hblank, hopened'⟩ := Document.all_isBlank_of_step characters hopened hstep
      rw [List.all_append, hblank, Bool.true_and]
      exact ih hopened' hrest

/-- Two stretches that mean the same characters keep two readings similar. -/
theorem similar (h : Holds ks v) (h' : Holds ks' v) {state state' state₁ : Reader × Builder}
    (hsimilar : Similar state state') (hrun : ks.foldlM step state = .ok state₁) :
    ∃ state₁', ks'.foldlM step state' = .ok state₁' ∧ Similar state₁ state₁' := by
  obtain ⟨r, b⟩ := state
  obtain ⟨r', b'⟩ := state'
  have hblank : b.opened = [] → v.all Text.isBlank := fun hopened => h.all_isBlank hopened hrun
  have hblank' : b'.opened = [] → v.all Text.isBlank :=
    fun hopened => hblank ((Builder.opened_eq_nil hsimilar.tree).mpr hopened)
  obtain ⟨r₁, b₁, hrun₁, hnames, htree⟩ := h.foldlM_step r hblank
  obtain ⟨r₁', b₁', hrun', hnames', htree'⟩ := h'.foldlM_step r' hblank'
  obtain rfl := Except.ok.inj (hrun.symm.trans hrun₁)
  refine ⟨_, hrun', hnames.trans (hsimilar.names.trans hnames'.symm), ?_⟩
  rw [htree, htree', Builder.spread_take hsimilar.tree]

end Holds

/-! ## Documents -/

namespace Document

/-- A document in which a stretch of character data is replaced by other tokens that mean the same
characters is read, and its root is the same when it is spread. -/
theorem parse_of_holds {before ks ks' after : List Token} {v : List Char} (h : Holds ks v)
    (h' : Holds ks' v) {xml xml' : String} {document : Document}
    (hparse : parse xml = .ok document)
    (hscan : (Token.scan (dropMark xml.toList)).tokens = before ++ ks ++ after)
    (hscan' : Token.scan (dropMark xml'.toList) = ⟨before ++ ks' ++ after, none⟩) :
    ∃ document', parse xml' = .ok document' ∧ document'.root.spread = document.root.spread := by
  obtain ⟨-, -, r, hrun⟩ := foldlM_step_of_parse hparse
  rw [hscan, List.foldlM_append, List.foldlM_append] at hrun
  obtain ⟨state₂, hinside, hafter⟩ := bind_eq_ok_iff.mp hrun
  obtain ⟨state₁, hbefore, hstretch⟩ := bind_eq_ok_iff.mp hinside
  obtain ⟨state₂', hstretch', hsimilar⟩ := h.similar h' ⟨rfl, rfl⟩ hstretch
  obtain ⟨⟨r', b'⟩, hafter', hend⟩ := similar_foldlM hsimilar hafter
  obtain ⟨root', rfl, hroot⟩ := Builder.spread_eq_top hend.tree
  obtain ⟨e, rfl, he⟩ := Option.map_eq_some_iff.mp hroot.symm
  have hrun' : (before ++ ks' ++ after).foldlM step ({}, {}) = .ok (r', ⟨[], some e⟩) := by
    rw [List.foldlM_append, List.foldlM_append, hbefore]
    exact bind_eq_ok_iff.mpr ⟨state₂', hstretch', hafter'⟩
  exact ⟨⟨xml'.toList, e⟩, by simp only [parse, parseRoot, hscan', hrun', Builder.finish], he⟩

end Document

end Markup

end GiftQuiz
