import GiftQuiz.Proofs.Markup.Assembly

/-!
# Elements and their tokens

`Content p ks ns` says, without a reader or a builder, that the tokens `ks`, the first of which
stands at byte `p`, hold the children `ns`; `Spells p ks e` says that they are the element `e`, from
its start tag to its end tag. These are the rules of the format: comments and the like are nothing,
character data is itself, a tag of its own is an element without children, and a start tag, some
content and an end tag of the same name are an element with these children.

`Content.foldlM_step` and `Spells.foldlM_step` say that reading and building follows these rules
inside of any open elements, `closes_of_foldlM` and `spelledIn_of_foldlM` that it follows no others:
what closes an open element is content and an end tag, and the root of a document is spelled
somewhere among its tokens.
-/

namespace GiftQuiz

namespace Markup

namespace Token

def extent (ks : List Token) : Nat :=
  Utf8.size (ks.flatMap spelling)

@[simp] theorem extent_nil : extent [] = 0 := rfl

@[simp] theorem extent_cons (k : Token) (ks : List Token) :
    extent (k :: ks) = k.size + extent ks := by
  simp only [extent, size, List.flatMap_cons, Utf8.size_append]

@[simp] theorem extent_append (ks ks' : List Token) :
    extent (ks ++ ks') = extent ks + extent ks' := by
  simp only [extent, List.flatMap_append, Utf8.size_append]

def isSkipped : Token → Bool
  | .comment _ => true
  | .doctype _ => true
  | .instruction _ => true
  | _ => false

/-- The tokens of an element from its start tag to its end tag. -/
def enclose (content : List Char) (inner : List Token) (last : List Char) : List Token :=
  .startTag content :: (inner ++ [.endTag last])

end Token

open Token (extent enclose)

/-! ## The rules of the format -/

/-- Tokens that hold some children, where the first token stands at a given byte. -/
inductive Content : Nat → List Token → List (Node Element) → Prop
  | nil (p : Nat) : Content p [] []
  | skip {p : Nat} {k : Token} {ks : List Token} {ns : List (Node Element)}
      (skipped : k.isSkipped) (rest : Content (p + k.size) ks ns) : Content p (k :: ks) ns
  | text {p : Nat} {content t : List Char} {ks : List Token} {ns : List (Node Element)}
      (unescaped : unescape content = .ok t)
      (rest : Content (p + (Token.text content).size) ks ns) :
      Content p (.text content :: ks) (.text (String.ofList t) :: ns)
  | cdata {p : Nat} {content : List Char} {ks : List Token} {ns : List (Node Element)}
      (rest : Content (p + (Token.cdata content).size) ks ns) :
      Content p (.cdata content :: ks) (.text (String.ofList content) :: ns)
  | empty {p : Nat} {content : List Char} {name : String} {attributes : List Attribute}
      {ks : List Token} {ns : List (Node Element)}
      (tag : Attribute.readTag content = .ok (name, attributes))
      (rest : Content (p + (Token.emptyTag content).size) ks ns) :
      Content p (.emptyTag content :: ks)
        (.element ⟨name, attributes, [], ⟨p, p + (Token.emptyTag content).size⟩⟩ :: ns)
  | element {p : Nat} {content last : List Char} {name : String} {attributes : List Attribute}
      {inner ks : List Token} {children ns : List (Node Element)}
      (tag : Attribute.readTag content = .ok (name, attributes))
      (inside : Content (p + (Token.startTag content).size) inner children)
      (close : Reader.endName last = name)
      (rest : Content (p + extent (enclose content inner last)) ks ns) :
      Content p (enclose content inner last ++ ks)
        (.element
          ⟨name, attributes, children, ⟨p, p + extent (enclose content inner last)⟩⟩ :: ns)

/-- The tokens of an element, where the first one stands at a given byte. -/
inductive Spells : Nat → List Token → Element → Prop
  | empty {p : Nat} {content : List Char} {name : String} {attributes : List Attribute}
      (tag : Attribute.readTag content = .ok (name, attributes)) :
      Spells p [.emptyTag content]
        ⟨name, attributes, [], ⟨p, p + (Token.emptyTag content).size⟩⟩
  | full {p : Nat} {content last : List Char} {name : String} {attributes : List Attribute}
      {inner : List Token} {children : List (Node Element)}
      (tag : Attribute.readTag content = .ok (name, attributes))
      (inside : Content (p + (Token.startTag content).size) inner children)
      (close : Reader.endName last = name) :
      Spells p (enclose content inner last)
        ⟨name, attributes, children, ⟨p, p + extent (enclose content inner last)⟩⟩

/-- An element is spelled by a stretch of tokens, the first of which stands at a given byte. -/
def SpelledIn (p : Nat) (ks : List Token) (e : Element) : Prop :=
  ∃ before own after, ks = before ++ own ++ after ∧ Spells (p + extent before) own e

namespace SpelledIn

variable {p : Nat} {ks : List Token} {e : Element}

theorem of_spells (h : Spells p ks e) : SpelledIn p ks e :=
  ⟨[], ks, [], (List.append_nil ks).symm, h⟩

theorem prepend {before : List Token} (h : SpelledIn (p + extent before) ks e) :
    SpelledIn p (before ++ ks) e := by
  obtain ⟨before', own, after, rfl, hown⟩ := h
  rw [Nat.add_assoc, ← Token.extent_append] at hown
  exact ⟨before ++ before', own, after, by simp only [List.append_assoc], hown⟩

theorem cons {k : Token} (h : SpelledIn (p + k.size) ks e) : SpelledIn p (k :: ks) e := by
  have hall : SpelledIn (p + extent [k]) ks e := by simpa using h
  exact hall.prepend

theorem append (h : SpelledIn p ks e) (after : List Token) : SpelledIn p (ks ++ after) e := by
  obtain ⟨before, own, after', rfl, hown⟩ := h
  exact ⟨before, own, after' ++ after, by simp only [List.append_assoc], hown⟩

end SpelledIn

theorem Content.append {p : Nat} {ks ks' : List Token} {ns ns' : List (Node Element)}
    (h : Content p ks ns) (h' : Content (p + extent ks) ks' ns') :
    Content p (ks ++ ks') (ns ++ ns') := by
  induction h with
  | nil p => exact h'
  | skip skipped rest ih =>
      rw [Token.extent_cons, ← Nat.add_assoc] at h'
      exact .skip skipped (ih h')
  | text unescaped rest ih =>
      rw [Token.extent_cons, ← Nat.add_assoc] at h'
      exact .text unescaped (ih h')
  | cdata rest ih =>
      rw [Token.extent_cons, ← Nat.add_assoc] at h'
      exact .cdata (ih h')
  | empty tag rest ih =>
      rw [Token.extent_cons, ← Nat.add_assoc] at h'
      exact .empty tag (ih h')
  | element tag inside close rest _ ih =>
      rw [Token.extent_append, ← Nat.add_assoc] at h'
      rw [List.append_assoc]
      exact .element tag inside close (ih h')

/-! ## Reading and building by the rules -/

namespace Unfinished

def pushAll (o : Unfinished) (ns : List (Node Element)) : Unfinished :=
  { o with children := ns.reverse ++ o.children }

@[simp] theorem pushAll_nil (o : Unfinished) : o.pushAll [] = o := rfl

@[simp] theorem pushAll_push (o : Unfinished) (n : Node Element) (ns : List (Node Element)) :
    (o.push n).pushAll ns = o.pushAll (n :: ns) := by
  simp [push, pushAll]

@[simp] theorem pushAll_pushAll (o : Unfinished) (ns ns' : List (Node Element)) :
    (o.pushAll ns).pushAll ns' = o.pushAll (ns ++ ns') := by
  simp [pushAll]

theorem close_pushAll (name : String) (attributes : List Attribute) (start stop : Nat)
    (ns : List (Node Element)) :
    ((Unfinished.mk name attributes [] start).pushAll ns).close stop =
      ⟨name, attributes, ns, ⟨start, stop⟩⟩ := by
  simp [pushAll, close]

end Unfinished

namespace Document

section

variable {p : Nat} {names : List String} {b : Builder} {o : Unfinished}
  {os : List Unfinished} {root : Option Element}

theorem step_skipped {k : Token} (h : k.isSkipped) :
    step (⟨p, names⟩, b) k = .ok (⟨p + k.size, names⟩, b) := by
  cases k with
  | comment content => rfl
  | doctype content => rfl
  | instruction content => rfl
  | _ => cases h

theorem step_text {content t : List Char} (h : unescape content = .ok t) :
    step (⟨p, names⟩, ⟨o :: os, root⟩) (.text content) =
      .ok (⟨p + (Token.text content).size, names⟩,
        ⟨o.push (.text (String.ofList t)) :: os, root⟩) := by
  simp only [step, Reader.step, Reader.decode, h]
  rfl

theorem step_emptyTag {content : List Char} {name : String} {attributes : List Attribute}
    (h : Attribute.readTag content = .ok (name, attributes)) :
    step (⟨p, names⟩, ⟨o :: os, root⟩) (.emptyTag content) =
      .ok (⟨p + (Token.emptyTag content).size, names⟩,
        ⟨o.push (.element
          ⟨name, attributes, [], ⟨p, p + (Token.emptyTag content).size⟩⟩) :: os, root⟩) := by
  simp only [step, Reader.step, Reader.decode, h]
  rfl

theorem step_startTag {content : List Char} {name : String} {attributes : List Attribute}
    (h : Attribute.readTag content = .ok (name, attributes)) :
    step (⟨p, names⟩, b) (.startTag content) =
      .ok (⟨p + (Token.startTag content).size, name :: names⟩,
        ⟨⟨name, attributes, [], p⟩ :: b.opened, b.root⟩) := by
  simp only [step, Reader.step, Reader.decode, h]
  rfl

theorem step_endTag {last : List Char} {b' : Builder}
    (h : Builder.addElement ⟨os, root⟩ (o.close (p + (Token.endTag last).size)) p = .ok b') :
    step (⟨p, Reader.endName last :: names⟩, ⟨o :: os, root⟩) (.endTag last) =
      .ok (⟨p + (Token.endTag last).size, names⟩, b') := by
  simp only [step, Reader.step, Reader.decode, if_true, Builder.add, h]

/-- An element whose content is read into it is added to what is open around it. -/
theorem foldlM_step_enclose {content last : List Char} {name : String}
    {attributes : List Attribute} {inner : List Token} {children : List (Node Element)}
    {b' : Builder} (tag : Attribute.readTag content = .ok (name, attributes))
    (inside : ∀ o os root,
      inner.foldlM step
          (⟨p + (Token.startTag content).size, name :: names⟩, ⟨o :: os, root⟩) =
        .ok (⟨p + (Token.startTag content).size + extent inner, name :: names⟩,
          ⟨o.pushAll children :: os, root⟩))
    (close : Reader.endName last = name)
    (h : b.addElement
      ⟨name, attributes, children, ⟨p, p + extent (enclose content inner last)⟩⟩
      (p + (Token.startTag content).size + extent inner) = .ok b') :
    (enclose content inner last).foldlM step (⟨p, names⟩, b) =
      .ok (⟨p + extent (enclose content inner last), names⟩, b') := by
  subst close
  have hextent : p + extent (enclose content inner last) =
      p + (Token.startTag content).size + extent inner + (Token.endTag last).size := by
    simp only [enclose, Token.extent_cons, Token.extent_append, Token.extent_nil]
    omega
  rw [hextent] at h ⊢
  rw [← Unfinished.close_pushAll] at h
  rw [enclose, List.foldlM_cons, step_startTag tag]
  show (inner ++ [Token.endTag last]).foldlM step _ = _
  rw [List.foldlM_append, inside]
  show [Token.endTag last].foldlM step _ = _
  rw [List.foldlM_cons, step_endTag h]
  rfl

end

end Document

open Document (step)

/-- Content is read into the innermost open element, whatever else is open. -/
theorem Content.foldlM_step {p : Nat} {ks : List Token} {ns : List (Node Element)}
    (h : Content p ks ns) (names : List String) (o : Unfinished) (os : List Unfinished)
    (root : Option Element) :
    ks.foldlM step (⟨p, names⟩, ⟨o :: os, root⟩) =
      .ok (⟨p + extent ks, names⟩, ⟨o.pushAll ns :: os, root⟩) := by
  induction h generalizing names o os root with
  | nil p => rfl
  | skip skipped rest ih =>
      rw [List.foldlM_cons, Document.step_skipped skipped, Token.extent_cons, ← Nat.add_assoc]
      exact ih names o os root
  | text unescaped rest ih =>
      rw [List.foldlM_cons, Document.step_text unescaped, Token.extent_cons, ← Nat.add_assoc,
        ← Unfinished.pushAll_push]
      exact ih names _ os root
  | cdata rest ih =>
      rw [List.foldlM_cons, Token.extent_cons, ← Nat.add_assoc, ← Unfinished.pushAll_push]
      exact ih names _ os root
  | empty tag rest ih =>
      rw [List.foldlM_cons, Document.step_emptyTag tag, Token.extent_cons, ← Nat.add_assoc,
        ← Unfinished.pushAll_push]
      exact ih names _ os root
  | element tag inside close rest ihi ih =>
      rw [List.foldlM_append, Document.foldlM_step_enclose tag (ihi _) close rfl,
        Token.extent_append, ← Nat.add_assoc, ← Unfinished.pushAll_push]
      exact ih names _ os root

/-- An element is added to what is open around it. -/
theorem Spells.foldlM_step {p : Nat} {ks : List Token} {e : Element} (h : Spells p ks e)
    (names : List String) {b b' : Builder}
    (hadd : ∀ position, b.addElement e position = .ok b') :
    ks.foldlM step (⟨p, names⟩, b) = .ok (⟨p + extent ks, names⟩, b') := by
  cases h with
  | @empty content name attributes tag =>
      rw [Token.extent_cons, Token.extent_nil, Nat.add_zero, List.foldlM_cons]
      simp only [step, Reader.step, Reader.decode, tag, Builder.add, hadd]
      rfl
  | full tag inside close =>
      exact Document.foldlM_step_enclose tag (inside.foldlM_step _) close (hadd _)

/-! ## No other rules -/

namespace Document

section

variable {r : Reader} {b : Builder} {state : Reader × Builder} {content : List Char}

theorem step_text_eq_ok (h : step (r, b) (.text content) = .ok state) :
    ∃ t b', unescape content = .ok t ∧ b.addText (String.ofList t) r.position = .ok b' ∧
      state = (⟨r.position + (Token.text content).size, r.opened⟩, b') := by
  obtain ⟨r', b'⟩ := state
  obtain ⟨l, hr, hb⟩ := step_eq_ok_iff.mp h
  cases ht : unescape content with
  | error e =>
      simp only [Reader.step, Reader.decode, ht] at hr
      cases hr
  | ok t =>
      simp only [Reader.step, Reader.decode, ht] at hr
      cases hr
      exact ⟨t, b', rfl, hb, rfl⟩

theorem step_cdata_eq_ok (h : step (r, b) (.cdata content) = .ok state) :
    ∃ b', b.addText (String.ofList content) r.position = .ok b' ∧
      state = (⟨r.position + (Token.cdata content).size, r.opened⟩, b') := by
  obtain ⟨r', b'⟩ := state
  obtain ⟨l, hr, hb⟩ := step_eq_ok_iff.mp h
  cases hr
  exact ⟨b', hb, rfl⟩

theorem step_emptyTag_eq_ok (h : step (r, b) (.emptyTag content) = .ok state) :
    ∃ name attributes b', Attribute.readTag content = .ok (name, attributes) ∧
      b.addElement
        ⟨name, attributes, [], ⟨r.position, r.position + (Token.emptyTag content).size⟩⟩
        r.position = .ok b' ∧
      state = (⟨r.position + (Token.emptyTag content).size, r.opened⟩, b') := by
  obtain ⟨r', b'⟩ := state
  obtain ⟨l, hr, hb⟩ := step_eq_ok_iff.mp h
  cases htag : Attribute.readTag content with
  | error e =>
      simp only [Reader.step, Reader.decode, htag] at hr
      cases hr
  | ok tag =>
      obtain ⟨name, attributes⟩ := tag
      simp only [Reader.step, Reader.decode, htag] at hr
      cases hr
      exact ⟨name, attributes, b', rfl, hb, rfl⟩

theorem step_startTag_eq_ok (h : step (r, b) (.startTag content) = .ok state) :
    ∃ name attributes, Attribute.readTag content = .ok (name, attributes) ∧
      state = (⟨r.position + (Token.startTag content).size, name :: r.opened⟩,
        ⟨⟨name, attributes, [], r.position⟩ :: b.opened, b.root⟩) := by
  cases htag : Attribute.readTag content with
  | error e =>
      simp only [step, Reader.step, Reader.decode, htag] at h
      cases h
  | ok tag =>
      obtain ⟨name, attributes⟩ := tag
      rw [step_startTag htag] at h
      cases h
      exact ⟨name, attributes, rfl, rfl⟩

theorem step_endTag_eq_ok (h : step (r, b) (.endTag content) = .ok state) :
    ∃ names b', r.opened = Reader.endName content :: names ∧
      b.add ⟨⟨r.position, r.position + (Token.endTag content).size⟩, .closed⟩ = .ok b' ∧
      state = (⟨r.position + (Token.endTag content).size, names⟩, b') := by
  obtain ⟨⟨position, names⟩, b'⟩ := state
  obtain ⟨⟨span, event⟩, hr, hb⟩ := step_eq_ok_iff.mp h
  obtain ⟨rfl, rfl, hdecode⟩ := Reader.step_eq_ok hr
  simp only [Reader.decode] at hdecode
  split at hdecode
  · cases hdecode
  · rename_i expected opened hopened
    by_cases hname : Reader.endName content = expected
    · rw [if_pos hname] at hdecode
      cases hdecode
      exact ⟨names, b', by rw [hopened, hname], hb, rfl⟩
    · rw [if_neg hname] at hdecode
      cases hdecode

end

/-- What a token can do inside of an open element: it is content, or a start tag, or an end tag that
closes the element. -/
theorem step_inside_cases {p : Nat} {names : List String} {o : Unfinished}
    {os : List Unfinished} {root : Option Element} {k : Token} {state : Reader × Builder}
    (h : step (⟨p, o.name :: names⟩, ⟨o :: os, root⟩) k = .ok state) :
    (∃ ns, Content p [k] ns ∧
        state = (⟨p + k.size, o.name :: names⟩, ⟨o.pushAll ns :: os, root⟩)) ∨
      (∃ content name attributes, k = .startTag content ∧
        Attribute.readTag content = .ok (name, attributes) ∧
        state = (⟨p + k.size, name :: o.name :: names⟩,
          ⟨⟨name, attributes, [], p⟩ :: o :: os, root⟩)) ∨
      (∃ last b, k = .endTag last ∧ Reader.endName last = o.name ∧
        Builder.addElement ⟨os, root⟩ (o.close (p + k.size)) p = .ok b ∧
        state = (⟨p + k.size, names⟩, b)) := by
  cases k with
  | text content =>
      obtain ⟨t, b, ht, ⟨⟩, rfl⟩ := step_text_eq_ok h
      exact Or.inl ⟨_, .text ht (.nil _), rfl⟩
  | cdata content =>
      obtain ⟨b, ⟨⟩, rfl⟩ := step_cdata_eq_ok h
      exact Or.inl ⟨_, .cdata (.nil _), rfl⟩
  | emptyTag content =>
      obtain ⟨name, attributes, b, htag, ⟨⟩, rfl⟩ := step_emptyTag_eq_ok h
      exact Or.inl ⟨_, .empty htag (.nil _), rfl⟩
  | startTag content =>
      obtain ⟨name, attributes, htag, rfl⟩ := step_startTag_eq_ok h
      exact Or.inr (Or.inl ⟨content, name, attributes, rfl, htag, rfl⟩)
  | endTag last =>
      obtain ⟨names', b, hnames, hadd, rfl⟩ := step_endTag_eq_ok h
      obtain ⟨hname, rfl⟩ := List.cons.inj hnames
      exact Or.inr (Or.inr ⟨last, b, rfl, hname.symm, hadd, rfl⟩)
  | _ =>
      rw [step_skipped rfl] at h
      cases h
      exact Or.inl ⟨[], .skip rfl (.nil _), rfl⟩

/-- What a token can do at the top, before the root: it is nothing to the tree, or all of the root,
or its start tag. -/
theorem step_top_cases {p : Nat} {k : Token} {state : Reader × Builder}
    (h : step (⟨p, []⟩, ⟨[], none⟩) k = .ok state) :
    state = (⟨p + k.size, []⟩, ⟨[], none⟩) ∨
      (∃ e, Spells p [k] e ∧ state = (⟨p + k.size, []⟩, ⟨[], some e⟩)) ∨
      (∃ content name attributes, k = .startTag content ∧
        Attribute.readTag content = .ok (name, attributes) ∧
        state = (⟨p + k.size, [name]⟩, ⟨[⟨name, attributes, [], p⟩], none⟩)) := by
  cases k with
  | text content =>
      obtain ⟨t, b, -, hadd, rfl⟩ := step_text_eq_ok h
      rcases Builder.addText_eq_ok hadd with ⟨o, rest, ⟨⟩, -⟩ | ⟨-, -, rfl⟩
      exact Or.inl rfl
  | cdata content =>
      obtain ⟨b, hadd, rfl⟩ := step_cdata_eq_ok h
      rcases Builder.addText_eq_ok hadd with ⟨o, rest, ⟨⟩, -⟩ | ⟨-, -, rfl⟩
      exact Or.inl rfl
  | emptyTag content =>
      obtain ⟨name, attributes, b, htag, ⟨⟩, rfl⟩ := step_emptyTag_eq_ok h
      exact Or.inr (Or.inl ⟨_, .empty htag, rfl⟩)
  | startTag content =>
      obtain ⟨name, attributes, htag, rfl⟩ := step_startTag_eq_ok h
      exact Or.inr (Or.inr ⟨content, name, attributes, rfl, htag, rfl⟩)
  | endTag last => cases h
  | _ =>
      rw [step_skipped rfl] at h
      cases h
      exact Or.inl rfl

end Document

/-- How a run over `ks` that ends in `state` closes the open element `o`: there is content up to an
end tag of its name, with which the element is added to what is open around it. -/
def Closes (p : Nat) (ks : List Token) (names : List String) (o : Unfinished)
    (around : Builder) (state : Reader × Builder) : Prop :=
  ∃ inner last rest ns b, ks = inner ++ .endTag last :: rest ∧ Content p inner ns ∧
    Reader.endName last = o.name ∧
    around.addElement ((o.pushAll ns).close (p + extent (inner ++ [.endTag last])))
      (p + extent inner) = .ok b ∧
    rest.foldlM step (⟨p + extent (inner ++ [.endTag last]), names⟩, b) = .ok state

/-- Content in front of what closes an element goes into the element. -/
theorem Closes.prepend {p : Nat} {before ks : List Token} {names : List String} {o : Unfinished}
    {around : Builder} {state : Reader × Builder} {ns : List (Node Element)}
    (hbefore : Content p before ns)
    (h : Closes (p + extent before) ks names (o.pushAll ns) around state) :
    Closes p (before ++ ks) names o around state := by
  obtain ⟨inner, last, rest, ns', b, rfl, hinner, hname, hadd, hrun⟩ := h
  rw [Nat.add_assoc, ← Token.extent_append, ← List.append_assoc] at hadd hrun
  rw [Nat.add_assoc, ← Token.extent_append, Unfinished.pushAll_pushAll] at hadd
  exact ⟨before ++ inner, last, rest, ns ++ ns', b, (List.append_assoc ..).symm,
    hbefore.append hinner, hname, hadd, hrun⟩

/-- A run that ends with no more elements open than stand around an open one has closed it. -/
theorem closes_of_foldlM {p : Nat} {ks : List Token} {names : List String} {o : Unfinished}
    {os : List Unfinished} {root : Option Element} {state : Reader × Builder}
    (h : ks.foldlM step (⟨p, o.name :: names⟩, ⟨o :: os, root⟩) = .ok state)
    (hclosed : state.2.opened.length ≤ os.length) : Closes p ks names o ⟨os, root⟩ state := by
  match ks with
  | [] =>
      cases h
      exact absurd hclosed (Nat.not_succ_le_self _)
  | k :: ks =>
      rw [List.foldlM_cons] at h
      obtain ⟨state₁, hstep, hrest⟩ := bind_eq_ok_iff.mp h
      rcases Document.step_inside_cases hstep with ⟨ns, hk, rfl⟩ |
        ⟨content, name, attributes, rfl, htag, rfl⟩ | ⟨last, b, rfl, hname, hadd, rfl⟩
      · have hks := closes_of_foldlM (o := o.pushAll ns) hrest hclosed
        exact Closes.prepend hk (by simpa using hks)
      · -- The element that the tag opens is closed first, and then the one around it.
        have hopened : Closes (p + (Token.startTag content).size) ks (o.name :: names)
            ⟨name, attributes, [], p⟩ ⟨o :: os, root⟩ state :=
          closes_of_foldlM hrest (Nat.le_succ_of_le hclosed)
        obtain ⟨inner, last, rest, ns, b, rfl, hinner, hname, hadd, hrun⟩ := hopened
        rw [Unfinished.close_pushAll, Nat.add_assoc, ← Token.extent_cons] at hadd
        rw [Nat.add_assoc, ← Token.extent_cons] at hrun
        cases hadd
        have hks := closes_of_foldlM (o := o.pushAll [_]) hrun hclosed
        have helement := Content.element htag hinner hname (.nil _)
        rw [List.append_nil] at helement
        have hall := Closes.prepend helement hks
        rw [enclose, List.cons_append, List.append_assoc] at hall
        exact hall
      · refine ⟨[], last, ks, [], b, rfl, .nil p, hname, ?_, ?_⟩
        · simpa using hadd
        · simpa using hrest
termination_by ks.length

/-! ## The root -/

/-- Once there is a root it stays. -/
theorem Builder.root_add {b b' : Builder} {l : Located} {e : Element} (h : b.root = some e)
    (hadd : b.add l = .ok b') : b'.root = some e := by
  obtain ⟨span, event⟩ := l
  obtain ⟨opened, root⟩ := b
  obtain rfl : root = some e := h
  cases event with
  | opened name attributes =>
      cases hadd
      rfl
  | empty name attributes =>
      rcases addElement_eq_ok hadd with ⟨o, rest, rfl, rfl⟩ | ⟨-, ⟨⟩, -⟩
      rfl
  | closed =>
      cases opened with
      | nil => cases hadd
      | cons o opened =>
          rcases addElement_eq_ok hadd with ⟨p, rest, rfl, rfl⟩ | ⟨-, ⟨⟩, -⟩
          rfl
  | text t =>
      rcases addText_eq_ok hadd with ⟨o, rest, rfl, rfl⟩ | ⟨rfl, -, rfl⟩
      · rfl
      · rfl
  | skipped =>
      cases hadd
      rfl

theorem Document.root_foldlM {state : Reader × Builder} {r : Reader} {b : Builder} {ks : List Token}
    {e e' : Element} (h : state.2.root = some e) (hb : b.root = some e')
    (hks : ks.foldlM step state = .ok (r, b)) : e = e' := by
  have hroot : b.root = some e := by
    refine foldlM_preserves (P := fun state => state.2.root = some e) ?_ h hks
    rintro ⟨r, b⟩ k ⟨r', b'⟩ hroot hstep
    obtain ⟨l, -, hadd⟩ := step_eq_ok_iff.mp hstep
    exact Builder.root_add hroot hadd
  exact Option.some.inj (hroot.symm.trans hb)

/-- The root of a document is spelled by a stretch of its tokens. -/
theorem spelledIn_of_foldlM {p : Nat} {ks : List Token} {r : Reader} {e : Element}
    (h : ks.foldlM step (⟨p, []⟩, ⟨[], none⟩) = .ok (r, ⟨[], some e⟩)) : SpelledIn p ks e := by
  induction ks generalizing p with
  | nil => cases h
  | cons k ks ih =>
      rw [List.foldlM_cons] at h
      obtain ⟨state, hstep, hrest⟩ := bind_eq_ok_iff.mp h
      rcases Document.step_top_cases hstep with
        rfl | ⟨e', hk, rfl⟩ | ⟨content, name, attributes, rfl, htag, rfl⟩
      · exact (ih hrest).cons
      · obtain rfl : e' = e := Document.root_foldlM rfl rfl hrest
        exact (SpelledIn.of_spells hk).append ks
      · obtain ⟨inner, last, rest, ns, b, rfl, hinner, hname, hadd, hrun⟩ :=
          closes_of_foldlM (o := ⟨name, attributes, [], p⟩) hrest (Nat.zero_le 0)
        rw [Unfinished.close_pushAll, Nat.add_assoc, ← Token.extent_cons] at hadd
        cases hadd
        obtain rfl := Document.root_foldlM rfl rfl hrun
        have hown := SpelledIn.of_spells (Spells.full htag hinner hname)
        have hall := hown.append rest
        rw [enclose, List.cons_append, List.append_assoc] at hall
        exact hall

end Markup

end GiftQuiz
