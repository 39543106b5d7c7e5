import GiftQuiz.Markup.Preorder

/-!
# Trees and the events they are made of

`Document.parse` makes a tree of the events that a reader delivers. `Builder.events` is what a tree
in the making amounts to, and `events_add` says that adding an event appends it if it belongs to
the tree: nothing is lost, repeated or moved. `exists_foldlM_add_iff` says which events make a tree
at all, given that the reader nests them: those with one element at the top, and with blanks for
all character data there.

`Event.namesAfter?` is how one event changes the names of the open elements. The reader and the
builder each keep these names and change them alike, so that a builder never meets an end tag while
no element is open.
-/

namespace GiftQuiz

namespace Markup

theorem bind_eq_ok_iff {ε α β : Type} {x : Except ε α} {f : α → Except ε β} {b : β} :
    x >>= f = .ok b ↔ ∃ a, x = .ok a ∧ f a = .ok b := by
  cases x with
  | error e =>
      constructor
      · rintro ⟨⟩
      · rintro ⟨_, ⟨⟩, -⟩
  | ok a => exact ⟨fun h => ⟨a, rfl, h⟩, by rintro ⟨_, ⟨⟩, h⟩; exact h⟩

/-- What one step of a run keeps, the whole run keeps. -/
theorem foldlM_preserves {ε σ α : Type} {f : σ → α → Except ε σ} {P : σ → Prop}
    (hf : ∀ s a s', P s → f s a = .ok s' → P s') {as : List α} {s s' : σ} (hs : P s)
    (h : as.foldlM f s = .ok s') : P s' := by
  induction as generalizing s with
  | nil =>
      cases h
      exact hs
  | cons a as ih =>
      rw [List.foldlM_cons] at h
      obtain ⟨s₁, ha, hrest⟩ := bind_eq_ok_iff.mp h
      exact ih (hf s a s₁ hs ha) hrest

namespace Event

/-! ## Events at the top -/

def depthAfter (depth : Nat) : Event → Nat
  | .opened _ _ => depth + 1
  | .closed => depth - 1
  | _ => depth

/-- The events inside `depth` open elements that no element contains. -/
def topLevel : (depth : Nat) → List Event → List Event
  | _, [] => []
  | depth, e :: events =>
    if depth = 0 then e :: topLevel (e.depthAfter depth) events
    else topLevel (e.depthAfter depth) events

def beginsElement : Event → Bool
  | .opened _ _ => true
  | .empty _ _ => true
  | _ => false

theorem countP_topLevel_cons (depth : Nat) (e : Event) (events : List Event) :
    (topLevel depth (e :: events)).countP beginsElement =
      (if depth = 0 ∧ e.beginsElement then 1 else 0) +
        (topLevel (e.depthAfter depth) events).countP beginsElement := by
  rw [topLevel]
  by_cases h : depth = 0
  · simp [h, List.countP_cons, Nat.add_comm]
  · simp [h]

theorem mem_topLevel_cons {depth : Nat} {e e' : Event} {events : List Event} :
    e' ∈ topLevel depth (e :: events) ↔
      depth = 0 ∧ e' = e ∨ e' ∈ topLevel (e.depthAfter depth) events := by
  rw [topLevel]
  by_cases h : depth = 0
  · simp [h]
  · simp [h]

/-- The events of a document make a tree: there is one element at the top, and all character data
beside it is blank. -/
structure Rooted (events : List Event) : Prop where
  one : (topLevel 0 events).countP beginsElement = 1
  blank : ∀ t, .text t ∈ topLevel 0 events → t.toList.all Text.isBlank

/-- What belongs to the tree, event by event. -/
theorem significant_cons (depth : Nat) (e : Event) (events : List Event) :
    significant depth (e :: events) =
      significant depth [e] ++ significant (e.depthAfter depth) events := by
  cases e with
  | text t => cases depth <;> simp [significant, depthAfter]
  | _ => simp [significant, depthAfter]

/-- The names of the open elements behind an event, the innermost first; there are none behind the
end of an element that was never opened. -/
def namesAfter? (names : List String) : Event → Option (List String)
  | .opened name _ => some (name :: names)
  | .closed => names.tail?
  | _ => some names

theorem length_of_namesAfter? {names names' : List String} {e : Event}
    (h : e.namesAfter? names = some names') : names'.length = e.depthAfter names.length := by
  cases e with
  | closed =>
      cases names with
      | nil => cases h
      | cons name names =>
          cases h
          rfl
  | _ =>
      cases h
      rfl

end Event

/-! ## The reader nests its events -/

namespace Reader

theorem namesAfter?_decode {r : Reader} {span : Span} {k : Token} {e : Event}
    {opened : List String} (h : r.decode span k = .ok (e, opened)) :
    e.namesAfter? r.opened = some opened := by
  cases k with
  | text content =>
      simp only [decode] at h
      split at h
      · cases h
        rfl
      · cases h
  | startTag content =>
      simp only [decode] at h
      split at h
      · cases h
        rfl
      · cases h
  | emptyTag content =>
      simp only [decode] at h
      split at h
      · cases h
        rfl
      · cases h
  | endTag content =>
      simp only [decode] at h
      split at h
      · cases h
      · rename_i expected names hnames
        split at h
        · cases h
          rw [hnames]
          rfl
        · cases h
  | _ =>
      cases h
      rfl

theorem step_eq_ok {r r' : Reader} {k : Token} {l : Located} (h : r.step k = .ok (l, r')) :
    l.span = ⟨r.position, r.position + k.size⟩ ∧ r'.position = r.position + k.size ∧
      r.decode l.span k = .ok (l.event, r'.opened) := by
  simp only [step] at h
  split at h
  · rename_i event opened hd
    cases h
    exact ⟨rfl, rfl, hd⟩
  · cases h

theorem namesAfter?_step {r r' : Reader} {k : Token} {l : Located}
    (h : r.step k = .ok (l, r')) : l.event.namesAfter? r.opened = some r'.opened :=
  namesAfter?_decode (step_eq_ok h).2.2

/-- What a reader delivers, token by token. -/
theorem events_cons_eq_ok {r r' : Reader} {k : Token} {ks : List Token} {ls : List Located}
    (h : r.events (k :: ks) = .ok (ls, r')) :
    ∃ l r₁ rest, ls = l :: rest ∧ r.step k = .ok (l, r₁) ∧ r₁.events ks = .ok (rest, r') := by
  simp only [events] at h
  split at h
  · cases h
  · rename_i l r₁ hstep
    split at h
    · cases h
    · rename_i rest r₂ hrest
      cases h
      exact ⟨l, r₁, rest, rfl, hstep, hrest⟩

end Reader

/-! ## Adding an event -/

namespace Element

theorem eventsAll_append (ns ms : List (Node Element)) :
    eventsAll (ns ++ ms) = eventsAll ns ++ eventsAll ms := by
  induction ns with
  | nil => rfl
  | cons n ns ih =>
      cases n with
      | element e => simp only [List.cons_append, eventsAll, ih, List.append_assoc]
      | text t => simp only [List.cons_append, eventsAll, ih]

end Element

def Unfinished.events (o : Unfinished) : List Event :=
  .opened o.name o.attributes :: Element.eventsAll o.children.reverse

theorem Unfinished.events_push (o : Unfinished) (n : Node Element) :
    (o.push n).events = o.events ++ Element.eventsAll [n] := by
  simp only [Unfinished.events, Unfinished.push, List.reverse_cons, Element.eventsAll_append,
    List.cons_append]

theorem Unfinished.events_close (o : Unfinished) (stop : Nat) :
    (o.close stop).events = o.events ++ [.closed] := by
  simp only [Unfinished.events, Unfinished.close, Element.events, List.cons_append]

namespace Builder

/-- The events of a tree in the making: those of its root and of its open elements, the outermost
first. -/
def events (b : Builder) : List Event :=
  (b.root.map Element.events).getD [] ++ b.opened.reverse.flatMap Unfinished.events

theorem events_cons (o : Unfinished) (opened : List Unfinished) (root : Option Element) :
    events ⟨o :: opened, root⟩ = events ⟨opened, root⟩ ++ o.events := by
  simp only [events, List.reverse_cons, List.flatMap_append, List.flatMap_singleton,
    List.append_assoc]

/-- Where a finished element goes. -/
theorem addElement_eq_ok {opened : List Unfinished} {root : Option Element} {b : Builder}
    {e : Element} {position : Nat} (h : addElement ⟨opened, root⟩ e position = .ok b) :
    (∃ o rest, opened = o :: rest ∧ b = ⟨o.push (.element e) :: rest, root⟩) ∨
      (opened = [] ∧ root = none ∧ b = ⟨[], some e⟩) := by
  cases opened with
  | cons o rest =>
      cases h
      exact Or.inl ⟨o, rest, rfl, rfl⟩
  | nil =>
      cases root with
      | none =>
          cases h
          exact Or.inr ⟨rfl, rfl, rfl⟩
      | some root => cases h

/-- Where character data goes. -/
theorem addText_eq_ok {opened : List Unfinished} {root : Option Element} {b : Builder}
    {t : String} {position : Nat} (h : addText ⟨opened, root⟩ t position = .ok b) :
    (∃ o rest, opened = o :: rest ∧ b = ⟨o.push (.text t) :: rest, root⟩) ∨
      (opened = [] ∧ t.toList.all Text.isBlank ∧ b = ⟨[], root⟩) := by
  cases opened with
  | cons o rest =>
      cases h
      exact Or.inl ⟨o, rest, rfl, rfl⟩
  | nil =>
      simp only [addText] at h
      split at h
      · rename_i hblank
        cases h
        exact Or.inr ⟨rfl, hblank, rfl⟩
      · cases h

theorem events_addElement {opened : List Unfinished} {root : Option Element} {b : Builder}
    {e : Element} {position : Nat} (h : addElement ⟨opened, root⟩ e position = .ok b) :
    b.events = events ⟨opened, root⟩ ++ e.events := by
  rcases addElement_eq_ok h with ⟨o, rest, rfl, rfl⟩ | ⟨rfl, rfl, rfl⟩
  · simp only [events_cons, Unfinished.events_push, Element.eventsAll, List.append_assoc,
      List.append_nil]
  · simp [events]

/-- Adding an event appends it to the tree, as far as it belongs there. -/
theorem events_add {b b' : Builder} {l : Located} (h : b.add l = .ok b') :
    b'.events = b.events ++ Event.significant b.opened.length [l.event] := by
  obtain ⟨span, event⟩ := l
  obtain ⟨opened, root⟩ := b
  cases event with
  | opened name attributes =>
      cases h
      exact events_cons ..
  | empty name attributes =>
      rw [events_addElement h]
      rfl
  | closed =>
      cases opened with
      | nil => cases h
      | cons o opened =>
          simp only [add] at h
          rw [events_addElement h, Unfinished.events_close, events_cons, List.append_assoc]
          rfl
  | text t =>
      rcases addText_eq_ok h with ⟨o, rest, rfl, rfl⟩ | ⟨rfl, -, rfl⟩
      · simp only [events_cons, Unfinished.events_push, List.append_assoc]
        rfl
      · exact (List.append_nil _).symm
  | skipped =>
      cases h
      exact (List.append_nil _).symm

/-- The builder changes the names of its open elements as the reader does. -/
theorem map_name_opened_add {b b' : Builder} {l : Located} (h : b.add l = .ok b') :
    l.event.namesAfter? (b.opened.map Unfinished.name) =
      some (b'.opened.map Unfinished.name) := by
  obtain ⟨span, event⟩ := l
  obtain ⟨opened, root⟩ := b
  cases event with
  | opened name attributes =>
      cases h
      rfl
  | empty name attributes =>
      rcases addElement_eq_ok h with ⟨o, rest, rfl, rfl⟩ | ⟨rfl, -, rfl⟩
      · rfl
      · rfl
  | closed =>
      cases opened with
      | nil => cases h
      | cons o opened =>
          rcases addElement_eq_ok h with ⟨p, rest, rfl, rfl⟩ | ⟨rfl, -, rfl⟩
          · rfl
          · rfl
  | text t =>
      rcases addText_eq_ok h with ⟨o, rest, rfl, rfl⟩ | ⟨rfl, -, rfl⟩
      · rfl
      · rfl
  | skipped =>
      cases h
      rfl

theorem finish_eq_ok_iff {b : Builder} {size : Nat} {root : Element} :
    b.finish size = .ok root ↔ b = ⟨[], some root⟩ := by
  obtain ⟨_ | ⟨o, opened⟩, _ | e⟩ := b <;> simp [finish]

/-! ## Which events make a tree -/

/-- How many elements there are at the top, the one that is open among them. -/
def roots (b : Builder) : Nat :=
  (if b.root.isSome then 1 else 0) + (if b.opened.isEmpty then 0 else 1)

/-- Adding a finished element either succeeds and leaves the number of elements at the top as it
was with the element among them, or there are two of them. -/
theorem addElement_cases (b : Builder) (e : Element) (position : Nat) :
    (∃ b', b.addElement e position = .ok b' ∧
        b'.roots = b.roots + if b.opened.length = 0 then 1 else 0) ∨
      (b.addElement e position = .error ⟨position, .secondRoot e.name⟩ ∧
        b.opened.length = 0 ∧ 1 ≤ b.roots) := by
  obtain ⟨_ | ⟨o, opened⟩, _ | root⟩ := b
  · exact Or.inl ⟨_, rfl, rfl⟩
  · exact Or.inr ⟨rfl, rfl, Nat.le_refl 1⟩
  · exact Or.inl ⟨_, rfl, rfl⟩
  · exact Or.inl ⟨_, rfl, rfl⟩

/-- Adding an event that the reader nests fails only at a second element at the top, and at
character data there that is not blank; never at an end tag without an open element. -/
theorem add_cases (b : Builder) (l : Located) {names : List String}
    (h : l.event.namesAfter? (b.opened.map Unfinished.name) = some names) :
    (∃ b', b.add l = .ok b' ∧
        b'.roots = b.roots +
          (if b.opened.length = 0 ∧ l.event.beginsElement then 1 else 0) ∧
        ∀ t, b.opened.length = 0 ∧ .text t = l.event → t.toList.all Text.isBlank) ∨
      (∃ error, b.add l = .error error ∧ error.cause ≠ .unexpectedEnd ∧
        (1 < b.roots + (if b.opened.length = 0 ∧ l.event.beginsElement then 1 else 0) ∨
          ∃ t, (b.opened.length = 0 ∧ .text t = l.event) ∧ ¬ t.toList.all Text.isBlank)) := by
  obtain ⟨span, event⟩ := l
  cases event with
  | opened name attributes =>
      refine Or.inl ⟨_, rfl, ?_, fun t ht => by cases ht.2⟩
      obtain ⟨_ | ⟨o, opened⟩, _ | root⟩ := b <;> rfl
  | empty name attributes =>
      rcases addElement_cases b ⟨name, attributes, [], span⟩ span.start with
        ⟨b', hb, hroots⟩ | ⟨he, hopen, hroots⟩
      · refine Or.inl ⟨b', hb, ?_, fun t ht => by cases ht.2⟩
        simpa [Event.beginsElement] using hroots
      · refine Or.inr ⟨_, he, Cause.noConfusion, Or.inl ?_⟩
        simp only [hopen, Event.beginsElement, and_self, if_true]
        omega
  | closed =>
      obtain ⟨_ | ⟨o, opened⟩, root⟩ := b
      · cases h
      · rcases addElement_cases ⟨opened, root⟩ (o.close span.stop) span.start with
          ⟨b', hb, hroots⟩ | ⟨he, hopen, hroots⟩
        · refine Or.inl ⟨b', hb, ?_, fun t ht => by cases ht.2⟩
          rw [hroots]
          cases opened <;> rfl
        · refine Or.inr ⟨_, he, Cause.noConfusion, Or.inl ?_⟩
          obtain rfl : opened = [] := List.length_eq_zero_iff.mp hopen
          cases root with
          | none => cases hroots
          | some root =>
              show 1 < 2
              decide
  | text t =>
      obtain ⟨_ | ⟨o, opened⟩, root⟩ := b
      · by_cases hblank : t.toList.all Text.isBlank
        · refine Or.inl ⟨⟨[], root⟩, if_pos hblank, rfl, ?_⟩
          rintro _ ⟨-, ⟨⟩⟩
          exact hblank
        · exact Or.inr ⟨_, if_neg hblank, Cause.noConfusion, Or.inr ⟨t, ⟨rfl, rfl⟩, hblank⟩⟩
      · exact Or.inl ⟨_, rfl, rfl, fun t ht => by cases ht.1⟩
  | skipped =>
      refine Or.inl ⟨b, rfl, ?_, fun t ht => by cases ht.2⟩
      simp [Event.beginsElement]

/-- Adding events that the reader nests, up to the end of every element, gives one root exactly
when one element is at the top, and all character data there is blank. -/
theorem exists_foldlM_add_iff (b : Builder) (ls : List Located)
    (h : (ls.map Located.event).foldlM Event.namesAfter? (b.opened.map Unfinished.name) =
      some []) :
    (∃ root, ls.foldlM add b = .ok ⟨[], some root⟩) ↔
      b.roots +
          (Event.topLevel b.opened.length (ls.map Located.event)).countP
            Event.beginsElement = 1 ∧
        ∀ t, .text t ∈ Event.topLevel b.opened.length (ls.map Located.event) →
          t.toList.all Text.isBlank := by
  induction ls generalizing b with
  | nil =>
      obtain ⟨opened, root⟩ := b
      obtain rfl : opened = [] := List.map_eq_nil_iff.mp (Option.some.inj h)
      cases root with
      | none => simp [roots, Event.topLevel, pure, Except.pure]
      | some root => simp [roots, Event.topLevel, pure, Except.pure]
  | cons l ls ih =>
      rw [List.map_cons, List.foldlM_cons] at h
      obtain ⟨names, hnames, hrest⟩ := Option.bind_eq_some_iff.mp h
      have hdepth := Event.length_of_namesAfter? hnames
      rw [List.length_map] at hdepth
      rw [List.map_cons, Event.countP_topLevel_cons, ← hdepth]
      simp only [Event.mem_topLevel_cons, ← hdepth, or_imp, forall_and]
      rcases add_cases b l hnames with ⟨b', hb, hroots, hblank⟩ | ⟨error, he, -, hfail⟩
      · have hopened := (map_name_opened_add hb).symm.trans hnames
        obtain rfl := Option.some.inj hopened
        rw [List.length_map, List.foldlM_cons, hb, ← Nat.add_assoc, ← hroots]
        simp only [and_iff_right hblank]
        exact ih b' hrest
      · rw [List.foldlM_cons, he]
        constructor
        · rintro ⟨root, ⟨⟩⟩
        · rintro ⟨hcount, hblank, -⟩
          rcases hfail with hover | ⟨t, ht, hnot⟩
          · omega
          · exact absurd (hblank t ht) hnot

end Builder

end Markup

end GiftQuiz
