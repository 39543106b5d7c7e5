import GiftQuiz.Markup.Document

/-!
# Trees as events

A tree is the sequence of its events in preorder: the start of an element, what is inside it, and
its end. `Element.events` is that sequence; `Event.significant` leaves of the events of a document
those that belong to the tree.

`Document.parseRoot` reads a token and adds its event before it reads the next one.
`foldlM_step_eq_ok_iff` says that, where nothing goes wrong, this is reading all events first and
adding them then.
-/

namespace GiftQuiz

namespace Markup

namespace Element

mutual

/-- The events of an element, in preorder. -/
def events : Element → List Event
  | ⟨name, attributes, children, _⟩ =>
    .opened name attributes :: (eventsAll children ++ [.closed])

/-- The events of children, one child after the other. -/
def eventsAll : List (Node Element) → List Event
  | [] => []
  | .text t :: rest => .text t :: eventsAll rest
  | .element e :: rest => events e ++ eventsAll rest

end

end Element

namespace Event

/-- The events that belong to the tree, inside `depth` open elements: the tag of an element
without content is its start and its end, and character data counts inside elements only. -/
def significant : (depth : Nat) → List Event → List Event
  | _, [] => []
  | depth, .opened name attributes :: events =>
    .opened name attributes :: significant (depth + 1) events
  | depth, .empty name attributes :: events =>
    .opened name attributes :: .closed :: significant depth events
  | depth, .closed :: events => .closed :: significant (depth - 1) events
  | 0, .text _ :: events => significant 0 events
  | depth + 1, .text t :: events => .text t :: significant (depth + 1) events
  | depth, .skipped :: events => significant depth events

end Event

namespace Reader

/-- The events of tokens, and the reader behind them. -/
def events (r : Reader) : List Token → Except ReadError (List Located × Reader)
  | [] => .ok ([], r)
  | k :: ks =>
    match r.step k with
    | .error e => .error e
    | .ok (located, r) =>
      match r.events ks with
      | .error e => .error e
      | .ok (rest, r) => .ok (located :: rest, r)

end Reader

namespace Document

theorem step_eq_ok_iff {r r' : Reader} {b b' : Builder} {k : Token} :
    step (r, b) k = .ok (r', b') ↔
      ∃ located, r.step k = .ok (located, r') ∧ b.add located = .ok b' := by
  constructor
  · intro h
    simp only [step] at h
    split at h
    · cases h
    · rename_i located reader hr
      split at h
      · cases h
      · rename_i hb
        cases h
        exact ⟨located, hr, hb⟩
  · rintro ⟨located, hr, hb⟩
    simp only [step, hr, hb]

/-- Where nothing goes wrong, reading and adding token by token is reading all events and adding
them then. -/
theorem foldlM_step_eq_ok_iff {r r' : Reader} {b b' : Builder} {ks : List Token} :
    ks.foldlM step (r, b) = .ok (r', b') ↔
      ∃ events, r.events ks = .ok (events, r') ∧ events.foldlM Builder.add b = .ok b' := by
  induction ks generalizing r b with
  | nil =>
    constructor
    · intro h
      cases h
      exact ⟨[], rfl, rfl⟩
    · rintro ⟨events, hr, hb⟩
      cases hr
      cases hb
      rfl
  | cons k ks ih =>
    rw [List.foldlM_cons]
    constructor
    · intro h
      cases hs : step (r, b) k with
      | error e =>
        rw [hs] at h
        cases h
      | ok state =>
        obtain ⟨r₁, b₁⟩ := state
        rw [hs] at h
        obtain ⟨located, hr, hb⟩ := step_eq_ok_iff.1 hs
        obtain ⟨events, hrest, hadd⟩ := ih.1 h
        refine ⟨located :: events, ?_, ?_⟩
        · simp only [Reader.events, hr, hrest]
        · rw [List.foldlM_cons, hb]
          exact hadd
    · rintro ⟨events, hr, hadd⟩
      simp only [Reader.events] at hr
      split at hr
      · cases hr
      · rename_i located r₁ hstep
        split at hr
        · cases hr
        · rename_i rest r₂ hrest
          cases hr
          rw [List.foldlM_cons] at hadd
          cases hb : b.add located with
          | error e =>
            rw [hb] at hadd
            cases hadd
          | ok b₁ =>
            rw [hb] at hadd
            rw [step_eq_ok_iff.2 ⟨located, hstep, hb⟩]
            exact ih.2 ⟨rest, hrest, hadd⟩

end Document

end Markup

end GiftQuiz
