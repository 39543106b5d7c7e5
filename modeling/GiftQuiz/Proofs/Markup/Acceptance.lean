import GiftQuiz.Proofs.Markup.Assembly

/-!
# Which documents are read

A document is read exactly when its reader `Delivers` its events, that is, delivers all of them and
finds every start tag closed, and these events are `Event.Rooted`. The tree is then those events:
its preorder is what of them belongs to a tree. `parse_eq_ok_iff_rooted` says so, and that reader
and builder agree on the open elements all the way through.
-/

namespace GiftQuiz

namespace Markup

/-- All tokens of a document can be read and decoded, every end tag closes the innermost open
element, and no element is left open at the end. -/
def Document.Delivers (source : List Char) (ls : List Located) : Prop :=
  (Token.scan (dropMark source)).fault = none ∧
    ∃ position, Reader.events {} (Token.scan (dropMark source)).tokens =
      .ok (ls, ⟨position, []⟩)

/-! ## Runs of the reader and of the builder -/

theorem Reader.namesAfter?_events {r r' : Reader} {ks : List Token} {ls : List Located}
    (h : r.events ks = .ok (ls, r')) :
    (ls.map Located.event).foldlM Event.namesAfter? r.opened = some r'.opened := by
  induction ks generalizing r ls with
  | nil =>
      cases h
      rfl
  | cons k ks ih =>
      obtain ⟨l, r₁, rest, rfl, hstep, hrest⟩ := events_cons_eq_ok h
      rw [List.map_cons, List.foldlM_cons, namesAfter?_step hstep]
      exact ih hrest

theorem Reader.cause_ne_of_step {r : Reader} {k : Token} {e : ReadError}
    (h : r.step k = .error e) : e.cause ≠ .unexpectedEnd := by
  simp only [step] at h
  split at h
  · cases h
  · rename_i he
    cases h
    simp only [decode] at he
    repeat' split at he
    all_goals cases he
    all_goals exact Cause.noConfusion

namespace Builder

/-- A run of the builder appends to its tree what of the events belongs there. -/
theorem foldlM_add_events {b b' : Builder} {ls : List Located}
    (h : ls.foldlM add b = .ok b') :
    b'.events = b.events ++
      Event.significant b.opened.length (ls.map Located.event) := by
  induction ls generalizing b with
  | nil =>
      cases h
      exact (List.append_nil _).symm
  | cons l ls ih =>
      rw [List.foldlM_cons] at h
      obtain ⟨b₁, hadd, hrest⟩ := bind_eq_ok_iff.mp h
      have hdepth := Event.length_of_namesAfter? (map_name_opened_add hadd)
      rw [List.length_map, List.length_map] at hdepth
      rw [ih hrest, events_add hadd, List.map_cons, Event.significant_cons _ _ (ls.map _),
        hdepth, List.append_assoc]

end Builder

namespace Document

/-- Reader and builder name the same elements as open. -/
def Agree (state : Reader × Builder) : Prop :=
  state.2.opened.map Unfinished.name = state.1.opened

theorem agree_step {state state' : Reader × Builder} {k : Token} (h : Agree state)
    (hstep : step state k = .ok state') : Agree state' := by
  obtain ⟨r, b⟩ := state
  obtain ⟨r', b'⟩ := state'
  obtain ⟨l, hr, hb⟩ := step_eq_ok_iff.mp hstep
  have hnames := Builder.map_name_opened_add hb
  rw [show b.opened.map Unfinished.name = r.opened from h, Reader.namesAfter?_step hr] at hnames
  exact (Option.some.inj hnames).symm

theorem agree_foldlM {state state' : Reader × Builder} {ks : List Token} (h : Agree state)
    (hks : ks.foldlM step state = .ok state') : Agree state' :=
  foldlM_preserves (fun _ _ _ => agree_step) h hks

/-- An end tag that the reader lets pass closes an element of the builder. -/
theorem cause_ne_of_step {state : Reader × Builder} {k : Token} {e : ReadError}
    (h : Agree state) (hstep : step state k = .error e) : e.cause ≠ .unexpectedEnd := by
  obtain ⟨r, b⟩ := state
  simp only [step] at hstep
  split at hstep
  · rename_i error hr
    cases hstep
    exact Reader.cause_ne_of_step hr
  · rename_i l r' hr
    have hnames := Reader.namesAfter?_step hr
    rw [← show b.opened.map Unfinished.name = r.opened from h] at hnames
    rcases Builder.add_cases b l hnames with ⟨b', hb, -⟩ | ⟨error, hb, hcause, -⟩
    · simp only [hb] at hstep
      cases hstep
    · simp only [hb] at hstep
      cases hstep
      exact hcause

theorem cause_ne_of_foldlM {state : Reader × Builder} {ks : List Token} {e : ReadError}
    (h : Agree state) (hks : ks.foldlM step state = .error e) : e.cause ≠ .unexpectedEnd := by
  induction ks generalizing state with
  | nil => cases hks
  | cons k ks ih =>
      rw [List.foldlM_cons] at hks
      cases hstep : step state k with
      | error e' =>
          rw [hstep] at hks
          cases hks
          exact cause_ne_of_step h hstep
      | ok state₁ =>
          rw [hstep] at hks
          exact ih (agree_step h hstep) hks

theorem parse_ne_unexpectedEnd (xml : String) (position : Nat) :
    parse xml ≠ .error ⟨position, .unexpectedEnd⟩ := by
  intro h
  simp only [parse, parseRoot] at h
  cases hks : (Token.scan (dropMark xml.toList)).tokens.foldlM step ({}, {}) with
  | error e =>
      simp only [hks] at h
      cases h
      exact cause_ne_of_foldlM (show Agree ({}, {}) from rfl) hks rfl
  | ok state =>
      obtain ⟨r, b⟩ := state
      cases hfault : (Token.scan (dropMark xml.toList)).fault with
      | some fault =>
          simp only [hks, hfault] at h
          cases h
      | none =>
          simp only [hks, hfault] at h
          obtain ⟨_ | ⟨o, opened⟩, _ | root⟩ := b <;> cases h

/-! ## Acceptance -/

/-- A document is read exactly when its reader gets to the end with no element open and the builder
makes a root of the events. -/
theorem parse_eq_ok_iff {xml : String} {document : Document} :
    parse xml = .ok document ↔
      document.source = xml.toList ∧ ∃ ls, Delivers xml.toList ls ∧
        ls.foldlM Builder.add {} = .ok ⟨[], some document.root⟩ := by
  simp only [parse, parseRoot, Delivers]
  constructor
  · intro h
    cases hks : (Token.scan (dropMark xml.toList)).tokens.foldlM step ({}, {}) with
    | error e =>
        rw [hks] at h
        cases h
    | ok state =>
        obtain ⟨⟨position, opened⟩, b⟩ := state
        rw [hks] at h
        cases hfault : (Token.scan (dropMark xml.toList)).fault with
        | some fault =>
            rw [hfault] at h
            cases h
        | none =>
            simp only [hfault] at h
            cases hroot : b.finish (Utf8.size xml.toList) with
            | error e =>
                rw [hroot] at h
                cases h
            | ok root =>
                rw [hroot] at h
                cases h
                obtain rfl := Builder.finish_eq_ok_iff.mp hroot
                obtain rfl : [] = opened := agree_foldlM (show Agree ({}, {}) from rfl) hks
                obtain ⟨ls, hr, hb⟩ := foldlM_step_eq_ok_iff.mp hks
                exact ⟨rfl, ls, ⟨rfl, position, hr⟩, hb⟩
  · rintro ⟨hsource, ls, ⟨hfault, position, hr⟩, hb⟩
    obtain ⟨source, root⟩ := document
    obtain rfl : source = xml.toList := hsource
    simp only [foldlM_step_eq_ok_iff.mpr ⟨ls, hr, hb⟩, hfault, Builder.finish]

/-- A document is read if and only if its reader delivers all its events, with every start tag
closed, and these have one element at the top and only blanks beside it. The preorder of the tree is
then those of the events that belong to a tree. Behind any tokens that can be read the builder has
the same elements open as the reader, so that an end tag never comes unexpected. -/
theorem parse_eq_ok_iff_rooted (xml : String) :
    ((∃ document, parse xml = .ok document) ↔
        ∃ ls, Delivers xml.toList ls ∧ Event.Rooted (ls.map Located.event)) ∧
      (∀ document, parse xml = .ok document →
        ∃ ls, Delivers xml.toList ls ∧
          document.root.events = Event.significant 0 (ls.map Located.event)) ∧
      (∀ (ks : List Token) (r : Reader) (b : Builder), ks.foldlM step ({}, {}) = .ok (r, b) →
        b.opened.map Unfinished.name = r.opened) ∧
      ∀ position, parse xml ≠ .error ⟨position, .unexpectedEnd⟩ := by
  have rooted_iff {ls : List Located} (h : Delivers xml.toList ls) :
      (∃ root, ls.foldlM Builder.add {} = .ok ⟨[], some root⟩) ↔
        Event.Rooted (ls.map Located.event) := by
    obtain ⟨-, position, hr⟩ := h
    refine (Builder.exists_foldlM_add_iff {} ls (Reader.namesAfter?_events hr)).trans ?_
    exact ⟨fun ⟨hone, hblank⟩ => ⟨(Nat.zero_add _).symm.trans hone, hblank⟩,
      fun ⟨hone, hblank⟩ => ⟨(Nat.zero_add _).trans hone, hblank⟩⟩
  refine ⟨⟨?_, ?_⟩, ?_, fun ks r b h => agree_foldlM (show Agree ({}, {}) from rfl) h,
    parse_ne_unexpectedEnd xml⟩
  · rintro ⟨document, h⟩
    obtain ⟨-, ls, hls, hb⟩ := parse_eq_ok_iff.mp h
    exact ⟨ls, hls, (rooted_iff hls).mp ⟨_, hb⟩⟩
  · rintro ⟨ls, hls, hrooted⟩
    obtain ⟨root, hb⟩ := (rooted_iff hls).mpr hrooted
    exact ⟨⟨xml.toList, root⟩, parse_eq_ok_iff.mpr ⟨rfl, ls, hls, hb⟩⟩
  · intro document h
    obtain ⟨-, ls, hls, hb⟩ := parse_eq_ok_iff.mp h
    refine ⟨ls, hls, ?_⟩
    have hevents := Builder.foldlM_add_events hb
    simpa [Builder.events] using hevents

/-- A document with character data, a comment and an empty element in its root. -/
def mixed : String := "<a>x<b/><!---->y</a> "

/-- The tree of a document, and what is open behind its first tokens. -/
theorem parse_mixed_rooted :
    (∃ document ls, parse mixed = .ok document ∧ Delivers mixed.toList ls ∧
        document.root.events = Event.significant 0 (ls.map Located.event) ∧
        document.root.events =
          [.opened "a" [], .text "x", .opened "b" [], .closed, .text "y", .closed]) ∧
      (∃ ls, Delivers mixed.toList ls ∧ Event.Rooted (ls.map Located.event)) ∧
      ∃ r b, [Token.startTag ['a'], .text ['x']].foldlM step ({}, {}) = .ok (r, b) ∧
        r.opened = ["a"] ∧ b.opened.map Unfinished.name = r.opened := by
  have hevents : ((parse mixed).toOption.map fun document => document.root.events) =
      some [.opened "a" [], .text "x", .opened "b" [], .closed, .text "y", .closed] := by
    decide +kernel
  have hks : [Token.startTag ['a'], .text ['x']].foldlM step ({}, {}) =
      .ok (⟨4, ["a"]⟩, ⟨[⟨"a", [], [.text "x"], 0⟩], none⟩) := by
    with_unfolding_all rfl
  obtain ⟨hiff, htree, hagree, -⟩ := parse_eq_ok_iff_rooted mixed
  cases h : parse mixed with
  | error e =>
      rw [h] at hevents
      cases hevents
  | ok document =>
      rw [h] at hevents
      obtain ⟨ls, hls, hpreorder⟩ := htree document h
      refine ⟨⟨document, ls, rfl, hls, hpreorder, Option.some.inj hevents⟩,
        hiff.mp ⟨document, h⟩, _, _, hks, rfl, hagree _ _ _ hks⟩

end Document

end Markup

end GiftQuiz
