import GiftQuiz.Proofs.Quiz.Titles
import GiftQuiz.Proofs.Text.Bare

/-!
# Messages on one line

No document breaks a line in what is reported about it. A warning has a number in it, the name of an
element or a title that was left over. A name ends at the first white space of its tag
(`Attribute.not_isSpace_of_readTag`), so that no element of a document has a line break in its name.
The parts of a title are escaped in either mode, and what is joined of escaped parts has no line
break (`Title.oneLine_text`). `Element.agendaFrom_induction` carries both to every warning that a
conversion gives (`oneLine_message`).
-/

namespace GiftQuiz

open Markup (Element Attribute Document Spells)

/-! ## Texts on one line -/

def OneLine (t : List Char) : Prop :=
  ∀ c ∈ t, c ≠ '\n' ∧ c ≠ '\r'

instance (t : List Char) : Decidable (OneLine t) :=
  decidable_of_iff (t.all fun c => c != '\n' && c != '\r') (by simp [OneLine])

namespace OneLine

theorem append {t u : List Char} (ht : OneLine t) (hu : OneLine u) : OneLine (t ++ u) :=
  fun c hc => (List.mem_append.mp hc).elim (ht c) (hu c)

theorem intercalate {sep : List Char} {ts : List (List Char)} (hsep : OneLine sep)
    (h : ∀ t ∈ ts, OneLine t) : OneLine (sep.intercalate ts) :=
  Text.intercalate_induction nofun (fun _ _ ht hu => ht.append hu) hsep h

theorem escape (t : List Char) : OneLine (Text.escape t) := by
  have hblank : Text.isBlank '\n' = true ∧ Text.isBlank '\r' = true := by decide
  intro c hc
  constructor
  · rintro rfl
    cases Text.eq_space_of_mem_escape hc hblank.1
  · rintro rfl
    cases Text.eq_space_of_mem_escape hc hblank.2

theorem natural (n : Nat) : OneLine (toString n).toList := by
  rw [Nat.toString_eq_repr, Nat.toList_repr]
  intro c hc
  have hdigit := Digit.isDigit_of_mem_toDigits c hc
  constructor <;> rintro rfl <;> cases hdigit

end OneLine

/-! ## Names of elements -/

namespace Markup

theorem Attribute.not_isSpace_of_readTag {content : List Char} {name : String}
    {attributes : List Attribute} (h : readTag content = .ok (name, attributes)) :
    ∀ c ∈ name.toList, isSpace c = false := by
  simp only [readTag] at h
  split at h
  · cases h
    intro c hc
    rw [String.toList_ofList] at hc
    simpa using List.mem_takeWhile_imp hc
  · cases h

theorem Spells.oneLine_name {p : Nat} {ks : List Token} {e : Element} (h : Spells p ks e) :
    OneLine e.name.toList := by
  have hsolid : ∀ c ∈ e.name.toList, isSpace c = false := by
    cases h with
    | empty tag => exact Attribute.not_isSpace_of_readTag tag
    | full tag inside close => exact Attribute.not_isSpace_of_readTag tag
  intro c hc
  have hspace := hsolid c hc
  constructor <;> rintro rfl <;> cases hspace

theorem Document.oneLine_name {xml : String} {document : Document}
    (h : Document.parse xml = .ok document) :
    ∀ e ∈ document.root.subtree, OneLine e.name.toList := by
  obtain ⟨-, -, hroot⟩ := Document.spelledIn_of_parse h
  intro e he
  obtain ⟨before, own, after, -, hown⟩ := hroot.inside he
  exact hown.oneLine_name

end Markup

/-! ## Titles and warnings -/

theorem Title.oneLine_text {title : Title} (h : ∀ part ∈ title.parts, OneLine part.toList)
    (mode : TitleMode) : OneLine (title.text mode).toList := by
  have hseparator : OneLine mode.separator.toList := by cases mode <;> decide
  rw [Markup.Element.toList_text]
  refine OneLine.intercalate hseparator fun t ht => ?_
  obtain ⟨part, hpart, rfl⟩ := List.mem_map.mp (List.mem_of_mem_filter ht)
  exact h part hpart

theorem TitleMode.exists_escaped {mode : TitleMode} {source : List Char} {e : Element}
    {part : String} (h : mode.contribution source e = .part part) :
    ∃ s, part = Text.escaped s := by
  unfold contribution at h
  split at h
  · split at h
    · exact ⟨_, (Contribution.part.inj h).symm⟩
    · cases h
  · split at h
    · exact ⟨_, (Contribution.part.inj h).symm⟩
    · cases h

namespace Warning

theorem oneLine_unsupportedElement {tag : String} (h : OneLine tag.toList) :
    OneLine (unsupportedElement tag).message.toList := by
  have hbefore : OneLine "Unsupported question <".toList := by decide
  have hbehind : OneLine ">".toList := by decide
  change OneLine ("Unsupported question <" ++ tag ++ ">").toList
  rw [String.toList_append, String.toList_append]
  exact (hbefore.append h).append hbehind

theorem oneLine_droppedTitle {title : String} (h : OneLine title.toList) :
    OneLine (droppedTitle title).message.toList := by
  have hbefore : OneLine "Dropped title without a response: ".toList := by decide
  change OneLine ("Dropped title without a response: " ++ title).toList
  rw [String.toList_append]
  exact hbefore.append h

theorem oneLine_missingAnswer (id : UInt64) : OneLine (missingAnswer id).message.toList := by
  have hbefore : OneLine "Numerical response Q".toList := by decide
  have hbehind : OneLine " has no answer attribute".toList := by decide
  change OneLine ("Numerical response Q" ++ toString id.toNat ++ " has no answer attribute").toList
  rw [String.toList_append, String.toList_append]
  exact (hbefore.append (OneLine.natural _)).append hbehind

end Warning

/-- Whatever an agenda warns of is on one line. -/
theorem Markup.Element.oneLine_of_mem_agenda {source : List Char} {mode : TitleMode} {e : Element}
    (hnames : ∀ e' ∈ e.subtree, OneLine e'.name.toList) {w : Warning}
    (hw : .warn w ∈ e.agenda source mode) : OneLine w.message.toList := by
  have hchildren : ∀ e' ∈ subtreeAll e.children, OneLine e'.name.toList := by
    cases e
    exact fun e' he' => hnames e' (List.mem_cons_of_mem _ he')
  rw [agenda_eq] at hw
  refine agendaFrom_induction (S := fun e => OneLine e.name.toList)
    (P := fun title => ∀ part ∈ title.parts, OneLine part.toList)
    (Q := fun act => ∀ w, act = .warn w → OneLine w.message.toList)
    ?empty ?push ?ask ?leftOver ?unsupported ?halt hchildren ?empty _ hw w rfl
  case empty => nofun
  case push =>
    intro e title part _ htitle hpart
    obtain ⟨s, rfl⟩ := TitleMode.exists_escaped hpart
    refine List.forall_mem_append.mpr ⟨htitle, fun part hpart => ?_⟩
    rw [List.mem_singleton.mp hpart, Text.toList_escaped]
    exact OneLine.escape _
  case ask => nofun
  case leftOver =>
    rintro title htitle _ ⟨⟩
    exact Warning.oneLine_droppedTitle (title.oneLine_text htitle mode)
  case unsupported =>
    rintro e name hname hcontribution _ ⟨⟩
    obtain ⟨-, rfl⟩ := contribution_eq_unsupported_iff.mp hcontribution
    exact Warning.oneLine_unsupportedElement hname
  case halt => nofun

namespace Yield

theorem mem_warnings_ofAct {mode : TitleMode} {counter : Counter} {act : Act} {w : Warning}
    (h : w ∈ (ofAct mode counter act).warnings) :
    act = .warn w ∨ ∃ id, w = .missingAnswer id := by
  cases act with
  | ask title kind response =>
      -- The same warning is given whether or not there is a number left.
      have hanswer : w ∈ (Session.answerWarning?
          (questionAt mode title kind response counter)).toList := by
        rw [ofAct, asked] at h
        cases hsucc : counter.succ? with
        | none => simpa only [hsucc] using h
        | some c => simpa only [hsucc] using h
      unfold Session.answerWarning? at hanswer
      split at hanswer
      · exact Or.inr ⟨_, List.mem_singleton.mp hanswer⟩
      · cases hanswer
  | warn w' =>
      left
      rw [List.mem_singleton.mp h]
  | halt span => cases h

/-- A warning that acts give is one of them or is about an answer. -/
theorem mem_warnings_ofActs {mode : TitleMode} {counter : Counter} {acts : List Act} {w : Warning}
    (h : w ∈ (ofActs mode counter acts).warnings) :
    .warn w ∈ acts ∨ ∃ id, w = .missingAnswer id := by
  induction acts generalizing counter with
  | nil => cases h
  | cons act acts ih =>
      have hact : w ∈ (ofAct mode counter act).warnings →
          .warn w ∈ act :: acts ∨ ∃ id, w = .missingAnswer id := by
        intro hw
        refine (mem_warnings_ofAct hw).imp_left ?_
        rintro rfl
        exact List.mem_cons_self ..
      rw [ofActs] at h
      cases herror : (ofAct mode counter act).error? with
      | some e =>
          rw [andThen_of_some herror] at h
          exact hact h
      | none =>
          rw [warnings_andThen herror] at h
          rcases List.mem_append.mp h with h | h
          · exact hact h
          · exact (ih h).imp_left (List.mem_cons_of_mem _)

end Yield

/-- No warning of a conversion goes on on another line. -/
theorem oneLine_message {xml : String} {options : Options} {c : Conversion}
    (h : convert xml options = .ok c) : ∀ w ∈ c.warnings, OneLine w.message.toList := by
  cases hdocument : Document.parse xml with
  | error e =>
      rw [convert_eq_unreadable hdocument] at h
      cases h
  | ok document =>
      rw [convert_eq_result hdocument, Yield.ofElement_eq_ofActs] at h
      unfold Yield.result at h
      split at h
      · cases h
      · cases h
        intro w hw
        rcases Yield.mem_warnings_ofActs hw with hw | ⟨id, rfl⟩
        · exact Markup.Element.oneLine_of_mem_agenda (Document.oneLine_name hdocument) hw
        · exact Warning.oneLine_missingAnswer id

end GiftQuiz
