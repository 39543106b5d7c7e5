import GiftQuiz.Proofs.Quiz.Agenda

/-!
# Problems inside problems

A problem inside a problem has nothing of its own but a title. `Element.agenda_of_problems` says
that what there is to do in an element with problems only is what there is to do in each of them,
one after the other, and so a problem may have any number of further problems around it (`Wraps`).

With the law that acts are added to a session behind what is there already, this makes
`convertChildren_appends`: a conversion leaves everything before it as it was, what it adds does not
depend on it, and a problem that consists of problems can be converted one problem at a time.
-/

namespace GiftQuiz

open Markup (Element Node Span Attribute)

namespace Markup.Element

theorem ofLeftOver_empty (mode : TitleMode) : Act.ofLeftOver mode {} = [] := by
  cases mode <;> rfl

theorem role_problem {e : Element} (h : e.name = "problem") : Role.ofName e.name = .problem := by
  rw [h]
  rfl

theorem agendaFrom_of_problems (source : List Char) (mode : TitleMode) {ns : List (Node Element)}
    (h : ∀ e ∈ ns.filterMap Node.element?, e.name = "problem") :
    agendaFrom source mode {} ns = (ns.filterMap Node.element?).flatMap (agenda source mode) := by
  induction ns with
  | nil => rw [agendaFrom, ofLeftOver_empty, List.filterMap_nil, List.flatMap_nil]
  | cons n ns ih =>
      cases n with
      | text t =>
          rw [agendaFrom]
          exact ih h
      | element e =>
          obtain ⟨he, hrest⟩ := List.forall_mem_cons.mp h
          rw [agendaFrom, role_problem he]
          exact congrArg (agenda source mode e ++ ·) (ih hrest)

/-- What there is to do in problems alone is done problem by problem. -/
theorem agenda_of_problems (source : List Char) (mode : TitleMode) {e : Element}
    (h : ∀ p ∈ e.elements, p.name = "problem") :
    e.agenda source mode = e.elements.flatMap (agenda source mode) := by
  rw [agenda_eq]
  exact agendaFrom_of_problems source mode h

/-- On a level a problem counts for what there is to do in it. -/
theorem agendaFrom_congr {source : List Char} {mode : TitleMode} {p w : Element}
    (hp : p.name = "problem") (hw : w.name = "problem")
    (h : w.agenda source mode = p.agenda source mode) (title : Title)
    (before after : List (Node Element)) :
    agendaFrom source mode title (before ++ .element w :: after) =
      agendaFrom source mode title (before ++ .element p :: after) := by
  induction before generalizing title with
  | nil =>
      simp only [List.nil_append, agendaFrom, role_problem hp, role_problem hw, h]
  | cons n before ih =>
      rw [List.cons_append, List.cons_append]
      cases n with
      | text t =>
          rw [agendaFrom, agendaFrom]
          exact ih title
      | element e =>
          simp only [agendaFrom, ih]

end Markup.Element

/-- A problem with any number of further problems around it, in each of which the next one is the
only element. -/
inductive Wraps (p : Element) : Element → Prop
  | refl : Wraps p p
  | around {w inner : Element} (name : w.name = "problem") (only : w.elements = [inner])
      (inside : Wraps p inner) : Wraps p w

namespace Wraps

variable {p w : Element}

theorem name_eq (hp : p.name = "problem") (h : Wraps p w) : w.name = "problem" := by
  cases h with
  | refl => exact hp
  | around name only inside => exact name

/-- Further problems around a problem add nothing to do. -/
theorem agenda_eq (hp : p.name = "problem") (h : Wraps p w) (source : List Char)
    (mode : TitleMode) : w.agenda source mode = p.agenda source mode := by
  induction h with
  | refl => rfl
  | @around w inner name only inside ih =>
      have hinner : ∀ e ∈ w.elements, e.name = "problem" := by
        rw [only]
        exact List.forall_mem_singleton.mpr (inside.name_eq hp)
      rw [Element.agenda_of_problems source mode hinner, only, List.flatMap_singleton, ih]

end Wraps

namespace Session

/-- Converts the children of elements, one element after the other, up to one that is stopped. -/
def convertInTurn (source : List Char) (mode : TitleMode) (s : Session) : List Element → Outcome
  | [] => ⟨s, none⟩
  | e :: es =>
    resume (s.convertChildren source mode e) fun s => s.convertInTurn source mode es

/-- Elements that are converted in turn do what there is to do in each of them. -/
theorem convertInTurn_eq_ofActs (source : List Char) (mode : TitleMode) (s : Session)
    (es : List Element) :
    s.convertInTurn source mode es =
      s.extend (Yield.ofActs mode s.counter (es.flatMap (Element.agenda source mode))) := by
  induction es generalizing s with
  | nil => simp [convertInTurn, extend, Yield.ofActs]
  | cons e es ih =>
      simp only [convertInTurn, ih, convertChildren_eq_ofActs, List.flatMap_cons,
        Yield.ofActs_append, extend_andThen]

/-- A conversion appends to a session and changes nothing of what is there. What it appends, what
stops it and the counter it leaves are as they would be in a session without any of it. An element
with problems only is converted problem by problem, up to one that is stopped. So a problem may have
any number of further problems around it, whether it is converted by itself or where it stands. -/
theorem convertChildren_appends (source : List Char) (mode : TitleMode) (s : Session)
    (e : Element) :
    let o := s.convertChildren source mode e
    let alone := ({ counter := s.counter } : Session).convertChildren source mode e
    (o.session.conversion.fragments =
        s.conversion.fragments ++ alone.session.conversion.fragments ∧
      o.session.conversion.warnings =
        s.conversion.warnings ++ alone.session.conversion.warnings ∧
      o.session.conversion.count = s.conversion.count ∧
      o.session.conversion.nextId = s.conversion.nextId ∧
      o.error? = alone.error? ∧ o.session.counter = alone.session.counter) ∧
      ((∀ p ∈ e.elements, p.name = "problem") →
        o = s.convertInTurn source mode e.elements) ∧
      ∀ p w, p.name = "problem" → Wraps p w →
        s.convertChildren source mode w = s.convertChildren source mode p ∧
          ∀ name attributes span before after,
            s.convertChildren source mode
                ⟨name, attributes, before ++ .element w :: after, span⟩ =
              s.convertChildren source mode
                ⟨name, attributes, before ++ .element p :: after, span⟩ := by
  intro o alone
  refine ⟨?_, ?_, ?_⟩
  · let y := Yield.ofActs mode s.counter (e.agenda source mode)
    have ho : o = s.extend y := convertChildren_eq_ofActs source mode s e
    have halone : alone = ({ counter := s.counter } : Session).extend y :=
      convertChildren_eq_ofActs source mode { counter := s.counter } e
    rw [ho, halone, fragments_extend, fragments_extend]
    exact ⟨rfl, rfl, rfl, rfl, rfl, rfl⟩
  · intro h
    simp only [o, convertInTurn_eq_ofActs, convertChildren_eq_ofActs,
      Element.agenda_of_problems source mode h]
  · intro p w hp hw
    have hagenda := hw.agenda_eq hp source mode
    refine ⟨by simp only [convertChildren_eq_ofActs, hagenda], ?_⟩
    intro name attributes span before after
    simp only [convertChildren_eq_ofActs, Element.agenda_eq,
      Element.agendaFrom_congr hp (hw.name_eq hp) hagenda]

def single : Element :=
  ⟨"problem", [],
    [.element ⟨"numericalresponse", [⟨"answer", "1"⟩], [], ⟨0, 0⟩⟩], ⟨0, 0⟩⟩

/-- A problem with nothing but another element and a line feed inside. -/
def around (inner : Element) : Element :=
  ⟨"problem", [], [.text "\n", .element inner], ⟨0, 0⟩⟩

/-- Three problems, of which the second is inside of two more. -/
def problems : Element :=
  ⟨"a", [], [.element single, .text " ", .element (around (around single)), .element single],
    ⟨0, 0⟩⟩

/-- Behind a warning, and with numbers for the first of three problems only, the second one is
stopped and the third one is not looked at. -/
theorem problems_append :
    let s : Session :=
      { counter := .fresh 0xFFFFFFFFFFFFFFFE
        conversion := { warnings := [.unsupportedElement "b"], count := 7, nextId := 9 } }
    let o := s.convertChildren [] .text problems
    (∀ p ∈ problems.elements, p.name = "problem") ∧ single.name = "problem" ∧
      Wraps single (around (around single)) ∧
      o.error? = some (.idsExhausted 0xFFFFFFFFFFFFFFFF) ∧
      o = s.convertInTurn [] .text [single, around (around single), single] ∧
      o.session.conversion.count = 7 ∧ o.session.conversion.nextId = 9 ∧
      s.convertChildren [] .text (around (around single)) = s.convertChildren [] .text single := by
  intro s o
  have hproblems : ∀ p ∈ problems.elements, p.name = "problem" := by
    decide +kernel
  have hwraps : Wraps single (around (around single)) :=
    .around rfl rfl (.around rfl rfl .refl)
  obtain ⟨⟨-, -, hcount, hnext, -⟩, hturn, hnested⟩ := convertChildren_appends [] .text s problems
  exact ⟨hproblems, rfl, hwraps, by decide +kernel, hturn hproblems, hcount, hnext,
    (hnested single _ rfl hwraps).1⟩

end Session

end GiftQuiz
