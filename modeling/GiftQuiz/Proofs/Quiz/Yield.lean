import GiftQuiz.Quiz.Descent

/-!
# What a descent adds

`Session.descend` threads a session, and with it everything that was converted before. A `Yield`
is what a stretch of a problem adds to a session, said without one: the questions and warnings in
order, the counter behind them, and what stopped it, if anything did. `Yield.ofElement` computes
it by plain recursion from the counter alone.

`descendFrom_eq_extend` says that descending is adding a yield to the session, and
`convertChildren_eq_descend` joins this with the law of the explicit stack: what the walk over
open levels appends is what the plain recursion yields, also where a walk is stopped.
-/

namespace GiftQuiz

open Markup (Element Node)

/-- What a stretch of a problem adds to a session. -/
structure Yield where
  questions : List Question := []
  warnings : List Warning := []
  /-- The counter behind the stretch. -/
  counter : Counter
  /-- What stopped it, if anything did. -/
  error? : Option ConversionError := none
deriving Repr

namespace Yield

def fragments (y : Yield) : List String :=
  y.questions.flatMap Question.fragments

/-- One stretch and then the next, which starts at the counter the first one reached, unless
the first one was stopped. -/
def andThen (y : Yield) (next : Counter → Yield) : Yield :=
  match y.error? with
  | some _ => y
  | none =>
    let z := next y.counter
    { z with questions := y.questions ++ z.questions, warnings := y.warnings ++ z.warnings }

/-- The end of a level: a title that is left over is reported unless it is empty. -/
def leftOver (mode : TitleMode) (title : Title) (counter : Counter) : Yield where
  warnings := if (title.text mode).isEmpty then [] else [.droppedTitle (title.text mode)]
  counter := counter

def questionAt (mode : TitleMode) (title : Title) (kind : ResponseKind) (response : Element)
    (counter : Counter) : Question where
  id := counter.next
  follows := counter.next != counter.first
  html := mode == .markup
  title := title.text mode
  body := Body.ofResponse kind response

/-- A response: its header and body, and the move to the next number. When there is none, the
block is there all the same. -/
def asked (mode : TitleMode) (title : Title) (kind : ResponseKind) (response : Element)
    (counter : Counter) : Yield :=
  let question := questionAt mode title kind response counter
  let warnings := (Session.answerWarning? question).toList
  match counter.succ? with
  | some counter => ⟨[question], warnings, counter, none⟩
  | none => ⟨[question], warnings, counter, some (.idsExhausted counter.next)⟩

mutual

/-- What the children of an element yield, with a title of their own. -/
def ofElement (source : List Char) (mode : TitleMode) (counter : Counter) : Element → Yield
  | ⟨_, _, children, _⟩ => ofNodes source mode {} counter children

/-- What the remaining children of a level yield, whose title so far is given. -/
def ofNodes (source : List Char) (mode : TitleMode) (title : Title) (counter : Counter) :
    List (Node Element) → Yield
  | [] => leftOver mode title counter
  | .text _ :: rest => ofNodes source mode title counter rest
  | .element e :: rest =>
    match Role.ofName e.name with
    | .problem =>
      (ofElement source mode counter e).andThen fun c => ofNodes source mode title c rest
    | .response kind =>
      (asked mode title kind e counter).andThen fun c => ofNodes source mode {} c rest
    | .content =>
      match mode.contribution source e with
      | .part part => ofNodes source mode (title.push part) counter rest
      | .unsupported name =>
        Yield.andThen { warnings := [.unsupportedElement name], counter } fun c =>
          ofNodes source mode title c rest
      | .offBoundary span => { counter, error? := some (.offBoundary span) }

end

theorem ofElement_eq (source : List Char) (mode : TitleMode) (counter : Counter) (e : Element) :
    ofElement source mode counter e = ofNodes source mode {} counter e.children := by
  cases e
  rw [ofElement]

end Yield

namespace Session

/-- A session with a yield behind it. -/
def extend (s : Session) (y : Yield) : Outcome where
  session :=
    { counter := y.counter
      conversion :=
        { s.conversion with
          questions := s.conversion.questions ++ y.questions
          warnings := s.conversion.warnings ++ y.warnings } }
  error? := y.error?

@[simp] theorem error?_extend (s : Session) (y : Yield) : (s.extend y).error? = y.error? := rfl

@[simp] theorem counter_extend (s : Session) (y : Yield) :
    (s.extend y).session.counter = y.counter := rfl

@[simp] theorem warnings_extend (s : Session) (y : Yield) :
    (s.extend y).session.conversion.warnings = s.conversion.warnings ++ y.warnings := rfl

@[simp] theorem fragments_extend (s : Session) (y : Yield) :
    (s.extend y).session.conversion.fragments = s.conversion.fragments ++ y.fragments := by
  simp only [extend, Conversion.fragments, Yield.fragments, List.flatMap_append, List.append_assoc]

/-! ## Each step of a descent adds its yield -/

/-- Adding two stretches is adding the first and resuming with the second. -/
theorem extend_andThen (s : Session) (y : Yield) (next : Counter → Yield) :
    s.extend (y.andThen next) =
      resume (s.extend y) (fun s => s.extend (next s.counter)) := by
  obtain ⟨questions, warnings, counter, error?⟩ := y
  cases error? with
  | none => simp only [Yield.andThen, extend, resume, List.append_assoc]
  | some error => rfl

theorem endLevel_eq_extend (s : Session) (mode : TitleMode) (title : Title) :
    ⟨s.endLevel mode title, none⟩ = s.extend (Yield.leftOver mode title s.counter) := by
  unfold endLevel Yield.leftOver
  by_cases h : (title.text mode).isEmpty
  · simp [extend, h]
  · simp [extend, warn, h]

theorem ask_eq_extend (s : Session) (mode : TitleMode) (title : Title) (kind : ResponseKind)
    (e : Element) :
    s.ask (s.question mode title kind e) =
      s.extend (Yield.asked mode title kind e s.counter) := by
  unfold ask Yield.asked
  cases s.counter.succ? with
  | none => rfl
  | some counter => rfl

theorem warn_eq_extend (s : Session) (w : Warning) :
    ⟨s.warn w, none⟩ = s.extend { warnings := [w], counter := s.counter } := by
  simp [extend, warn]

/-- Descending adds what the rest of the level yields. -/
theorem descendFrom_eq_extend (source : List Char) (mode : TitleMode) (title : Title)
    (s : Session) (nodes : List (Node Element)) :
    descendFrom source mode title s nodes =
      s.extend (Yield.ofNodes source mode title s.counter nodes) := by
  induction nodes using Element.nodes_induction generalizing title s with
  | nil => rw [descendFrom, Yield.ofNodes, endLevel_eq_extend]
  | text t rest ih =>
      rw [descendFrom, Yield.ofNodes]
      exact ih title s
  | element e rest inner ih =>
      rw [descendFrom, Yield.ofNodes]
      cases Role.ofName e.name with
      | problem =>
          simp only [descend_eq, Yield.ofElement_eq, inner, extend_andThen]
          rcases s.extend (Yield.ofNodes source mode {} s.counter e.children)
            with ⟨s', _ | error⟩
          · exact ih title s'
          · rfl
      | response kind =>
          simp only [ask_eq_extend, extend_andThen]
          rcases s.extend (Yield.asked mode title kind e s.counter) with ⟨s', _ | error⟩
          · exact ih {} s'
          · rfl
      | content =>
          simp only
          cases mode.contribution source e with
          | part part => exact ih (title.push part) s
          | unsupported name =>
              simp only [extend_andThen, ← warn_eq_extend]
              exact ih title _
          | offBoundary span => simp [extend]

theorem descend_eq_extend (source : List Char) (mode : TitleMode) (s : Session) (e : Element) :
    descend source mode s e = s.extend (Yield.ofElement source mode s.counter e) := by
  rw [descend_eq, descendFrom_eq_extend, Yield.ofElement_eq]

/-- Walking from one open level is descending through it. -/
theorem walk_singleton (source : List Char) (mode : TitleMode) (s : Session)
    (nodes : List (Node Element)) (title : Title) :
    walk source mode [⟨nodes, title⟩] s = descendFrom source mode title s nodes := by
  rw [walk_cons]
  rcases descendFrom source mode title s nodes with ⟨s', _ | error⟩
  · rw [resume, walk]
  · rfl

theorem convertChildren_eq_extend (source : List Char) (mode : TitleMode) (s : Session)
    (e : Element) :
    s.convertChildren source mode e =
      s.extend (Yield.ofElement source mode s.counter e) := by
  rw [convertChildren, walk_singleton, ← descend_eq, descend_eq_extend]

/-- The walk over open levels is the plain descent: the same outcome, from any session. What it
appends, the counter it reaches and what stops it are those of the recursion over the tree, which
knows nothing of what was converted before. -/
theorem convertChildren_eq_descend (source : List Char) (mode : TitleMode) (s : Session)
    (e : Element) :
    let walked := s.convertChildren source mode e
    let plain := Yield.ofElement source mode s.counter e
    walked = s.descend source mode e ∧
      walked.session.conversion.fragments = s.conversion.fragments ++ plain.fragments ∧
      walked.session.conversion.warnings = s.conversion.warnings ++ plain.warnings ∧
      walked.session.counter = plain.counter ∧
      walked.error? = plain.error? := by
  have hwalk := convertChildren_eq_extend source mode s e
  refine ⟨hwalk.trans (descend_eq_extend source mode s e).symm, ?_⟩
  rw [hwalk]
  exact ⟨fragments_extend .., warnings_extend .., counter_extend .., error?_extend ..⟩

end Session

/-! ## Conversion of a document -/

/-- A conversion that has nothing but a yield in it. -/
def Yield.conversion (y : Yield) : Conversion where
  questions := y.questions
  warnings := y.warnings
  count := y.counter.used
  nextId := y.counter.next

@[simp] theorem Yield.fragments_conversion (y : Yield) : y.conversion.fragments = y.fragments :=
  List.nil_append _

@[simp] theorem Yield.questions_conversion (y : Yield) : y.conversion.questions = y.questions := rfl

@[simp] theorem Yield.count_conversion (y : Yield) : y.conversion.count = y.counter.used := rfl

/-- How a conversion ends that starts with nothing and is given a yield. -/
def Yield.result (y : Yield) : Except ConversionError Conversion :=
  match y.error? with
  | some e => .error e
  | none => .ok y.conversion

/-- A document that can be read is converted into what its root yields. -/
theorem convert_eq_result {xml : String} {document : Markup.Document}
    (h : Markup.Document.parse xml = .ok document) (options : Options) :
    convert xml options =
      (Yield.ofElement document.source options.titleMode (.fresh options.startId)
        document.root).result := by
  simp only [convert, h, Session.convertChildren_eq_extend]
  rfl

/-- What can be read off a conversion tells that there is one. -/
theorem exists_convert_eq_ok_of_map {α : Type} {xml : String} {options : Options}
    {f : Conversion → α} {a : α} (h : (convert xml options).toOption.map f = some a) :
    ∃ c, convert xml options = .ok c ∧ f c = a := by
  cases hc : convert xml options with
  | error e =>
      rw [hc] at h
      cases h
  | ok c =>
      rw [hc] at h
      exact ⟨c, rfl, Option.some.inj h⟩

theorem convert_eq_unreadable {xml : String} {e : Markup.ReadError}
    (h : Markup.Document.parse xml = .error e) (options : Options) :
    convert xml options = .error (.unreadable e) := by
  simp only [convert, h]

end GiftQuiz
