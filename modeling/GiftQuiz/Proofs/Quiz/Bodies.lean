import GiftQuiz.Proofs.Markup.Paths
import GiftQuiz.Proofs.Quiz.Agenda

/-!
# Bodies of questions

A body depends on its response alone, not on the counter or the title. `convertChildren_bodies` says
so of a whole walk, however it ends: behind the headers of the blocks that it appends stand the
bodies of the first responses of the problem, in order, and of all of them unless the walk is
stopped.

`convertChildren_answers` says what the line of a numerical answer is. The tolerance that a response
states is the default of the first among its parameters that is a tolerance. It is written unless
some other parameter stands first, because only the first parameter is looked at.
-/

namespace GiftQuiz

open Markup (Element Document)

namespace Yield

def bodyOf (r : ResponseKind × Element) : Body :=
  Body.ofResponse r.1 r.2

theorem bodies_ofAct (mode : TitleMode) (counter : Counter) (act : Act) :
    (ofAct mode counter act).questions.map Question.body = act.response?.toList.map bodyOf := by
  cases act with
  | ask title kind response =>
      unfold ofAct asked
      cases counter.succ? <;> rfl
  | warn w => rfl
  | halt span => rfl

/-- Acts make the bodies of the first responses they ask for, of all of them unless something stops
them. -/
theorem bodies_ofActs (mode : TitleMode) (counter : Counter) (acts : List Act) :
    let y := ofActs mode counter acts
    let responses := acts.filterMap Act.response?
    ∃ n ≤ responses.length, y.questions.map Question.body = (responses.take n).map bodyOf ∧
      (y.error? = none → n = responses.length) := by
  induction acts generalizing counter with
  | nil => exact ⟨0, Nat.le_refl _, rfl, fun _ => rfl⟩
  | cons act acts ih =>
      have hresponses : (act :: acts).filterMap Act.response? =
          act.response?.toList ++ acts.filterMap Act.response? := by
        rw [List.filterMap_cons]
        cases act.response? <;> rfl
      intro y responses
      have hcons : responses = act.response?.toList ++ acts.filterMap Act.response? := hresponses
      have hone := bodies_ofAct mode counter act
      rw [hcons]
      cases hact : (ofAct mode counter act).error? with
      | some e =>
          have hy : y = ofAct mode counter act := andThen_of_some hact _
          refine ⟨act.response?.toList.length, by simp, ?_, ?_⟩
          · rw [hy, hone, List.take_left]
          · intro hnone
            rw [hy, hact] at hnone
            cases hnone
      | none =>
          obtain ⟨n, hn, hbodies, hall⟩ := ih (ofAct mode counter act).counter
          refine ⟨act.response?.toList.length + n, by simpa using hn, ?_, ?_⟩
          · show (ofActs mode counter (act :: acts)).questions.map Question.body = _
            rw [ofActs, questions_andThen hact, List.map_append, hone, hbodies,
              List.take_length_add_append, List.map_append]
          · intro hnone
            have hrest : (ofActs mode (ofAct mode counter act).counter acts).error? = none := by
              rw [← hnone]
              exact (error?_andThen hact fun c => ofActs mode c acts).symm
            rw [hall hrest, List.length_append]

end Yield

namespace Session

/-- A walk appends blocks for the first responses of the problem, for all of them unless it is
stopped. What stands behind the header of a block is the body of its response. -/
theorem convertChildren_bodies (source : List Char) (mode : TitleMode) (s : Session)
    (e : Element) :
    let o := s.convertChildren source mode e
    ∃ blocks : List (List String),
      o.session.conversion.fragments = s.conversion.fragments ++ blocks.flatten ∧
      blocks.length ≤ e.responses.length ∧
      (o.error? = none → blocks.length = e.responses.length) ∧
      ∀ (k : Nat) (kind : ResponseKind) (response : Element) (block : List String),
        e.responses[k]? = some (kind, response) → blocks[k]? = some block →
        ∃ header, block = header :: (Body.ofResponse kind response).fragments := by
  intro o
  obtain ⟨n, hn, hbodies, hall⟩ :=
    Yield.bodies_ofActs mode s.counter (e.agenda source mode)
  rw [Element.filterMap_agenda] at hn hbodies hall
  have ho : o = s.extend (Yield.ofActs mode s.counter (e.agenda source mode)) :=
    convertChildren_eq_ofActs source mode s e
  generalize Yield.ofActs mode s.counter (e.agenda source mode) = y at ho hbodies hall
  have hlength : y.questions.length = n := by
    have := congrArg List.length hbodies
    rw [List.length_map, List.length_map, List.length_take] at this
    omega
  refine ⟨y.questions.map Question.fragments, ?_, ?_, ?_, ?_⟩
  · rw [ho, fragments_extend, Yield.fragments, List.flatMap_def]
  · rw [List.length_map, hlength]
    exact hn
  · intro hnone
    rw [ho] at hnone
    rw [List.length_map, hlength]
    exact hall hnone
  · intro k kind response block hresponse hblock
    obtain ⟨q, hq, rfl⟩ : ∃ q, y.questions[k]? = some q ∧ q.fragments = block := by
      simpa [List.getElem?_map] using hblock
    have hk : k < n := by
      rw [← hlength]
      exact (List.getElem?_eq_some_iff.mp hq).1
    have hbody : q.body = Body.ofResponse kind response := by
      have := congrArg (·[k]?) hbodies
      simp only [List.getElem?_map, hq, List.getElem?_take, hk, if_true, hresponse,
        Option.map_some, Option.some.injEq] at this
      exact this
    exact ⟨q.header, by rw [q.fragments_eq, hbody]⟩

end Session

/-! ## Answers -/

namespace Markup.Element

def isTolerance (param : Element) : Bool :=
  param.attribute? "type" == some "tolerance"

/-- The tolerance that a response states: the default of the first of its parameters that is a
tolerance. -/
def statedTolerance? (response : Element) : Option String :=
  ((response.named "responseparam").find? isTolerance).bind (·.attribute? "default")

/-- Another parameter stands first, and a tolerance behind it. -/
def HidesTolerance (response : Element) : Prop :=
  ∃ first, (response.named "responseparam").head? = some first ∧ first.isTolerance = false ∧
    response.statedTolerance?.isSome = true

end Markup.Element

namespace Body

def toleranceSuffix : Option String → String
  | some d => ":0" ++ d
  | none => ""

theorem toleranceSuffix_ne {d : String} : toleranceSuffix none ≠ toleranceSuffix (some d) := by
  intro h
  have := congrArg String.toList h
  simp [toleranceSuffix] at this

/-- The tolerance that is written is the one that is stated, unless that is hidden. -/
theorem tolerance?_cases (response : Element) :
    (response.HidesTolerance ∧ tolerance? response = none) ∨
      (¬ response.HidesTolerance ∧ tolerance? response = response.statedTolerance?) := by
  unfold Element.HidesTolerance tolerance? Element.statedTolerance?
  rw [Element.child?_eq_head?_named]
  cases response.named "responseparam" with
  | nil => simp
  | cons first rest =>
      rw [List.head?_cons]
      cases hfirst : first.isTolerance with
      | true =>
          have htype : (first.attribute? "type" == some "tolerance") = true := hfirst
          right
          rw [List.find?_cons_of_pos hfirst]
          simp [htype, hfirst]
      | false =>
          have htype : (first.attribute? "type" == some "tolerance") = false := hfirst
          rw [List.find?_cons_of_neg (by simp [hfirst])]
          cases hstated : (rest.find? Element.isTolerance).bind (·.attribute? "default") with
          | some d =>
              left
              simp [htype, hfirst]
          | none =>
              right
              simp [htype]

theorem toleranceSuffix_eq_iff (response : Element) :
    toleranceSuffix (tolerance? response) = toleranceSuffix response.statedTolerance? ↔
      ¬ response.HidesTolerance := by
  rcases tolerance?_cases response with ⟨hhides, hnone⟩ | ⟨hshows, hsame⟩
  · obtain ⟨first, -, -, hstated⟩ := id hhides
    obtain ⟨d, hd⟩ := Option.isSome_iff_exists.mp hstated
    rw [hnone, hd]
    exact iff_of_false toleranceSuffix_ne (not_not_intro hhides)
  · rw [hsame]
    exact iff_of_true rfl hshows

theorem fragments_numerical (response : Element) :
    (ofResponse .numerical response).fragments =
      ["#\n",
        "\t=%100%" ++ ((response.attribute? "answer").map Text.escaped).getD "" ++
          toleranceSuffix (tolerance? response) ++ "\n",
        "\x7d\n"] := by
  have hsuffix : ((tolerance? response).map (":0" ++ ·)).getD "" =
      toleranceSuffix (tolerance? response) := by
    cases tolerance? response <;> rfl
  rw [← hsuffix]
  rfl

end Body

namespace Session

/-- The block for a numerical response has one line, with its answer, or nothing if there is none,
and a suffix. The suffix writes the tolerance that is stated exactly if the response does not hide
it, and is empty if it does. -/
theorem convertChildren_answers (source : List Char) (mode : TitleMode) (s : Session)
    (e : Element) :
    let o := s.convertChildren source mode e
    ∃ blocks : List (List String),
      o.session.conversion.fragments = s.conversion.fragments ++ blocks.flatten ∧
      blocks.length ≤ e.responses.length ∧
      (o.error? = none → blocks.length = e.responses.length) ∧
      ∀ (k : Nat) (response : Element) (block : List String),
        e.responses[k]? = some (.numerical, response) → blocks[k]? = some block →
        ∃ header suffix,
          block = [header, "#\n",
            "\t=%100%" ++ ((response.attribute? "answer").map Text.escaped).getD "" ++ suffix ++
              "\n",
            "\x7d\n"] ∧
          (suffix = Body.toleranceSuffix response.statedTolerance? ↔ ¬ response.HidesTolerance) ∧
          (response.HidesTolerance → suffix = "") := by
  intro o
  obtain ⟨blocks, hfragments, hle, hall, hbodies⟩ := convertChildren_bodies source mode s e
  refine ⟨blocks, hfragments, hle, hall, ?_⟩
  intro k response block hresponse hblock
  obtain ⟨header, rfl⟩ := hbodies k .numerical response block hresponse hblock
  refine ⟨header, Body.toleranceSuffix (Body.tolerance? response), ?_,
    Body.toleranceSuffix_eq_iff response, ?_⟩
  · rw [Body.fragments_numerical]
  · intro hhides
    rcases Body.tolerance?_cases response with ⟨-, hnone⟩ | ⟨hshows, -⟩
    · rw [hnone]
      rfl
    · exact absurd hhides hshows

/-- A response whose tolerance stands behind another parameter. -/
def toleranceBehind : Element :=
  ⟨"numericalresponse", [⟨"answer", "1"⟩],
    [.element ⟨"responseparam", [⟨"type", "other"⟩, ⟨"default", ".5"⟩], [], ⟨0, 0⟩⟩,
      .element ⟨"responseparam", [⟨"type", "tolerance"⟩, ⟨"default", ".1"⟩], [], ⟨0, 0⟩⟩], ⟨0, 0⟩⟩

def toleranceInFront : Element :=
  { toleranceBehind with children := toleranceBehind.children.reverse }

/-- Of two responses, the one with its tolerance in front has it written, and the one with its
tolerance behind has not. -/
theorem toleranceInFront_answers :
    let e : Element :=
      ⟨"problem", [], [.element toleranceInFront, .element toleranceBehind], ⟨0, 0⟩⟩
    let o := { counter := .fresh 1 : Session }.convertChildren [] .text e
    ∃ (blocks : List (List String)) (first second : String),
      o.session.conversion.fragments = blocks.flatten ∧
        blocks = [[first, "#\n", "\t=%100%1:0.1\n", "\x7d\n"],
          [second, "#\n", "\t=%100%1\n", "\x7d\n"]] := by
  intro e o
  have hresponses : e.responses = [(.numerical, toleranceInFront), (.numerical, toleranceBehind)] :=
    rfl
  have hall : o.error? = none := by decide +kernel
  obtain ⟨blocks, hfragments, -, hlength, hblocks⟩ :=
    convertChildren_answers [] .text { counter := .fresh 1 } e
  have htwo : blocks.length = 2 := hlength hall
  obtain ⟨first, second, rfl⟩ : ∃ b c, blocks = [b, c] := by
    match blocks, htwo with
    | [b, c], _ => exact ⟨b, c, rfl⟩
  obtain ⟨header, suffix, rfl, hstated, -⟩ := hblocks 0 toleranceInFront first rfl rfl
  obtain ⟨header', suffix', rfl, -, hhidden⟩ := hblocks 1 toleranceBehind second rfl rfl
  have hshows : ¬ toleranceInFront.HidesTolerance := by
    rintro ⟨first, hfirst, hother, -⟩
    cases hfirst
    revert hother
    decide
  have hhides : toleranceBehind.HidesTolerance := ⟨_, rfl, by decide, by decide⟩
  refine ⟨_, header, header', hfragments, ?_⟩
  rw [hstated.mpr hshows, hhidden hhides]
  rfl

def toleranceBehindText : String :=
  "<a><numericalresponse answer=\"1\"><responseparam type=\"other\" default=\".5\"/>" ++
    "<responseparam type=\"tolerance\" default=\".1\"/></numericalresponse></a>"

/-- The response of this document states a tolerance, and the quiz has none. -/
theorem toleranceBehind_lost :
    (Document.parse toleranceBehindText).toOption.map
        (·.root.responses.map fun r => (r.1, r.2.statedTolerance?)) =
      some [(.numerical, some ".1")] ∧
    (convert toleranceBehindText {}).toOption.map Conversion.fragments =
      some ["::Q1::[html]\x7b", "#\n", "\t=%100%1\n", "\x7d\n"] ∧
    ¬ ∀ response : Element, (Body.ofResponse .numerical response).fragments =
      ["#\n",
        "\t=%100%" ++ ((response.attribute? "answer").map Text.escaped).getD "" ++
          Body.toleranceSuffix response.statedTolerance? ++ "\n",
        "\x7d\n"] := by
  refine ⟨by decide +kernel, by decide +kernel, ?_⟩
  intro hall
  have hbehind := hall toleranceBehind
  revert hbehind
  decide +kernel

end Session

end GiftQuiz
