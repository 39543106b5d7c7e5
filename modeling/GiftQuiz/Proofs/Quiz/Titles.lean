import GiftQuiz.Proofs.Quiz.Layout
import GiftQuiz.Proofs.Quiz.Verbatim
import GiftQuiz.Proofs.Text.Words
import Mathlib.Data.List.Forall2

/-!
# Titles of whole runs

The parts of a title are escaped one by one, as the walk meets their elements, and joined when a
response needs them. `titleText` is the rule without parts: the elements since the last response of
a level, `run`, are taken together first, and their text is escaped as a whole. `text_titleOf` says
that the two agree.

`Element.duties` lists by this rule what there is to do in an element: the questions with their
titles, the elements that cannot be used in a title, and the titles that no response follows. Every
title depends on its own level alone (`pose_mem_duties`). `convertChildren_titles` says that a
conversion does the duties in order, all of them or those up to the last number.
-/

namespace GiftQuiz

open Markup (Element Node Document)

/-! ## The rule for titles -/

namespace Markup.Element

def isResponse (e : Element) : Bool :=
  match Role.ofName e.name with
  | .response _ => true
  | _ => false

def isContent (e : Element) : Bool :=
  Role.ofName e.name == .content

/-- The elements among some children of a level that belong to the next title: those behind the last
response that are neither responses nor problems. -/
def run (before : List (Node Element)) : List Element :=
  ((before.filterMap Node.element?).rtakeWhile (!·.isResponse)).filter isContent

def titleText (source : List Char) (mode : TitleMode) (run : List Element) : String :=
  match mode with
  | .markup => Text.escaped (String.join (run.filterMap (·.sourceText? source)))
  | .text => Text.escaped (" ".intercalate ((run.filter (·.name == "p")).map textContent))

end Markup.Element

/-- One thing to do in a problem, with the title written out. -/
inductive Duty where
  /-- To ask for a response under a title. -/
  | pose (title : String) (kind : ResponseKind) (response : Element)
  /-- To report an element that cannot be used in a title. -/
  | unsupported (name : String)
  /-- To report a title that no response follows. -/
  | dropped (title : String)
deriving Repr

namespace Duty

def pose? : Duty → Option (String × ResponseKind × Element)
  | .pose title kind response => some (title, kind, response)
  | _ => none

def warning? : Duty → Option Warning
  | .pose _ _ _ => none
  | .unsupported name => some (.unsupportedElement name)
  | .dropped title => some (.droppedTitle title)

end Duty

namespace Markup.Element

mutual

/-- What there is to do in an element. -/
def duties (source : List Char) (mode : TitleMode) : Element → List Duty
  | ⟨_, _, children, _⟩ => dutiesFrom source mode [] children

/-- What there is to do in the children of a level behind some others. -/
def dutiesFrom (source : List Char) (mode : TitleMode) (before : List (Node Element)) :
    List (Node Element) → List Duty
  | [] =>
    if (titleText source mode (run before)).isEmpty then []
    else [.dropped (titleText source mode (run before))]
  | .text t :: rest => dutiesFrom source mode (before ++ [.text t]) rest
  | .element e :: rest =>
    (match Role.ofName e.name with
      | .problem => duties source mode e
      | .response kind => [.pose (titleText source mode (run before)) kind e]
      | .content => if mode = .text ∧ e.name ≠ "p" then [.unsupported e.name] else []) ++
    dutiesFrom source mode (before ++ [.element e]) rest

end

mutual

/-- The levels that a conversion of an element walks through. -/
def levels : Element → List Element
  | ⟨name, attributes, children, span⟩ =>
    ⟨name, attributes, children, span⟩ :: levelsAmong children

def levelsAmong : List (Node Element) → List Element
  | [] => []
  | .text _ :: rest => levelsAmong rest
  | .element e :: rest =>
    (if Role.ofName e.name = .problem then levels e else []) ++ levelsAmong rest

end

theorem duties_eq (source : List Char) (mode : TitleMode) (e : Element) :
    e.duties source mode = dutiesFrom source mode [] e.children := by
  cases e
  rw [duties]

theorem levels_eq (e : Element) : e.levels = e :: levelsAmong e.children := by
  cases e
  rw [levels]

/-! ## Runs -/

theorem forall_mem_run_nil {P : Element → Prop} : ∀ e ∈ run [], P e := by
  intro e he
  cases he

theorem run_text (before : List (Node Element)) (t : String) :
    run (before ++ [.text t]) = run before := by
  rw [run, List.filterMap_append]
  simp only [List.filterMap_cons, Node.element?, List.filterMap_nil, List.append_nil]
  rfl

theorem run_element (before : List (Node Element)) (e : Element) :
    run (before ++ [.element e]) =
      match Role.ofName e.name with
      | .problem => run before
      | .response _ => []
      | .content => run before ++ [e] := by
  have hsplit : (before ++ [Node.element e]).filterMap Node.element? =
      before.filterMap Node.element? ++ [e] := by
    rw [List.filterMap_append]
    rfl
  rw [run, hsplit, List.rtakeWhile_concat]
  cases hrole : Role.ofName e.name with
  | problem => simp [isResponse, hrole, run, isContent, List.filter_append]
  | response kind => simp [isResponse, hrole]
  | content => simp [isResponse, hrole, run, isContent, List.filter_append]

/-- Whether an element has a source text in angle brackets. -/
def Quotable (source : List Char) (e : Element) : Prop :=
  ∃ m, e.sourceText? source = some m ∧ Text.InBrackets m.toList

/-- What an element adds to a title, if it can be used in one. -/
def part? (source : List Char) (mode : TitleMode) (e : Element) : Option String :=
  match mode.contribution source e with
  | .part part => some part
  | _ => none

/-- The title whose parts the elements of a run contribute. -/
def titleOf (source : List Char) (mode : TitleMode) (run : List Element) : Title :=
  ⟨run.filterMap (part? source mode)⟩

theorem titleOf_append_part {source : List Char} {mode : TitleMode} {e : Element} {part : String}
    (h : mode.contribution source e = .part part) (run : List Element) :
    titleOf source mode (run ++ [e]) = (titleOf source mode run).push part := by
  simp [titleOf, Title.push, part?, h]

theorem titleOf_append_unsupported {source : List Char} {mode : TitleMode} {e : Element}
    {name : String} (h : mode.contribution source e = .unsupported name) (run : List Element) :
    titleOf source mode (run ++ [e]) = titleOf source mode run := by
  simp [titleOf, part?, h]

theorem contribution_eq_unsupported_iff {source : List Char} {mode : TitleMode} {e : Element}
    {name : String} : mode.contribution source e = .unsupported name ↔
      (mode = .text ∧ e.name ≠ "p") ∧ name = e.name := by
  cases mode with
  | markup =>
      simp only [TitleMode.contribution]
      cases e.sourceText? source <;> simp
  | text =>
      by_cases hp : e.name = "p"
      · simp [TitleMode.contribution, TitleMode.paragraph, hp]
      · simp [TitleMode.contribution, TitleMode.paragraph, hp, eq_comm]

/-! ## Escaping a run as a whole -/

theorem toList_text (mode : TitleMode) (title : Title) :
    (title.text mode).toList =
      mode.separator.toList.intercalate ((title.parts.map String.toList).filter (!·.isEmpty)) := by
  have hempty : (fun part : String => !part.isEmpty) = (!·.isEmpty) ∘ String.toList := by
    funext part
    have hpart : part.isEmpty = part.toList.isEmpty := by
      rw [Bool.eq_iff_iff, String.isEmpty_iff, List.isEmpty_iff, String.toList_eq_nil_iff]
    exact congrArg (!·) hpart
  rw [Title.text, String.toList_intercalate, hempty, List.filter_map]

theorem text_titleOf_markup {source : List Char} {run : List Element}
    (h : ∀ e ∈ run, Quotable source e) :
    (titleOf source .markup run).text .markup = titleText source .markup run := by
  let quotes := run.filterMap (·.sourceText? source)
  have hparts : (titleOf source .markup run).parts = quotes.map Text.escaped := by
    simp only [titleOf, quotes, List.map_filterMap]
    refine List.filterMap_congr fun e _ => ?_
    cases hquote : e.sourceText? source <;> simp [part?, TitleMode.contribution, hquote]
  have hbrackets : ∀ t ∈ quotes.map String.toList, Text.InBrackets t := by
    intro t ht
    obtain ⟨m, hm, rfl⟩ := List.mem_map.mp ht
    obtain ⟨e, he, hquote⟩ := List.mem_filterMap.mp hm
    obtain ⟨m', hm', hin⟩ := h e he
    rw [hm'] at hquote
    rw [← Option.some.inj hquote]
    exact hin
  have hescape := Text.escape_flatten hbrackets
  have hmap : (quotes.map Text.escaped).map String.toList =
      (quotes.map String.toList).map Text.escape := by
    simp only [List.map_map, Function.comp_def, Text.toList_escaped]
  rw [← String.toList_inj, toList_text, hparts, hmap, titleText, Text.toList_escaped,
    String.toList_join, List.flatMap_def, hescape, List.flatMap_def]
  exact (Text.intercalate_empty _).trans List.flatten_filter_not_isEmpty

theorem text_titleOf_text (source : List Char) (run : List Element) :
    (titleOf source .text run).text .text = titleText source .text run := by
  let contents := (run.filter (·.name == "p")).map textContent
  have hparts : (titleOf source .text run).parts = contents.map Text.escaped := by
    rw [titleOf, List.map_map, ← List.filterMap_eq_map, List.filterMap_filter]
    refine List.filterMap_congr fun e _ => ?_
    by_cases hp : e.name = "p" <;>
      simp [part?, TitleMode.contribution, TitleMode.paragraph, hp]
  have hescape := Text.escape_intercalate (contents.map String.toList)
  have hmap : (contents.map Text.escaped).map String.toList =
      (contents.map String.toList).map Text.escape := by
    simp only [List.map_map, Function.comp_def, Text.toList_escaped]
  rw [← String.toList_inj, toList_text, hparts, hmap, titleText, Text.toList_escaped,
    String.toList_intercalate]
  exact hescape.symm

/-- The parts of a run that are joined are the run as a whole. -/
theorem text_titleOf {source : List Char} {mode : TitleMode} {run : List Element}
    (h : ∀ e ∈ run, Quotable source e) :
    (titleOf source mode run).text mode = titleText source mode run := by
  cases mode with
  | markup => exact text_titleOf_markup h
  | text => exact text_titleOf_text source run

end Markup.Element

/-! ## Acts and duties -/

namespace Act

def duty? (mode : TitleMode) : Act → Option Duty
  | .ask title kind response => some (.pose (title.text mode) kind response)
  | .warn (.unsupportedElement name) => some (.unsupported name)
  | .warn (.droppedTitle title) => some (.dropped title)
  | .warn (.missingAnswer _) => none
  | .halt _ => none

end Act

namespace Markup.Element

theorem filterMap_duty?_ofLeftOver (mode : TitleMode) (title : Title) :
    (Act.ofLeftOver mode title).filterMap (Act.duty? mode) =
      if (title.text mode).isEmpty then [] else [.dropped (title.text mode)] := by
  unfold Act.ofLeftOver
  split <;> rfl

/-- The acts on an agenda are for the duties, in the same order. -/
theorem filterMap_duty?_agendaFrom {source : List Char} {mode : TitleMode}
    (before : List (Node Element)) {nodes : List (Node Element)}
    (hrun : ∀ e ∈ run before, Quotable source e)
    (hnodes : ∀ e ∈ subtreeAll nodes, Quotable source e) :
    (agendaFrom source mode (titleOf source mode (run before)) nodes).filterMap
        (Act.duty? mode) =
      dutiesFrom source mode before nodes := by
  induction nodes using nodes_induction generalizing before with
  | nil =>
      rw [agendaFrom, dutiesFrom, filterMap_duty?_ofLeftOver, text_titleOf hrun]
  | text t rest ih =>
      have hsame := run_text before t
      rw [agendaFrom, dutiesFrom, ← hsame]
      exact ih _ (by rwa [hsame]) hnodes
  | element e rest inner ih =>
      obtain ⟨hself, hinner, hrest⟩ := forall_mem_subtreeAll_cons.mp hnodes
      have hnext := run_element before e
      have hafter := ih (before ++ [.element e])
      rw [agendaFrom, dutiesFrom]
      cases hrole : Role.ofName e.name with
      | problem =>
          -- The run goes on behind the problem, which has runs of its own.
          rw [hrole] at hnext
          rw [hnext] at hafter
          have hlevel := inner [] forall_mem_run_nil hinner
          simp only [List.filterMap_append, agenda_eq, duties_eq, hafter hrun hrest]
          exact congrArg (· ++ _) hlevel
      | response kind =>
          rw [hrole] at hnext
          rw [hnext] at hafter
          have hbehind := hafter forall_mem_run_nil hrest
          simp only [List.filterMap_cons, Act.duty?, text_titleOf hrun, List.singleton_append]
          exact congrArg (_ :: ·) hbehind
      | content =>
          rw [hrole] at hnext
          rw [hnext] at hafter
          have hmore : ∀ e' ∈ run before ++ [e], Quotable source e' := by
            intro e' he'
            rcases List.mem_append.mp he' with he' | he'
            · exact hrun e' he'
            · rw [List.mem_singleton.mp he']
              exact hself
          have hbehind := hafter hmore hrest
          simp only
          cases hpart : mode.contribution source e with
          | part part =>
              have husable : ¬ (mode = .text ∧ e.name ≠ "p") := by
                intro hunusable
                rw [contribution_eq_unsupported_iff.mpr ⟨hunusable, rfl⟩] at hpart
                cases hpart
              rw [titleOf_append_part hpart] at hbehind
              rw [if_neg husable, List.nil_append]
              exact hbehind
          | unsupported name =>
              obtain ⟨hunusable, rfl⟩ := contribution_eq_unsupported_iff.mp hpart
              rw [titleOf_append_unsupported hpart] at hbehind
              rw [if_pos hunusable, List.singleton_append]
              exact congrArg (_ :: ·) hbehind
          | offBoundary span =>
              obtain ⟨m, hm, -⟩ := hself
              obtain ⟨-, -, hnone⟩ := TitleMode.contribution_eq_offBoundary hpart
              rw [hm] at hnone
              cases hnone

theorem filterMap_duty?_agenda {source : List Char} {e : Element}
    (h : ∀ e' ∈ subtreeAll e.children, Quotable source e') (mode : TitleMode) :
    (e.agenda source mode).filterMap (Act.duty? mode) = e.duties source mode := by
  rw [agenda_eq, duties_eq]
  exact filterMap_duty?_agendaFrom [] forall_mem_run_nil h

/-- The duties ask for every response once, in document order. -/
theorem map_pose?_duties {source : List Char} {e : Element}
    (h : ∀ e' ∈ subtreeAll e.children, Quotable source e') (mode : TitleMode) :
    ((e.duties source mode).filterMap Duty.pose?).map (·.2) = e.responses := by
  rw [← filterMap_duty?_agenda h mode, ← filterMap_agenda source mode e, List.filterMap_filterMap,
    List.map_filterMap]
  refine List.filterMap_congr fun act _ => ?_
  rcases act with _ | (_ | _ | _) | _ <;> rfl

/-! ## The duties of every level -/

/-- The responses of a level are asked for under the titles of their runs. -/
theorem pose_mem_dutiesFrom {source : List Char} {mode : TitleMode} {kind : ResponseKind}
    {response : Element} (hrole : Role.ofName response.name = .response kind)
    (front before after : List (Node Element)) :
    .pose (titleText source mode (run (front ++ before))) kind response ∈
      dutiesFrom source mode front (before ++ .element response :: after) := by
  induction before generalizing front with
  | nil =>
      rw [List.nil_append, List.append_nil, dutiesFrom, hrole]
      exact List.mem_append_left _ (List.mem_singleton_self _)
  | cons node before ih =>
      have hnext := ih (front ++ [node])
      rw [List.append_assoc, List.singleton_append] at hnext
      cases node with
      | text t =>
          rw [List.cons_append, dutiesFrom]
          exact hnext
      | element e =>
          rw [List.cons_append, dutiesFrom]
          exact List.mem_append_right _ hnext

/-- The duties of the levels inside some children are among theirs. -/
theorem duties_subset_dutiesFrom {source : List Char} {mode : TitleMode} {level : Element}
    {nodes : List (Node Element)} (h : level ∈ levelsAmong nodes) (before : List (Node Element)) :
    level.duties source mode ⊆ dutiesFrom source mode before nodes := by
  induction nodes using nodes_induction generalizing before with
  | nil =>
      rw [levelsAmong] at h
      cases h
  | text t rest ih =>
      rw [levelsAmong] at h
      rw [dutiesFrom]
      exact ih h _
  | element e rest inner ih =>
      rw [levelsAmong] at h
      rw [dutiesFrom]
      rcases List.mem_append.mp h with h | h
      · split at h
        · rename_i hrole
          rw [hrole]
          refine List.subset_append_of_subset_left _ ?_
          rw [levels_eq] at h
          rcases List.mem_cons.mp h with rfl | h
          · exact List.Subset.refl _
          · simp only [duties_eq _ _ e]
            exact inner h []
        · cases h
      · exact List.subset_append_of_subset_right _ (ih h _)

/-- On every level that is walked through, a response is asked for under the title of its run. -/
theorem pose_mem_duties {source : List Char} {mode : TitleMode} {e level response : Element}
    (hlevel : level ∈ e.levels) {before after : List (Node Element)} {kind : ResponseKind}
    (hchildren : level.children = before ++ .element response :: after)
    (hrole : Role.ofName response.name = .response kind) :
    .pose (titleText source mode (run before)) kind response ∈ e.duties source mode := by
  have hown : .pose (titleText source mode (run before)) kind response ∈
      level.duties source mode := by
    rw [duties_eq, hchildren]
    exact pose_mem_dutiesFrom hrole [] before after
  rw [levels_eq] at hlevel
  rcases List.mem_cons.mp hlevel with rfl | hlevel
  · exact hown
  · rw [duties_eq]
    exact duties_subset_dutiesFrom hlevel [] hown

end Markup.Element

/-! ## Doing duties -/

/-- The pieces of a block for a response under a title. -/
def IsBlockUnder (mode : TitleMode) : String × ResponseKind × Element → List String → Prop
  | (title, kind, response), block => ∃ newline id,
    block = headerText mode newline id title :: (Body.ofResponse kind response).fragments

namespace Yield

theorem Poses.isBlockUnder {mode : TitleMode} {first : UInt64} {n : Nat} {acts : List Act}
    {qs : List Question} (h : Poses mode first n acts qs) :
    List.Forall₂ (IsBlockUnder mode)
      ((acts.filterMap (Act.duty? mode)).filterMap Duty.pose?) (qs.map Question.fragments) := by
  induction h with
  | nil n => exact .nil
  | @ask n title kind response q acts qs id follows html text body rest ih =>
      have hblock : IsBlockUnder mode (title.text mode, kind, response) q.fragments := by
        refine ⟨q.follows, q.id.toNat, ?_⟩
        rw [Question.fragments_eq, Question.header_eq html, text, body]
      exact .cons hblock ih
  | @other n act acts qs silent rest ih =>
      rcases act with _ | (name | title | id) | span
      · cases silent
      all_goals exact ih

theorem warnings_andThen {y : Yield} (h : y.error? = none) (next : Counter → Yield) :
    (y.andThen next).warnings = y.warnings ++ (next y.counter).warnings := by
  simp only [andThen, h]

theorem filter_answerWarning? (q : Question) :
    (Session.answerWarning? q).toList.filter (!·.isMissingAnswer) = [] := by
  unfold Session.answerWarning?
  rcases q with ⟨_, _, _, _, _ | _ | ⟨_ | _, _⟩⟩ <;> rfl

/-- The warnings of an act, but for those about answers, are that of its duty. -/
theorem warnings_ofAct (mode : TitleMode) (counter : Counter) (act : Act) :
    (ofAct mode counter act).warnings.filter (!·.isMissingAnswer) =
      ([act].filterMap (Act.duty? mode)).filterMap Duty.warning? := by
  rcases act with ⟨title, kind, response⟩ | (name | title | id) | span
  · rw [ofAct, asked]
    cases counter.succ? with
    | none => exact filter_answerWarning? _
    | some c => exact filter_answerWarning? _
  all_goals rfl

theorem warnings_ofActs {mode : TitleMode} {counter : Counter} {acts : List Act}
    (h : (ofActs mode counter acts).error? = none) :
    (ofActs mode counter acts).warnings.filter (!·.isMissingAnswer) =
      (acts.filterMap (Act.duty? mode)).filterMap Duty.warning? := by
  induction acts generalizing counter with
  | nil => rfl
  | cons act acts ih =>
      cases hact : (ofAct mode counter act).error? with
      | some e =>
          rw [ofActs, andThen_of_some hact, hact] at h
          cases h
      | none =>
          rw [ofActs, error?_andThen hact] at h
          rw [ofActs, warnings_andThen hact, List.filter_append, warnings_ofAct, ih h,
            ← List.filterMap_append, ← List.filterMap_append, List.singleton_append]

/-- Acts with no stop among them are done in order, all of them or those up to the response that
gets the last number. -/
theorem exists_done {mode : TitleMode} {counter : Counter} {acts : List Act}
    (h : ∀ span, .halt span ∉ acts) :
    ∃ done rest, acts = done ++ rest ∧
      Poses mode counter.first counter.next.toNat done (ofActs mode counter acts).questions ∧
      (ofActs mode counter acts).warnings.filter (!·.isMissingAnswer) =
        (done.filterMap (Act.duty? mode)).filterMap Duty.warning? ∧
      ((ofActs mode counter acts).error? = none ∧ rest = [] ∨
        ∃ last front title kind response,
          (ofActs mode counter acts).error? = some (.idsExhausted last) ∧
          done = front ++ [.ask title kind response]) := by
  cases herror : (ofActs mode counter acts).error? with
  | none =>
      obtain ⟨-, -, hposes⟩ := ofActs_poses herror
      exact ⟨acts, [], (List.append_nil _).symm, hposes, warnings_ofActs herror,
        Or.inl ⟨rfl, rfl⟩⟩
  | some error =>
      rcases ofActs_eq_some herror with ⟨last, rfl⟩ | ⟨span, hspan, -⟩
      · obtain ⟨done, title, kind, response, rest, hacts, hdone, heq, -, -, -, hposes⟩ :=
          ofActs_exhausted herror
        refine ⟨done ++ [.ask title kind response], rest, ?_, hposes, ?_,
          Or.inr ⟨last, done, title, kind, response, rfl, rfl⟩⟩
        · rw [hacts, List.append_assoc]
          rfl
        · rw [heq, ofActs_concat, warnings_andThen hdone, List.filter_append,
            warnings_ofActs hdone, warnings_ofAct, ← List.filterMap_append,
            ← List.filterMap_append]
      · exact absurd hspan (h span)

end Yield

/-! ## The titles of a conversion -/

theorem Markup.Document.quotable {xml : String} {document : Document}
    (h : Document.parse xml = .ok document) (hmark : xml.toList.head? ≠ some '\uFEFF')
    {e : Element} (he : e ∈ document.root.subtree) : e.Quotable document.source := by
  obtain ⟨t, ht⟩ := Document.exists_sourceText? h hmark he
  exact ⟨_, ht, t, String.toList_ofList⟩

namespace Session

/-- In a document without a byte order mark every element has a source text, and converting an
element does its duties in order. They are done in full, or the numbers give out, and then they are
done up to the response with the last one. What is appended are the blocks of the responses under
their titles and, but for warnings about answers, the warnings of the duties. The duties ask for all
responses, each of them once, and on every level that is walked through under the title that the run
before it makes as a whole. -/
theorem convertChildren_titles {xml : String} {document : Document}
    (h : Document.parse xml = .ok document) (hmark : xml.toList.head? ≠ some '\uFEFF')
    {e : Element} (he : e ∈ document.root.subtree) (s : Session) (mode : TitleMode) :
    let o := s.convertChildren document.source mode e
    let duties := e.duties document.source mode
    (∀ e' ∈ Element.subtreeAll e.children, (e'.sourceText? document.source).isSome) ∧
    (∃ done rest blocks warnings, duties = done ++ rest ∧
      o.session.conversion.fragments = s.conversion.fragments ++ blocks.flatten ∧
      List.Forall₂ (IsBlockUnder mode) (done.filterMap Duty.pose?) blocks ∧
      o.session.conversion.warnings = s.conversion.warnings ++ warnings ∧
      warnings.filter (!·.isMissingAnswer) = done.filterMap Duty.warning? ∧
      (o.error? = none ∧ rest = [] ∨ ∃ last front title kind response,
        o.error? = some (.idsExhausted last) ∧ done = front ++ [.pose title kind response])) ∧
      (duties.filterMap Duty.pose?).map (·.2) = e.responses ∧
      ∀ level ∈ e.levels, ∀ before response after kind,
        level.children = before ++ .element response :: after →
        Role.ofName response.name = .response kind →
        .pose (Element.titleText document.source mode (Element.run before)) kind response ∈
          duties := by
  intro o duties
  have hquotable : ∀ e' ∈ Element.subtreeAll e.children, e'.Quotable document.source := by
    intro e' he'
    exact Document.quotable h hmark (Element.subtree_trans he he')
  have ho : o = s.extend (Yield.ofActs mode s.counter (e.agenda document.source mode)) := by
    rw [← Yield.ofElement_eq_ofActs]
    exact convertChildren_eq_extend document.source mode s e
  have hduties := Element.filterMap_duty?_agenda hquotable mode
  have hhalt : ∀ span, .halt span ∉ e.agenda document.source mode := by
    intro span hspan
    obtain ⟨-, e', he', -, hnone⟩ := Element.of_halt_mem_agenda hspan
    obtain ⟨m, hm, -⟩ := hquotable e' he'
    rw [hm] at hnone
    cases hnone
  refine ⟨fun e' he' => ?_, ?_, Element.map_pose?_duties hquotable mode,
    fun level hlevel before response after kind hchildren hrole =>
      Element.pose_mem_duties hlevel hchildren hrole⟩
  · obtain ⟨m, hm, -⟩ := hquotable e' he'
    rw [hm]
    rfl
  obtain ⟨done, rest, hacts, hposes, hwarnings, hend⟩ := @Yield.exists_done mode s.counter _ hhalt
  refine ⟨done.filterMap (Act.duty? mode), rest.filterMap (Act.duty? mode), _, _, ?_, ?_,
    hposes.isBlockUnder, ?_, hwarnings, ?_⟩
  · rw [← List.filterMap_append, ← hacts]
    exact hduties.symm
  · rw [ho, fragments_extend, Yield.fragments, List.flatMap_def]
  · rw [ho, warnings_extend]
  · rw [ho, error?_extend]
    rcases hend with ⟨hnone, rfl⟩ | ⟨last, front, title, kind, response, hlast, rfl⟩
    · exact Or.inl ⟨hnone, rfl⟩
    · refine Or.inr ⟨last, front.filterMap (Act.duty? mode), title.text mode, kind, response,
        hlast, ?_⟩
      rw [List.filterMap_append]
      rfl

/-- A document with a run that a problem interrupts and a run that no response follows. -/
def interruptedRun : String :=
  "<a><p> x </p><b/><problem><p>in</p><numericalresponse answer=\"1\"/></problem>" ++
    "<p>y</p><numericalresponse answer=\"2\"/><p>left</p></a>"

/-- The problem has a title of its own, and the run around it makes one title. -/
theorem interruptedRun_titles :
    ∃ document, Document.parse interruptedRun = .ok document ∧
      interruptedRun.toList.head? ≠ some '\uFEFF' ∧
      let duties := document.root.duties document.source .text
      let o := Session.convertChildren { counter := .fresh 1 } document.source .text document.root
      (duties.filterMap Duty.pose?).map (·.1) = ["in", "x y"] ∧
        duties.filterMap Duty.warning? = [.unsupportedElement "b", .droppedTitle "left"] ∧
        (∃ blocks, o.session.conversion.fragments = blocks.flatten ∧
          List.Forall₂ (IsBlockUnder .text) (duties.filterMap Duty.pose?) blocks) ∧
        o.session.conversion.warnings.filter (!·.isMissingAnswer) =
          duties.filterMap Duty.warning? := by
  have hmark : interruptedRun.toList.head? ≠ some '\uFEFF' := by decide +kernel
  have hread : (Document.parse interruptedRun).toOption.map (fun document =>
      (((document.root.duties document.source .text).filterMap Duty.pose?).map (·.1),
        (document.root.duties document.source .text).filterMap Duty.warning?,
        (Session.convertChildren { counter := .fresh 1 } document.source .text
          document.root).error?)) =
      some (["in", "x y"], [.unsupportedElement "b", .droppedTitle "left"], none) := by
    decide +kernel
  cases hdocument : Document.parse interruptedRun with
  | error error =>
      rw [hdocument] at hread
      cases hread
  | ok document =>
      rw [hdocument] at hread
      obtain ⟨hposes, hwarnings, hok⟩ : _ ∧ _ ∧ _ := by simpa using Option.some.inj hread
      have hroot : document.root ∈ document.root.subtree := by
        rw [Element.subtree_eq]
        exact List.mem_cons_self ..
      obtain ⟨-, ⟨done, rest, blocks, warnings, hduties, hfragments, hblocks, hgiven, hreported,
        hend⟩, -, -⟩ := convertChildren_titles hdocument hmark hroot { counter := .fresh 1 } .text
      rcases hend with ⟨-, rfl⟩ | ⟨last, -, -, -, -, hlast, -⟩
      · rw [List.append_nil] at hduties
        refine ⟨document, rfl, hmark, hposes, hwarnings, ⟨blocks, hfragments, ?_⟩, ?_⟩
        · rw [hduties]
          exact hblocks
        · rw [hduties, ← hreported, hgiven]
          rfl
      · rw [hok] at hlast
        cases hlast

end Session

end GiftQuiz
