import GiftQuiz.Proofs.Markup.SourceText
import GiftQuiz.Proofs.Quiz.Numbering

/-!
# The agenda of a problem

What there is to do in a problem does not depend on numbers. `Element.agenda` lists it in document
order: the responses to ask for, each under its title, and the warnings to give. `Yield.ofActs` does
what is on a list, one act after the other, from a counter on.

`ofElement_eq_ofActs` says that a descent does its agenda. It does all of it or stops at an act that
cannot be done, and then the rest of the agenda might as well not be there (`ofActs_cases`). What is
done in full poses one question for every response that is asked for, under consecutive numbers
(`ofActs_poses`). `agendaFrom_induction` shows what holds of all acts from what holds of titles.
-/

namespace GiftQuiz

open Markup (Element Node Span)

/-- One thing to do in a problem. -/
inductive Act where
  /-- To ask for a response under a title. -/
  | ask (title : Title) (kind : ResponseKind) (response : Element)
  /-- To give a warning that is not about an answer. -/
  | warn (w : Warning)
  /-- To use the source text of an element that has none. -/
  | halt (span : Span)
deriving Repr

namespace Act

def response? : Act → Option (ResponseKind × Element)
  | .ask _ kind response => some (kind, response)
  | _ => none

def ofLeftOver (mode : TitleMode) (title : Title) : List Act :=
  if (title.text mode).isEmpty then [] else [.warn (.droppedTitle (title.text mode))]

end Act

namespace Markup.Element

mutual

/-- What there is to do in an element, with a title of its own. -/
def agenda (source : List Char) (mode : TitleMode) : Element → List Act
  | ⟨_, _, children, _⟩ => agendaFrom source mode {} children

/-- What there is to do in the remaining children of a level, whose title so far is given. -/
def agendaFrom (source : List Char) (mode : TitleMode) (title : Title) :
    List (Node Element) → List Act
  | [] => Act.ofLeftOver mode title
  | .text _ :: rest => agendaFrom source mode title rest
  | .element e :: rest =>
    match Role.ofName e.name with
    | .problem => agenda source mode e ++ agendaFrom source mode title rest
    | .response kind => .ask title kind e :: agendaFrom source mode {} rest
    | .content =>
      match mode.contribution source e with
      | .part part => agendaFrom source mode (title.push part) rest
      | .unsupported name =>
        .warn (.unsupportedElement name) :: agendaFrom source mode title rest
      | .offBoundary span => .halt span :: agendaFrom source mode title rest

end

theorem agenda_eq (source : List Char) (mode : TitleMode) (e : Element) :
    e.agenda source mode = agendaFrom source mode {} e.children := by
  cases e
  rw [agenda]

theorem filterMap_ofLeftOver (mode : TitleMode) (title : Title) :
    (Act.ofLeftOver mode title).filterMap Act.response? = [] := by
  unfold Act.ofLeftOver
  by_cases h : (title.text mode).isEmpty
  · rw [if_pos h]
    rfl
  · rw [if_neg h]
    rfl

theorem filterMap_agendaFrom (source : List Char) (mode : TitleMode) (title : Title)
    (nodes : List (Node Element)) :
    (agendaFrom source mode title nodes).filterMap Act.response? = responsesAmong nodes := by
  induction nodes using nodes_induction generalizing title with
  | nil =>
      rw [agendaFrom, responsesAmong]
      exact filterMap_ofLeftOver mode title
  | text t rest ih =>
      rw [agendaFrom, responsesAmong]
      exact ih title
  | element e rest inner ih =>
      rw [agendaFrom, responsesAmong]
      cases Role.ofName e.name with
      | problem =>
          simp only [List.filterMap_append, agenda_eq, responses_eq, inner, ih]
      | response kind =>
          rw [List.filterMap_cons]
          exact congrArg ((kind, e) :: ·) (ih {})
      | content =>
          simp only
          cases mode.contribution source e with
          | part part => exact ih (title.push part)
          | unsupported name => exact ih title
          | offBoundary span => exact ih title

theorem filterMap_agenda (source : List Char) (mode : TitleMode) (e : Element) :
    (e.agenda source mode).filterMap Act.response? = e.responses := by
  rw [agenda_eq, filterMap_agendaFrom, responses_eq]

/-- What holds of every act on an agenda. It may depend on a property of titles, which has to hold
of the empty one and to be kept by what the elements of the problem contribute. -/
theorem agendaFrom_induction {source : List Char} {mode : TitleMode} {S : Element → Prop}
    {P : Title → Prop} {Q : Act → Prop} (empty : P {})
    (push : ∀ e title part, S e → P title → mode.contribution source e = .part part →
      P (title.push part))
    (ask : ∀ title kind e, P title → Q (.ask title kind e))
    (leftOver : ∀ title, P title → Q (.warn (.droppedTitle (title.text mode))))
    (unsupported : ∀ e name, S e → mode.contribution source e = .unsupported name →
      Q (.warn (.unsupportedElement name)))
    (halt : ∀ e span, S e → mode.contribution source e = .offBoundary span → Q (.halt span))
    {nodes : List (Node Element)} (hnodes : ∀ e ∈ subtreeAll nodes, S e) {title : Title}
    (htitle : P title) : ∀ act ∈ agendaFrom source mode title nodes, Q act := by
  induction nodes using nodes_induction generalizing title with
  | nil =>
      rw [agendaFrom, Act.ofLeftOver]
      by_cases h : (title.text mode).isEmpty
      · rw [if_pos h]
        intro act hact
        cases hact
      · rw [if_neg h]
        intro act hact
        obtain rfl := List.mem_singleton.mp hact
        exact leftOver title htitle
  | text t rest ih =>
      rw [agendaFrom]
      exact ih hnodes htitle
  | element e rest inner ih =>
      obtain ⟨hself, hinner, hrest⟩ := forall_mem_subtreeAll_cons.mp hnodes
      rw [agendaFrom]
      cases Role.ofName e.name with
      | problem =>
          -- A problem begins with a title of its own, and the one outside goes on behind it.
          intro act hact
          rw [agenda_eq] at hact
          rcases List.mem_append.mp hact with hact | hact
          · exact inner hinner empty act hact
          · exact ih hrest htitle act hact
      | response kind =>
          exact List.forall_mem_cons.mpr ⟨ask title kind e htitle, ih hrest empty⟩
      | content =>
          simp only
          cases hpart : mode.contribution source e with
          | part part => exact ih hrest (push e title part hself htitle hpart)
          | unsupported name =>
              exact List.forall_mem_cons.mpr ⟨unsupported e name hself hpart, ih hrest htitle⟩
          | offBoundary span =>
              exact List.forall_mem_cons.mpr ⟨halt e span hself hpart, ih hrest htitle⟩

end Markup.Element

namespace Yield

def ofAct (mode : TitleMode) (counter : Counter) : Act → Yield
  | .ask title kind response => asked mode title kind response counter
  | .warn w => { warnings := [w], counter }
  | .halt span => { counter, error? := some (.offBoundary span) }

/-- What acts add to a session, one after the other, up to the first that cannot be done. -/
def ofActs (mode : TitleMode) (counter : Counter) : List Act → Yield
  | [] => { counter }
  | act :: acts => (ofAct mode counter act).andThen fun c => ofActs mode c acts

/-! ## Doing acts one after the other -/

theorem nil_andThen (counter : Counter) (next : Counter → Yield) :
    Yield.andThen { counter } next = next counter := by
  simp [andThen]

theorem andThen_nil (y : Yield) : y.andThen (fun counter => { counter }) = y := by
  obtain ⟨questions, warnings, counter, _ | e⟩ := y
  · simp [andThen]
  · rfl

theorem andThen_assoc (y : Yield) (f g : Counter → Yield) :
    (y.andThen f).andThen g = y.andThen fun c => (f c).andThen g := by
  obtain ⟨questions, warnings, counter, _ | e⟩ := y
  · simp only [andThen]
    cases h : (f counter).error? with
    | none => simp only [List.append_assoc]
    | some e => simp only [h]
  · rfl

theorem andThen_of_some {y : Yield} {e : ConversionError} (h : y.error? = some e)
    (next : Counter → Yield) : y.andThen next = y := by
  simp only [andThen, h]

theorem error?_andThen {y : Yield} (h : y.error? = none) (next : Counter → Yield) :
    (y.andThen next).error? = (next y.counter).error? := by
  simp only [andThen, h]

theorem counter_andThen {y : Yield} (h : y.error? = none) (next : Counter → Yield) :
    (y.andThen next).counter = (next y.counter).counter := by
  simp only [andThen, h]

theorem questions_andThen {y : Yield} (h : y.error? = none) (next : Counter → Yield) :
    (y.andThen next).questions = y.questions ++ (next y.counter).questions := by
  simp only [andThen, h]

theorem ofActs_append (mode : TitleMode) (counter : Counter) (acts acts' : List Act) :
    ofActs mode counter (acts ++ acts') =
      (ofActs mode counter acts).andThen fun c => ofActs mode c acts' := by
  induction acts generalizing counter with
  | nil => exact (nil_andThen counter fun c => ofActs mode c acts').symm
  | cons act acts ih =>
      rw [List.cons_append, ofActs, ofActs, andThen_assoc]
      simp only [ih]

theorem ofActs_singleton (mode : TitleMode) (counter : Counter) (act : Act) :
    ofActs mode counter [act] = ofAct mode counter act :=
  andThen_nil _

theorem ofActs_concat (mode : TitleMode) (counter : Counter) (acts : List Act) (act : Act) :
    ofActs mode counter (acts ++ [act]) =
      (ofActs mode counter acts).andThen fun c => ofAct mode c act := by
  simp only [ofActs_append, ofActs_singleton]

theorem ofActs_ofLeftOver (mode : TitleMode) (title : Title) (counter : Counter) :
    ofActs mode counter (Act.ofLeftOver mode title) = leftOver mode title counter := by
  unfold Act.ofLeftOver leftOver
  by_cases h : (title.text mode).isEmpty
  · rw [if_pos h, if_pos h, ofActs]
  · rw [if_neg h, if_neg h, ofActs_singleton, ofAct]

theorem ofNodes_eq_ofActs (source : List Char) (mode : TitleMode) (title : Title)
    (counter : Counter) (nodes : List (Node Element)) :
    ofNodes source mode title counter nodes =
      ofActs mode counter (Element.agendaFrom source mode title nodes) := by
  induction nodes using Element.nodes_induction generalizing title counter with
  | nil =>
      rw [ofNodes, Element.agendaFrom]
      exact (ofActs_ofLeftOver mode title counter).symm
  | text t rest ih =>
      rw [ofNodes, Element.agendaFrom]
      exact ih title counter
  | element e rest inner ih =>
      rw [ofNodes, Element.agendaFrom]
      cases Role.ofName e.name with
      | problem =>
          simp only [ofActs_append, ofElement_eq, Element.agenda_eq, inner, ih]
      | response kind => simp only [ofActs, ofAct, ih]
      | content =>
          simp only
          cases mode.contribution source e with
          | part part => exact ih (title.push part) counter
          | unsupported name => simp only [ofActs, ofAct, ih]
          | offBoundary span => exact (andThen_of_some rfl _).symm

theorem ofElement_eq_ofActs (source : List Char) (mode : TitleMode) (counter : Counter)
    (e : Element) :
    ofElement source mode counter e = ofActs mode counter (e.agenda source mode) := by
  rw [ofElement_eq, ofNodes_eq_ofActs, Element.agenda_eq]

/-! ## What one act does -/

/-- An act that can be done asks for a response under the next number, behind which there is one
more, or it has nothing to do with numbers. -/
theorem ofAct_cases {mode : TitleMode} {counter : Counter} {act : Act}
    (h : (ofAct mode counter act).error? = none) :
    (∃ title kind response c, act = .ask title kind response ∧ counter.succ? = some c ∧
        (ofAct mode counter act).counter = c ∧
        (ofAct mode counter act).questions = [questionAt mode title kind response counter]) ∨
      (act.response? = none ∧ (ofAct mode counter act).counter = counter ∧
        (ofAct mode counter act).questions = []) := by
  cases act with
  | ask title kind response =>
      left
      unfold ofAct asked at h ⊢
      cases hsucc : counter.succ? with
      | none =>
          rw [hsucc] at h
          cases h
      | some c => exact ⟨title, kind, response, c, rfl, rfl, rfl, rfl⟩
  | warn w => exact Or.inr ⟨rfl, rfl, rfl⟩
  | halt span => cases h

/-- An act that cannot be done asks for a response under the greatest number, or needs a source text
that is not there. -/
theorem ofAct_eq_some {mode : TitleMode} {counter : Counter} {act : Act} {e : ConversionError}
    (h : (ofAct mode counter act).error? = some e) :
    (∃ title kind response, act = .ask title kind response ∧
        e = .idsExhausted counter.next ∧ counter.next.toNat = UInt64.size - 1 ∧
        (ofAct mode counter act).counter = counter ∧
        (ofAct mode counter act).questions = [questionAt mode title kind response counter]) ∨
      ∃ span, act = .halt span ∧ e = .offBoundary span := by
  cases act with
  | ask title kind response =>
      left
      unfold ofAct asked at h ⊢
      cases hsucc : counter.succ? with
      | none =>
          rw [hsucc] at h
          cases h
          exact ⟨title, kind, response, rfl, rfl, Counter.succ?_eq_none_iff.mp hsucc, rfl, rfl⟩
      | some c =>
          rw [hsucc] at h
          cases h
  | warn w => cases h
  | halt span =>
      cases h
      exact Or.inr ⟨span, rfl, rfl⟩

/-! ## Where acts stop -/

/-- Acts are all done, or one of them cannot be done, and what stands behind it is not looked at. -/
theorem ofActs_cases (mode : TitleMode) (counter : Counter) (acts : List Act) :
    (ofActs mode counter acts).error? = none ∨
      ∃ done act rest e, acts = done ++ act :: rest ∧
        (ofActs mode counter done).error? = none ∧
        (ofAct mode (ofActs mode counter done).counter act).error? = some e ∧
        ofActs mode counter acts = ofActs mode counter (done ++ [act]) := by
  induction acts generalizing counter with
  | nil => exact Or.inl rfl
  | cons act acts ih =>
      cases hact : (ofAct mode counter act).error? with
      | some e =>
          -- Nothing has been done before the first act.
          refine Or.inr ⟨[], act, acts, e, rfl, rfl, hact, ?_⟩
          rw [List.nil_append, ofActs_singleton, ofActs, andThen_of_some hact]
      | none =>
          rcases ih (ofAct mode counter act).counter with
            hall | ⟨done, last, rest, e, rfl, hdone, hlast, heq⟩
          · left
            rw [ofActs, error?_andThen hact]
            exact hall
          · refine Or.inr ⟨act :: done, last, rest, e, rfl, ?_, ?_, ?_⟩
            · rw [ofActs, error?_andThen hact]
              exact hdone
            · rw [ofActs, counter_andThen hact]
              exact hlast
            · rw [List.cons_append, ofActs, ofActs]
              simp only [andThen, hact, heq]

/-! ## The questions of acts -/

/-- The questions that acts pose under consecutive numbers, from `n` on, where `first` is the number
that the counter started from. -/
inductive Poses (mode : TitleMode) (first : UInt64) : Nat → List Act → List Question → Prop
  | nil (n : Nat) : Poses mode first n [] []
  | ask {n : Nat} {title : Title} {kind : ResponseKind} {response : Element} {q : Question}
      {acts : List Act} {qs : List Question} (id : q.id.toNat = n)
      (follows : q.follows = (q.id != first)) (html : q.html = (mode == .markup))
      (text : q.title = title.text mode) (body : q.body = Body.ofResponse kind response)
      (rest : Poses mode first (n + 1) acts qs) :
      Poses mode first n (.ask title kind response :: acts) (q :: qs)
  | other {n : Nat} {act : Act} {acts : List Act} {qs : List Question}
      (silent : act.response? = none) (rest : Poses mode first n acts qs) :
      Poses mode first n (act :: acts) qs

namespace Poses

variable {mode : TitleMode} {first : UInt64} {n : Nat} {acts : List Act} {qs : List Question}

theorem length_eq (h : Poses mode first n acts qs) :
    qs.length = (acts.filterMap Act.response?).length := by
  induction h with
  | nil n => rfl
  | ask id follows html text body rest ih =>
      rw [List.filterMap_cons]
      simp only [Act.response?, List.length_cons, ih]
  | other silent rest ih =>
      rw [List.filterMap_cons, silent]
      exact ih

theorem append {acts' : List Act} {qs' : List Question} (h : Poses mode first n acts qs)
    (h' : Poses mode first (n + (acts.filterMap Act.response?).length) acts' qs') :
    Poses mode first n (acts ++ acts') (qs ++ qs') := by
  induction h with
  | nil n => exact h'
  | @ask n title kind response q acts qs id follows html text body rest ih =>
      refine .ask id follows html text body (ih ?_)
      rw [List.filterMap_cons] at h'
      simp only [Act.response?, List.length_cons] at h'
      rw [show n + 1 + (acts.filterMap Act.response?).length =
        n + ((acts.filterMap Act.response?).length + 1) by omega]
      exact h'
  | other silent rest ih =>
      rw [List.filterMap_cons, silent] at h'
      exact .other silent (ih h')

theorem of_getElem? (h : Poses mode first n acts qs) {k : Nat} {q : Question}
    (hk : qs[k]? = some q) :
    ∃ title kind response, .ask title kind response ∈ acts ∧
      (acts.filterMap Act.response?)[k]? = some (kind, response) ∧
      q.id.toNat = n + k ∧ q.follows = (q.id != first) ∧ q.html = (mode == .markup) ∧
      q.title = title.text mode ∧ q.body = Body.ofResponse kind response := by
  induction h generalizing k with
  | nil n => simp at hk
  | @ask n title kind response q' acts qs id follows html text body rest ih =>
      rw [List.filterMap_cons]
      cases k with
      | zero =>
          obtain rfl : q' = q := by simpa using hk
          exact ⟨title, kind, response, List.mem_cons_self .., rfl, id, follows, html, text, body⟩
      | succ k =>
          obtain ⟨title', kind', response', hmem, hr, hid, hq⟩ := ih hk
          exact ⟨title', kind', response', List.mem_cons_of_mem _ hmem, hr, by omega, hq⟩
  | other silent rest ih =>
      obtain ⟨title', kind', response', hmem, hr, hq⟩ := ih hk
      rw [List.filterMap_cons, silent]
      exact ⟨title', kind', response', List.mem_cons_of_mem _ hmem, hr, hq⟩

end Poses

/-- Acts that are all done pose their questions from the counter on, and move it past them. -/
theorem ofActs_poses {mode : TitleMode} {counter : Counter} {acts : List Act}
    (h : (ofActs mode counter acts).error? = none) :
    (ofActs mode counter acts).counter.first = counter.first ∧
      (ofActs mode counter acts).counter.next.toNat =
        counter.next.toNat + (acts.filterMap Act.response?).length ∧
      Poses mode counter.first counter.next.toNat acts (ofActs mode counter acts).questions := by
  induction acts generalizing counter with
  | nil => exact ⟨rfl, rfl, .nil _⟩
  | cons act acts ih =>
      cases hact : (ofAct mode counter act).error? with
      | some e =>
          rw [ofActs, andThen_of_some hact, hact] at h
          cases h
      | none =>
          rw [ofActs, error?_andThen hact] at h
          obtain ⟨hfirst, hnext, hposes⟩ := ih h
          rw [ofActs, counter_andThen hact, questions_andThen hact]
          rcases ofAct_cases hact with
            ⟨title, kind, response, c, rfl, hsucc, hcounter, hquestions⟩ |
            ⟨hsilent, hcounter, hquestions⟩
          · obtain ⟨hsame, hsuccessor⟩ := Counter.next_of_succ? hsucc
            rw [hcounter] at hfirst hnext hposes ⊢
            rw [hsame, hsuccessor] at hposes
            refine ⟨hfirst.trans hsame, ?_, ?_⟩
            · rw [hnext, hsuccessor, List.filterMap_cons]
              simp only [Act.response?, List.length_cons]
              omega
            · rw [hquestions]
              exact .ask rfl rfl rfl rfl rfl hposes
          · rw [hcounter] at hfirst hnext hposes ⊢
            refine ⟨hfirst, ?_, ?_⟩
            · rw [hnext, List.filterMap_cons, hsilent]
            · rw [hquestions]
              exact .other hsilent hposes

/-- Where the numbers give out, the acts up to the last question have posed theirs, and the counter
stays at the greatest number, which this question has. -/
theorem ofActs_exhausted {mode : TitleMode} {counter : Counter} {acts : List Act} {last : UInt64}
    (h : (ofActs mode counter acts).error? = some (.idsExhausted last)) :
    ∃ done title kind response rest, acts = done ++ .ask title kind response :: rest ∧
      (ofActs mode counter done).error? = none ∧
      ofActs mode counter acts = ofActs mode counter (done ++ [.ask title kind response]) ∧
      last.toNat = UInt64.size - 1 ∧ (ofActs mode counter acts).counter.next = last ∧
      last.toNat = counter.next.toNat + (done.filterMap Act.response?).length ∧
      Poses mode counter.first counter.next.toNat (done ++ [.ask title kind response])
        (ofActs mode counter acts).questions := by
  rcases ofActs_cases mode counter acts with hall | ⟨done, act, rest, e, hacts, hdone, hact, heq⟩
  · rw [hall] at h
    cases h
  · obtain ⟨hfirst, hnext, hposes⟩ := ofActs_poses hdone
    have hlast : (ofActs mode counter acts).error? = some e := by
      rw [heq, ofActs_concat, error?_andThen hdone, hact]
    obtain rfl : ConversionError.idsExhausted last = e := Option.some.inj (h.symm.trans hlast)
    rcases ofAct_eq_some hact with
      ⟨title, kind, response, rfl, hid, hgreatest, hcounter, hquestions⟩ | ⟨span, -, ⟨⟩⟩
    obtain rfl := ConversionError.idsExhausted.inj hid
    refine ⟨done, title, kind, response, rest, hacts, hdone, heq, hgreatest, ?_, hnext, ?_⟩
    · rw [heq, ofActs_concat, counter_andThen hdone, hcounter]
    · rw [heq, ofActs_concat, questions_andThen hdone, hquestions]
      refine hposes.append ?_
      rw [← hnext, ← hfirst]
      exact .ask rfl rfl rfl rfl rfl (.nil _)

end Yield

theorem Session.convertChildren_eq_ofActs (source : List Char) (mode : TitleMode) (s : Session)
    (e : Element) :
    s.convertChildren source mode e =
      s.extend (Yield.ofActs mode s.counter (e.agenda source mode)) := by
  rw [convertChildren_eq_extend, Yield.ofElement_eq_ofActs]

/-- A conversion that succeeds has done all that is on the agenda of the root. -/
theorem exists_of_convert_eq_ok {xml : String} {options : Options} {c : Conversion}
    (h : convert xml options = .ok c) :
    ∃ document, Markup.Document.parse xml = .ok document ∧
      let y := Yield.ofActs options.titleMode (.fresh options.startId)
        (document.root.agenda document.source options.titleMode)
      y.error? = none ∧ c = y.conversion := by
  cases hdocument : Markup.Document.parse xml with
  | error error =>
      rw [convert_eq_unreadable hdocument] at h
      cases h
  | ok document =>
      rw [convert_eq_result hdocument, Yield.ofElement_eq_ofActs, Yield.result] at h
      split at h
      · cases h
      · rename_i hok
        cases h
        exact ⟨document, rfl, hok, rfl⟩

end GiftQuiz
