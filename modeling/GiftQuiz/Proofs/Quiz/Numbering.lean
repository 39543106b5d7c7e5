import GiftQuiz.Proofs.Quiz.Yield

/-!
# Numbering of questions

One counter runs through all levels of a problem. `Element.responses` lists the responses of a
problem in document order, those inside nested problems included and those inside any other
element not. `Asks n` relates a list of responses to the questions asked for them under the numbers
from `n` on. `ofNodes_induction` leads a property of all stretches of a descent back to its single
steps, and `numbers_ofNodes` says by it that every stretch either asks for all of its responses,
under the numbers from its counter on, or runs out of numbers because they do not fit below 2^64.

`convert_numbers_responses` says this of the conversion of a document: when it runs out of numbers,
how many questions it asks, what their headers and bodies are, and which of them lack an answer.
-/

namespace GiftQuiz

open Markup (Element Node Document)

namespace Markup.Element

mutual

/-- The responses inside an element that are reached through problems only, in document order. -/
def responses : Element → List (ResponseKind × Element)
  | ⟨_, _, children, _⟩ => responsesAmong children

/-- The responses among some children and inside the problems among them. -/
def responsesAmong : List (Node Element) → List (ResponseKind × Element)
  | [] => []
  | .text _ :: rest => responsesAmong rest
  | .element e :: rest =>
    match Role.ofName e.name with
    | .problem => responses e ++ responsesAmong rest
    | .response kind => (kind, e) :: responsesAmong rest
    | .content => responsesAmong rest

end

theorem responses_eq (e : Element) : e.responses = responsesAmong e.children := by
  cases e
  rw [responses]

end Markup.Element

def lacksAnswer (r : ResponseKind × Element) : Bool :=
  r.1 == .numerical && (r.2.attribute? "answer").isNone

namespace Warning

def isMissingAnswer : Warning → Bool
  | .missingAnswer _ => true
  | _ => false

end Warning

/-! ## Pieces of a block -/

namespace Body

def fragments (b : Body) : List String :=
  b.opening :: (b.lines ++ [closing])

/-- What holds of the lines of a body, from what holds of each kind of line. -/
theorem forall_mem_lines {b : Body} {P : String → Prop} (choice : ∀ c, P (choiceLine c))
    (weighted : ∀ c share, P (weightedLine c share))
    (answer : ∀ a tolerance, b = .numerical a tolerance → P (answerLine a tolerance)) :
    ∀ l ∈ b.lines, P l := by
  intro l hl
  cases b with
  | multipleChoice choices =>
      obtain ⟨c, -, rfl⟩ := List.mem_map.mp hl
      exact choice c
  | checkboxes choices =>
      obtain ⟨⟨c, share⟩, -, rfl⟩ := List.mem_map.mp hl
      exact weighted c share
  | numerical a tolerance =>
      obtain rfl := List.mem_singleton.mp hl
      exact answer a tolerance rfl

/-- Every line between the braces begins with a tab. -/
theorem head?_of_mem_lines {b : Body} {line : String} (h : line ∈ b.lines) :
    line.toList.head? = some '\t' := by
  refine forall_mem_lines (P := fun l => l.toList.head? = some '\t') ?_ ?_ ?_ line h
  · intro c
    simp [choiceLine]
  · intro c share
    simp [weightedLine]
  · intro a tolerance _
    simp [answerLine]

end Body

namespace Question

/-- Whether a piece of a document is a header: a name in double colons, on the first line or
behind an empty one. -/
def isHeader (fragment : String) : Bool :=
  "::Q".toList.isPrefixOf fragment.toList || "\n::Q".toList.isPrefixOf fragment.toList

theorem fragments_eq (q : Question) : q.fragments = q.header :: q.body.fragments := rfl

theorem exists_header_eq (q : Question) :
    ∃ lead text, lead ∈ ["", "\n"] ∧
      q.header = lead ++ "::Q" ++ toString q.id.toNat ++ "::" ++ text := by
  refine ⟨if q.follows then "\n" else "",
    (if q.html then htmlMarker else "") ++ q.title ++ "\x7b", ?_, ?_⟩
  · cases q.follows <;> simp
  · simp only [header, String.append_assoc]

theorem isHeader_header (q : Question) : isHeader q.header = true := by
  obtain ⟨lead, text, hlead, heq⟩ := q.exists_header_eq
  rw [heq]
  simp only [List.mem_cons, List.not_mem_nil, or_false] at hlead
  rcases hlead with rfl | rfl
  · simp [isHeader]
  · simp [isHeader]

theorem isHeader_of_mem_fragments {b : Body} {fragment : String} (h : fragment ∈ b.fragments) :
    isHeader fragment = false := by
  simp only [Body.fragments, List.mem_cons, List.mem_append, List.not_mem_nil, or_false] at h
  rcases h with rfl | hline | rfl
  · cases b <;> simp [isHeader, Body.opening, List.isPrefixOf]
  · have htab := Body.head?_of_mem_lines hline
    cases hl : fragment.toList with
    | nil => simp [hl] at htab
    | cons c t =>
        rw [hl, List.head?_cons, Option.some.injEq] at htab
        subst htab
        simp [isHeader, hl, List.isPrefixOf]
  · decide

theorem filter_isHeader (qs : List Question) :
    (qs.flatMap fragments).filter isHeader = qs.map header := by
  induction qs with
  | nil => rfl
  | cons q qs ih =>
      have hbody : q.body.fragments.filter isHeader = [] :=
        List.filter_eq_nil_iff.mpr fun f hf => by simp [isHeader_of_mem_fragments hf]
      rw [List.flatMap_cons, List.filter_append, ih, fragments_eq,
        List.filter_cons_of_pos (isHeader_header q), hbody]
      rfl

end Question

/-! ## Questions under consecutive numbers -/

/-- The questions of some responses, numbered from `n` on. -/
inductive Asks : Nat → List (ResponseKind × Element) → List Question → Prop
  | nil (n : Nat) : Asks n [] []
  | cons {n : Nat} {kind : ResponseKind} {response : Element} {q : Question}
      {rs : List (ResponseKind × Element)} {qs : List Question} (id : q.id.toNat = n)
      (body : q.body = Body.ofResponse kind response) (rest : Asks (n + 1) rs qs) :
      Asks n ((kind, response) :: rs) (q :: qs)

namespace Asks

variable {n : Nat} {rs : List (ResponseKind × Element)} {qs : List Question}

theorem length_eq (h : Asks n rs qs) : qs.length = rs.length := by
  induction h with
  | nil => rfl
  | cons id body rest ih => simp [ih]

theorem append {rs' : List (ResponseKind × Element)} {qs' : List Question} (h : Asks n rs qs)
    (h' : Asks (n + rs.length) rs' qs') : Asks n (rs ++ rs') (qs ++ qs') := by
  induction h with
  | nil => exact h'
  | @cons n kind response q rs qs id body rest ih =>
      refine cons id body (ih ?_)
      rw [List.length_cons, Nat.add_comm rs.length, ← Nat.add_assoc] at h'
      exact h'

theorem fragments_eq (h : Asks n rs qs) :
    qs.flatMap Question.fragments =
      ((qs.map Question.header).zip rs).flatMap fun (header, kind, response) =>
        header :: (Body.ofResponse kind response).fragments := by
  induction h with
  | nil => rfl
  | cons id body rest ih =>
      rw [List.flatMap_cons, ih, Question.fragments_eq, body]
      rfl

theorem exists_header_eq (h : Asks n rs qs) {k : Nat} {header : String}
    (hk : (qs.map Question.header)[k]? = some header) :
    ∃ lead text, lead ∈ ["", "\n"] ∧
      header = lead ++ "::Q" ++ toString (n + k) ++ "::" ++ text := by
  induction h generalizing k with
  | nil => simp at hk
  | @cons n kind response q rs qs id body rest ih =>
      cases k with
      | zero =>
          obtain rfl : q.header = header := by simpa using hk
          rw [Nat.add_zero, ← id]
          exact q.exists_header_eq
      | succ k =>
          rw [show n + (k + 1) = n + 1 + k by omega]
          exact ih hk

/-- The question of a response warns of a missing answer exactly when the response has none. -/
theorem answerWarning?_eq {q : Question} {kind : ResponseKind} {response : Element}
    (body : q.body = Body.ofResponse kind response) :
    Session.answerWarning? q =
      if lacksAnswer (kind, response) then some (.missingAnswer q.id) else none := by
  unfold Session.answerWarning? lacksAnswer
  rw [body]
  cases kind with
  | multipleChoice => rfl
  | checkboxes => rfl
  | numerical => cases h : response.attribute? "answer" <;> simp [Body.ofResponse, h]

theorem count_cons {q : Question} {kind : ResponseKind} {response : Element}
    (body : q.body = Body.ofResponse kind response) (qs : List Question) (i : UInt64) :
    ((q :: qs).filterMap Session.answerWarning?).count (.missingAnswer i) =
      (qs.filterMap Session.answerWarning?).count (.missingAnswer i) +
        if q.id = i ∧ lacksAnswer (kind, response) then 1 else 0 := by
  rw [List.filterMap_cons, answerWarning?_eq body]
  cases lacksAnswer (kind, response) with
  | false => simp
  | true => simp [List.count_cons]

theorem count_of_lt (h : Asks n rs qs) {i : UInt64} (hi : i.toNat < n) :
    (qs.filterMap Session.answerWarning?).count (.missingAnswer i) = 0 := by
  induction h with
  | nil => rfl
  | @cons n kind response q rs qs id body rest ih =>
      have hne : q.id ≠ i := fun heq => by rw [← id, heq] at hi; omega
      rw [count_cons body, ih (by omega), if_neg (fun hc => hne hc.1)]

/-- A number is warned of once if the response under it lacks an answer, and else not at all. -/
theorem count_eq (h : Asks n rs qs) (i : UInt64) :
    (qs.filterMap Session.answerWarning?).count (.missingAnswer i) =
      if n ≤ i.toNat ∧ (rs[i.toNat - n]?).any lacksAnswer then 1 else 0 := by
  induction h with
  | nil => simp
  | @cons n kind response q rs qs id body rest ih =>
      rw [count_cons body]
      rcases Nat.lt_trichotomy i.toNat n with hlt | rfl | hgt
      · have hne : q.id ≠ i := fun heq => by rw [← id, heq] at hlt; omega
        rw [count_of_lt rest (by omega), if_neg (fun hc => hne hc.1),
          if_neg (fun hc => absurd hc.1 (by omega))]
      · have hid : q.id = i := UInt64.toNat_inj.mp id
        rw [count_of_lt rest (by omega)]
        simp [hid]
      · have hne : q.id ≠ i := fun heq => by rw [← id, heq] at hgt; omega
        rw [ih, show i.toNat - n = (i.toNat - (n + 1)) + 1 by omega, List.getElem?_cons_succ]
        simp only [hne, Nat.succ_le_of_lt hgt, Nat.le_of_lt hgt, true_and, false_and, if_false,
          Nat.add_zero]

end Asks

/-! ## What a stretch numbers -/

namespace Yield

/-- What holds of each step of a descent, with the responses it asks for, and is kept when one
stretch follows another one, holds of every stretch. -/
theorem ofNodes_induction {source : List Char} {mode : TitleMode}
    {P : Counter → List (ResponseKind × Element) → Yield → Prop}
    (leftOver : ∀ title counter, P counter [] (leftOver mode title counter))
    (asked : ∀ title kind response counter,
      P counter [(kind, response)] (asked mode title kind response counter))
    (unsupported : ∀ name counter,
      P counter [] { warnings := [.unsupportedElement name], counter })
    (offBoundary : ∀ span counter rs, P counter rs { counter, error? := some (.offBoundary span) })
    (andThen : ∀ counter rs rs' y next, P counter rs y → (∀ c, P c rs' (next c)) →
      P counter (rs ++ rs') (y.andThen next))
    (title : Title) (counter : Counter) (nodes : List (Node Element)) :
    P counter (Element.responsesAmong nodes) (ofNodes source mode title counter nodes) := by
  induction nodes using Element.nodes_induction generalizing title counter with
  | nil =>
      rw [Element.responsesAmong, ofNodes]
      exact leftOver title counter
  | text t rest ih =>
      rw [Element.responsesAmong, ofNodes]
      exact ih title counter
  | element e rest inner ih =>
      rw [Element.responsesAmong, ofNodes]
      cases Role.ofName e.name with
      | problem =>
          simp only [ofElement_eq, Element.responses_eq]
          exact andThen _ _ _ _ _ (inner {} counter) (ih title)
      | response kind => exact andThen _ _ _ _ _ (asked title kind e counter) (ih {})
      | content =>
          simp only
          cases mode.contribution source e with
          | part part => exact ih (title.push part) counter
          | unsupported name => exact andThen _ _ _ _ _ (unsupported name counter) (ih title)
          | offBoundary span => exact offBoundary span counter _

/-- What a stretch with the responses `rs` does to the numbers, from a counter on: it asks for all
of them, or the numbers do not suffice, or an element without source text has stopped it. -/
def Numbers (counter : Counter) (rs : List (ResponseKind × Element)) (y : Yield) : Prop :=
  match y.error? with
  | none =>
    y.counter.first = counter.first ∧ y.counter.next.toNat = counter.next.toNat + rs.length ∧
      Asks counter.next.toNat rs y.questions
  | some (.idsExhausted last) =>
    last.toNat = UInt64.size - 1 ∧ UInt64.size ≤ counter.next.toNat + rs.length
  | some (.offBoundary _) => True
  | some (.unreadable _) => False

/-- Stretches that number their responses number those of both, one after the other. -/
theorem numbers_andThen {counter : Counter} {rs rs' : List (ResponseKind × Element)} {y : Yield}
    {next : Counter → Yield} (h : Numbers counter rs y)
    (h' : ∀ c, Numbers c rs' (next c)) : Numbers counter (rs ++ rs') (y.andThen next) := by
  obtain ⟨questions, warnings, reached, _ | e⟩ := y
  · obtain ⟨hfirst, hnext, hasks⟩ := h
    have hz := h' reached
    simp only at hfirst hnext hasks
    simp only [andThen]
    generalize next reached = z at hz ⊢
    obtain ⟨_, _, c, _ | (_ | last | _)⟩ := z
    · obtain ⟨hfirst', hnext', hasks'⟩ := hz
      refine ⟨hfirst'.trans hfirst, ?_, hasks.append (hnext ▸ hasks')⟩
      simp only [hnext', hnext, List.length_append, Nat.add_assoc]
    · exact hz
    · refine ⟨hz.1, ?_⟩
      have hle := hz.2
      rw [hnext, Nat.add_assoc] at hle
      rwa [List.length_append]
    · trivial
  · rcases e with _ | last | _
    · exact h
    · refine ⟨h.1, Nat.le_trans h.2 ?_⟩
      rw [List.length_append]
      omega
    · trivial

/-- A response takes the next number, and there is one behind it unless it is the greatest. -/
theorem numbers_asked (mode : TitleMode) (title : Title) (kind : ResponseKind) (e : Element)
    (counter : Counter) : Numbers counter [(kind, e)] (asked mode title kind e counter) := by
  unfold asked Numbers
  cases h : counter.succ? with
  | none =>
      have hlast := Counter.succ?_eq_none_iff.mp h
      refine ⟨hlast, ?_⟩
      rw [hlast, List.length_singleton]
      decide
  | some c =>
      obtain ⟨hfirst, hnext⟩ := Counter.next_of_succ? h
      exact ⟨hfirst, hnext, .cons rfl rfl (.nil _)⟩

theorem numbers_nil (counter : Counter) (warnings : List Warning) :
    Numbers counter [] { warnings, counter } :=
  ⟨rfl, rfl, .nil _⟩

/-- Every stretch numbers its responses, at any depth, from its counter on. -/
theorem numbers_ofNodes (source : List Char) (mode : TitleMode) (title : Title)
    (counter : Counter) (nodes : List (Node Element)) :
    Numbers counter (Element.responsesAmong nodes)
      (ofNodes source mode title counter nodes) := by
  refine ofNodes_induction (P := Numbers) ?_ ?_ ?_ ?_ ?_ title counter nodes
  · intro title counter
    exact numbers_nil counter _
  · intro title kind response counter
    exact numbers_asked mode title kind response counter
  · intro name counter
    exact numbers_nil counter _
  · intro span counter rs
    trivial
  · intro counter rs rs' y next h h'
    exact numbers_andThen h h'

/-- Of the warnings of a stretch, those about answers are the ones its questions give rise to. -/
def ReportsAnswers (y : Yield) : Prop :=
  y.warnings.filter Warning.isMissingAnswer = y.questions.filterMap Session.answerWarning?

theorem reportsAnswers_andThen {y : Yield} {next : Counter → Yield} (h : y.ReportsAnswers)
    (h' : ∀ c, (next c).ReportsAnswers) : (y.andThen next).ReportsAnswers := by
  obtain ⟨questions, warnings, reached, error?⟩ := y
  cases error? with
  | none =>
      simp only [ReportsAnswers, andThen, List.filter_append, List.filterMap_append] at h ⊢
      rw [h, h' reached]
  | some e => exact h

theorem reportsAnswers_asked (mode : TitleMode) (title : Title) (kind : ResponseKind)
    (e : Element) (counter : Counter) : (asked mode title kind e counter).ReportsAnswers := by
  have hq (q : Question) : (Session.answerWarning? q).toList.filter Warning.isMissingAnswer =
      [q].filterMap Session.answerWarning? := by
    unfold Session.answerWarning?
    rcases q with ⟨_, _, _, _, _ | _ | ⟨_ | _, _⟩⟩ <;> rfl
  unfold asked
  cases counter.succ? with
  | none => exact hq _
  | some c => exact hq _

theorem reportsAnswers_ofNodes (source : List Char) (mode : TitleMode) (title : Title)
    (counter : Counter) (nodes : List (Node Element)) :
    (ofNodes source mode title counter nodes).ReportsAnswers := by
  refine ofNodes_induction (P := fun _ _ y => y.ReportsAnswers) ?_ ?_ ?_ ?_ ?_ title counter nodes
  · intro title counter
    rw [leftOver, ReportsAnswers]
    cases (title.text mode).isEmpty <;> rfl
  · intro title kind response counter
    exact reportsAnswers_asked mode title kind response counter
  · intro name counter
    rfl
  · intro span counter rs
    rfl
  · intro counter rs rs' y next h h'
    exact reportsAnswers_andThen h h'

end Yield

/-! ## Conversion of a document -/

/-- The pieces of a document with one block for each of some responses, numbered from `n` on: the
headers are as many as the responses, each carries its number, and each is followed by the body
of its response. -/
def IsBlocks (n : Nat) (rs : List (ResponseKind × Element)) (fragments : List String) : Prop :=
  ∃ headers : List String,
    fragments.filter Question.isHeader = headers ∧
    headers.length = rs.length ∧
    (∀ k header, headers[k]? = some header →
      ∃ lead text, lead ∈ ["", "\n"] ∧
        header = lead ++ "::Q" ++ toString (n + k) ++ "::" ++ text) ∧
    fragments = (headers.zip rs).flatMap fun (header, kind, response) =>
      header :: (Body.ofResponse kind response).fragments

theorem Asks.isBlocks {n : Nat} {rs : List (ResponseKind × Element)} {qs : List Question}
    (h : Asks n rs qs) : IsBlocks n rs (qs.flatMap Question.fragments) :=
  ⟨qs.map Question.header, Question.filter_isHeader qs, by rw [List.length_map, h.length_eq],
    fun _ _ hk => h.exists_header_eq hk, h.fragments_eq⟩

/-- How a stretch that numbers its responses can end. -/
theorem Yield.Numbers.result_cases {counter : Counter} {rs : List (ResponseKind × Element)}
    {y : Yield} (h : y.Numbers counter rs) :
    (∃ last, y.result = .error (.idsExhausted last) ∧ last.toNat = UInt64.size - 1 ∧
        UInt64.size ≤ counter.next.toNat + rs.length) ∨
      (∃ span, y.result = .error (.offBoundary span)) ∨
      (y.result = .ok y.conversion ∧
        y.counter.first = counter.first ∧
        y.counter.next.toNat = counter.next.toNat + rs.length ∧
        Asks counter.next.toNat rs y.questions) := by
  obtain ⟨questions, warnings, reached, _ | (_ | last | span)⟩ := y
  · exact Or.inr (Or.inr ⟨rfl, h⟩)
  · exact h.elim
  · exact Or.inl ⟨last, rfl, h⟩
  · exact Or.inr (Or.inl ⟨span, rfl⟩)

/-- Of a document that can be read, the conversion is a stretch with the responses of its root. -/
theorem exists_convert_eq_result {xml : String} {document : Document}
    (h : Document.parse xml = .ok document) (options : Options) :
    ∃ y : Yield, convert xml options = y.result ∧
      y.Numbers (.fresh options.startId) document.root.responses ∧ y.ReportsAnswers := by
  refine ⟨_, convert_eq_result h options, ?_, ?_⟩
  · rw [Yield.ofElement_eq, Element.responses_eq]
    exact Yield.numbers_ofNodes ..
  · rw [Yield.ofElement_eq]
    exact Yield.reportsAnswers_ofNodes ..

theorem convert_eq_unreadable_iff {xml : String} {e : Markup.ReadError} (options : Options) :
    convert xml options = .error (.unreadable e) ↔ Document.parse xml = .error e := by
  refine ⟨fun h => ?_, fun h => convert_eq_unreadable h options⟩
  cases hdoc : Document.parse xml with
  | error e' =>
      rw [convert_eq_unreadable hdoc] at h
      cases h
      rfl
  | ok document =>
      obtain ⟨y, hy, hnumbers, -⟩ := exists_convert_eq_result hdoc options
      rw [hy] at h
      rcases hnumbers.result_cases with ⟨_, hy, -⟩ | ⟨_, hy⟩ | ⟨hy, -⟩
      all_goals
        rw [hy] at h
        cases h

/-- A conversion of a document that can be read runs out of numbers exactly when those of its
responses do not fit below 2^64, and then behind the greatest one. Else it asks for every response
reached through problems, under consecutive numbers from the first one on, and warns once of every
one that lacks an answer. A document that cannot be read is refused for that alone. -/
theorem convert_numbers_responses (xml : String) (options : Options) :
    (∀ e, Document.parse xml = .error e ↔ convert xml options = .error (.unreadable e)) ∧
      ∀ document, Document.parse xml = .ok document →
        (∀ span, convert xml options ≠ .error (.offBoundary span)) →
        let s := options.startId.toNat
        let rs := document.root.responses
        ((∃ last, convert xml options = .error (.idsExhausted last)) ↔
          UInt64.size ≤ s + rs.length) ∧
        (∀ last, convert xml options = .error (.idsExhausted last) →
          last.toNat = UInt64.size - 1) ∧
        (s + rs.length < UInt64.size →
          ∃ c, convert xml options = .ok c ∧
            c.count.toNat = rs.length ∧
            c.nextId.toNat = s + rs.length ∧
            IsBlocks s rs c.fragments ∧
            ∀ i : UInt64, c.warnings.count (.missingAnswer i) =
              if s ≤ i.toNat ∧ (rs[i.toNat - s]?).any lacksAnswer then 1 else 0) := by
  refine ⟨fun e => (convert_eq_unreadable_iff options).symm, ?_⟩
  intro document hdoc hspan s rs
  obtain ⟨y, hy, hnumbers, hanswers⟩ := exists_convert_eq_result hdoc options
  rw [hy] at hspan ⊢
  rcases hnumbers.result_cases with
    ⟨last, hres, hlast, hsize⟩ | ⟨span, hres⟩ | ⟨hres, hfirst, hnext, hasks⟩
  · rw [hres]
    refine ⟨⟨fun _ => hsize, fun _ => ⟨last, rfl⟩⟩, ?_,
      fun hlt => absurd hlt (Nat.not_lt.mpr hsize)⟩
    rintro _ ⟨⟩
    exact hlast
  · exact absurd hres (hspan span)
  · have hfit : ¬ UInt64.size ≤ s + rs.length := by
      have hbound := y.counter.next.toNat_lt_size
      rw [hnext] at hbound
      exact Nat.not_le.mpr hbound
    rw [hres]
    refine ⟨⟨?_, fun h => absurd h hfit⟩, ?_,
      fun _ => ⟨_, rfl, ?_, hnext, hasks.isBlocks, fun i => ?_⟩⟩
    · rintro ⟨_, ⟨⟩⟩
    · rintro _ ⟨⟩
    · rw [Yield.count_conversion, Counter.toNat_used, hnext, hfirst]
      exact Nat.add_sub_cancel_left ..
    · refine Eq.trans ?_ (hasks.count_eq i)
      rw [← hanswers]
      exact (List.count_filter rfl).symm

/-- A problem with three responses, one of which stands inside another element. -/
def threeResponses : String :=
  "<a><numericalresponse/><b><numericalresponse/></b>" ++
    "<problem><choiceresponse/></problem></a>"

/-- The response inside another element does not count, and for the others the last two numbers
are enough. -/
theorem convert_last_two_numbers :
    ∃ document, Document.parse threeResponses = .ok document ∧
      document.root.responses.length = 2 ∧
      (∀ span, convert threeResponses ⟨0xFFFFFFFFFFFFFFFD, .markup⟩ ≠
        .error (.offBoundary span)) ∧
      ∃ c, convert threeResponses ⟨0xFFFFFFFFFFFFFFFD, .markup⟩ = .ok c ∧
        c.count.toNat = 2 ∧ c.nextId.toNat = UInt64.size - 1 := by
  have hread : (Document.parse threeResponses).toOption.map (·.root.responses.length) = some 2 := by
    decide +kernel
  have hok : (convert threeResponses ⟨0xFFFFFFFFFFFFFFFD, .markup⟩).toOption.isSome = true := by
    decide +kernel
  cases hdoc : Document.parse threeResponses with
  | error e =>
      rw [hdoc] at hread
      cases hread
  | ok document =>
      rw [hdoc] at hread
      have hlen : document.root.responses.length = 2 := Option.some.inj hread
      have hspan : ∀ span, convert threeResponses ⟨0xFFFFFFFFFFFFFFFD, .markup⟩ ≠
          .error (.offBoundary span) := by
        intro span h
        rw [h] at hok
        cases hok
      obtain ⟨-, -, hfit⟩ := (convert_numbers_responses _ _).2 document hdoc hspan
      obtain ⟨c, hc, hcount, hnext, -⟩ := hfit (by rw [hlen]; decide)
      rw [hlen] at hcount hnext
      exact ⟨document, rfl, hlen, hspan, c, hc, hcount, hnext⟩

end GiftQuiz
