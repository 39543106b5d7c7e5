import GiftQuiz.Proofs.Quiz.Agenda

/-!
# Layout of a quiz

A quiz is a sequence of complete blocks. `IsBlock` gives the rules for the pieces of one: a header
with its number, an opening, a line for each choice or one line for an answer, and a closing brace.
`convertChildren_appends_blocks` says that whatever a walk appends to a quiz is such blocks, one for
each response in document order, also where the numbers give out: the block under the greatest
number is complete, and what has been appended is what the agenda up to this block amounts to.

A header begins with a line feed exactly when its number is not the first one, so that the document
of a whole conversion is its blocks with an empty line between each two of them.
-/

namespace GiftQuiz

open Markup (Element Node Document)

/-! ## Rules of the layout -/

/-- The path from a response to its choices, if it is of a kind that has any. -/
def ResponseKind.choicePath? : ResponseKind → Option String
  | .multipleChoice => some "choicegroup/choice"
  | .checkboxes => some "checkboxgroup/choice"
  | .numerical => none

def headerText (mode : TitleMode) (newline : Bool) (id : Nat) (title : String) : String :=
  (if newline then "\n" else "") ++ "::Q" ++ toString id ++ "::" ++
    (match mode with
      | .markup => "[html]"
      | .text => "") ++ title ++ "\x7b"

/-- The pieces of a complete block for a response. -/
inductive IsBlock (mode : TitleMode) (newline : Bool) (id : Nat) :
    ResponseKind × Element → List String → Prop
  | choices {kind : ResponseKind} {response : Element} {path : String} {lines : List String}
      (title : String) (hpath : kind.choicePath? = some path)
      (one : lines.length = (response.select path).length)
      (line : ∀ l ∈ lines, ∃ t, l = "\t" ++ t ++ "\n") :
      IsBlock mode newline id (kind, response)
        (headerText mode newline id title :: "\n" :: (lines ++ ["\x7d\n"]))
  | answer {response : Element} (title t : String) :
      IsBlock mode newline id (.numerical, response)
        [headerText mode newline id title, "#\n", "\t" ++ t ++ "\n", "\x7d\n"]

/-- Complete blocks for some responses, in order, under consecutive numbers from `n` on. -/
structure AreBlocks (mode : TitleMode) (newline : Nat → Bool) (n : Nat)
    (rs : List (ResponseKind × Element)) (blocks : List (List String)) : Prop where
  one : blocks.length = rs.length
  complete : ∀ k r block, rs[k]? = some r → blocks[k]? = some block →
    IsBlock mode (newline (n + k)) (n + k) r block

/-! ## Questions are blocks -/

namespace Body

theorem exists_choiceLine_eq (c : Choice) : ∃ t, choiceLine c = "\t" ++ t ++ "\n" :=
  ⟨(if c.correct then "=" else "~") ++ Text.escaped c.text,
    by simp only [choiceLine, String.append_assoc]⟩

theorem exists_weightedLine_eq (c : Choice) (share : Rat) :
    ∃ t, weightedLine c share = "\t" ++ t ++ "\n" := by
  refine ⟨"~%" ++ Weight.text share ++ "%" ++ Text.escaped c.text, ?_⟩
  unfold weightedLine
  rw [show "\t~%" = "\t" ++ "~%" from rfl]
  simp only [String.append_assoc]

theorem exists_answerLine_eq (answer tolerance : Option String) :
    ∃ t, answerLine answer tolerance = "\t" ++ t ++ "\n" := by
  refine ⟨"=%100%" ++ (answer.map Text.escaped).getD "" ++ (tolerance.map (":0" ++ ·)).getD "", ?_⟩
  unfold answerLine
  rw [show "\t=%100%" = "\t" ++ "=%100%" from rfl]
  simp only [String.append_assoc]

theorem exists_of_mem_lines {b : Body} : ∀ l ∈ b.lines, ∃ t, l = "\t" ++ t ++ "\n" :=
  forall_mem_lines exists_choiceLine_eq exists_weightedLine_eq fun a tolerance _ =>
    exists_answerLine_eq a tolerance

end Body

theorem Weight.length_shares (correct : List Bool) : (shares correct).length = correct.length :=
  List.length_map ..

namespace Question

theorem header_eq {mode : TitleMode} {q : Question} (html : q.html = (mode == .markup)) :
    q.header = headerText mode q.follows q.id.toNat q.title := by
  unfold header headerText
  rw [html]
  cases mode <;> rfl

/-- The pieces of the question for a response are a complete block. -/
theorem isBlock_fragments {mode : TitleMode} {q : Question} {kind : ResponseKind}
    {response : Element} (html : q.html = (mode == .markup))
    (body : q.body = Body.ofResponse kind response) :
    IsBlock mode q.follows q.id.toNat (kind, response) q.fragments := by
  rw [fragments, header_eq html, body]
  cases kind with
  | multipleChoice =>
      refine .choices q.title rfl ?_ Body.exists_of_mem_lines
      simp [Body.ofResponse, Body.lines]
  | checkboxes =>
      refine .choices q.title rfl ?_ Body.exists_of_mem_lines
      simp [Body.ofResponse, Body.lines, Weight.length_shares]
  | numerical =>
      obtain ⟨t, ht⟩ := Body.exists_answerLine_eq (response.attribute? "answer")
        (Body.tolerance? response)
      have hblock : IsBlock mode q.follows q.id.toNat (.numerical, response) _ := .answer q.title t
      rw [← ht] at hblock
      exact hblock

/-- A question as it is written with no other one before it. -/
def alone (q : Question) : Question :=
  { q with follows := false }

theorem alone_of_not_follows {q : Question} (h : q.follows = false) : q.alone = q := by
  unfold alone
  rw [← h]

theorem join_fragments_of_follows {q : Question} (h : q.follows = true) :
    String.join q.fragments = "\n" ++ String.join q.alone.fragments := by
  have hheader : q.header = "\n" ++ q.alone.header := by
    unfold header alone
    rw [h]
    simp only [if_true, Bool.false_eq_true, if_false, String.empty_append, String.append_assoc]
  show String.join (q.header :: q.body.fragments) =
    "\n" ++ String.join (q.alone.header :: q.body.fragments)
  rw [String.join_cons, String.join_cons, hheader, String.append_assoc]

/-- A text and some questions behind it stand one below the other, with empty lines between them. -/
theorem append_join_eq {qs : List Question} (h : ∀ q ∈ qs, q.follows = true) (t : String) :
    t ++ String.join (qs.flatMap fragments) =
      "\n".intercalate (t :: qs.map (String.join ·.alone.fragments)) := by
  induction qs generalizing t with
  | nil => simp
  | cons q qs ih =>
      have hq := join_fragments_of_follows (h q (List.mem_cons_self ..))
      have hqs := ih (fun q' hq' => h q' (List.mem_cons_of_mem _ hq'))
        (String.join q.alone.fragments)
      calc t ++ String.join ((q :: qs).flatMap fragments)
          = t ++ "\n" ++ (String.join q.alone.fragments ++ String.join (qs.flatMap fragments)) := by
            rw [List.flatMap_cons, String.join_append, hq]
            simp only [String.append_assoc]
        _ = t ++ "\n" ++ "\n".intercalate
              (String.join q.alone.fragments :: qs.map (String.join ·.alone.fragments)) := by
            rw [hqs]
        _ = "\n".intercalate (t :: (q :: qs).map (String.join ·.alone.fragments)) := by
            rw [List.map_cons, String.intercalate_cons_cons]

end Question

namespace Yield.Poses

variable {mode : TitleMode} {first : UInt64} {n : Nat} {acts : List Act} {qs : List Question}

/-- If the pieces of every question are a block, those of the questions are blocks in order. -/
theorem areBlocks_map (h : Poses mode first n acts qs) {newline : Nat → Bool}
    {pieces : Question → List String}
    (hpieces : ∀ q kind response, q.follows = (q.id != first) → q.html = (mode == .markup) →
      q.body = Body.ofResponse kind response →
      IsBlock mode (newline q.id.toNat) q.id.toNat (kind, response) (pieces q)) :
    AreBlocks mode newline n (acts.filterMap Act.response?) (qs.map pieces) := by
  refine ⟨(List.length_map _).trans h.length_eq, ?_⟩
  intro k r block hr hblock
  obtain ⟨q, hq, rfl⟩ : ∃ q, qs[k]? = some q ∧ pieces q = block := by
    simpa [List.getElem?_map] using hblock
  obtain ⟨title, kind, response, -, hr', hid, hfollows, hhtml, -, hbody⟩ := h.of_getElem? hq
  obtain rfl := Option.some.inj (hr'.symm.trans hr)
  rw [← hid]
  exact hpieces q kind response hfollows hhtml hbody

theorem areBlocks (h : Poses mode first n acts qs) :
    AreBlocks mode (fun id => id != first.toNat) n (acts.filterMap Act.response?)
      (qs.map Question.fragments) := by
  refine h.areBlocks_map fun q kind response hfollows hhtml hbody => ?_
  have hnewline : q.follows = (q.id.toNat != first.toNat) := by
    rw [hfollows, Bool.eq_iff_iff, bne_iff_ne, bne_iff_ne, Ne, Ne, UInt64.toNat_inj]
  rw [← hnewline]
  exact Question.isBlock_fragments hhtml hbody

theorem areBlocks_alone (h : Poses mode first n acts qs) :
    AreBlocks mode (fun _ => false) n (acts.filterMap Act.response?)
      (qs.map fun q => q.alone.fragments) :=
  h.areBlocks_map fun q _ _ _ hhtml hbody =>
    Question.isBlock_fragments (q := q.alone) hhtml hbody

theorem follows_of_lt (h : Poses mode first n acts qs) (hn : first.toNat < n) :
    ∀ q ∈ qs, q.follows = true := by
  intro q hq
  obtain ⟨k, hk⟩ := List.mem_iff_getElem?.mp hq
  obtain ⟨-, -, -, -, -, hid, hfollows, -⟩ := h.of_getElem? hk
  rw [hfollows, bne_iff_ne]
  intro hfirst
  rw [hfirst] at hid
  omega

theorem not_follows_head {q : Question} (h : Poses mode first first.toNat acts (q :: qs)) :
    q.follows = false := by
  obtain ⟨-, -, -, -, -, hid, hfollows, -⟩ := h.of_getElem? (k := 0) rfl
  rw [hfollows, UInt64.toNat_inj.mp hid, bne_self_eq_false]

theorem tail {q : Question} (h : Poses mode first n acts (q :: qs)) :
    ∃ acts', Poses mode first (n + 1) acts' qs := by
  generalize hqs : q :: qs = all at h
  induction h with
  | nil n => cases hqs
  | ask id follows html text body rest ih =>
      cases hqs
      exact ⟨_, rest⟩
  | other silent rest ih => exact ih hqs

/-- The questions that begin with the first number are blocks with an empty line between each two of
them. -/
theorem join_fragments_eq (h : Poses mode first first.toNat acts qs) :
    String.join (qs.flatMap Question.fragments) =
      "\n".intercalate (qs.map (String.join ·.alone.fragments)) := by
  cases qs with
  | nil => simp
  | cons q qs =>
      obtain ⟨acts', htail⟩ := h.tail
      have hfollow := htail.follows_of_lt (Nat.lt_succ_self _)
      have hhead := Question.alone_of_not_follows h.not_follows_head
      rw [List.flatMap_cons, String.join_append, List.map_cons, hhead]
      exact Question.append_join_eq hfollow (String.join q.fragments)

end Yield.Poses

/-! ## What a walk appends -/

namespace Session

/-- A walk appends complete blocks, one for each response in document order. If it gets to its end
these are all responses, and as many as the counter has moved. If the numbers give out it is one
block more than the counter has moved, the last block has the greatest number, where the counter
stays, and what has been added is what the agenda up to and including this block amounts to. -/
theorem convertChildren_appends_blocks (source : List Char) (mode : TitleMode) (s : Session)
    (e : Element) :
    let o := s.convertChildren source mode e
    let n := s.counter.next.toNat
    let newline := fun id => id != s.counter.first.toNat
    (o.error? = none →
      ∃ blocks, o.session.conversion.fragments = s.conversion.fragments ++ blocks.flatten ∧
        AreBlocks mode newline n e.responses blocks ∧
        o.session.counter.next.toNat = n + blocks.length) ∧
      (∀ last, o.error? = some (.idsExhausted last) →
        ∃ blocks, o.session.conversion.fragments = s.conversion.fragments ++ blocks.flatten ∧
          AreBlocks mode newline n (e.responses.take blocks.length) blocks ∧
          last.toNat = UInt64.size - 1 ∧ o.session.counter.next = last ∧
          n + blocks.length = last.toNat + 1 ∧
          ∃ done title kind response rest,
            e.agenda source mode = done ++ .ask title kind response :: rest ∧
            (Yield.ofActs mode s.counter done).error? = none ∧
            o = s.extend (Yield.ofActs mode s.counter (done ++ [.ask title kind response]))) ∧
      ∀ xml options c, convert xml options = .ok c →
        ∃ document blocks, Document.parse xml = .ok document ∧
          AreBlocks options.titleMode (fun _ => false) options.startId.toNat
            document.root.responses blocks ∧
          c.gift = "\n".intercalate (blocks.map String.join) := by
  intro o n newline
  have ho : o = s.extend (Yield.ofActs mode s.counter (e.agenda source mode)) := by
    rw [← Yield.ofElement_eq_ofActs]
    exact convertChildren_eq_extend source mode s e
  have hresponses := Element.filterMap_agenda source mode e
  refine ⟨?_, ?_, ?_⟩
  · intro hok
    rw [ho] at hok ⊢
    obtain ⟨-, hnext, hposes⟩ := Yield.ofActs_poses hok
    have hblocks := hposes.areBlocks
    rw [hresponses] at hblocks hnext
    refine ⟨_, ?_, hblocks, ?_⟩
    · rw [fragments_extend, Yield.fragments, List.flatMap_def]
    · rw [hblocks.one]
      exact hnext
  · intro last hover
    rw [ho] at hover
    obtain ⟨done, title, kind, response, rest, hacts, hdone, heq, hgreatest, hcounter, hnumber,
      hposes⟩ := Yield.ofActs_exhausted hover
    have hblocks := hposes.areBlocks
    let asked := (done ++ [Act.ask title kind response]).filterMap Act.response?
    let blocks := (Yield.ofActs mode s.counter (e.agenda source mode)).questions.map
      Question.fragments
    have hsplit : e.responses = asked ++ rest.filterMap Act.response? := by
      rw [← hresponses, hacts, ← List.filterMap_append, List.append_assoc]
      rfl
    have hasked : asked = done.filterMap Act.response? ++ [(kind, response)] := by
      rw [← show [Act.ask title kind response].filterMap Act.response? = [(kind, response)] from
        rfl, ← List.filterMap_append]
    have hlength : blocks.length = asked.length := hblocks.one
    refine ⟨blocks, ?_, ?_, hgreatest, ?_, ?_, done, title, kind, response, rest, hacts, hdone,
      ?_⟩
    · rw [ho, fragments_extend, Yield.fragments, List.flatMap_def]
    · rw [hsplit, List.take_left' hlength.symm]
      exact hblocks
    · rw [ho]
      exact hcounter
    · rw [hlength, hasked, List.length_append, hnumber]
      exact (Nat.add_assoc ..).symm
    · rw [ho, heq]
  · intro xml options c hc
    obtain ⟨document, hdocument, hok, rfl⟩ := exists_of_convert_eq_ok hc
    have hposes := (Yield.ofActs_poses hok).2.2
    have hblocks := hposes.areBlocks_alone
    rw [Element.filterMap_agenda] at hblocks
    refine ⟨document, _, hdocument, hblocks, ?_⟩
    rw [List.map_map]
    exact hposes.join_fragments_eq

def twoNumbers : Element :=
  ⟨"problem", [], [.element ⟨"numericalresponse", [⟨"answer", "1"⟩], [], ⟨0, 0⟩⟩,
    .element ⟨"numericalresponse", [⟨"answer", "2"⟩], [], ⟨0, 0⟩⟩], ⟨0, 0⟩⟩

def twoNumbersText : String :=
  "<problem><numericalresponse answer=\"1\"/><numericalresponse answer=\"2\"/></problem>"

/-- Two responses are two blocks from the number 1 on, and also from the greatest number on but one,
where the walk stops behind the second. As a document they are joined by a line feed. -/
theorem twoNumbers_appends_blocks :
    (∃ blocks,
      ({ counter := .fresh 1 : Session }.convertChildren [] .text twoNumbers
        ).session.conversion.fragments = blocks.flatten ∧
      AreBlocks .text (fun id => id != 1) 1 twoNumbers.responses blocks ∧ blocks.length = 2) ∧
      (∃ blocks,
        ({ counter := .fresh 0xFFFFFFFFFFFFFFFE : Session }.convertChildren [] .text twoNumbers
          ).session.conversion.fragments = blocks.flatten ∧
        AreBlocks .text (fun id => id != UInt64.size - 2) (UInt64.size - 2)
          (twoNumbers.responses.take blocks.length) blocks ∧ blocks.length = 2) ∧
      ∃ c document blocks, convert twoNumbersText {} = .ok c ∧
        Document.parse twoNumbersText = .ok document ∧
        AreBlocks .markup (fun _ => false) 1 document.root.responses blocks ∧
        c.gift = "\n".intercalate (blocks.map String.join) := by
  have hall : ({ counter := .fresh 1 : Session }.convertChildren [] .text twoNumbers).error? =
      none := by decide +kernel
  have hover : ({ counter := .fresh 0xFFFFFFFFFFFFFFFE : Session }.convertChildren [] .text
      twoNumbers).error? = some (.idsExhausted 0xFFFFFFFFFFFFFFFF) := by decide +kernel
  have hread : (convert twoNumbersText {}).toOption.map Conversion.count = some 2 := by
    decide +kernel
  refine ⟨?_, ?_, ?_⟩
  · obtain ⟨blocks, hfragments, hblocks, -⟩ :=
      (convertChildren_appends_blocks [] .text { counter := .fresh 1 } twoNumbers).1 hall
    exact ⟨blocks, hfragments, hblocks, hblocks.one⟩
  · obtain ⟨blocks, hfragments, hblocks, -, -, hlength, -⟩ :=
      (convertChildren_appends_blocks [] .text { counter := .fresh 0xFFFFFFFFFFFFFFFE }
        twoNumbers).2.1 _ hover
    refine ⟨blocks, hfragments, hblocks, ?_⟩
    exact Nat.add_left_cancel (n := UInt64.size - 2) hlength
  · obtain ⟨c, hc, -⟩ := exists_convert_eq_ok_of_map hread
    obtain ⟨document, blocks, hdocument, hblocks, hgift⟩ :=
      (convertChildren_appends_blocks [] .text { counter := .fresh 1 } twoNumbers).2.2 _ _ c hc
    exact ⟨c, document, blocks, hc, hdocument, hblocks, hgift⟩

end Session

end GiftQuiz
