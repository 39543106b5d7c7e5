import GiftQuiz.Proofs.Quiz.Bodies
import GiftQuiz.Proofs.Quiz.Weights
import GiftQuiz.Proofs.Text.Words
import Mathlib.Data.List.Forall2

/-!
# Reading choices back

The body of a question with choices, cut at its line feeds, has one line for each choice, and the
line tells whether the choice is correct, or what it is worth, and its text. Nothing that stands in
a text makes another line or ends the weight in front of it: an escaped text has no line feed, and a
weight has no percent sign.

The weight of a choice is its share of 100 percent of the credit, or of -100 percent. As long as a
machine word counts the choices, it has the sign of its share and is not zero (`Weight.sign_text`).
-/

namespace GiftQuiz

open Markup (Element)

/-! ## Choices -/

namespace Markup.Element

def Correct (choice : Element) : Prop :=
  choice.attribute? "correct" = some "true"

instance : DecidablePred Correct := fun choice =>
  inferInstanceAs (Decidable (choice.attribute? "correct" = some "true"))

/-- The choices in the groups of a response, in document order. -/
def choicesIn (group : String) (response : Element) : List Element :=
  (response.named group).flatMap (named "choice")

theorem select_eq_choicesIn {path group : String} (h : steps path = [group, "choice"])
    (response : Element) : response.select path = response.choicesIn group := by
  rw [select_eq_follow, h, follow_cons, choicesIn]
  exact List.flatMap_congr fun e _ => follow_singleton "choice" e

/-- The part of the credit, in percent, that is a choice's own among some choices. -/
def share (choices : List Element) (choice : Element) : Rat :=
  if choice.Correct then 100 / (choices.countP (·.Correct) : Nat)
  else -100 / (choices.countP (¬ ·.Correct) : Nat)

end Markup.Element

theorem Choice.correct_ofElement (e : Element) : (ofElement e).correct = decide e.Correct := by
  rw [Bool.eq_iff_iff, decide_eq_true_iff]
  exact beq_iff_eq

/-- Where a choice is worth something, there is one on its side to divide by. -/
theorem Weight.shares_eq (choices : List Element) :
    shares ((choices.map Choice.ofElement).map Choice.correct) =
      choices.map (Element.share choices) := by
  have hcorrect : (choices.map Choice.ofElement).map Choice.correct =
      choices.map fun e => decide e.Correct := by
    rw [List.map_map]
    exact List.map_congr_left fun e _ => Choice.correct_ofElement e
  have hright : (choices.map fun e => decide e.Correct).count true =
      choices.countP (·.Correct) := by
    rw [List.count, List.countP_map]
    exact List.countP_congr fun e _ => by simp
  have hwrong : choices.length - choices.countP (·.Correct) = choices.countP (¬ ·.Correct) := by
    have hsides := List.length_eq_countP_add_countP (·.Correct) (l := choices)
    simp only [decide_eq_true_eq] at hsides
    omega
  unfold shares
  simp only [hcorrect, hright, List.length_map, hwrong, List.map_map]
  refine List.map_congr_left fun e he => ?_
  unfold Element.share
  by_cases h : e.Correct
  · have hone : 0 < choices.countP (·.Correct) :=
      List.countP_pos_iff.mpr ⟨e, he, decide_eq_true h⟩
    simp [h, Nat.max_eq_left hone]
  · have hone : 0 < choices.countP (¬ ·.Correct) :=
      List.countP_pos_iff.mpr ⟨e, he, decide_eq_true h⟩
    simp only [Function.comp, h, decide_false, Bool.false_eq_true, if_false, Nat.max_eq_left hone]

/-- A share is negative exactly if its choice is not correct, and is a whole part of the credit. -/
theorem Markup.Element.abs_share {choices : List Element} {e : Element} (he : e ∈ choices) :
    ∃ n, 0 < n ∧ n ≤ choices.length ∧ |e.share choices| = 100 / n ∧
      (e.share choices < 0 ↔ ¬ e.Correct) := by
  unfold Element.share
  by_cases h : e.Correct
  · have hone : 0 < choices.countP (·.Correct) :=
      List.countP_pos_iff.mpr ⟨e, he, decide_eq_true h⟩
    have hshare : (0 : Rat) < 100 / (choices.countP (·.Correct) : Nat) :=
      div_pos (by norm_num) (Nat.cast_pos.mpr hone)
    rw [if_pos h]
    exact ⟨_, hone, List.countP_le_length, abs_of_pos hshare,
      iff_of_false hshare.not_gt (not_not_intro h)⟩
  · have hone : 0 < choices.countP (¬ ·.Correct) :=
      List.countP_pos_iff.mpr ⟨e, he, decide_eq_true h⟩
    have hshare : (0 : Rat) < 100 / (choices.countP (¬ ·.Correct) : Nat) :=
      div_pos (by norm_num) (Nat.cast_pos.mpr hone)
    rw [if_neg h, neg_div]
    exact ⟨_, hone, List.countP_le_length, by rw [abs_neg, abs_of_pos hshare],
      iff_of_true (neg_neg_of_pos hshare) h⟩

/-! ## Lines -/

/-- A text that is read back as the running text of a choice. -/
def ReadsAs (choice : Element) (t : List Char) : Prop :=
  Text.unguard t = [' '].intercalate (Text.words choice.leadingText.toList)

/-- A line that says whether a choice is correct. -/
def IsChoiceLine (choice : Element) (l : List Char) : Prop :=
  ∃ t, l = '\t' :: (if choice.Correct then '=' else '~') :: t ∧ ReadsAs choice t

/-- A line with the weight of a choice among others. A weight has the sign of the choice, if a
machine word counts the choices. -/
def IsWeightedLine (choices : List Element) (choice : Element) (l : List Char) : Prop :=
  ∃ w t, l = '\t' :: '~' :: '%' :: (w ++ '%' :: t) ∧ '%' ∉ w ∧
    w = (Weight.text (choice.share choices)).toList ∧
    (choices.length < UInt64.size →
      (w.head? = some '-' ↔ ¬ choice.Correct) ∧ w ≠ ['0'] ∧ w ≠ ['-', '0']) ∧
    ReadsAs choice t

/-- The pieces of a body behind the header, cut at the line feeds behind the opening: lines, and
then the closing brace on a line of its own. -/
def HasLines (pieces : List String) (lines : List (List Char)) : Prop :=
  ∃ rest, (String.join pieces).toList = '\n' :: rest ∧
    rest.splitOn '\n' = lines ++ [['\x7d'], []]

theorem newline_not_mem_escape (t : List Char) : '\n' ∉ Text.escape t := by
  intro h
  cases Text.eq_space_of_mem_escape h rfl

theorem isChoiceLine_choiceLine (e : Element) :
    ∃ l, (Body.choiceLine (Choice.ofElement e)).toList = l ++ ['\n'] ∧ '\n' ∉ l ∧
      IsChoiceLine e l := by
  refine ⟨'\t' :: (if e.Correct then '=' else '~') :: Text.escape e.leadingText.toList, ?_, ?_,
    _, rfl, Text.unguard_escape _⟩
  · unfold Body.choiceLine
    rw [Choice.correct_ofElement]
    by_cases h : e.Correct <;> simp [h, Choice.ofElement]
  · simp only [List.mem_cons, not_or]
    refine ⟨by decide, ?_, newline_not_mem_escape _⟩
    split <;> decide

theorem isWeightedLine_weightedLine {choices : List Element} {e : Element} (he : e ∈ choices) :
    ∃ l, (Body.weightedLine (Choice.ofElement e) (e.share choices)).toList = l ++ ['\n'] ∧
      '\n' ∉ l ∧ IsWeightedLine choices e l := by
  let w := (Weight.text (e.share choices)).toList
  refine ⟨'\t' :: '~' :: '%' :: (w ++ '%' :: Text.escape e.leadingText.toList), ?_, ?_,
    w, _, rfl, ?_, rfl, ?_, Text.unguard_escape _⟩
  · unfold Body.weightedLine
    simp [w, Choice.ofElement]
  · have hw : '\n' ∉ w :=
      Weight.not_mem_text (by decide) (by decide) rfl (fun n => Nat.digitChar_ne _ rfl) _
    have htext := newline_not_mem_escape e.leadingText.toList
    simp [hw, htext]
  · exact Weight.not_mem_text (by decide) (by decide) rfl (fun n => Nat.digitChar_ne _ rfl) _
  · intro hcount
    obtain ⟨n, hpos, hn, habs, hsign⟩ := Element.abs_share he
    obtain ⟨hlow, hhigh⟩ := Weight.share_bounds habs hpos (by omega)
    obtain ⟨hminus, hzero, hminusZero⟩ := Weight.sign_text hlow hhigh
    rw [hsign] at hminus
    refine ⟨hminus, fun h => hzero ?_, fun h => hminusZero ?_⟩
    · exact String.toList_inj.mp h
    · exact String.toList_inj.mp h

/-! ## Bodies -/

/-- Lines that end with a line feed each, and a text behind them, are joined by line feeds. -/
theorem flatMap_terminated (lines : List (List Char)) (t : List Char) :
    lines.flatMap (· ++ ['\n']) ++ t = ['\n'].intercalate (lines ++ [t]) := by
  induction lines with
  | nil => simp
  | cons l lines ih =>
      rw [List.flatMap_cons, List.append_assoc, ih, List.cons_append,
        List.intercalate_cons_of_ne_nil (by simp)]

/-- A body whose lines are those of some choices, each of them on one line. -/
theorem exists_hasLines (choices : List Element) {line : Element → String}
    {R : Element → List Char → Prop}
    (hline : ∀ e ∈ choices, ∃ l, (line e).toList = l ++ ['\n'] ∧ '\n' ∉ l ∧ R e l) :
    ∃ lines, HasLines ("\n" :: (choices.map line ++ [Body.closing])) lines ∧
      List.Forall₂ R choices lines := by
  have hlines : ∃ lines, (choices.map line).flatMap String.toList =
      lines.flatMap (· ++ ['\n']) ∧ (∀ l ∈ lines, '\n' ∉ l) ∧ List.Forall₂ R choices lines := by
    induction choices with
    | nil => exact ⟨[], rfl, by simp, .nil⟩
    | cons e choices ih =>
        obtain ⟨l, hl, hfeed, hR⟩ := hline e (List.mem_cons_self ..)
        obtain ⟨lines, hlines, hfeeds, hall⟩ := ih fun e' he' =>
          hline e' (List.mem_cons_of_mem _ he')
        refine ⟨l :: lines, ?_, List.forall_mem_cons.mpr ⟨hfeed, hfeeds⟩, .cons hR hall⟩
        rw [List.map_cons, List.flatMap_cons, List.flatMap_cons, hl, hlines]
  obtain ⟨lines, hjoined, hfeeds, hall⟩ := hlines
  refine ⟨lines, ⟨lines.flatMap (· ++ ['\n']) ++ ['\x7d', '\n'], ?_, ?_⟩, hall⟩
  · rw [← hjoined, String.toList_join, List.flatMap_cons, List.flatMap_append]
    rfl
  · have hclosed : lines.flatMap (· ++ ['\n']) ++ ['\x7d', '\n'] =
        ['\n'].intercalate (lines ++ [['\x7d'], []]) := by
      have hterminated := flatMap_terminated (lines ++ [['\x7d']]) []
      rw [List.flatMap_append, List.append_nil, List.append_assoc] at hterminated
      exact hterminated
    rw [hclosed]
    refine List.splitOn_intercalate '\n' ?_ (by simp)
    intro l hl
    rcases List.mem_append.mp hl with hl | hl
    · exact hfeeds l hl
    · have hend : ∀ l ∈ [['\x7d'], []], '\n' ∉ l := by decide
      exact hend l hl

theorem Body.lines_multipleChoice (response : Element) :
    (ofResponse .multipleChoice response).lines =
      (response.choicesIn "choicegroup").map fun e => choiceLine (Choice.ofElement e) := by
  have hsteps : Element.steps "choicegroup/choice" = ["choicegroup", "choice"] := by decide
  show ((response.select "choicegroup/choice").map Choice.ofElement).map choiceLine = _
  rw [Element.select_eq_choicesIn hsteps, List.map_map]
  rfl

theorem Body.lines_checkboxes (response : Element) :
    let choices := response.choicesIn "checkboxgroup"
    (ofResponse .checkboxes response).lines =
      choices.map fun e => weightedLine (Choice.ofElement e) (e.share choices) := by
  intro choices
  have hsteps : Element.steps "checkboxgroup/choice" = ["checkboxgroup", "choice"] := by decide
  unfold ofResponse lines
  simp only
  rw [Element.select_eq_choicesIn hsteps, Weight.shares_eq, List.zip_map', List.map_map]
  rfl

namespace Session

/-- The block for a response with choices can be read back line by line, one line for each choice
in document order: whether it is correct, or its weight, and its running text. -/
theorem convertChildren_choices (source : List Char) (mode : TitleMode) (s : Session)
    (e : Element) :
    let o := s.convertChildren source mode e
    ∃ blocks : List (List String),
      o.session.conversion.fragments = s.conversion.fragments ++ blocks.flatten ∧
      blocks.length ≤ e.responses.length ∧
      (o.error? = none → blocks.length = e.responses.length) ∧
      ∀ (k : Nat) (response : Element) (block : List String), blocks[k]? = some block →
        (e.responses[k]? = some (.multipleChoice, response) →
          ∃ header body lines, block = header :: body ∧ HasLines body lines ∧
            List.Forall₂ IsChoiceLine (response.choicesIn "choicegroup") lines) ∧
        (e.responses[k]? = some (.checkboxes, response) →
          let choices := response.choicesIn "checkboxgroup"
          ∃ header body lines, block = header :: body ∧ HasLines body lines ∧
            List.Forall₂ (IsWeightedLine choices) choices lines) := by
  intro o
  obtain ⟨blocks, hfragments, hle, hall, hbodies⟩ := convertChildren_bodies source mode s e
  refine ⟨blocks, hfragments, hle, hall, ?_⟩
  intro k response block hblock
  constructor
  · intro hresponse
    obtain ⟨header, rfl⟩ := hbodies k _ response block hresponse hblock
    obtain ⟨lines, hlines, hread⟩ :=
      exists_hasLines (response.choicesIn "choicegroup") fun e _ => isChoiceLine_choiceLine e
    rw [← Body.lines_multipleChoice] at hlines
    exact ⟨header, _, lines, rfl, hlines, hread⟩
  · intro hresponse choices
    obtain ⟨header, rfl⟩ := hbodies k _ response block hresponse hblock
    obtain ⟨lines, hlines, hread⟩ :=
      exists_hasLines choices fun e he => isWeightedLine_weightedLine he
    rw [← Body.lines_checkboxes] at hlines
    exact ⟨header, _, lines, rfl, hlines, hread⟩

/-- Two choices, of which the second is correct. Both have a text that would end a line or a
weight. -/
def twoChoices : List (Markup.Node Element) :=
  [.element ⟨"choice", [], [.text "a\n=50%"], ⟨0, 0⟩⟩,
    .element ⟨"choice", [⟨"correct", "true"⟩], [.text " \x7d\\"], ⟨0, 0⟩⟩]

/-- A problem that asks for one of them, and then for any of them. -/
def choiceProblem : Element :=
  ⟨"problem", [],
    [.element ⟨"multiplechoiceresponse", [],
        [.element ⟨"choicegroup", [], twoChoices, ⟨0, 0⟩⟩], ⟨0, 0⟩⟩,
      .element ⟨"choiceresponse", [],
        [.element ⟨"checkboxgroup", [], twoChoices, ⟨0, 0⟩⟩], ⟨0, 0⟩⟩], ⟨0, 0⟩⟩

/-- Either body has two lines. The second weight has no sign and ends before the text. -/
theorem choiceProblem_choices :
    let o := { counter := .fresh 1 : Session }.convertChildren [] .text choiceProblem
    ∃ single weighted header header' body body',
      o.session.conversion.fragments = (header :: body) ++ (header' :: body') ∧
        HasLines body single ∧ single.length = 2 ∧
        HasLines body' weighted ∧ weighted.length = 2 ∧
        ∃ w t, weighted[1]? = some ('\t' :: '~' :: '%' :: (w ++ '%' :: t)) ∧ '%' ∉ w ∧
          w.head? ≠ some '-' ∧ Text.unguard t = ['\x7d', '\\'] := by
  intro o
  have hresponses : choiceProblem.responses.length = 2 := rfl
  have hall : o.error? = none := by decide +kernel
  obtain ⟨blocks, hfragments, -, hlength, hblocks⟩ :=
    convertChildren_choices [] .text { counter := .fresh 1 } choiceProblem
  obtain ⟨first, second, rfl⟩ : ∃ b c, blocks = [b, c] := by
    match blocks, (hlength hall).trans hresponses with
    | [b, c], _ => exact ⟨b, c, rfl⟩
  obtain ⟨header, body, single, rfl, hsingle, hchoices⟩ := (hblocks 0 _ first rfl).1 rfl
  obtain ⟨header', body', weighted, rfl, hweighted, hchoices'⟩ := (hblocks 1 _ second rfl).2 rfl
  refine ⟨single, weighted, header, header', body, body', ?_, hsingle, hchoices.length_eq.symm,
    hweighted, hchoices'.length_eq.symm, ?_⟩
  · rw [hfragments]
    exact congrArg ((header :: body) ++ ·) (List.append_nil _)
  · change List.Forall₂ _ [_, _] weighted at hchoices'
    cases hchoices' with
    | cons hfirst hrest =>
        cases hrest with
        | cons hsecond hnone =>
            obtain ⟨w, t, rfl, hpercent, -, hsign, hreads⟩ := hsecond
            obtain ⟨hminus, -⟩ := hsign (by decide)
            refine ⟨w, t, rfl, hpercent, fun h => ?_, hreads.trans (by decide)⟩
            exact absurd (hminus.mp h) (by decide)

end Session

end GiftQuiz
