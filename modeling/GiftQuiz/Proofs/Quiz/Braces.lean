import GiftQuiz.Proofs.Quiz.Layout
import GiftQuiz.Proofs.Quiz.Verbatim
import GiftQuiz.Proofs.Quiz.Weights
import GiftQuiz.Proofs.Text.Bare

/-!
# Braces of a quiz

A brace without a backslash in front of it begins or ends the body of a question. `convert_braces`
says which braces of a quiz these are: the one at the end of every header and the one in front of
every end. Titles, choices and answers are escaped and add none.

Two things are written as they are. A backslash in a title stays, so a title that ends in one takes
the meaning from the brace behind it. A title of source texts does not, as it ends with the end of a
tag. And nothing is said about a tolerance in which a brace has a meaning of its own.
-/

namespace GiftQuiz

open Markup (Element Node Document)
open Text (bare Inert endsBehind)

def isBrace (c : Char) : Bool :=
  c == '\x7b' || c == '\x7d'

/-- The braces of a text that have a meaning. -/
def bareBraces (s : String) : List Char :=
  bare isBrace false s.toList

def Body.writtenTolerance? : Body → Option String
  | .numerical _ tolerance => tolerance
  | _ => none

theorem mem_reserved_of_isBrace (c : Char) (h : isBrace c = true) : c ∈ Text.reserved := by
  simp only [isBrace, Bool.or_eq_true, beq_iff_eq] at h
  rcases h with rfl | rfl <;> decide

theorem inert_escaped (s : String) : Inert isBrace (Text.escaped s).toList := by
  rw [Text.toList_escaped]
  exact Text.inert_escape mem_reserved_of_isBrace s.toList

/-! ## Numbers have no braces -/

theorem isBrace_digitChar (n : Nat) : isBrace n.digitChar = false := by
  rcases Nat.lt_or_ge n 16 with h | h
  · have hall : ∀ m < 16, isBrace m.digitChar = false := by decide
    exact hall n h
  · rw [Nat.digitChar_eq_star.mpr h]
    rfl

theorem isBrace_of_isDigit {c : Char} (h : c.isDigit = true) : isBrace c = false := by
  refine Bool.eq_false_iff.mpr fun hbrace => ?_
  simp only [isBrace, Bool.or_eq_true, beq_iff_eq] at hbrace
  rcases hbrace with rfl | rfl <;> cases h

theorem inert_toString (n : Nat) : Inert isBrace (toString n).toList := by
  refine .of_forall fun c hc => ?_
  rw [Nat.toString_eq_repr, Nat.toList_repr] at hc
  exact isBrace_of_isDigit (Digit.isDigit_of_mem_toDigits c hc)

theorem Weight.inert_text (share : Rat) : Inert isBrace (Weight.text share).toList := by
  refine .of_forall ?_
  exact Weight.forall_mem_text (P := fun c => isBrace c = false) rfl rfl
    (fun _ => isBrace_of_isDigit) isBrace_digitChar share

/-! ## Titles -/

theorem TitleMode.inert_separator (mode : TitleMode) : Inert isBrace mode.separator.toList := by
  cases mode <;> decide

theorem Title.inert_text {title : Title} (h : ∀ part ∈ title.parts, Inert isBrace part.toList)
    (mode : TitleMode) : Inert isBrace (title.text mode).toList := by
  unfold text
  rw [String.toList_intercalate]
  refine .intercalate mode.inert_separator fun t ht => ?_
  obtain ⟨part, hpart, rfl⟩ := List.mem_map.mp ht
  exact h part (List.mem_filter.mp hpart).1

/-- A title of parts that do not end in a backslash does not end in one. -/
theorem Title.endsBehind_text {title : Title}
    (h : ∀ part ∈ title.parts, endsBehind false part.toList = false) (mode : TitleMode) :
    endsBehind false (title.text mode).toList = false := by
  unfold text
  rw [String.toList_intercalate]
  refine Text.intercalate_induction (P := fun t => endsBehind false t = false) rfl ?_ ?_ ?_
  · intro t u ht hu
    rw [Text.endsBehind_append, ht, hu]
  · cases mode <;> decide
  · intro t ht
    obtain ⟨part, hpart, rfl⟩ := List.mem_map.mp ht
    exact h part (List.mem_filter.mp hpart).1

/-- In a document without a mark the source text of an element, escaped, ends with the end of a
tag. -/
theorem Markup.Document.endsBehind_part {xml : String} {document : Document}
    (hdocument : Document.parse xml = .ok document) (hmark : xml.toList.head? ≠ some '\uFEFF')
    {e : Element} (he : e ∈ document.root.subtree) {part : String}
    (h : TitleMode.contribution .markup document.source e = .part part) :
    endsBehind false part.toList = false := by
  obtain ⟨m, rfl, hsource⟩ := TitleMode.contribution_eq_part h
  obtain ⟨t, ht⟩ := Document.exists_sourceText? hdocument hmark he
  rw [hsource rfl] at ht
  obtain rfl := Option.some.inj ht
  obtain ⟨u, hu⟩ := Text.exists_escape_eq (c := '>') (by decide) (by decide) ('<' :: t)
  rw [Text.toList_escaped, String.toList_ofList, hu, Text.endsBehind_append_singleton]
  rfl

/-! ## Pieces of a question -/

namespace Body

theorem inert_opening (b : Body) : Inert isBrace b.opening.toList := by
  cases b with
  | multipleChoice choices => exact show Inert isBrace "\n".toList by decide
  | checkboxes choices => exact show Inert isBrace "\n".toList by decide
  | numerical answer tolerance => exact show Inert isBrace "#\n".toList by decide

theorem inert_choiceLine (c : Choice) : Inert isBrace (choiceLine c).toList := by
  unfold choiceLine
  have hmark : Inert isBrace (if c.correct then "=" else "~").toList := by
    split <;> decide
  simp only [String.toList_append]
  refine Inert.append (.append (.append ?_ hmark) (inert_escaped c.text)) ?_ <;> decide

theorem inert_weightedLine (c : Choice) (share : Rat) :
    Inert isBrace (weightedLine c share).toList := by
  unfold weightedLine
  simp only [String.toList_append]
  refine .append (.append (.append (.append ?_ (Weight.inert_text share)) ?_)
    (inert_escaped c.text)) ?_ <;> decide

theorem inert_answerLine (answer : Option String) {tolerance : Option String}
    (h : ∀ d, tolerance = some d → bareBraces d = []) :
    Inert isBrace (answerLine answer tolerance).toList := by
  have hanswer : Inert isBrace ((answer.map Text.escaped).getD "").toList := by
    cases answer with
    | none => decide
    | some a => exact inert_escaped a
  have htolerance : Inert isBrace ((tolerance.map (":0" ++ ·)).getD "").toList := by
    cases tolerance with
    | none => decide
    | some d =>
        have hd : Inert isBrace d.toList := h d rfl
        have hzero : Inert isBrace ":0".toList := by decide
        simp only [Option.map_some, Option.getD_some, String.toList_append]
        exact hzero.append hd
  unfold answerLine
  simp only [String.toList_append]
  refine .append (.append (.append ?_ hanswer) htolerance) ?_ <;> decide

theorem inert_of_mem_lines {b : Body}
    (h : ∀ d, b.writtenTolerance? = some d → bareBraces d = []) :
    ∀ l ∈ b.lines, Inert isBrace l.toList := by
  refine forall_mem_lines inert_choiceLine inert_weightedLine fun a tolerance hb => ?_
  rw [hb] at h
  exact inert_answerLine a h

/-- Every piece of a body ends its line. -/
theorem exists_of_mem_fragments {b : Body} {l : String} (h : l ∈ b.fragments) :
    ∃ t, l = t ++ "\n" := by
  rcases List.mem_cons.mp h with rfl | h
  · cases b with
    | multipleChoice choices => exact ⟨"", show "\n" = "" ++ "\n" by decide⟩
    | checkboxes choices => exact ⟨"", show "\n" = "" ++ "\n" by decide⟩
    | numerical a tolerance => exact ⟨"#", show "#\n" = "#" ++ "\n" by decide⟩
  · rcases List.mem_append.mp h with h | h
    · obtain ⟨t, rfl⟩ := exists_of_mem_lines l h
      exact ⟨"\t" ++ t, rfl⟩
    · obtain rfl := List.mem_singleton.mp h
      exact ⟨"\x7d", by decide⟩

end Body

namespace Question

def label (q : Question) : String :=
  (if q.follows then "\n" else "") ++ "::Q" ++ toString q.id.toNat ++ "::" ++
    (if q.html then htmlMarker else "")

theorem header_eq_label (q : Question) : q.header = q.label ++ q.title ++ "\x7b" := rfl

theorem inert_label (q : Question) : Inert isBrace q.label.toList := by
  have hnewline : Inert isBrace (if q.follows then "\n" else "").toList := by
    split <;> decide
  have hmarker : Inert isBrace (if q.html then htmlMarker else "").toList := by
    split <;> decide
  unfold label
  simp only [String.toList_append]
  refine .append (.append (.append (.append hnewline ?_) (inert_toString _)) ?_) hmarker <;> decide

theorem endsBehind_label (q : Question) : endsBehind false q.label.toList = false := by
  unfold label
  rw [String.toList_append, String.toList_append, Text.endsBehind_append, Text.endsBehind_append]
  have hcolons : ∀ behind, endsBehind behind "::".toList = false := by
    decide
  rw [hcolons]
  split <;> decide

/-- The brace at the end of a header has its meaning unless the title ends in a backslash, and no
other one in a header has any. -/
theorem bareBraces_header {q : Question} (h : Inert isBrace q.title.toList) :
    bareBraces (q.label ++ q.title) = [] ∧
      bareBraces q.header = if q.title.toList.getLast? = some '\\' then [] else ['\x7b'] := by
  have hstart : bareBraces (q.label ++ q.title) = [] := by
    unfold bareBraces
    rw [String.toList_append]
    exact q.inert_label.append h
  have hbehind : endsBehind false (q.label ++ q.title).toList =
      (q.title.toList.getLast? == some '\\') := by
    rw [String.toList_append, Text.endsBehind_append, endsBehind_label, Text.endsBehind_false]
  refine ⟨hstart, ?_⟩
  unfold bareBraces at hstart ⊢
  rw [header_eq_label, String.toList_append, Text.bare_append, hstart, List.nil_append, hbehind]
  by_cases hlast : q.title.toList.getLast? = some '\\'
  · rw [if_pos hlast, beq_iff_eq.mpr hlast]
    rfl
  · rw [if_neg hlast, beq_eq_false_iff_ne.mpr hlast]
    rfl

theorem endsBehind_of_mem_fragments {q : Question} {l : String} (h : l ∈ q.fragments) :
    endsBehind false l.toList = false := by
  have hends : ∀ (t : String) (c : Char), c ≠ '\\' →
      endsBehind false (t ++ String.ofList [c]).toList = false := by
    intro t c hc
    rw [String.toList_append, String.toList_ofList, Text.endsBehind_append_singleton]
    exact beq_eq_false_iff_ne.mpr hc
  rcases List.mem_cons.mp h with rfl | h
  · exact hends (q.label ++ q.title) '\x7b' (by decide)
  · obtain ⟨t, rfl⟩ := Body.exists_of_mem_fragments h
    exact hends t '\n' (by decide)

end Question

/-! ## Braces of a quiz -/

theorem Question.bareBraces_fragments {q : Question} (title : Inert isBrace q.title.toList)
    (last : q.title.toList.getLast? ≠ some '\\')
    (tolerance : ∀ d, q.body.writtenTolerance? = some d → bareBraces d = []) :
    q.fragments.flatMap bareBraces = ['\x7b', '\x7d'] := by
  have hheader := (bareBraces_header title).2
  have hopening : bareBraces q.body.opening = [] := q.body.inert_opening
  have hlines : q.body.lines.flatMap bareBraces = [] :=
    List.flatMap_eq_nil_iff.mpr (Body.inert_of_mem_lines tolerance)
  have hclosing : bareBraces Body.closing = ['\x7d'] := by decide
  rw [if_neg last] at hheader
  rw [fragments, List.flatMap_cons, List.flatMap_cons, List.flatMap_append, hheader, hopening,
    hlines, List.flatMap_singleton, hclosing]
  rfl

theorem Question.flatMap_bareBraces {qs : List Question}
    (h : ∀ q ∈ qs, q.fragments.flatMap bareBraces = ['\x7b', '\x7d']) :
    (qs.flatMap fragments).flatMap bareBraces =
      (List.replicate qs.length ['\x7b', '\x7d']).flatten := by
  induction qs with
  | nil => rfl
  | cons q qs ih =>
      have hq := h q (List.mem_cons_self ..)
      have hqs := ih fun q' hq' => h q' (List.mem_cons_of_mem _ hq')
      rw [List.flatMap_cons, List.flatMap_append, hq, hqs, List.length_cons, List.replicate_succ,
        List.flatten_cons]

theorem Conversion.bareBraces_gift {c : Conversion}
    (h : c.fragments = c.questions.flatMap Question.fragments) :
    bareBraces c.gift = c.fragments.flatMap bareBraces := by
  unfold bareBraces gift
  rw [String.toList_join, List.flatMap_def, Text.bare_flatten]
  · rw [List.flatMap_map]
  · intro t ht
    obtain ⟨l, hl, rfl⟩ := List.mem_map.mp ht
    rw [h] at hl
    obtain ⟨q, -, hq⟩ := List.mem_flatMap.mp hl
    exact Question.endsBehind_of_mem_fragments hq

theorem count_of_convert_eq_ok {xml : String} {options : Options} {c : Conversion}
    (h : convert xml options = .ok c) : c.count.toNat = c.questions.length := by
  obtain ⟨document, -, hok, rfl⟩ := exists_of_convert_eq_ok h
  obtain ⟨hfirst, hnext, hposes⟩ := Yield.ofActs_poses hok
  rw [Yield.count_conversion, Yield.questions_conversion, Counter.toNat_used, hfirst, hnext,
    hposes.length_eq]
  exact Nat.add_sub_cancel_left ..

/-- The title of a posed question is put together from parts that the problem contributes. -/
theorem Yield.Poses.endsBehind_title {source : List Char} {mode : TitleMode} {e : Element}
    {first : UInt64} {n : Nat} {qs : List Question}
    (h : Poses mode first n (e.agenda source mode) qs)
    (hpart : ∀ e' ∈ Element.subtreeAll e.children, ∀ part,
      mode.contribution source e' = .part part → endsBehind false part.toList = false) :
    ∀ q ∈ qs, q.title.toList.getLast? ≠ some '\\' := by
  intro q hq
  obtain ⟨k, hk⟩ := List.mem_iff_getElem?.mp hq
  obtain ⟨title, kind, response, hask, -, -, -, -, htitle, -⟩ := h.of_getElem? hk
  have hlast := Title.endsBehind_text (Element.forall_parts_of_ask_mem hpart hask) mode
  rw [← htitle, Text.endsBehind_false] at hlast
  exact beq_eq_false_iff_ne.mp hlast

theorem Yield.Poses.inert_title {source : List Char} {mode : TitleMode} {e : Element}
    {first : UInt64} {n : Nat} {qs : List Question}
    (h : Poses mode first n (e.agenda source mode) qs) :
    ∀ q ∈ qs, Inert isBrace q.title.toList := by
  intro q hq
  obtain ⟨k, hk⟩ := List.mem_iff_getElem?.mp hq
  obtain ⟨title, kind, response, hask, -, -, -, -, htitle, -⟩ := h.of_getElem? hk
  rw [htitle]
  refine Title.inert_text (Element.forall_parts_of_ask_mem ?_ hask) mode
  intro e' _ part hpart
  obtain ⟨m, rfl, -⟩ := TitleMode.contribution_eq_part hpart
  exact inert_escaped m

/-- A quiz has the braces of its pieces. A header has none but the one at its end, which has its
meaning unless the title ends in a backslash; the opening has none; the lines have none unless a
tolerance has; the end has one. So if no title ends in a backslash and no tolerance has a brace of
its own, the braces of a quiz are an opening and a closing one for every question in turn. A title
of source texts never ends in a backslash. -/
theorem convert_braces {xml : String} {options : Options} {c : Conversion}
    (h : convert xml options = .ok c) :
    bareBraces c.gift = c.fragments.flatMap bareBraces ∧
      c.fragments = c.questions.flatMap Question.fragments ∧
      (∀ q ∈ c.questions,
        (∃ t, q.header = t ++ "\x7b" ∧ bareBraces t = []) ∧
        bareBraces q.header = (if q.title.toList.getLast? = some '\\' then [] else ['\x7b']) ∧
        bareBraces q.body.opening = [] ∧
        ((∀ d, q.body.writtenTolerance? = some d → bareBraces d = []) →
          ∀ l ∈ q.body.lines, bareBraces l = []) ∧
        bareBraces Body.closing = ['\x7d']) ∧
      ((∀ q ∈ c.questions, q.title.toList.getLast? ≠ some '\\' ∧
          ∀ d, q.body.writtenTolerance? = some d → bareBraces d = []) →
        bareBraces c.gift = (List.replicate c.count.toNat ['\x7b', '\x7d']).flatten) ∧
      (options.titleMode = .markup → xml.toList.head? ≠ some '\uFEFF' →
        ∀ q ∈ c.questions, q.title.toList.getLast? ≠ some '\\') := by
  obtain ⟨document, hdocument, hok, rfl⟩ := exists_of_convert_eq_ok h
  have hfragments := Yield.fragments_conversion (.ofActs options.titleMode
    (.fresh options.startId) (document.root.agenda document.source options.titleMode))
  have hgift := Conversion.bareBraces_gift hfragments
  have hposes := (Yield.ofActs_poses hok).2.2
  have hinert := hposes.inert_title
  refine ⟨hgift, hfragments, ?_, ?_, ?_⟩
  · intro q hq
    obtain ⟨hlabel, hheader⟩ := Question.bareBraces_header (hinert q hq)
    exact ⟨⟨_, q.header_eq_label, hlabel⟩, hheader, q.body.inert_opening, Body.inert_of_mem_lines,
      by decide⟩
  · intro hclean
    rw [hgift, hfragments, count_of_convert_eq_ok h]
    exact Question.flatMap_bareBraces fun q hq =>
      Question.bareBraces_fragments (hinert q hq) (hclean q hq).1 (hclean q hq).2
  · intro hmode hmark
    rw [hmode] at hposes ⊢
    refine hposes.endsBehind_title fun e' he' part hpart => ?_
    refine Document.endsBehind_part hdocument hmark ?_ hpart
    rw [Element.subtree_eq]
    exact List.mem_cons_of_mem _ he'

/-- A problem with braces in a title and in an answer, which ends in a backslash. -/
def bracedText : String :=
  "<a><p>\x7bx\x7d</p><numericalresponse answer=\"\x7b\\\">" ++
    "<responseparam type=\"tolerance\" default=\".1\"/></numericalresponse></a>"

theorem bracedText_braces :
    ∃ c, convert bracedText {} = .ok c ∧ c.count = 1 ∧ bareBraces c.gift = ['\x7b', '\x7d'] := by
  have hmark : bracedText.toList.head? ≠ some '\uFEFF' := by decide +kernel
  have hread : (convert bracedText {}).toOption.map
      (fun c => (c.count, c.questions.map (·.body.writtenTolerance?))) = some (1, [some ".1"]) := by
    decide +kernel
  obtain ⟨c, hc, hvalues⟩ := exists_convert_eq_ok_of_map hread
  obtain ⟨hcount, htolerance⟩ := Prod.mk.inj hvalues
  obtain ⟨-, -, -, hbraces, htitle⟩ := convert_braces hc
  refine ⟨c, hc, hcount, ?_⟩
  rw [hbraces fun q hq => ⟨htitle rfl hmark q hq, fun d hd => ?_⟩, hcount]
  · rfl
  · have hmem := List.mem_map_of_mem (f := (·.body.writtenTolerance?)) hq
    rw [htolerance, hd] at hmem
    rw [Option.some.inj (List.mem_singleton.mp hmem)]
    decide

/-- A backslash at the end of a title makes its header lose the brace, and a brace in a tolerance is
one more. -/
theorem convert_braces_unbalanced :
    (∃ c, convert "<a><p>x\\</p><numericalresponse answer=\"1\"/></a>" ⟨1, .text⟩ = .ok c ∧
      c.count = 1 ∧ bareBraces c.gift = ['\x7d']) ∧
      ∃ c, convert ("<a><numericalresponse answer=\"1\">" ++
          "<responseparam type=\"tolerance\" default=\".1\x7d\"/></numericalresponse></a>") {} =
            .ok c ∧
        c.count = 1 ∧ bareBraces c.gift = ['\x7b', '\x7d', '\x7d'] := by
  have hread : ∀ {xml options} {r : UInt64 × List Char}, (convert xml options).toOption.map
      (fun c => (c.count, bareBraces c.gift)) = some r →
        ∃ c, convert xml options = .ok c ∧ c.count = r.1 ∧ bareBraces c.gift = r.2 := by
    intro xml options r hr
    obtain ⟨c, hc, rfl⟩ := exists_convert_eq_ok_of_map hr
    exact ⟨c, hc, rfl, rfl⟩
  exact ⟨hread (r := (1, ['\x7d'])) (by decide +kernel),
    hread (r := (1, ['\x7b', '\x7d', '\x7d'])) (by decide +kernel)⟩

end GiftQuiz
