import GiftQuiz.CommandLine.Run
import GiftQuiz.Proofs.Quiz.Choices
import GiftQuiz.Proofs.Quiz.Messages

/-!
# The lines of a summary

Behind its headings the summary has a line for each warning and no other line (`summary_lines`), as
no message goes on on another line. This is about the summary as it is written; what comes out of
standard error depends on what that is connected to.
-/

namespace GiftQuiz

namespace CommandLine

/-! ## Lines -/

def lines (s : String) : List String :=
  (s.toList.splitOn '\n').map String.ofList

/-- Lines with their ends. -/
def written (ls : List String) : String :=
  String.join (ls.map (· ++ "\n"))

theorem toList_written (ls : List String) :
    (written ls).toList = (ls.map String.toList).flatMap (· ++ ['\n']) := by
  simp [written, String.toList_join, List.flatMap_map]

theorem written_append (ls ls' : List String) :
    written (ls ++ ls') = written ls ++ written ls' := by
  simp only [← String.toList_inj, toList_written, String.toList_append, List.map_append,
    List.flatMap_append]

theorem lines_written {ls : List String} (h : ∀ l ∈ ls, OneLine l.toList) :
    lines (written ls) = ls ++ [""] := by
  have hfeeds : ∀ t ∈ ls.map String.toList ++ [[]], '\n' ∉ t := by
    intro t ht hfeed
    rcases List.mem_append.mp ht with ht | ht
    · obtain ⟨l, hl, rfl⟩ := List.mem_map.mp ht
      exact (h l hl _ hfeed).1 rfl
    · rw [List.mem_singleton.mp ht] at hfeed
      cases hfeed
  have htext := flatMap_terminated (ls.map String.toList) []
  rw [List.append_nil, ← toList_written] at htext
  unfold lines
  rw [htext, List.splitOn_intercalate '\n' hfeeds (by simp)]
  simp

/-! ## The summary -/

def headings (c : Conversion) : List String :=
  ["", "Questions: " ++ toString c.count.toNat, "Warnings: " ++ toString c.warnings.length]

def warningLine (w : Warning) : String :=
  "  " ++ w.message

theorem summary_eq_written (c : Conversion) :
    summary c = written (headings c ++ c.warnings.map warningLine) := by
  have hfeeds : "\nQuestions: " = "\n" ++ "Questions: " ∧ "\nWarnings: " = "\n" ++ "Warnings: " :=
    ⟨rfl, rfl⟩
  have hwarnings : written (c.warnings.map warningLine) =
      String.join (c.warnings.map fun w => "  " ++ w.message ++ "\n") := by
    rw [written, List.map_map]
    rfl
  rw [written_append, hwarnings]
  -- The equation that `unfold` derives for a text of literals takes long to find.
  delta summary
  simp only [headings, written, hfeeds, List.map_cons, List.map_nil, String.join_cons,
    String.join_nil, String.append_assoc, String.empty_append, String.append_empty]

theorem oneLine_headings (c : Conversion) : ∀ l ∈ headings c, OneLine l.toList := by
  have hquestions : OneLine "Questions: ".toList := by decide
  have hwarnings : OneLine "Warnings: ".toList := by decide
  simp only [headings, List.forall_mem_cons, String.toList_append]
  exact ⟨nofun, hquestions.append (OneLine.natural _), hwarnings.append (OneLine.natural _), nofun⟩

theorem oneLine_warningLine {w : Warning} (h : OneLine w.message.toList) :
    OneLine (warningLine w).toList := by
  have hindent : OneLine "  ".toList := by decide
  rw [warningLine, String.toList_append]
  exact hindent.append h

/-- No warning of a conversion has a line break in its message, whatever is in the document. So the
summary has a line for each warning behind the headings and no other line, and no line of it has a
carriage return in it. -/
theorem summary_lines {xml : String} {options : Options} {c : Conversion}
    (h : convert xml options = .ok c) :
    (∀ w ∈ c.warnings, OneLine w.message.toList) ∧
      lines (summary c) = headings c ++ c.warnings.map warningLine ++ [""] ∧
      ∀ line ∈ lines (summary c), OneLine line.toList := by
  have hmessages := oneLine_message h
  have hall : ∀ l ∈ headings c ++ c.warnings.map warningLine, OneLine l.toList := by
    refine List.forall_mem_append.mpr ⟨oneLine_headings c, List.forall_mem_map.mpr fun w hw => ?_⟩
    exact oneLine_warningLine (hmessages w hw)
  have hlines : lines (summary c) = headings c ++ c.warnings.map warningLine ++ [""] := by
    rw [summary_eq_written]
    exact lines_written hall
  refine ⟨hmessages, hlines, ?_⟩
  rw [hlines]
  refine List.forall_mem_append.mpr ⟨hall, fun l hl => ?_⟩
  rw [List.mem_singleton.mp hl]
  nofun

/-- A document that breaks lines inside a tag and inside a title that is left over. -/
def brokenLines : String := "<a><img\n/><p>x\r\ny</p></a>"

theorem brokenLines_summary :
    ∃ c, convert brokenLines ⟨1, .text⟩ = .ok c ∧
      lines (summary c) =
        ["", "Questions: 0", "Warnings: 2", "  Unsupported question <img>",
          "  Dropped title without a response: x y", ""] := by
  have hcounts : (convert brokenLines ⟨1, .text⟩).toOption.map (fun c => (c.warnings, c.count)) =
      some ([.unsupportedElement "img", .droppedTitle "x y"], 0) := by decide +kernel
  obtain ⟨c, hc, hvalues⟩ := exists_convert_eq_ok_of_map hcounts
  obtain ⟨hwarnings, hcount⟩ := Prod.mk.inj hvalues
  obtain ⟨-, hlines, -⟩ := summary_lines hc
  refine ⟨c, hc, hlines.trans ?_⟩
  rw [headings, hwarnings, hcount]
  decide

end CommandLine

end GiftQuiz
