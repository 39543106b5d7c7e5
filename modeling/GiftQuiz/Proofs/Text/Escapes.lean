import GiftQuiz.Proofs.Text.NormalForm
import Mathlib.Algebra.Ring.Parity

/-!
# Escapes in escaped text

For a reader in which a backslash escapes whatever character stands behind it, two backslashes are
one of the text. `readEscapes` is that reader. Escaping guards reserved characters and leaves the
backslashes of a text as they are, so it adds one backslash to those in front of a reserved
character, and the reader takes them two by two (`readEscapes_guardReserved`).

So what a reader finds unescaped are the reserved characters that stand behind an odd number of
backslashes in the text, and an escape is unfinished if the text ends in an odd number of them
(`settled_escaped_iff`). No text without a backslash has such a place.
-/

namespace GiftQuiz

namespace Text

/-- What a reader makes of a character, or of a backslash and the character that it escapes. -/
inductive Reading
  | plain (c : Char)
  | escaped (c : Char)
  | dangling
deriving Repr, DecidableEq

/-- Reading from left to right; a backslash escapes the character behind it, whatever it is. -/
def readEscapes : List Char → List Reading
  | [] => []
  | [c] => if c = '\\' then [.dangling] else [.plain c]
  | c :: d :: t =>
    if c = '\\' then .escaped d :: readEscapes t else .plain c :: readEscapes (d :: t)

/-- No reserved character has been read as unescaped, and no escape has been left unfinished. -/
def Settled (rs : List Reading) : Prop :=
  (∀ c ∈ reserved, .plain c ∉ rs) ∧ .dangling ∉ rs

instance (rs : List Reading) : Decidable (Settled rs) :=
  -- One by one through `reserved`, and not through all the characters there are.
  @instDecidableAnd _ _ (List.decidableBAll _ reserved) inferInstance

namespace Reading

def exposed? : Reading → Option Char
  | plain c => if c ∈ reserved then some c else none
  | _ => none

def covered? : Reading → Option Char
  | escaped c => if c ∈ reserved then some c else none
  | _ => none

/-- What a reader makes of the same place behind guarding. -/
def guard : Reading → List Reading
  | plain c => if c ∈ reserved then [escaped c] else [plain c]
  | escaped c => if c ∈ reserved then [escaped '\\', plain c] else [escaped c]
  | dangling => [dangling]

end Reading

/-! ## Reading guarded text -/

theorem backslash_not_mem_reserved : '\\' ∉ reserved := by decide

theorem readEscapes_backslash (c : Char) (t : List Char) :
    readEscapes ('\\' :: c :: t) = .escaped c :: readEscapes t := by
  rw [readEscapes, if_pos rfl]

theorem readEscapes_plain {c : Char} (hc : c ≠ '\\') (t : List Char) :
    readEscapes (c :: t) = .plain c :: readEscapes t := by
  cases t with
  | nil => exact if_neg hc
  | cons d t => rw [readEscapes, if_neg hc]

theorem readEscapes_guardReserved_cons {c : Char} (hc : c ≠ '\\') (t : List Char) :
    readEscapes (guardReserved (c :: t)) =
      Reading.guard (.plain c) ++ readEscapes (guardReserved t) := by
  rw [guardReserved_cons, Reading.guard]
  by_cases hreserved : c ∈ reserved
  · rw [if_pos hreserved, if_pos hreserved]
    exact readEscapes_backslash c _
  · rw [if_neg hreserved, if_neg hreserved]
    exact readEscapes_plain hc _

theorem readEscapes_guardReserved_backslash (d : Char) (t : List Char) :
    readEscapes (guardReserved ('\\' :: d :: t)) =
      Reading.guard (.escaped d) ++ readEscapes (guardReserved t) := by
  rw [guardReserved_cons, if_neg backslash_not_mem_reserved, guardReserved_cons, Reading.guard]
  by_cases hreserved : d ∈ reserved
  · have hd : d ≠ '\\' := by
      rintro rfl
      exact backslash_not_mem_reserved hreserved
    rw [if_pos hreserved, if_pos hreserved]
    show readEscapes ('\\' :: '\\' :: d :: guardReserved t) = _
    rw [readEscapes_backslash, readEscapes_plain hd]
    rfl
  · rw [if_neg hreserved, if_neg hreserved]
    exact readEscapes_backslash d _

/-- Guarding escapes what was plain, and turns an escape of a reserved character into one of its
backslash. -/
theorem readEscapes_guardReserved (t : List Char) :
    readEscapes (guardReserved t) = (readEscapes t).flatMap Reading.guard := by
  fun_induction readEscapes t with
  | case1 => rfl
  | case2 => rfl
  | case3 c hc => exact readEscapes_guardReserved_cons hc []
  | case4 d t ih => rw [readEscapes_guardReserved_backslash, ih, List.flatMap_cons]
  | case5 c d t hc ih => rw [readEscapes_guardReserved_cons hc, ih, List.flatMap_cons]

theorem Reading.filterMap_exposed?_guard (r : Reading) :
    r.guard.filterMap exposed? = r.covered?.toList := by
  cases r with
  | plain c => by_cases hc : c ∈ reserved <;> simp [guard, exposed?, covered?, hc]
  | escaped c =>
      by_cases hc : c ∈ reserved <;> simp [guard, exposed?, covered?, hc, List.filterMap_cons]
  | dangling => rfl

theorem filterMap_exposed?_guard (rs : List Reading) :
    (rs.flatMap Reading.guard).filterMap Reading.exposed? = rs.filterMap Reading.covered? := by
  rw [List.filterMap_flatMap, List.filterMap_eq_flatMap_toList]
  exact List.flatMap_congr fun r _ => r.filterMap_exposed?_guard

theorem dangling_mem_guard {rs : List Reading} :
    .dangling ∈ rs.flatMap Reading.guard ↔ .dangling ∈ rs := by
  induction rs with
  | nil => rfl
  | cons r rs ih =>
      rw [List.flatMap_cons, List.mem_append, List.mem_cons, ih]
      refine or_congr_left ?_
      cases r with
      | plain c => by_cases hc : c ∈ reserved <;> simp [Reading.guard, hc]
      | escaped c => by_cases hc : c ∈ reserved <;> simp [Reading.guard, hc]
      | dangling => simp [Reading.guard]

theorem settled_iff {rs : List Reading} :
    Settled rs ↔ rs.filterMap Reading.exposed? = [] ∧ .dangling ∉ rs := by
  unfold Settled
  refine and_congr_left fun _ => ?_
  rw [List.filterMap_eq_nil_iff]
  constructor
  · intro h r hr
    cases r with
    | plain c => exact if_neg fun hc => h c hc hr
    | escaped c => rfl
    | dangling => rfl
  · intro h c hc hmem
    have hnone := h _ hmem
    rw [Reading.exposed?, if_pos hc] at hnone
    cases hnone

/-! ## Runs of backslashes -/

def backslashes (t : List Char) : Nat :=
  (t.rtakeWhile (· == '\\')).length

/-- The reserved characters of a text that stand directly behind an odd number of backslashes, with
what stands in front of the text. -/
def hidden : (before t : List Char) → List Char
  | _, [] => []
  | before, c :: t =>
    (if c ∈ reserved ∧ Odd (backslashes before) then [c] else []) ++ hidden (before ++ [c]) t

theorem backslashes_backslash (t : List Char) : backslashes (t ++ ['\\']) = backslashes t + 1 := by
  rw [backslashes, List.rtakeWhile_concat_pos _ _ _ rfl, List.length_append]
  rfl

theorem backslashes_of_ne {c : Char} (hc : c ≠ '\\') (t : List Char) :
    backslashes (t ++ [c]) = 0 := by
  rw [backslashes, List.rtakeWhile_concat_neg _ _ _ (by simpa using hc)]
  rfl

theorem backslashes_of_isBlank {c : Char} (hc : isBlank c = true) (t : List Char) :
    backslashes (t ++ [c]) = 0 :=
  backslashes_of_ne (beq_eq_false_iff_ne.mp (beq_backslash_of_isBlank hc)) t

/-- Only the backslashes at the end of a text count for what follows. -/
theorem backslashes_append_congr {t u : List Char} (h : backslashes t = backslashes u)
    (v : List Char) : backslashes (t ++ v) = backslashes (u ++ v) := by
  induction v generalizing t u with
  | nil => rw [List.append_nil, List.append_nil, h]
  | cons c v ih =>
      rw [← List.singleton_append, ← List.append_assoc, ← List.append_assoc]
      refine ih ?_
      by_cases hc : c = '\\'
      · rw [hc, backslashes_backslash, backslashes_backslash, h]
      · rw [backslashes_of_ne hc, backslashes_of_ne hc]

theorem hidden_congr {t u : List Char} (h : backslashes t = backslashes u) (v : List Char) :
    hidden t v = hidden u v := by
  induction v generalizing t u with
  | nil => rfl
  | cons c v ih => rw [hidden, hidden, h, ih (backslashes_append_congr h [c])]

theorem hidden_cons_of_even {before : List Char} (h : Even (backslashes before)) (c : Char)
    (t : List Char) : hidden before (c :: t) = hidden (before ++ [c]) t := by
  rw [hidden, if_neg fun hodd => Nat.not_odd_iff_even.mpr h hodd.2, List.nil_append]

theorem hidden_append (before t u : List Char) :
    hidden before (t ++ u) = hidden before t ++ hidden (before ++ t) u := by
  induction t generalizing before with
  | nil => rw [List.nil_append, List.append_nil, hidden, List.nil_append]
  | cons c t ih =>
      rw [List.cons_append, hidden, hidden, ih, List.append_assoc, List.append_assoc]
      rfl

theorem hidden_eq_nil_iff {before t : List Char} :
    hidden before t = [] ↔ ∀ front c behind, t = front ++ c :: behind → c ∈ reserved →
      Even (backslashes (before ++ front)) := by
  induction t generalizing before with
  | nil => simp [hidden]
  | cons d t ih =>
      rw [hidden, List.append_eq_nil_iff, ih]
      constructor
      · rintro ⟨hfirst, hrest⟩ front c behind heq hc
        cases front with
        | nil =>
            obtain ⟨rfl, -⟩ := List.cons.inj heq
            by_contra hodd
            rw [List.append_nil, Nat.not_even_iff_odd] at hodd
            rw [if_pos ⟨hc, hodd⟩] at hfirst
            cases hfirst
        | cons e front =>
            obtain ⟨rfl, htail⟩ := List.cons.inj heq
            have heven := hrest front c behind htail hc
            rwa [List.append_assoc] at heven
      · intro h
        refine ⟨if_neg fun hodd => ?_, fun front c behind heq hc => ?_⟩
        · have heven := h [] d t rfl hodd.1
          rw [List.append_nil] at heven
          exact Nat.not_even_iff_odd.mpr hodd.2 heven
        · have heven := h (d :: front) c behind (congrArg (d :: ·) heq) hc
          rwa [List.append_assoc]

/-! ## What is read two by two -/

theorem even_backslashes_escape {before : List Char} (h : Even (backslashes before)) (d : Char) :
    Even (backslashes (before ++ ['\\'] ++ [d])) := by
  by_cases hd : d = '\\'
  · rw [hd, backslashes_backslash, backslashes_backslash]
    exact h.add even_two
  · rw [backslashes_of_ne hd]
    exact Even.zero

theorem even_backslashes_of_ne {c : Char} (hc : c ≠ '\\') (t : List Char) :
    Even (backslashes (t ++ [c])) := by
  rw [backslashes_of_ne hc]
  exact Even.zero

/-- Where no escape is open, a reader takes the meaning of what stands behind an odd number of
backslashes. -/
theorem filterMap_covered? {before : List Char} (h : Even (backslashes before)) (t : List Char) :
    (readEscapes t).filterMap Reading.covered? = hidden before t := by
  fun_induction readEscapes t generalizing before with
  | case1 => rfl
  | case2 => rw [hidden_cons_of_even h]; rfl
  | case3 c hc => rw [hidden_cons_of_even h]; rfl
  | case4 d t ih =>
      have hodd : Odd (backslashes (before ++ ['\\'])) := by
        rw [backslashes_backslash]
        exact h.add_one
      rw [hidden_cons_of_even h, hidden, List.filterMap_cons, ih (even_backslashes_escape h d)]
      by_cases hd : d ∈ reserved <;> simp [Reading.covered?, hd, hodd]
  | case5 c d t hc ih =>
      rw [hidden_cons_of_even h, List.filterMap_cons, ih (even_backslashes_of_ne hc before)]
      rfl

theorem dangling_mem_readEscapes {before : List Char} (h : Even (backslashes before))
    (t : List Char) : .dangling ∈ readEscapes t ↔ Odd (backslashes (before ++ t)) := by
  fun_induction readEscapes t generalizing before with
  | case1 => simpa using h
  | case2 => simpa [backslashes_backslash] using h.add_one
  | case3 c hc => simp [backslashes_of_ne hc]
  | case4 d t ih =>
      rw [List.mem_cons, ih (even_backslashes_escape h d)]
      simp
  | case5 c d t hc ih =>
      rw [List.mem_cons, ih (even_backslashes_of_ne hc before)]
      simp

/-! ## Blanks between backslashes -/

theorem hidden_blank_cons {c : Char} (hc : isBlank c = true) (before t : List Char) :
    hidden before (c :: t) = hidden [] t := by
  rw [hidden, if_neg fun h => not_mem_reserved_of_isBlank hc h.1, List.nil_append]
  exact hidden_congr (backslashes_of_isBlank hc before) t

/-- No backslash counts beyond a blank. -/
theorem hidden_blanks_append {blanks : List Char} (hne : blanks ≠ [])
    (h : ∀ c ∈ blanks, isBlank c = true) (before t : List Char) :
    hidden before (blanks ++ t) = hidden [] t := by
  induction blanks generalizing before with
  | nil => exact absurd rfl hne
  | cons c blanks ih =>
      rw [List.cons_append, hidden_blank_cons (h c (List.mem_cons_self ..))]
      by_cases hblanks : blanks = []
      · rw [hblanks, List.nil_append]
      · exact ih hblanks (fun d hd => h d (List.mem_cons_of_mem _ hd)) []

theorem backslashes_blanks {blanks : List Char} (hne : blanks ≠ [])
    (h : ∀ c ∈ blanks, isBlank c = true) (before : List Char) :
    backslashes (before ++ blanks) = 0 := by
  obtain ⟨front, c, rfl⟩ := (List.eq_nil_or_concat' blanks).resolve_left hne
  rw [← List.append_assoc]
  exact backslashes_of_isBlank (h c (by simp)) _

theorem Squeezes.hidden_eq {t s : List Char} (h : Squeezes t s) (before : List Char) :
    hidden before s = hidden before t := by
  induction h generalizing before with
  | nil => rfl
  | keep _ _ ih => rw [hidden, hidden, ih]
  | run hne hblanks _ _ ih =>
      rw [hidden_blank_cons isBlank_space, hidden_blanks_append hne hblanks, ih]

theorem Squeezes.backslashes_eq {t s : List Char} (h : Squeezes t s) (before : List Char) :
    backslashes (before ++ s) = backslashes (before ++ t) := by
  induction h generalizing before with
  | nil => rfl
  | @keep c t s _ _ ih =>
      have hrest := ih (before ++ [c])
      rwa [List.append_assoc, List.append_assoc] at hrest
  | @run blanks t s hne hblanks _ _ ih =>
      have hrest := ih (before ++ [' '])
      have hzero : backslashes (before ++ [' ']) = backslashes (before ++ blanks) := by
        rw [backslashes_of_isBlank isBlank_space, backslashes_blanks hne hblanks]
      rwa [backslashes_append_congr hzero t, List.append_assoc, List.append_assoc] at hrest

theorem Trims.hidden_eq {t s : List Char} (h : Trims t s) : hidden [] s = hidden [] t := by
  obtain ⟨before, behind, rfl, hbefore, hbehind⟩ := h.ends
  have hback : hidden s behind = [] := by
    by_cases hne : behind = []
    · rw [hne]
      rfl
    · rw [← List.append_nil behind, hidden_blanks_append hne hbehind]
      rfl
  have hfront : hidden [] (before ++ (s ++ behind)) = hidden [] (s ++ behind) := by
    by_cases hne : before = []
    · rw [hne, List.nil_append]
    · exact hidden_blanks_append hne hbefore [] _
  rw [List.append_assoc, hfront, hidden_append, List.nil_append, hback, List.append_nil]

/-! ## Escaped text -/

theorem exposed_escape (t : List Char) :
    (readEscapes (escape t)).filterMap Reading.exposed? = hidden [] t := by
  have hstart : Even (backslashes []) := Even.zero
  rw [escape_eq_guardReserved, readEscapes_guardReserved, filterMap_exposed?_guard,
    filterMap_covered? hstart, (trims_trim _).hidden_eq, (squeezes_collapse t).hidden_eq]

theorem dangling_mem_escape (t : List Char) :
    .dangling ∈ readEscapes (escape t) ↔ Odd (backslashes (trim t)) := by
  have hstart : Even (backslashes []) := Even.zero
  have hsame := (squeezes_collapse (trim t)).backslashes_eq []
  rw [List.nil_append, List.nil_append] at hsame
  rw [escape_eq_guardReserved, readEscapes_guardReserved, dangling_mem_guard,
    dangling_mem_readEscapes hstart, List.nil_append, ← collapse_trim, hsame]

theorem backslashes_of_not_mem {t : List Char} (h : '\\' ∉ t) : backslashes t = 0 := by
  rw [backslashes, List.length_eq_zero_iff, List.rtakeWhile_eq_nil_iff]
  intro hne hlast
  exact h (beq_iff_eq.mp hlast ▸ List.getLast_mem hne)

/-- A reader finds those reserved characters unescaped that stand directly behind an odd number of
backslashes in the text, and an unfinished escape if the text, without the blanks at its ends, ends
in an odd number of them. Else nothing in an escaped text has a meaning, and so it is for every text
without backslashes. -/
theorem settled_escaped_iff (t : String) :
    (readEscapes (escaped t).toList).filterMap Reading.exposed? = hidden [] t.toList ∧
      (.dangling ∈ readEscapes (escaped t).toList ↔ Odd (backslashes (trim t.toList))) ∧
      (Settled (readEscapes (escaped t).toList) ↔
        (∀ before c behind, t.toList = before ++ c :: behind → c ∈ reserved →
          Even (backslashes before)) ∧ Even (backslashes (trim t.toList))) ∧
      ('\\' ∉ t.toList → Settled (readEscapes (escaped t).toList)) := by
  rw [toList_escaped]
  have hsettled : Settled (readEscapes (escape t.toList)) ↔
      (∀ before c behind, t.toList = before ++ c :: behind → c ∈ reserved →
        Even (backslashes before)) ∧ Even (backslashes (trim t.toList)) := by
    rw [settled_iff, exposed_escape, hidden_eq_nil_iff, dangling_mem_escape, Nat.not_odd_iff_even]
    rfl
  refine ⟨exposed_escape _, dangling_mem_escape _, hsettled, fun h => hsettled.mpr ⟨?_, ?_⟩⟩
  · intro before c behind heq _
    have hbefore : '\\' ∉ before := fun hmem => h (heq ▸ List.mem_append_left _ hmem)
    rw [backslashes_of_not_mem hbefore]
    exact Even.zero
  · rw [backslashes_of_not_mem fun hmem => h (mem_of_mem_trim hmem)]
    exact Even.zero

theorem colons_settled :
    '\\' ∉ "a: b=".toList ∧ Settled (readEscapes (escaped "a: b=").toList) := by
  have hfree : '\\' ∉ "a: b=".toList := by decide
  obtain ⟨-, -, -, hsettled⟩ := settled_escaped_iff "a: b="
  exact ⟨hfree, hsettled hfree⟩

/-- A backslash in front of a reserved character takes the guard for itself, and one at the end of a
text escapes what comes next. -/
theorem escaped_not_settled :
    ¬ Settled (readEscapes (escaped "\\:").toList) ∧
      ¬ Settled (readEscapes (escaped "\\").toList) := by
  decide +kernel

end Text

end GiftQuiz
