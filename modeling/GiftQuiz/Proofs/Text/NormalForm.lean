import GiftQuiz.Proofs.Text.Bare
import GiftQuiz.Proofs.Text.Words
import GiftQuiz.Text.Split

/-!
# The normal form of a text

Running text has a normal form: every run of blanks is one space, and there are none at its ends.
`Squeezes` and `Trims` say so of two texts, with no reference to how the second one is made, and
there is exactly one normal form of a text (`normalizes_iff`).

Escaping writes the normal form and guards it (`escape_eq_guardReserved`), so that it can be read
back, and two texts are escaped alike only if they have one normal form
(`normalizes_iff_unguard_escaped`). What it writes is in normal form itself, and is the same after
another escape only without a reserved character (`escaped_isNormal`).
-/

namespace GiftQuiz

namespace Text

/-! ## Squeezed text -/

/-- Every maximal run of blanks in the first text is one space in the second one, and everything
else is kept. -/
inductive Squeezes : List Char → List Char → Prop
  | nil : Squeezes [] []
  | keep {c : Char} {t s : List Char} : isBlank c = false → Squeezes t s →
      Squeezes (c :: t) (c :: s)
  | run {blanks t s : List Char} : blanks ≠ [] → (∀ c ∈ blanks, isBlank c = true) →
      (∀ c ∈ t.head?, isBlank c = false) → Squeezes t s → Squeezes (blanks ++ t) (' ' :: s)

/-- The spaces in front of a collapsed text are what the blanks in front of the text leave. -/
theorem dropWhile_space_collapse (t : List Char) :
    (collapse t).dropWhile (· == ' ') = collapse (t.dropWhile isBlank) := by
  induction t with
  | nil => rfl
  | cons c t ih =>
      rw [collapse_cons, List.dropWhile_cons]
      cases hc : isBlank c with
      | true =>
          rw [if_pos rfl, if_pos rfl, List.dropWhile_cons_of_pos rfl, List.dropWhile_idempotent, ih]
      | false =>
          rw [if_neg Bool.false_ne_true, if_neg Bool.false_ne_true, collapse_cons, hc,
            if_neg Bool.false_ne_true, List.dropWhile_cons, beq_space_of_not_isBlank hc,
            if_neg Bool.false_ne_true]

theorem collapse_blank_cons {c : Char} (hc : isBlank c = true) (t : List Char) :
    collapse (c :: t) = ' ' :: collapse (t.dropWhile isBlank) := by
  rw [collapse_cons, if_pos hc, dropWhile_space_collapse]

theorem squeezes_collapse (t : List Char) : Squeezes t (collapse t) := by
  -- Behind a blank the run goes on to the next character that is none, not to the next character.
  induction h : t.length using Nat.strong_induction_on generalizing t with
  | _ n ih =>
      subst h
      cases t with
      | nil => exact .nil
      | cons c t =>
          cases hc : isBlank c with
          | false =>
              rw [collapse_cons, hc, if_neg Bool.false_ne_true]
              exact .keep hc (ih t.length (by simp) t rfl)
          | true =>
              have hrest : (t.dropWhile isBlank).length ≤ t.length :=
                (List.dropWhile_sublist _).length_le
              have hsplit : c :: t = (c :: t.takeWhile isBlank) ++ t.dropWhile isBlank := by
                rw [List.cons_append, List.takeWhile_append_dropWhile]
              rw [collapse_blank_cons hc, hsplit]
              refine .run (by simp) ?_ ?_ (ih _ (by simp; omega) _ rfl)
              · intro d hd
                rcases List.mem_cons.mp hd with rfl | hd
                · exact hc
                · exact List.all_eq_true.mp List.all_takeWhile d hd
              · intro d hd
                have hhead := List.head?_dropWhile_not isBlank t
                rw [hd] at hhead
                exact hhead

/-- A text is squeezed in one way only. -/
theorem squeezes_iff {t s : List Char} : Squeezes t s ↔ s = collapse t := by
  constructor
  · intro h
    induction h with
    | nil => rfl
    | keep hc _ ih => rw [collapse_cons, hc, if_neg Bool.false_ne_true, ih]
    | @run blanks t s hne hblanks hhead _ ih =>
        cases blanks with
        | nil => exact absurd rfl hne
        | cons c blanks =>
            have hrest : ∀ d ∈ blanks, isBlank d = true := fun d hd =>
              hblanks d (List.mem_cons_of_mem _ hd)
            rw [List.cons_append, collapse_blank_cons (hblanks c (List.mem_cons_self ..)),
              dropWhile_append_eq hrest hhead, ih]
  · rintro rfl
    exact squeezes_collapse t

/-! ## Trimmed text -/

/-- The second text is what stands between the blanks at both ends of the first one. -/
structure Trims (t s : List Char) : Prop where
  ends : ∃ before behind, t = before ++ s ++ behind ∧ (∀ c ∈ before, isBlank c = true) ∧
    ∀ c ∈ behind, isBlank c = true
  first : ∀ c ∈ s.head?, isBlank c = false
  last : ∀ c ∈ s.getLast?, isBlank c = false

theorem trims_trim (t : List Char) : Trims t (trim t) where
  ends := by
    refine ⟨t.takeWhile isBlank, (t.dropWhile isBlank).rtakeWhile isBlank, ?_, ?_, ?_⟩
    · rw [List.append_assoc, trim_eq, List.rdropWhile_append_rtakeWhile,
        List.takeWhile_append_dropWhile]
    · exact fun c hc => List.all_eq_true.mp List.all_takeWhile c hc
    · exact fun c hc => List.mem_rtakeWhile_imp hc
  first := by
    intro c hc
    obtain ⟨rest, hrest⟩ : trim t <+: t.dropWhile isBlank := List.rdropWhile_prefix _ _
    have hhead := List.head?_dropWhile_not isBlank t
    rw [← hrest, List.head?_append, hc] at hhead
    exact hhead
  last := by
    intro c hc
    obtain ⟨hne, rfl⟩ := List.mem_getLast?_eq_getLast hc
    exact Bool.eq_false_iff.mpr (List.rdropWhile_last_not isBlank (t.dropWhile isBlank) hne)

/-- A text is trimmed in one way only. -/
theorem trims_iff {t s : List Char} : Trims t s ↔ s = trim t := by
  constructor
  · rintro ⟨⟨before, behind, rfl, hbefore, hbehind⟩, hfirst, hlast⟩
    rw [trim_eq]
    cases s with
    | nil =>
        refine (List.rdropWhile_eq_nil_iff.mpr fun c hc => ?_).symm
        have hmem := (List.dropWhile_sublist _).mem hc
        rw [List.append_nil] at hmem
        exact (List.mem_append.mp hmem).elim (hbefore c) (hbehind c)
    | cons c s =>
        have hkept : (c :: s).rdropWhile isBlank = c :: s := by
          rw [List.rdropWhile_eq_self_iff]
          intro hne
          rw [hlast _ (List.getLast?_eq_some_getLast hne)]
          exact Bool.false_ne_true
        rw [List.append_assoc, dropWhile_append_eq (u := c :: s ++ behind) hbefore hfirst,
          rdropWhile_append_of_eq_nil (List.rdropWhile_eq_nil_iff.mpr hbehind), hkept]
  · rintro rfl
    exact trims_trim t

/-! ## Normal form -/

/-- The second text is the normal form of the first one: squeezed, and then trimmed. -/
def Normalizes (t s : List Char) : Prop :=
  ∃ squeezed, Squeezes t squeezed ∧ Trims squeezed s

theorem normalizes_iff {t s : List Char} : Normalizes t s ↔ s = trim (collapse t) := by
  constructor
  · rintro ⟨squeezed, hsqueezes, htrims⟩
    rw [trims_iff.mp htrims, squeezes_iff.mp hsqueezes]
  · rintro rfl
    exact ⟨collapse t, squeezes_collapse t, trims_trim _⟩

theorem Squeezes.mem_iff {t s : List Char} (h : Squeezes t s) {c : Char} (hc : isBlank c = false) :
    c ∈ s ↔ c ∈ t := by
  induction h with
  | nil => exact Iff.rfl
  | keep _ _ ih => rw [List.mem_cons, List.mem_cons, ih]
  | @run blanks t s _ hblanks _ _ ih =>
      have hspace : c ≠ ' ' := beq_eq_false_iff_ne.mp (beq_space_of_not_isBlank hc)
      have hrun : c ∉ blanks := fun hmem => Bool.false_ne_true (hc.symm.trans (hblanks c hmem))
      rw [List.mem_cons, List.mem_append, ih, or_iff_right hspace, or_iff_right hrun]

theorem Trims.mem_iff {t s : List Char} (h : Trims t s) {c : Char} (hc : isBlank c = false) :
    c ∈ s ↔ c ∈ t := by
  obtain ⟨before, behind, rfl, hbefore, hbehind⟩ := h.ends
  have hfront : c ∉ before := fun hmem => Bool.false_ne_true (hc.symm.trans (hbefore c hmem))
  have hback : c ∉ behind := fun hmem => Bool.false_ne_true (hc.symm.trans (hbehind c hmem))
  rw [List.mem_append, List.mem_append, or_iff_left hback, or_iff_right hfront]

/-- Only blanks are lost on the way to the normal form. -/
theorem mem_trim_collapse_iff {t : List Char} {c : Char} (hc : isBlank c = false) :
    c ∈ trim (collapse t) ↔ c ∈ t :=
  ((trims_trim _).mem_iff hc).trans ((squeezes_collapse t).mem_iff hc)

theorem solid_of_mem_words {t w : List Char} (h : w ∈ words t) : Solid w := by
  induction t using blanks_induction with
  | solid t ht =>
      by_cases hne : t = []
      · rw [hne, words_nil] at h
        cases h
      · rw [words_of_solid ht hne] at h
        rw [List.mem_singleton.mp h]
        exact ht
  | blank v c t hv hc ih =>
      rw [words_append_blank v hc] at h
      rcases List.mem_append.mp h with h | h
      · by_cases hne : v = []
        · rw [hne, words_nil] at h
          cases h
        · rw [words_of_solid hv hne] at h
          rw [List.mem_singleton.mp h]
          exact hv
      · exact ih h

/-- The normal form has the words of the text. -/
theorem words_trim_collapse (t : List Char) : words (trim (collapse t)) = words t := by
  have hwords : ∀ w ∈ words t, words w = [w] := fun w hw =>
    words_of_solid (solid_of_mem_words hw) (ne_nil_of_mem_words hw)
  rw [trim_collapse, words_intercalate, List.flatMap_congr hwords, List.flatMap_singleton']

theorem trim_collapse_idempotent (t : List Char) :
    trim (collapse (trim (collapse t))) = trim (collapse t) := by
  rw [trim_collapse (trim (collapse t)), words_trim_collapse, trim_collapse]

theorem words_blanks_append {blanks : List Char} (h : ∀ c ∈ blanks, isBlank c = true)
    (t : List Char) : words (blanks ++ t) = words t := by
  induction blanks with
  | nil => rfl
  | cons c blanks ih =>
      have hrest := ih fun d hd => h d (List.mem_cons_of_mem _ hd)
      rw [List.cons_append, ← List.nil_append (c :: (blanks ++ t)),
        words_append_blank [] (h c (List.mem_cons_self ..)), words_nil, List.nil_append, hrest]

theorem Trims.words_eq {t s : List Char} (h : Trims t s) : words s = words t := by
  obtain ⟨before, behind, rfl, hbefore, hbehind⟩ := h.ends
  rw [List.append_assoc, words_blanks_append hbefore]
  cases behind with
  | nil => rw [List.append_nil]
  | cons c behind =>
      have hrest := words_blanks_append (fun d hd => hbehind d (List.mem_cons_of_mem _ hd)) []
      rw [words_append_blank s (hbehind c (List.mem_cons_self ..)), ← List.append_nil behind, hrest,
        words_nil, List.append_nil]

/-- Collapsing leaves the ends of a text as they are if they are not blank. -/
theorem trim_collapse_of_ends {t : List Char} (hfirst : ∀ c ∈ t.head?, isBlank c = false)
    (hlast : ∀ c ∈ t.getLast?, isBlank c = false) : trim (collapse t) = collapse t := by
  refine trim_of_ends ?_ ?_
  · cases t with
    | nil => simp
    | cons c t =>
        have hc : isBlank c = false := hfirst c rfl
        rw [collapse_cons, hc, if_neg Bool.false_ne_true]
        exact hfirst
  · rcases List.eq_nil_or_concat' t with rfl | ⟨s, c, rfl⟩
    · simp
    · have hc : isBlank c = false := hlast c List.getLast?_concat
      obtain ⟨u, hu⟩ := exists_collapse_eq hc s
      rw [hu, List.getLast?_concat]
      rintro _ ⟨⟩
      exact hc

/-- It makes no difference whether a text is trimmed before or behind collapsing. -/
theorem collapse_trim (t : List Char) : collapse (trim t) = trim (collapse t) := by
  obtain ⟨-, hfirst, hlast⟩ := trims_trim t
  rw [← trim_collapse_of_ends hfirst hlast, trim_collapse, trim_collapse, (trims_trim t).words_eq]

/-! ## Escaping as a guarded normal form -/

theorem escape_eq_guardReserved (t : List Char) :
    escape t = guardReserved (trim (collapse t)) := by
  rw [escape_eq, ← guardReserved_intercalate, ← trim_collapse]

/-- Without its guards an escaped text is the normal form of the text, and texts are escaped alike
exactly if they have one normal form. -/
theorem normalizes_iff_unguard_escaped (t u : String) :
    (∀ s, Normalizes t.toList s ↔ unguard (escaped t).toList = s) ∧
      (escaped t = escaped u ↔ ∀ s, Normalizes t.toList s ↔ Normalizes u.toList s) := by
  have hread : ∀ (t : String) (s : List Char),
      Normalizes t.toList s ↔ unguard (escaped t).toList = s := by
    intro t s
    rw [normalizes_iff, toList_escaped, escape_eq_guardReserved, unguard_guardReserved, eq_comm]
  refine ⟨hread t, fun h s => ?_, fun h => ?_⟩
  · rw [hread, hread, h]
  · have hsame := (hread u _).mp ((h _).mp ((hread t _).mpr rfl))
    simp only [toList_escaped, escape_eq_guardReserved, unguard_guardReserved] at hsame
    simp only [escaped, escape_eq_guardReserved, hsame]

/-! ## The shape of an escaped text -/

/-- No blank is at an end of the text, the others are single spaces, and a backslash stands directly
before every reserved character. -/
structure IsNormal (s : List Char) : Prop where
  first : ∀ c ∈ s.head?, isBlank c = false
  last : ∀ c ∈ s.getLast?, isBlank c = false
  blank : ∀ c ∈ s, isBlank c = true → c = ' '
  single : ¬ [' ', ' '] <:+: s
  guarded : ∀ before c behind, s = before ++ c :: behind → c ∈ reserved →
    before.getLast? = some '\\'

/-- A run of blanks has left one space. -/
theorem not_infix_collapse (t : List Char) : ¬ [' ', ' '] <:+: collapse t := by
  intro h
  induction t with
  | nil => simp at h
  | cons c t ih =>
      rw [collapse_cons] at h
      split at h
      · rcases List.infix_cons_iff.mp h with hfront | hinner
        · -- What stands behind the space has none in front.
          obtain ⟨-, rest, hrest⟩ := List.cons_prefix_cons.mp hfront
          have hhead := List.head?_dropWhile_not (· == ' ') (collapse t)
          rw [← hrest] at hhead
          cases hhead
        · exact ih (hinner.trans (List.dropWhile_suffix _).isInfix)
      · rename_i hc
        rcases List.infix_cons_iff.mp h with hfront | hinner
        · obtain ⟨rfl, -⟩ := List.cons_prefix_cons.mp hfront
          exact hc isBlank_space
        · exact ih hinner

theorem isNormal_escape (t : List Char) : IsNormal (escape t) where
  first := (trims_trim _).first
  last := (trims_trim _).last
  blank _ := eq_space_of_mem_escape
  single := by
    intro h
    obtain ⟨before, behind, heq, -⟩ := (trims_trim (collapse (guardReserved t))).ends
    exact not_infix_collapse (guardReserved t) (h.trans ⟨before, behind, heq.symm⟩)
  guarded := by
    intro before c behind heq hc
    have hinert : Inert (· ∈ reserved) (escape t) := inert_escape (fun c => of_decide_eq_true) t
    unfold Inert at hinert
    rw [heq, bare_append, List.append_eq_nil_iff] at hinert
    have hbehind : endsBehind false before = true := by
      by_contra hfree
      rw [Bool.not_eq_true] at hfree
      simp [bare, hc, hfree] at hinert
    rw [endsBehind_false, beq_iff_eq] at hbehind
    exact hbehind

/-- Guarding changes every text that has something to guard. -/
theorem guardReserved_eq_self_iff {t : List Char} :
    guardReserved t = t ↔ ∀ c ∈ t, c ∉ reserved := by
  induction t with
  | nil => simp
  | cons c t ih =>
      rw [guardReserved_cons, List.forall_mem_cons]
      by_cases hc : c ∈ reserved
      · rw [if_pos hc]
        refine iff_of_false (fun h => ?_) fun h => h.1 hc
        obtain ⟨rfl, -⟩ := List.cons.inj h
        revert hc
        decide
      · rw [if_neg hc, List.singleton_append, List.cons_inj_right, ih]
        exact (and_iff_right hc).symm

theorem escape_escape_iff {t : List Char} :
    escape (escape t) = escape t ↔ ∀ c ∈ t, c ∉ reserved := by
  have hnormal : trim (collapse (escape t)) = escape t := trim_collapse_idempotent _
  have hguarded : guardReserved (escape t) = escape t ↔
      guardReserved (trim (collapse t)) = trim (collapse t) := by
    rw [escape_eq_guardReserved]
    refine ⟨fun h => ?_, congrArg guardReserved⟩
    have hread := congrArg unguard h
    rwa [unguard_guardReserved, unguard_guardReserved] at hread
  have hblank : ∀ c ∈ reserved, isBlank c = false := fun c hc =>
    Bool.eq_false_iff.mpr fun hblank => not_mem_reserved_of_isBlank hblank hc
  rw [escape_eq_guardReserved (escape t), hnormal, hguarded, guardReserved_eq_self_iff]
  constructor
  · intro h c hmem hc
    exact h c ((mem_trim_collapse_iff (hblank c hc)).mpr hmem) hc
  · intro h c hmem hc
    exact h c ((mem_trim_collapse_iff (hblank c hc)).mp hmem) hc

/-- A run of blanks parts two texts that are escaped one by one. -/
theorem escape_append_blanks {a w b : List Char} (hne : w ≠ []) (hw : ∀ c ∈ w, isBlank c = true) :
    escape (a ++ w ++ b) = [' '].intercalate ([escape a, escape b].filter (!·.isEmpty)) := by
  have hwords : words (a ++ w ++ b) = words ([' '].intercalate [a, b]) := by
    cases w with
    | nil => exact absurd rfl hne
    | cons c w =>
        have hrest : ∀ d ∈ w, isBlank d = true := fun d hd => hw d (List.mem_cons_of_mem _ hd)
        have hc := hw c (List.mem_cons_self ..)
        rw [List.append_assoc, List.cons_append, words_append_blank a hc, words_blanks_append hrest,
          words_intercalate, List.flatMap_cons, List.flatMap_singleton]
  rw [escape_eq, hwords, ← escape_eq, escape_intercalate]
  rfl

/-- An escaped text is its words, guarded and joined by single spaces, in normal form. Another
escape changes it exactly if there is something to guard, and where blanks part the text the two
sides are escaped one by one. -/
theorem escaped_isNormal (t : String) :
    (escaped t).toList = [' '].intercalate ((words t.toList).map guardReserved) ∧
      IsNormal (escaped t).toList ∧
      (escaped (escaped t) = escaped t ↔ ∀ c ∈ t.toList, c ∉ reserved) ∧
      ∀ a w b : String, t = a ++ w ++ b → w ≠ "" → (∀ c ∈ w.toList, isBlank c = true) →
        (escaped t).toList =
          [' '].intercalate ([(escaped a).toList, (escaped b).toList].filter (!·.isEmpty)) := by
  refine ⟨?_, ?_, ?_, ?_⟩
  · rw [toList_escaped, escape_eq]
  · rw [toList_escaped]
    exact isNormal_escape _
  · rw [← String.toList_inj, toList_escaped, toList_escaped]
    exact escape_escape_iff
  · rintro a w b rfl hne hw
    have hne' : w.toList ≠ [] := fun h => hne (String.toList_inj.mp h)
    simp only [toList_escaped, String.toList_append]
    exact escape_append_blanks hne' hw

/-- An ideographic space and the end of a line part two texts, each with something to guard. -/
theorem twoLines_isNormal :
    "\u3000\n" ≠ "" ∧ (∀ c ∈ "\u3000\n".toList, isBlank c = true) ∧
      (escaped " a:\u3000\n=b ").toList =
        [' '].intercalate ([(escaped " a:").toList, (escaped "=b ").toList].filter (!·.isEmpty)) ∧
      escaped " a:\u3000\n=b " = "a\\: \\=b" := by
  have hne : "\u3000\n" ≠ "" := by decide
  have hblank : ∀ c ∈ "\u3000\n".toList, isBlank c = true := List.all_eq_true.mp (by decide)
  have hjoin : " a:\u3000\n=b " = " a:" ++ "\u3000\n" ++ "=b " := by decide
  have hvalue : escaped " a:\u3000\n=b " = "a\\: \\=b" := by decide +kernel
  obtain ⟨-, -, -, hparts⟩ := escaped_isNormal " a:\u3000\n=b "
  exact ⟨hne, hblank, hparts " a:" "\u3000\n" "=b " hjoin hne hblank, hvalue⟩

end Text

end GiftQuiz
