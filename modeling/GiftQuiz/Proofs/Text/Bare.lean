import GiftQuiz.Text.Escape

/-!
# Bare characters

A backslash takes the meaning from the character behind it. `bare p behind t` lists the characters
of a text that have a property and keep their meaning, where `behind` says whether a backslash
stands in front of the text. A text without any is `Inert`: wherever it is put, it adds no meaning.

`inert_escape` says that escaping makes a text inert. It is inert for any property of reserved
characters, as guarding puts a backslash before every one of them, and no blank is reserved.
-/

namespace GiftQuiz

namespace Text

/-- The characters with a property that do not stand directly behind a backslash. -/
def bare (p : Char → Bool) : Bool → List Char → List Char
  | _, [] => []
  | behind, c :: t =>
    if p c && !behind then c :: bare p (c == '\\') t else bare p (c == '\\') t

/-- Whether a backslash stands in front of what follows a text. -/
def endsBehind (behind : Bool) (t : List Char) : Bool :=
  (t.getLast?.map (· == '\\')).getD behind

/-- A text in which no character with a property has a meaning. -/
def Inert (p : Char → Bool) (t : List Char) : Prop :=
  bare p false t = []

instance (p : Char → Bool) (t : List Char) : Decidable (Inert p t) :=
  inferInstanceAs (Decidable (bare p false t = []))

/-- What a joined text inherits from its pieces and what stands between them. -/
theorem intercalate_induction {P : List Char → Prop} {sep : List Char} {ts : List (List Char)}
    (nil : P []) (append : ∀ t u, P t → P u → P (t ++ u)) (hsep : P sep) (h : ∀ t ∈ ts, P t) :
    P (sep.intercalate ts) := by
  induction ts with
  | nil => exact nil
  | cons t ts ih =>
      have ht := h t (List.mem_cons_self ..)
      have hts := ih fun u hu => h u (List.mem_cons_of_mem _ hu)
      cases ts with
      | nil => simpa using ht
      | cons u ts =>
          rw [List.intercalate_cons_cons]
          exact append _ _ (append _ _ ht hsep) hts

section

variable {p : Char → Bool}

@[simp] theorem bare_nil (behind : Bool) : bare p behind [] = [] := rfl

@[simp] theorem endsBehind_nil (behind : Bool) : endsBehind behind [] = behind := rfl

theorem endsBehind_cons (behind : Bool) (c : Char) (t : List Char) :
    endsBehind behind (c :: t) = endsBehind (c == '\\') t := by
  cases t with
  | nil => rfl
  | cons d t =>
      unfold endsBehind
      rw [List.getLast?_cons_cons]
      cases h : (d :: t).getLast? with
      | none => simp at h
      | some l => rfl

theorem endsBehind_append_singleton (behind : Bool) (t : List Char) (c : Char) :
    endsBehind behind (t ++ [c]) = (c == '\\') := by
  simp [endsBehind]

theorem bare_append (behind : Bool) (t u : List Char) :
    bare p behind (t ++ u) = bare p behind t ++ bare p (endsBehind behind t) u := by
  induction t generalizing behind with
  | nil => rfl
  | cons c t ih =>
      rw [List.cons_append, endsBehind_cons]
      simp only [bare]
      split
      · rw [ih, List.cons_append]
      · exact ih _

theorem endsBehind_append (behind : Bool) (t u : List Char) :
    endsBehind behind (t ++ u) = endsBehind (endsBehind behind t) u := by
  induction t generalizing behind with
  | nil => rfl
  | cons c t ih => rw [List.cons_append, endsBehind_cons, endsBehind_cons, ih]

theorem endsBehind_false (t : List Char) :
    endsBehind false t = (t.getLast? == some '\\') := by
  unfold endsBehind
  cases t.getLast? <;> rfl

/-- Texts that do not end in a backslash keep their own bare characters when they are joined. -/
theorem bare_flatten {ts : List (List Char)} (h : ∀ t ∈ ts, endsBehind false t = false) :
    bare p false ts.flatten = ts.flatMap (bare p false) := by
  induction ts with
  | nil => rfl
  | cons t ts ih =>
      have ht := h t (List.mem_cons_self ..)
      have hts := ih fun u hu => h u (List.mem_cons_of_mem _ hu)
      rw [List.flatten_cons, bare_append, ht, hts, List.flatMap_cons]

theorem beq_backslash_of_isBlank {c : Char} (h : isBlank c = true) : (c == '\\') = false := by
  refine beq_eq_false_iff_ne.mpr ?_
  rintro rfl
  cases h

theorem bare_eq_nil_of_forall {t : List Char} (h : ∀ c ∈ t, p c = false) (behind : Bool) :
    bare p behind t = [] := by
  induction t generalizing behind with
  | nil => rfl
  | cons c t ih =>
      have hc := h c (List.mem_cons_self ..)
      simp only [bare, hc, Bool.false_and, Bool.false_eq_true, if_false]
      exact ih (fun d hd => h d (List.mem_cons_of_mem _ hd)) _

namespace Inert

/-- Also behind a backslash there is no meaning in an inert text. -/
theorem bare_eq_nil {t : List Char} (h : Inert p t) (behind : Bool) : bare p behind t = [] := by
  cases behind with
  | false => exact h
  | true =>
      cases t with
      | nil => rfl
      | cons c t =>
          unfold Inert at h
          simp only [bare] at h ⊢
          split at h
          · cases h
          · simp only [Bool.not_true, Bool.and_false, Bool.false_eq_true, if_false]
            exact h

theorem of_forall {t : List Char} (h : ∀ c ∈ t, p c = false) : Inert p t :=
  bare_eq_nil_of_forall h false

theorem append {t u : List Char} (ht : Inert p t) (hu : Inert p u) : Inert p (t ++ u) := by
  unfold Inert
  rw [bare_append, ht.bare_eq_nil, hu.bare_eq_nil, List.append_nil]

theorem flatten {ts : List (List Char)} (h : ∀ t ∈ ts, Inert p t) : Inert p ts.flatten := by
  induction ts with
  | nil => rfl
  | cons t ts ih =>
      rw [List.flatten_cons]
      exact (h t (List.mem_cons_self ..)).append (ih fun u hu => h u (List.mem_cons_of_mem _ hu))

theorem intercalate {sep : List Char} {ts : List (List Char)} (hsep : Inert p sep)
    (h : ∀ t ∈ ts, Inert p t) : Inert p (sep.intercalate ts) :=
  intercalate_induction rfl (fun _ _ ht hu => ht.append hu) hsep h

theorem left {t u : List Char} (h : Inert p (t ++ u)) : Inert p t := by
  unfold Inert at h ⊢
  rw [bare_append] at h
  exact (List.append_eq_nil_iff.mp h).1

/-- A blank is no backslash, so what stands behind blanks is not changed when they go. -/
theorem dropWhile_isBlank {t : List Char} (h : Inert p t) : Inert p (t.dropWhile isBlank) := by
  induction t with
  | nil => exact h
  | cons c t ih =>
      rw [List.dropWhile_cons]
      by_cases hc : isBlank c = true
      · rw [if_pos hc]
        have hbackslash := beq_backslash_of_isBlank hc
        unfold Inert at h
        simp only [bare, hbackslash] at h
        split at h
        · cases h
        · exact ih h
      · rw [if_neg hc]
        exact h

theorem trim {t : List Char} (h : Inert p t) : Inert p (trim t) := by
  have hprefix : Text.trim t <+: t.dropWhile isBlank := by
    have hsuffix := List.dropWhile_suffix isBlank (l := (t.dropWhile isBlank).reverse)
    have hreverse := List.reverse_prefix.mpr hsuffix
    rw [List.reverse_reverse] at hreverse
    exact hreverse
  obtain ⟨u, hu⟩ := hprefix
  have hdrop := h.dropWhile_isBlank
  rw [← hu] at hdrop
  exact hdrop.left

end Inert

/-! ## Escaped text -/

variable (hp : ∀ c, p c = true → c ∈ reserved)

include hp

theorem not_of_not_mem_reserved {c : Char} (h : c ∉ reserved) : p c = false :=
  Bool.eq_false_iff.mpr fun hc => h (hp c hc)

theorem not_of_isBlank {c : Char} (h : isBlank c = true) : p c = false :=
  not_of_not_mem_reserved hp (not_mem_reserved_of_isBlank h)

theorem inert_guardReserved (t : List Char) : Inert p (guardReserved t) := by
  unfold guardReserved
  rw [List.flatMap_def]
  refine .flatten fun u hu => ?_
  obtain ⟨c, -, rfl⟩ := List.mem_map.mp hu
  by_cases hc : c ∈ reserved
  · rw [if_pos hc]
    have hbackslash : p '\\' = false := not_of_not_mem_reserved hp (by decide)
    simp [Inert, bare, hbackslash]
  · rw [if_neg hc]
    refine .of_forall fun d hd => ?_
    obtain rfl := List.mem_singleton.mp hd
    exact not_of_not_mem_reserved hp hc

theorem bare_dropWhile_space (t : List Char) :
    bare p false (t.dropWhile (· == ' ')) = bare p false t := by
  induction t with
  | nil => rfl
  | cons c t ih =>
      rw [List.dropWhile_cons]
      by_cases hc : (c == ' ') = true
      · rw [if_pos hc, ih]
        obtain rfl := beq_iff_eq.mp hc
        have hspace : p ' ' = false := not_of_isBlank hp rfl
        simp [bare, hspace]
      · rw [if_neg hc]

/-- A run of blanks takes no more meaning away than a space. -/
theorem bare_collapse (behind : Bool) (t : List Char) :
    bare p behind (collapse t) = bare p behind t := by
  -- The space in front of a collapsed rest hides nothing: no blank is a backslash.
  induction t generalizing behind with
  | nil => rfl
  | cons c t ih =>
      rw [collapse_cons]
      by_cases hc : isBlank c = true
      · have hspace : p ' ' = false := not_of_isBlank hp rfl
        have hbare : p c = false := not_of_isBlank hp hc
        have hbackslash := beq_backslash_of_isBlank hc
        rw [if_pos hc]
        simp only [bare, hspace, hbare, hbackslash, Bool.false_and, Bool.false_eq_true, if_false]
        rw [show (' ' == '\\') = false from rfl, bare_dropWhile_space hp]
        exact ih false
      · rw [if_neg hc]
        simp only [bare, ih]

/-- An escaped text is inert. -/
theorem inert_escape (t : List Char) : Inert p (escape t) := by
  have hcollapse : Inert p (collapse (guardReserved t)) := by
    unfold Inert
    rw [bare_collapse hp]
    exact inert_guardReserved hp t
  exact hcollapse.trim

end

/-! ## The end of an escaped text -/

theorem exists_dropWhile_eq {q : Char → Bool} {c : Char} (hc : q c = false) (t : List Char) :
    ∃ u, (t ++ [c]).dropWhile q = u ++ [c] := by
  induction t with
  | nil => exact ⟨[], by simp [hc]⟩
  | cons d t ih =>
      rw [List.cons_append, List.dropWhile_cons]
      split
      · exact ih
      · exact ⟨d :: t, rfl⟩

theorem exists_collapse_eq {c : Char} (hc : isBlank c = false) (t : List Char) :
    ∃ u, collapse (t ++ [c]) = u ++ [c] := by
  induction t with
  | nil => exact ⟨[], by simp [collapse_cons, hc]⟩
  | cons d t ih =>
      obtain ⟨u, hu⟩ := ih
      rw [List.cons_append, collapse_cons, hu]
      split
      · have hspace := beq_space_of_not_isBlank hc
        obtain ⟨w, hw⟩ := exists_dropWhile_eq (q := (· == ' ')) hspace u
        exact ⟨' ' :: w, by rw [hw]; rfl⟩
      · exact ⟨d :: u, rfl⟩

theorem exists_trim_eq {c : Char} (hc : isBlank c = false) (t : List Char) :
    ∃ u, trim (t ++ [c]) = u ++ [c] := by
  obtain ⟨u, hu⟩ := exists_dropWhile_eq hc t
  refine ⟨u, ?_⟩
  rw [trim, hu, List.reverse_append, List.reverse_singleton, List.singleton_append,
    List.dropWhile_cons, hc]
  simp

/-- A last character that is neither blank nor reserved stays the last one. -/
theorem exists_escape_eq {c : Char} (hc : isBlank c = false) (hreserved : c ∉ reserved)
    (t : List Char) : ∃ u, escape (t ++ [c]) = u ++ [c] := by
  have hguard : guardReserved (t ++ [c]) = guardReserved t ++ [c] := by
    rw [guardReserved_append]
    simp [guardReserved, hreserved]
  obtain ⟨u, hu⟩ := exists_collapse_eq hc (guardReserved t)
  obtain ⟨w, hw⟩ := exists_trim_eq hc u
  exact ⟨w, by rw [escape, hguard, hu, hw]⟩

end Text

end GiftQuiz
