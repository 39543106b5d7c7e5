/-!
# Splitting at a separator

`splitOnce` divides a sequence at the first occurrence of a separator; `List.splitOn` of the core
library divides it at every one. A sequence whose items are of one kind up to a place is divided
there by `takeWhile` and `dropWhile`.
-/

namespace GiftQuiz

/-- What stands before and behind the first occurrence of a separator. -/
def splitOnce [BEq α] (separator : α) (l : List α) : Option (List α × List α) :=
  match l.dropWhile (· != separator) with
  | [] => none
  | _ :: behind => some (l.takeWhile (· != separator), behind)

/-- The two sides and the separator between them make the sequence. -/
theorem splitOnce_eq [BEq α] [LawfulBEq α] {separator : α} {l before behind : List α}
    (h : splitOnce separator l = some (before, behind)) :
    l = before ++ separator :: behind ∧ separator ∉ before := by
  simp only [splitOnce] at h
  split at h
  · cases h
  · rename_i c _ hd
    cases h
    have hc : c = separator := by
      have := List.head_dropWhile_not (fun x => x != separator) (l := l) (by simp [hd])
      simpa [hd] using this
    subst hc
    refine ⟨?_, fun hm => ?_⟩
    · rw [← hd, List.takeWhile_append_dropWhile]
    · have := List.all_eq_true.1 (List.all_takeWhile (p := fun x => x != c) (l := l)) c hm
      simp at this

theorem splitOnce_append [BEq α] [LawfulBEq α] {separator : α} {before : List α}
    (h : separator ∉ before) (behind : List α) :
    splitOnce separator (before ++ separator :: behind) = some (before, behind) := by
  have hbefore : ∀ x ∈ before, (x != separator) = true := by
    intro x hx
    rw [bne_iff_ne]
    rintro rfl
    exact h hx
  have hfront : (separator != separator) = false := by simp
  simp only [splitOnce, List.dropWhile_append_of_pos hbefore, List.takeWhile_append_of_pos hbefore,
    List.dropWhile_cons, List.takeWhile_cons, hfront]
  simp

/-- There is nothing to divide only without a separator. -/
theorem splitOnce_eq_none_iff [BEq α] [LawfulBEq α] {separator : α} {l : List α} :
    splitOnce separator l = none ↔ separator ∉ l := by
  constructor
  · intro h hmem
    obtain ⟨before, behind, rfl, hbefore⟩ := List.eq_append_cons_of_mem hmem
    rw [splitOnce_append hbefore] at h
    cases h
  · intro h
    cases hl : splitOnce separator l with
    | none => rfl
    | some sides =>
      obtain ⟨rfl, -⟩ := splitOnce_eq hl
      exact absurd (by simp) h

section

variable {q : α → Bool} {t u : List α}

theorem takeWhile_append_eq (ht : ∀ c ∈ t, q c = true) (hu : ∀ c, u.head? = some c → q c = false) :
    (t ++ u).takeWhile q = t := by
  rw [List.takeWhile_append_of_pos ht]
  cases u with
  | nil => exact List.append_nil t
  | cons c u => rw [List.takeWhile_cons_of_neg (by simp [hu c rfl]), List.append_nil]

theorem dropWhile_append_eq (ht : ∀ c ∈ t, q c = true) (hu : ∀ c, u.head? = some c → q c = false) :
    (t ++ u).dropWhile q = u := by
  rw [List.dropWhile_append_of_pos ht]
  cases u with
  | nil => rfl
  | cons c u => rw [List.dropWhile_cons_of_neg (by simp [hu c rfl])]

end

end GiftQuiz
