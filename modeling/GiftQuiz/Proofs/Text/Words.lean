import GiftQuiz.Text.Escape
import Mathlib.Data.List.DropRight

/-!
# Running text as words

Collapsing and trimming leave of a text its words, with one space between each two of them
(`trim_collapse`). As guarding neither makes nor removes blanks, `escape_eq` says the same of an
escaped text: it is the words, each of them guarded, and they can be read back (`unguard_escape`).
So texts that are joined by a space can be escaped one by one (`escape_intercalate`).

Texts in angle brackets can be escaped one by one also where nothing stands between them
(`escape_flatten`), as no white space meets where one ends and the next begins.
-/

namespace GiftQuiz

namespace Text

/-! ## Cutting at blanks -/

def Solid (w : List Char) : Prop :=
  ∀ c ∈ w, isBlank c = false

/-- Induction over the blanks of a text: it has none, or it is solid up to the first of them. -/
@[elab_as_elim]
theorem blanks_induction {motive : List Char → Prop} (solid : ∀ w, Solid w → motive w)
    (blank : ∀ w c t, Solid w → isBlank c = true → motive t → motive (w ++ c :: t))
    (t : List Char) : motive t := by
  have hsplit : t.takeWhile (!isBlank ·) ++ t.dropWhile (!isBlank ·) = t :=
    List.takeWhile_append_dropWhile
  have hsolid : Solid (t.takeWhile (!isBlank ·)) := fun c hc => by
    simpa using List.all_eq_true.mp List.all_takeWhile c hc
  cases hrest : t.dropWhile (!isBlank ·) with
  | nil =>
      rw [hrest, List.append_nil] at hsplit
      rw [← hsplit]
      exact solid _ hsolid
  | cons c rest =>
      have hblank : isBlank c = true := by
        have hhead := List.head?_dropWhile_not (!isBlank ·) t
        rw [hrest] at hhead
        simpa using hhead
      have hlength : rest.length < t.length := by
        rw [← hsplit, hrest, List.length_append, List.length_cons]
        omega
      rw [← hsplit, hrest]
      exact blank _ c rest hsolid hblank (blanks_induction solid blank rest)
termination_by t.length

theorem words_nil : words [] = [] := by
  rw [words, List.splitOnP_nil]
  rfl

theorem words_of_solid {w : List Char} (h : Solid w) (hne : w ≠ []) : words w = [w] := by
  rw [words, List.splitOnP_eq_singleton h]
  simp [hne]

/-- A blank stands between words. -/
theorem words_append_blank (t : List Char) {c : Char} (hc : isBlank c = true) (u : List Char) :
    words (t ++ c :: u) = words t ++ words u := by
  simp only [words, List.splitOnP_append_cons t u hc, List.filter_append]

theorem ne_nil_of_mem_words {t w : List Char} (h : w ∈ words t) : w ≠ [] := by
  simpa using (List.mem_filter.mp h).2

theorem isBlank_space : isBlank ' ' = true := rfl

theorem words_intercalate (ts : List (List Char)) :
    words ([' '].intercalate ts) = ts.flatMap words := by
  induction ts with
  | nil => exact words_nil
  | cons t ts ih =>
      cases ts with
      | nil => simp
      | cons u ts =>
          rw [List.intercalate_cons_cons, List.append_assoc, List.singleton_append,
            words_append_blank t isBlank_space, ih]
          rfl

/-! ## Collapsing -/

theorem collapse_solid_append {w : List Char} (h : Solid w) (t : List Char) :
    collapse (w ++ t) = w ++ collapse t := by
  induction w with
  | nil => rfl
  | cons c w ih =>
      have hc := h c (List.mem_cons_self ..)
      rw [List.cons_append, collapse_cons, hc, if_neg Bool.false_ne_true,
        ih fun d hd => h d (List.mem_cons_of_mem _ hd), List.cons_append]

/-- Where the second text does not begin with a blank, two texts are collapsed one by one. -/
theorem collapse_append {t u : List Char} {c : Char} (hc : isBlank c = false) :
    collapse (t ++ c :: u) = collapse t ++ collapse (c :: u) := by
  have hhead : collapse (c :: u) = c :: collapse u := by
    rw [collapse_cons, hc, if_neg Bool.false_ne_true]
  have hspace := beq_space_of_not_isBlank hc
  induction t with
  | nil => rfl
  | cons d t ih =>
      rw [List.cons_append, collapse_cons, collapse_cons, ih]
      by_cases hd : isBlank d
      · -- The spaces in front of the second text are those at the end of the first one.
        have hdrop : (collapse t ++ collapse (c :: u)).dropWhile (· == ' ') =
            (collapse t).dropWhile (· == ' ') ++ collapse (c :: u) := by
          rw [List.dropWhile_append]
          by_cases hall : ((collapse t).dropWhile (· == ' ')).isEmpty
          · rw [if_pos hall, List.isEmpty_iff.mp hall, hhead, List.dropWhile_cons, hspace,
              if_neg Bool.false_ne_true]
            rfl
          · rw [if_neg hall]
        rw [if_pos hd, if_pos hd, hdrop, List.cons_append]
      · rw [if_neg hd, if_neg hd, List.cons_append]

/-- A collapsed text has no other blanks than spaces in front. -/
theorem dropWhile_collapse (t : List Char) :
    (collapse t).dropWhile (· == ' ') = (collapse t).dropWhile isBlank := by
  induction t with
  | nil => rfl
  | cons c t ih =>
      rw [collapse_cons]
      by_cases hc : isBlank c
      · rw [if_pos hc, List.dropWhile_cons_of_pos rfl, List.dropWhile_cons_of_pos isBlank_space,
          List.dropWhile_idempotent, ih, List.dropWhile_idempotent]
      · have hspace := beq_space_of_not_isBlank (Bool.eq_false_iff.mpr hc)
        rw [if_neg hc, List.dropWhile_cons_of_neg hc, List.dropWhile_cons, hspace,
          if_neg Bool.false_ne_true]

/-- The only blank that is left is the space. -/
theorem eq_space_of_mem_collapse {t : List Char} {c : Char} (h : c ∈ collapse t)
    (hc : isBlank c = true) : c = ' ' := by
  induction t with
  | nil => cases h
  | cons d t ih =>
      rw [collapse_cons] at h
      split at h
      · rcases List.mem_cons.mp h with rfl | h
        · rfl
        · exact ih ((List.dropWhile_sublist _).mem h)
      · rename_i hd
        rcases List.mem_cons.mp h with rfl | h
        · exact absurd hc hd
        · exact ih h

/-! ## Trimming -/

theorem trim_eq (t : List Char) : trim t = (t.dropWhile isBlank).rdropWhile isBlank := rfl

theorem mem_of_mem_trim {t : List Char} {c : Char} (h : c ∈ trim t) : c ∈ t := by
  rw [trim_eq] at h
  exact (List.dropWhile_sublist _).mem ((List.rdropWhile_prefix _ _).sublist.mem h)

theorem rdropWhile_append_of_eq_nil {t u : List Char} (h : u.rdropWhile isBlank = []) :
    (t ++ u).rdropWhile isBlank = t.rdropWhile isBlank := by
  rw [List.rdropWhile, List.reverse_eq_nil_iff] at h
  rw [List.rdropWhile, List.reverse_append, List.dropWhile_append, h, List.isEmpty_nil, if_pos rfl,
    List.rdropWhile]

theorem rdropWhile_append_of_ne_nil {t u : List Char} (h : u.rdropWhile isBlank ≠ []) :
    (t ++ u).rdropWhile isBlank = t ++ u.rdropWhile isBlank := by
  have hne : ¬ (u.reverse.dropWhile isBlank).isEmpty = true := fun hempty =>
    h (List.reverse_eq_nil_iff.mpr (List.isEmpty_iff.mp hempty))
  rw [List.rdropWhile, List.reverse_append, List.dropWhile_append, if_neg hne,
    List.reverse_append, List.reverse_reverse, List.rdropWhile]

theorem trim_of_ends {t : List Char} (hfirst : ∀ c ∈ t.head?, isBlank c = false)
    (hlast : ∀ c ∈ t.getLast?, isBlank c = false) : trim t = t := by
  have hfront : t.dropWhile isBlank = t := by
    cases t with
    | nil => rfl
    | cons c t =>
        have hc := hfirst c rfl
        rw [List.dropWhile_cons, hc, if_neg Bool.false_ne_true]
  rw [trim_eq, hfront, List.rdropWhile_eq_self_iff]
  intro hne
  rw [hlast _ (List.getLast?_eq_some_getLast hne)]
  exact Bool.false_ne_true

theorem Solid.trim_eq {w : List Char} (h : Solid w) : trim w = w :=
  trim_of_ends (fun c hc => h c (List.mem_of_mem_head? hc))
    fun c hc => h c (List.mem_of_getLast? hc)

/-! ## A text is its words -/

theorem intercalate_ne_nil {sep : List Char} {ts : List (List Char)} (h : ∀ t ∈ ts, t ≠ [])
    (hne : ts ≠ []) : sep.intercalate ts ≠ [] := by
  cases ts with
  | nil => exact absurd rfl hne
  | cons t ts =>
      have ht := h t (List.mem_cons_self ..)
      cases ts with
      | nil => simpa using ht
      | cons u ts => simp [List.intercalate_cons_cons, ht]

theorem intercalate_append {ts us : List (List Char)} (ht : ts ≠ []) (hu : us ≠ [])
    (sep : List Char) :
    sep.intercalate (ts ++ us) = sep.intercalate ts ++ sep ++ sep.intercalate us := by
  induction ts with
  | nil => exact absurd rfl ht
  | cons t ts ih =>
      by_cases hts : ts = []
      · rw [hts, List.singleton_append, List.intercalate_cons_of_ne_nil hu,
          List.intercalate_singleton]
      · rw [List.cons_append, List.intercalate_cons_of_ne_nil (by simp [hts]),
          List.intercalate_cons_of_ne_nil hts, ih hts]
        simp only [List.append_assoc]

theorem intercalate_empty (ts : List (List Char)) : [].intercalate ts = ts.flatten := by
  induction ts with
  | nil => rfl
  | cons t ts ih =>
      by_cases hts : ts = []
      · rw [hts, List.intercalate_singleton, List.flatten_singleton]
      · rw [List.intercalate_cons_of_ne_nil hts, ih, List.append_nil, List.flatten_cons]

theorem Solid.dropWhile_append {w : List Char} (h : Solid w) (hne : w ≠ []) (t : List Char) :
    (w ++ t).dropWhile isBlank = w ++ t := by
  cases w with
  | nil => exact absurd rfl hne
  | cons c w =>
      have hc := h c (List.mem_cons_self ..)
      rw [List.cons_append, List.dropWhile_cons, hc, if_neg Bool.false_ne_true]

/-- What is left of a text is its words, with one space between each two of them. -/
theorem trim_collapse (t : List Char) : trim (collapse t) = [' '].intercalate (words t) := by
  induction t using blanks_induction with
  | solid w hw =>
      have hcollapse := collapse_solid_append hw []
      rw [List.append_nil, collapse_nil, List.append_nil] at hcollapse
      rw [hcollapse, hw.trim_eq]
      by_cases hne : w = []
      · rw [hne, words_nil, List.intercalate_nil]
      · rw [words_of_solid hw hne, List.intercalate_singleton]
  | blank w c t hw hc ih =>
      rw [trim_eq] at ih
      have hcollapse : collapse (w ++ c :: t) = w ++ [' '] ++ (collapse t).dropWhile isBlank := by
        rw [collapse_solid_append hw, collapse_cons, if_pos hc, dropWhile_collapse,
          List.append_assoc, List.singleton_append]
      rw [hcollapse, trim_eq, words_append_blank w hc]
      by_cases hne : w = []
      · rw [hne, List.nil_append, List.singleton_append,
          List.dropWhile_cons_of_pos isBlank_space, List.dropWhile_idempotent, ih, words_nil,
          List.nil_append]
      · rw [List.append_assoc, hw.dropWhile_append hne, ← List.append_assoc,
          words_of_solid hw hne, List.singleton_append]
        by_cases hwords : words t = []
        · -- The space is the end of the text, and goes with it.
          rw [hwords, List.intercalate_nil] at ih
          rw [rdropWhile_append_of_eq_nil ih, List.rdropWhile_concat_pos _ _ _ isBlank_space,
            hwords, List.intercalate_singleton, List.rdropWhile_eq_self_iff]
          intro hne'
          rw [hw _ (List.getLast_mem hne')]
          exact Bool.false_ne_true
        · have hnext : [' '].intercalate (words t) ≠ [] :=
            intercalate_ne_nil (fun _ => ne_nil_of_mem_words) hwords
          rw [← ih] at hnext
          rw [rdropWhile_append_of_ne_nil hnext, ih, List.intercalate_cons_of_ne_nil hwords]

/-! ## Escaping words -/

theorem guardReserved_cons (c : Char) (t : List Char) :
    guardReserved (c :: t) = (if c ∈ reserved then ['\\', c] else [c]) ++ guardReserved t := by
  rw [guardReserved, List.flatMap_cons]
  rfl

theorem guardReserved_blank_cons {c : Char} (hc : isBlank c = true) (t : List Char) :
    guardReserved (c :: t) = c :: guardReserved t := by
  rw [guardReserved_cons, if_neg (not_mem_reserved_of_isBlank hc)]
  rfl

theorem Solid.guardReserved {w : List Char} (h : Solid w) : Solid (guardReserved w) := by
  intro d hd
  obtain ⟨c, hc, hd⟩ := List.mem_flatMap.mp hd
  have hsolid := h c hc
  split at hd
  · rcases List.mem_cons.mp hd with rfl | hd
    · rfl
    · rw [List.mem_singleton.mp hd]
      exact hsolid
  · rw [List.mem_singleton.mp hd]
    exact hsolid

theorem guardReserved_ne_nil {w : List Char} (h : w ≠ []) : guardReserved w ≠ [] := by
  cases w with
  | nil => exact absurd rfl h
  | cons c w =>
      rw [guardReserved_cons]
      split <;> simp

/-- Guarding leaves the words of a text apart and guards each of them. -/
theorem words_guardReserved (t : List Char) :
    words (guardReserved t) = (words t).map guardReserved := by
  induction t using blanks_induction with
  | solid w hw =>
      by_cases hne : w = []
      · rw [hne, guardReserved_nil, words_nil, List.map_nil]
      · rw [words_of_solid hw.guardReserved (guardReserved_ne_nil hne), words_of_solid hw hne,
          List.map_singleton]
  | blank w c t hw hc ih =>
      rw [guardReserved_append, guardReserved_blank_cons hc, words_append_blank _ hc,
        words_append_blank _ hc, ih, List.map_append]
      by_cases hne : w = []
      · rw [hne, guardReserved_nil, words_nil, List.map_nil]
      · rw [words_of_solid hw.guardReserved (guardReserved_ne_nil hne), words_of_solid hw hne,
          List.map_singleton]

/-- An escaped text is the words of the text, each of them guarded, with one space between each two
of them. -/
theorem escape_eq (t : List Char) :
    escape t = [' '].intercalate ((words t).map guardReserved) := by
  rw [escape, trim_collapse, words_guardReserved]

theorem eq_space_of_mem_escape {t : List Char} {c : Char} (h : c ∈ escape t)
    (hc : isBlank c = true) : c = ' ' :=
  eq_space_of_mem_collapse (mem_of_mem_trim h) hc

/-! ## Reading back -/

theorem not_mem_reserved_of_guardReserved_eq {t rest : List Char} {d : Char}
    (h : guardReserved t = d :: rest) : d ∉ reserved := by
  cases t with
  | nil => cases h
  | cons c t =>
      rw [guardReserved_cons] at h
      by_cases hc : c ∈ reserved
      · rw [if_pos hc] at h
        cases h
        decide
      · rw [if_neg hc] at h
        cases h
        exact hc

/-- A guard stands before every reserved character, and every other backslash before a character
that is not reserved. -/
theorem unguard_guardReserved (t : List Char) : unguard (guardReserved t) = t := by
  induction t with
  | nil => rfl
  | cons c t ih =>
      rw [guardReserved_cons]
      by_cases hc : c ∈ reserved
      · rw [if_pos hc]
        show unguard ('\\' :: c :: guardReserved t) = c :: t
        rw [unguard, if_pos ⟨rfl, hc⟩, ih]
      · rw [if_neg hc, List.singleton_append]
        cases hrest : guardReserved t with
        | nil =>
            rw [hrest] at ih
            rw [← ih]
            rfl
        | cons d rest =>
            have hd := not_mem_reserved_of_guardReserved_eq hrest
            rw [unguard, if_neg fun h => hd h.2, ← hrest, ih]

theorem guardReserved_intercalate (ts : List (List Char)) :
    guardReserved ([' '].intercalate ts) = [' '].intercalate (ts.map guardReserved) := by
  induction ts with
  | nil => rfl
  | cons t ts ih =>
      cases ts with
      | nil => simp
      | cons u ts =>
          rw [List.intercalate_cons_cons, guardReserved_append, guardReserved_append, ih,
            List.map_cons, List.map_cons, List.map_cons, List.intercalate_cons_cons]
          rfl

/-- What is read back from an escaped text is its words, with one space between each two of them. -/
theorem unguard_escape (t : List Char) : unguard (escape t) = [' '].intercalate (words t) := by
  rw [escape_eq, ← guardReserved_intercalate, unguard_guardReserved]

/-! ## Escaping piece by piece -/

/-- Where every list has no empty item, joining all items is joining the lists one by one and then
what comes of those that are not empty. -/
theorem intercalate_flatten {sep : List Char} {tss : List (List (List Char))}
    (h : ∀ ts ∈ tss, ∀ t ∈ ts, t ≠ []) :
    sep.intercalate tss.flatten =
      sep.intercalate ((tss.map sep.intercalate).filter (!·.isEmpty)) := by
  induction tss with
  | nil => rfl
  | cons ts tss ih =>
      have hts := h ts (List.mem_cons_self ..)
      have hrest := ih fun us hus => h us (List.mem_cons_of_mem _ hus)
      rw [List.flatten_cons, List.map_cons]
      by_cases hempty : ts = []
      · rw [hempty, List.nil_append, List.intercalate_nil, hrest]
        rfl
      · have hjoined : sep.intercalate ts ≠ [] := intercalate_ne_nil hts hempty
        rw [List.filter_cons_of_pos (by simpa using hjoined)]
        by_cases hflat : tss.flatten = []
        · -- Then no list behind the first one has anything to join.
          have hfilter : (tss.map sep.intercalate).filter (!·.isEmpty) = [] := by
            refine List.filter_eq_nil_iff.mpr fun u hu => ?_
            obtain ⟨us, hus, rfl⟩ := List.mem_map.mp hu
            rw [List.flatten_eq_nil_iff.mp hflat us hus]
            simp
          rw [hflat, hfilter, List.append_nil, List.intercalate_singleton]
        · have hfilter : (tss.map sep.intercalate).filter (!·.isEmpty) ≠ [] := by
            intro hnil
            rw [hnil, List.intercalate_nil] at hrest
            refine intercalate_ne_nil ?_ hflat hrest
            intro t ht
            obtain ⟨us, hus, ht⟩ := List.mem_flatten.mp ht
            exact h us (List.mem_cons_of_mem _ hus) t ht
          rw [intercalate_append hempty hflat, hrest, List.intercalate_cons_of_ne_nil hfilter]

/-- Texts that are joined by a space are escaped one by one, and the empty results are left out. -/
theorem escape_intercalate (ts : List (List Char)) :
    escape ([' '].intercalate ts) =
      [' '].intercalate ((ts.map escape).filter (!·.isEmpty)) := by
  have hpieces : (ts.flatMap words).map guardReserved =
      (ts.map fun t => (words t).map guardReserved).flatten := by
    rw [List.map_flatMap, List.flatMap_def]
  have hescape : ts.map escape =
      (ts.map fun t => (words t).map guardReserved).map [' '].intercalate := by
    rw [List.map_map]
    exact List.map_congr_left fun t _ => escape_eq t
  rw [escape_eq, words_intercalate, hpieces, hescape]
  refine intercalate_flatten fun us hus u hu => ?_
  obtain ⟨t, -, rfl⟩ := List.mem_map.mp hus
  obtain ⟨w, hw, rfl⟩ := List.mem_map.mp hu
  exact guardReserved_ne_nil (ne_nil_of_mem_words hw)

def InBrackets (t : List Char) : Prop :=
  ∃ u, t = '<' :: u ++ ['>']

theorem InBrackets.append {t u : List Char} (h : InBrackets t) (h' : InBrackets u) :
    InBrackets (t ++ u) := by
  obtain ⟨v, rfl⟩ := h
  obtain ⟨w, rfl⟩ := h'
  exact ⟨v ++ '>' :: '<' :: w, by simp⟩

theorem InBrackets.guardReserved {t : List Char} (h : InBrackets t) :
    InBrackets (guardReserved t) := by
  obtain ⟨u, rfl⟩ := h
  refine ⟨Text.guardReserved u, ?_⟩
  rw [List.cons_append, guardReserved_cons, guardReserved_append]
  rfl

theorem InBrackets.collapse {t : List Char} (h : InBrackets t) : InBrackets (collapse t) := by
  obtain ⟨u, rfl⟩ := h
  refine ⟨Text.collapse u, ?_⟩
  rw [collapse_append (c := '>') rfl, collapse_cons]
  rfl

/-- There is nothing to trim in front of a bracket or behind one. -/
theorem InBrackets.escape_eq {t : List Char} (h : InBrackets t) :
    escape t = Text.collapse (Text.guardReserved t) := by
  obtain ⟨u, hu⟩ := h.guardReserved.collapse
  rw [escape, hu]
  refine trim_of_ends ?_ ?_
  · rintro _ ⟨⟩
    rfl
  · rw [List.getLast?_concat]
    rintro _ ⟨⟩
    rfl

theorem escape_append {t u : List Char} (h : InBrackets t) (h' : InBrackets u) :
    escape (t ++ u) = escape t ++ escape u := by
  obtain ⟨v, hv⟩ := h'.guardReserved
  rw [(h.append h').escape_eq, h.escape_eq, h'.escape_eq, guardReserved_append, hv,
    List.cons_append, collapse_append rfl]

theorem inBrackets_flatten {ts : List (List Char)} (h : ∀ t ∈ ts, InBrackets t) (hne : ts ≠ []) :
    InBrackets ts.flatten := by
  induction ts with
  | nil => exact absurd rfl hne
  | cons t ts ih =>
      have ht := h t (List.mem_cons_self ..)
      rw [List.flatten_cons]
      by_cases hts : ts = []
      · rw [hts, List.flatten_nil, List.append_nil]
        exact ht
      · exact ht.append (ih (fun u hu => h u (List.mem_cons_of_mem _ hu)) hts)

/-- Texts in angle brackets, with nothing between them, are escaped one by one. -/
theorem escape_flatten {ts : List (List Char)} (h : ∀ t ∈ ts, InBrackets t) :
    escape ts.flatten = ts.flatMap escape := by
  induction ts with
  | nil => rfl
  | cons t ts ih =>
      have ht := h t (List.mem_cons_self ..)
      have hts : ∀ u ∈ ts, InBrackets u := fun u hu => h u (List.mem_cons_of_mem _ hu)
      rw [List.flatten_cons, List.flatMap_cons, ← ih hts]
      by_cases hne : ts = []
      · rw [hne, List.flatten_nil, List.append_nil]
        exact (List.append_nil _).symm
      · exact escape_append ht (inBrackets_flatten hts hne)

end Text

end GiftQuiz
