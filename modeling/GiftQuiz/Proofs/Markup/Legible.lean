import GiftQuiz.Markup.Token.Scan
import GiftQuiz.Text.Split

/-!
# Tokens are read by themselves

What a token of a document is depends on its own text only. A reader of tokens is `Local` if the
text it takes is read the same in front of any other one; all readers of markup are
(`local_readMarkup`), and a run of character data needs no more than a `<` or the end behind it
(`legible_text_iff`).

A list of tokens is a `Run` if each of them is read where it stands. The tokens of a document are a
run (`run_scan`), scanning the spelling of a run gives the run back (`scan_flatMap_spelling`), and
every stretch of a run is a run by itself (`Run.stretch`). Hence a document can be cut between any
two of its tokens, and the pieces have the tokens they had inside of it.
-/

namespace GiftQuiz

namespace Markup

namespace Token

/-! ## Searching for the end of a token -/

theorem cutFrom_local {pattern done t a b : List Char} (hp : pattern ≠ [])
    (h : cutFrom pattern done t = some (a, b)) :
    ∃ u, a = done.reverse ++ u ∧ t = u ++ pattern ++ b ∧
      ∀ b', cutFrom pattern done (u ++ pattern ++ b') = some (a, b') := by
  induction t generalizing done with
  | nil => cases h
  | cons c t ih =>
      simp only [cutFrom] at h
      split at h
      · rename_i hpre
        obtain ⟨b₁, hb⟩ := List.isPrefixOf_iff_prefix.mp hpre
        cases h
        refine ⟨[], (List.append_nil _).symm, by simp [← hb], fun b' => ?_⟩
        obtain ⟨d, p, rfl⟩ := List.exists_cons_of_ne_nil hp
        have hfits : (d :: p).isPrefixOf (d :: (p ++ b')) := by simp
        simp only [List.nil_append, List.cons_append, cutFrom, if_pos hfits]
        simp
      · rename_i hpre
        obtain ⟨u, rfl, rfl, hrest⟩ := ih h
        refine ⟨c :: u, by simp, by simp, fun b' => ?_⟩
        -- An earlier occurrence would lie within `c :: u ++ pattern`, which both texts share.
        have hnot : ¬ pattern.isPrefixOf (c :: (u ++ pattern ++ b')) := by
          intro hfits
          have hshort : pattern <+: c :: (u ++ pattern) :=
            List.prefix_of_prefix_length_le (List.isPrefixOf_iff_prefix.mp hfits)
              (List.prefix_append (c :: (u ++ pattern)) b') (by simp; omega)
          have hlong := hshort.trans (List.prefix_append (c :: (u ++ pattern)) b)
          exact hpre (List.isPrefixOf_iff_prefix.mpr hlong)
        simp only [List.cons_append, cutFrom, if_neg hnot]
        exact hrest b'

theorem cut_local {pattern t a b : List Char} (hp : pattern ≠ [])
    (h : cut pattern t = some (a, b)) (b' : List Char) :
    cut pattern (a ++ pattern ++ b') = some (a, b') := by
  obtain ⟨u, rfl, -, hrest⟩ := cutFrom_local hp h
  exact hrest b'

theorem cutTagFrom_local {done t a b : List Char} {quote : Option Char}
    (h : cutTagFrom done quote t = some (a, b)) :
    ∃ u, a = done.reverse ++ u ∧ t = u ++ '>' :: b ∧
      ∀ b', cutTagFrom done quote (u ++ '>' :: b') = some (a, b') := by
  induction t generalizing done quote with
  | nil => cases h
  | cons c t ih =>
      cases quote with
      | some q =>
          obtain ⟨u, rfl, rfl, hrest⟩ := ih h
          exact ⟨c :: u, by simp, rfl, hrest⟩
      | none =>
          simp only [cutTagFrom] at h
          split at h
          · rename_i hc
            cases h
            exact ⟨[], (List.append_nil _).symm, by rw [hc]; rfl, fun _ => rfl⟩
          · rename_i hc
            obtain ⟨u, rfl, rfl, hrest⟩ := ih h
            refine ⟨c :: u, by simp, rfl, fun b' => ?_⟩
            simp only [List.cons_append, cutTagFrom, if_neg hc]
            exact hrest b'

theorem cutTag_local {t a b : List Char} (h : cutTag t = some (a, b)) (b' : List Char) :
    cutTag (a ++ '>' :: b') = some (a, b') := by
  obtain ⟨u, rfl, -, hrest⟩ := cutTagFrom_local h
  exact hrest b'

theorem cutBalancedFrom_local {done t a b : List Char} {depth : Nat}
    (h : cutBalancedFrom done depth t = some (a, b)) :
    ∃ u, a = done.reverse ++ u ∧ t = u ++ '>' :: b ∧
      ∀ b', cutBalancedFrom done depth (u ++ '>' :: b') = some (a, b') := by
  induction t generalizing done depth with
  | nil => cases h
  | cons c t ih =>
      simp only [cutBalancedFrom] at h
      split at h
      · rename_i hopen
        obtain ⟨u, rfl, rfl, hrest⟩ := ih h
        refine ⟨c :: u, by simp, rfl, fun b' => ?_⟩
        simp only [List.cons_append, cutBalancedFrom, if_pos hopen]
        exact hrest b'
      · rename_i hopen
        split at h
        · rename_i hclose
          cases depth with
          | zero =>
              cases h
              exact ⟨[], (List.append_nil _).symm, by rw [hclose]; rfl, fun _ => rfl⟩
          | succ depth =>
              obtain ⟨u, rfl, rfl, hrest⟩ := ih h
              refine ⟨c :: u, by simp, rfl, fun b' => ?_⟩
              simp only [List.cons_append, cutBalancedFrom, if_neg hopen, if_pos hclose]
              exact hrest b'
        · rename_i hclose
          obtain ⟨u, rfl, rfl, hrest⟩ := ih h
          refine ⟨c :: u, by simp, rfl, fun b' => ?_⟩
          simp only [List.cons_append, cutBalancedFrom, if_neg hopen, if_neg hclose]
          exact hrest b'

theorem cutBalanced_local {t a b : List Char} (h : cutBalanced t = some (a, b))
    (b' : List Char) : cutBalanced (a ++ '>' :: b') = some (a, b') := by
  obtain ⟨u, rfl, -, hrest⟩ := cutBalancedFrom_local h
  exact hrest b'

/-! ## Readers of markup -/

/-- A reader that finds its token by the text of the token alone. -/
def Local (reader : List Char → Except Fault (Token × List Char)) : Prop :=
  ∀ {t rest : List Char} {k : Token}, reader t = .ok (k, rest) →
    ∃ c body, t = c :: body ++ rest ∧ ∀ rest', reader (c :: body ++ rest') = .ok (k, rest')

theorem local_readInstruction : Local readInstruction := by
  intro t rest k h
  simp only [readInstruction] at h
  split at h
  · cases h
  · rename_i hfirst
    split at h
    · rename_i content rest' hcut
      cases h
      obtain ⟨c, body, hbody⟩ : ∃ c body, content ++ instructionClose = c :: body :=
        List.exists_cons_of_ne_nil (by simp [instructionClose])
      have ht := cut_eq hcut
      rw [hbody] at ht
      refine ⟨c, body, ht, fun b' => ?_⟩
      have hagain := cut_local (by simp [instructionClose]) hcut b'
      rw [hbody] at hagain
      rw [readInstruction]
      · simp only [hagain]
      · rintro u hu
        obtain rfl := (List.cons.inj hu).1
        exact hfirst _ ht
    · cases h

theorem local_readComment : Local readComment := by
  intro t rest k h
  cases t with
  | nil => cases h
  | cons c t =>
      simp only [readComment] at h
      split at h
      · rename_i content rest' hcut
        split at h
        · rename_i hc
          cases h
          refine ⟨c, content ++ commentClose, by rw [cut_eq hcut]; rfl, fun b' => ?_⟩
          simp only [readComment, List.cons_append,
            cut_local (by simp [commentClose]) hcut b', if_pos hc]
        · cases h
      · cases h

theorem local_readCData : Local readCData := by
  intro t rest k h
  simp only [readCData] at h
  split at h
  · rename_i content rest' hcut
    split at h
    · rename_i inner
      cases h
      refine ⟨'C', 'D' :: 'A' :: 'T' :: 'A' :: '[' :: inner ++ cdataClose, by simp [cut_eq hcut],
        fun b' => ?_⟩
      have hagain := cut_local (by simp [cdataClose]) hcut b'
      simp only [List.cons_append] at hagain
      simp only [readCData, List.cons_append, hagain]
    · cases h
  · cases h

theorem local_readDoctype : Local readDoctype := by
  intro t rest k h
  simp only [readDoctype] at h
  split at h
  · rename_i content rest' hcut
    split at h
    · rename_i hword
      split at h
      · cases h
      · rename_i hnamed
        cases h
        obtain ⟨c, body, hbody⟩ : ∃ c body, content ++ ['>'] = c :: body :=
          List.exists_cons_of_ne_nil (by simp)
        refine ⟨c, body, by rw [← hbody, cutBalanced_eq hcut]; simp, fun b' => ?_⟩
        have hagain := cutBalanced_local hcut b'
        rw [← hbody, List.append_assoc, List.singleton_append]
        simp only [readDoctype, hagain, if_pos hword, hnamed]
        rfl
    · cases h
  · cases h

theorem local_readTag : Local readTag := by
  intro t rest k h
  simp only [readTag] at h
  split at h
  · rename_i content rest' hcut
    cases h
    obtain ⟨c, body, hbody⟩ : ∃ c body, content ++ ['>'] = c :: body :=
      List.exists_cons_of_ne_nil (by simp)
    refine ⟨c, body, by rw [← hbody, cutTag_eq hcut]; simp, fun b' => ?_⟩
    rw [← hbody, List.append_assoc, List.singleton_append]
    simp only [readTag, cutTag_local hcut b']
  · cases h

theorem local_readDeclared : Local readDeclared := by
  intro t rest k h
  simp only [readDeclared] at h
  split at h
  · rename_i t'
    obtain ⟨c, body, rfl, hrest⟩ := local_readComment h
    exact ⟨'-', c :: body, rfl, hrest⟩
  · rename_i t'
    obtain ⟨c, body, rfl, hrest⟩ := local_readCData h
    exact ⟨'[', c :: body, rfl, hrest⟩
  · obtain ⟨c, body, ht, hrest⟩ := local_readDoctype h
    obtain rfl := (List.cons.inj ht).1
    exact ⟨'D', body, ht, hrest⟩
  · obtain ⟨c, body, ht, hrest⟩ := local_readDoctype h
    obtain rfl := (List.cons.inj ht).1
    exact ⟨'d', body, ht, hrest⟩
  · cases h

theorem local_readMarkup : Local readMarkup := by
  intro t rest k h
  simp only [readMarkup] at h
  split at h
  · rename_i t'
    obtain ⟨c, body, rfl, hrest⟩ := local_readDeclared h
    exact ⟨'!', c :: body, rfl, hrest⟩
  · rename_i t'
    obtain ⟨c, body, rfl, hrest⟩ := local_readInstruction h
    exact ⟨'?', c :: body, rfl, hrest⟩
  · rename_i hdeclared hinstruction
    obtain ⟨c, body, rfl, hrest⟩ := local_readTag h
    refine ⟨c, body, rfl, fun b' => ?_⟩
    rw [readMarkup]
    · exact hrest b'
    · rintro u hu
      obtain rfl := (List.cons.inj hu).1
      exact hdeclared _ rfl
    · rintro u hu
      obtain rfl := (List.cons.inj hu).1
      exact hinstruction _ rfl

/-! ## Tokens where they stand -/

/-- A token is the first one of its own spelling and what stands behind it. -/
def Legible (k : Token) (rest : List Char) : Prop :=
  ∃ c t, k.spelling ++ rest = c :: t ∧ read c t = .ok (k, rest)

theorem legible_of_read {c : Char} {t rest : List Char} {k : Token}
    (h : read c t = .ok (k, rest)) : k.Legible rest :=
  ⟨c, t, (read_eq h).symm, h⟩

theorem Legible.spelling_ne_nil {k : Token} {rest : List Char} (h : k.Legible rest) :
    k.spelling ≠ [] := by
  obtain ⟨c, t, heq, hread⟩ := h
  have hle := length_read_le hread
  intro hnil
  rw [hnil, List.nil_append] at heq
  rw [heq, List.length_cons] at hle
  omega

theorem ne_text_of_readMarkup {t rest : List Char} {k : Token}
    (h : readMarkup t = .ok (k, rest)) (u : List Char) : k ≠ .text u := by
  simp only [readMarkup] at h
  split at h
  · exact ne_text_of_readDeclared h u
  · exact ne_text_of_readInstruction h u
  · exact ne_text_of_readTag h u

/-- Markup is read in front of any other text. -/
theorem Legible.anywhere {k : Token} {rest : List Char} (h : k.Legible rest)
    (hk : ∀ t, k ≠ .text t) (rest' : List Char) : k.Legible rest' := by
  obtain ⟨c, t, heq, hread⟩ := h
  by_cases hc : c = '<'
  · subst hc
    simp only [read, if_true] at hread
    obtain ⟨d, body, rfl, hagain⟩ := local_readMarkup hread
    have hspelling : k.spelling = '<' :: d :: body :=
      List.append_cancel_right (heq.trans (by rfl))
    refine ⟨'<', d :: body ++ rest', by rw [hspelling]; rfl, ?_⟩
    simp only [read, if_true]
    exact hagain rest'
  · simp only [read, if_neg hc] at hread
    cases hread
    exact absurd rfl (hk _)

/-- Character data has no `<` inside and ends in front of one. -/
theorem legible_text_iff {t rest : List Char} : (Token.text t).Legible rest ↔
    t ≠ [] ∧ (∀ c ∈ t, c ≠ '<') ∧ ∀ c, rest.head? = some c → c = '<' := by
  constructor
  · rintro ⟨c, u, -, hread⟩
    by_cases hc : c = '<'
    · simp only [read, if_pos hc] at hread
      exact absurd rfl (ne_text_of_readMarkup hread t)
    · simp only [read, if_neg hc] at hread
      cases hread
      refine ⟨List.cons_ne_nil _ _, List.forall_mem_cons.mpr ⟨hc, ?_⟩, ?_⟩
      · intro d hd
        exact bne_iff_ne.mp (List.all_eq_true.mp List.all_takeWhile d hd)
      · intro d hd
        have hstop := List.head?_dropWhile_not (· != '<') u
        rw [hd] at hstop
        simpa using hstop
  · rintro ⟨hne, hplain, hstop⟩
    obtain ⟨c, u, rfl⟩ := List.exists_cons_of_ne_nil hne
    obtain ⟨hc, hu⟩ := List.forall_mem_cons.mp hplain
    have hinside : ∀ d ∈ u, (d != '<') = true := fun d hd => bne_iff_ne.mpr (hu d hd)
    have hends : ∀ d, rest.head? = some d → (d != '<') = false := by
      intro d hd
      rw [hstop d hd]
      rfl
    refine ⟨c, u ++ rest, rfl, ?_⟩
    rw [read, if_neg hc, takeWhile_append_eq hinside hends, dropWhile_append_eq hinside hends]

/-- What stands behind a token may be taken away, or replaced by a text that begins alike or with
markup. -/
theorem Legible.replace {k : Token} {rest rest' : List Char} (h : k.Legible rest)
    (hrest : ∀ c, rest'.head? = some c → c = '<' ∨ rest.head? = some c) : k.Legible rest' := by
  by_cases hk : ∃ t, k = .text t
  · obtain ⟨t, rfl⟩ := hk
    obtain ⟨hne, hplain, hstop⟩ := legible_text_iff.mp h
    exact legible_text_iff.mpr ⟨hne, hplain, fun c hc => (hrest c hc).elim id (hstop c)⟩
  · exact h.anywhere (not_exists.mp hk) rest'

/-- Tokens each of which is read where it stands, in front of the others. -/
def Run : List Token → Prop
  | [] => True
  | k :: ks => k.Legible (ks.flatMap spelling) ∧ Run ks

theorem Run.right {ks ks' : List Token} (h : Run (ks ++ ks')) : Run ks' := by
  induction ks with
  | nil => exact h
  | cons k ks ih => exact ih h.2

/-- The end of a run may be replaced by a run that begins alike or with markup. -/
theorem Run.replace {ks ls ls' : List Token} (h : Run (ks ++ ls)) (h' : Run ls')
    (hhead : ∀ c, (ls'.flatMap spelling).head? = some c →
      c = '<' ∨ (ls.flatMap spelling).head? = some c) : Run (ks ++ ls') := by
  induction ks with
  | nil => exact h'
  | cons k ks ih =>
      refine ⟨h.1.replace fun c hc => ?_, ih h.2⟩
      cases ks with
      | nil => exact hhead c hc
      | cons k' ks =>
          -- Both rests begin with the spelling of `k'`, which is not empty.
          right
          obtain ⟨d, t, hd⟩ := List.exists_cons_of_ne_nil h.2.1.spelling_ne_nil
          have hfirst (ms : List Token) : ((k' :: ks ++ ms).flatMap spelling).head? = some d := by
            rw [List.cons_append, List.flatMap_cons, hd]
            rfl
          exact (hfirst ls).trans ((hfirst ls').symm.trans hc)

theorem Run.left {ks ks' : List Token} (h : Run (ks ++ ks')) : Run ks := by
  have hempty : Run (ks ++ []) := h.replace trivial (by rintro c ⟨⟩)
  rwa [List.append_nil] at hempty

/-- A stretch of a run is a run. -/
theorem Run.stretch {before ks after : List Token} (h : Run (before ++ ks ++ after)) : Run ks :=
  h.left.right

/-! ## Scanning a run -/

theorem scanFrom_append (done done' : List Token) (t : List Char) :
    scanFrom (done ++ done') t =
      ⟨done'.reverse ++ (scanFrom done t).tokens, (scanFrom done t).fault⟩ := by
  fun_induction scanFrom done t with
  | case1 done => rw [scanFrom, List.reverse_append]
  | case2 done c t k rest h ih =>
      rw [scanFrom]
      split
      · rename_i hread
        cases h.symm.trans hread
        exact ih
      · rename_i hread
        cases h.symm.trans hread
  | case3 done c t fault h =>
      rw [scanFrom]
      split
      · rename_i hread
        cases h.symm.trans hread
      · rename_i hread
        cases h.symm.trans hread
        rw [List.reverse_append]

theorem scan_of_read {c : Char} {t rest : List Char} {k : Token}
    (h : read c t = .ok (k, rest)) :
    scan (c :: t) = ⟨k :: (scan rest).tokens, (scan rest).fault⟩ := by
  rw [scan, scanFrom]
  split
  · rename_i hread
    cases h.symm.trans hread
    exact scanFrom_append [] [k] rest
  · rename_i hread
    cases h.symm.trans hread

theorem scan_of_fault {c : Char} {t : List Char} {fault : Fault}
    (h : read c t = .error fault) : scan (c :: t) = ⟨[], some fault⟩ := by
  rw [scan, scanFrom]
  split
  · rename_i hread
    cases h.symm.trans hread
  · rename_i hread
    cases h.symm.trans hread
    rfl

/-- The tokens of a text that can be read to its end are a run. -/
theorem run_scan (t : List Char) (h : (scan t).fault = none) : Run (scan t).tokens := by
  match t with
  | [] =>
      rw [scan, scanFrom]
      trivial
  | c :: t =>
      cases hread : read c t with
      | error fault =>
          rw [scan_of_fault hread] at h
          cases h
      | ok p =>
          obtain ⟨k, rest⟩ := p
          rw [scan_of_read hread] at h ⊢
          obtain ⟨rest', hspelling, hnil⟩ := scan_eq rest
          rw [hnil h, List.append_nil] at hspelling
          refine ⟨?_, run_scan rest h⟩
          rw [← hspelling]
          exact legible_of_read hread
termination_by t.length
decreasing_by
  have := length_read_le hread
  simp only [List.length_cons]
  omega

/-- Scanning what a run spells gives the run. -/
theorem scan_flatMap_spelling {ks : List Token} (h : Run ks) :
    scan (ks.flatMap spelling) = ⟨ks, none⟩ := by
  induction ks with
  | nil =>
      rw [List.flatMap_nil, scan, scanFrom]
      rfl
  | cons k ks ih =>
      obtain ⟨⟨c, t, heq, hread⟩, hrest⟩ := h
      rw [List.flatMap_cons, heq, scan_of_read hread, ih hrest]

/-- A text that can be read to its end is what its tokens spell. -/
theorem flatMap_spelling_scan {t : List Char} (h : (scan t).fault = none) :
    (scan t).tokens.flatMap spelling = t := by
  obtain ⟨rest, heq, hnil⟩ := scan_eq t
  rw [hnil h, List.append_nil] at heq
  exact heq.symm

end Token

end Markup

end GiftQuiz
