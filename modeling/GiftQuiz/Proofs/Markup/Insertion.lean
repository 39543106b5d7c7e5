import GiftQuiz.Markup.Printer
import GiftQuiz.Proofs.Markup.Division

/-!
# Markup in the middle of character data

Where may a comment be put into a document, and which character data may be written as a CDATA
section? A text can be cut in two wherever no reference is cut: the pieces then stand for pieces of
what the whole stands for (`Unescapes.split`). The pieces and the markup between them are tokens
again (`Token.legible_comment`, `Token.legible_cdata`), because a comment without `>` ends at the
first place where it may, and so does a CDATA section without `]]>`.

`Stretch` and `Gap` say which places of a document these are, and `Document.parse_gap` and
`Document.parse_stretch` that the document is read as before, up to the division of its character
data.
-/

namespace GiftQuiz

namespace Markup

open Token (spelling Run Legible commentClose cdataClose)

/-! ## Texts with references -/

/-- A text with references and the text it stands for. -/
inductive Unescapes : List Char → List Char → Prop
  | nil : Unescapes [] []
  | plain {c : Char} {t v : List Char} (plain : c ≠ '&') (rest : Unescapes t v) :
      Unescapes (c :: t) (c :: v)
  | reference {name t v : List Char} {c : Char} {start : Nat}
      (inside : ∀ d ∈ name, inReference d = true)
      (resolved : Reference.resolve start name = .ok c) (rest : Unescapes t v) :
      Unescapes ('&' :: name ++ ';' :: t) (c :: v)

/-- Where a reference stands matters for the error only. -/
theorem Reference.resolve_anywhere {start : Nat} {name : List Char} {c : Char}
    (h : resolve start name = .ok c) (start' : Nat) : resolve start' name = .ok c := by
  unfold resolve at h ⊢
  split at h
  · exact h
  · exact h
  · split at h
    · exact h
    · cases h

theorem unescapes_of_unescapeFrom {total position : Nat} {done t w : List Char}
    (h : unescapeFrom total position done t = .ok w) :
    ∃ v, Unescapes t v ∧ w = done.reverse ++ v := by
  fun_induction unescapeFrom total position done t with
  | case1 position done =>
      cases h
      exact ⟨[], .nil, (List.append_nil _).symm⟩
  | case2 position done t name rest hrest c hresolved ih =>
      obtain ⟨v, hv, rfl⟩ := ih h
      have ht : t = name ++ ';' :: rest := by
        rw [← hrest]
        exact List.takeWhile_append_dropWhile.symm
      refine ⟨c :: v, ?_, by simp⟩
      rw [ht]
      exact .reference (List.all_eq_true.mp List.all_takeWhile) hresolved hv
  | case3 => cases h
  | case4 => cases h
  | case5 position done c t hc ih =>
      obtain ⟨v, hv, rfl⟩ := ih h
      exact ⟨c :: v, .plain hc hv, by simp⟩

theorem Unescapes.unescapeFrom_eq {t v : List Char} (h : Unescapes t v) (total position : Nat)
    (done : List Char) : unescapeFrom total position done t = .ok (done.reverse ++ v) := by
  induction h generalizing position done with
  | nil => rw [unescapeFrom, List.append_nil]
  | plain plain rest ih =>
      rw [unescapeFrom, if_neg plain, ih, List.reverse_cons, List.append_assoc,
        List.singleton_append]
  | @reference name t v c start inside resolved rest ih =>
      have hc := Reference.resolve_anywhere resolved (position + 1)
      rw [List.cons_append,
        unescapeFrom_reference total position done t (List.all_eq_true.mpr inside) hc, ih,
        List.reverse_cons, List.append_assoc, List.singleton_append]

theorem unescape_eq_ok_iff {t v : List Char} : unescape t = .ok v ↔ Unescapes t v := by
  constructor
  · intro h
    obtain ⟨v', hv', rfl⟩ := unescapes_of_unescapeFrom h
    exact hv'
  · intro h
    exact h.unescapeFrom_eq ..

/-- Between the two texts a reference is cut. -/
def CutsReference (t u : List Char) : Prop :=
  ∃ before name name' after, t = before ++ '&' :: name ∧ u = name' ++ ';' :: after ∧
    ∀ c ∈ name ++ name', inReference c = true

theorem CutsReference.mem_left {t u : List Char} (h : CutsReference t u) : '&' ∈ t := by
  obtain ⟨before, name, name', after, rfl, -, -⟩ := h
  simp

theorem CutsReference.mem_right {t u : List Char} (h : CutsReference t u) : ';' ∈ u := by
  obtain ⟨before, name, name', after, -, rfl, -⟩ := h
  simp

theorem CutsReference.append_right {t u : List Char} (h : CutsReference t u) (v : List Char) :
    CutsReference t (u ++ v) := by
  obtain ⟨before, name, name', after, rfl, rfl, hinside⟩ := h
  exact ⟨before, name, name', after ++ v, rfl, by simp, hinside⟩

theorem CutsReference.cons {c : Char} {t u : List Char} (h : CutsReference t u) :
    CutsReference (c :: t) u := by
  obtain ⟨before, name, name', after, rfl, rfl, hinside⟩ := h
  exact ⟨c :: before, name, name', after, rfl, rfl, hinside⟩

/-- Where no reference is cut, the pieces of a text stand for pieces of what it stands for. -/
theorem Unescapes.split {w v : List Char} (h : Unescapes w v) {t u : List Char} (hw : w = t ++ u)
    (hcut : ¬ CutsReference t u) : ∃ a b, Unescapes t a ∧ Unescapes u b ∧ v = a ++ b := by
  induction h generalizing t u with
  | nil =>
      obtain ⟨rfl, rfl⟩ := List.append_eq_nil_iff.mp hw.symm
      exact ⟨[], [], .nil, .nil, rfl⟩
  | @plain c w v plain rest ih =>
      cases t with
      | nil => exact ⟨[], c :: v, .nil, by rw [← List.nil_append u, ← hw]; exact .plain plain rest,
          rfl⟩
      | cons c' t =>
          obtain ⟨rfl, rfl⟩ := List.cons.inj hw
          obtain ⟨a, b, ha, hb, rfl⟩ := ih rfl fun h => hcut h.cons
          exact ⟨c :: a, b, .plain plain ha, hb, rfl⟩
  | @reference name w v c start inside resolved rest ih =>
      cases t with
      | nil => exact ⟨[], c :: v, .nil, by
          rw [← List.nil_append u, ← hw]; exact .reference inside resolved rest, rfl⟩
      | cons c' t =>
          obtain ⟨rfl, hbehind⟩ := List.cons.inj hw
          rcases List.append_eq_append_iff.mp hbehind with ⟨more, rfl, hmore⟩ | ⟨more, rfl, hu⟩
          · cases more with
            | nil =>
                -- The cut is in front of the semicolon.
                refine absurd ⟨[], name, [], w, by simp, hmore.symm, by simpa using inside⟩ hcut
            | cons d more =>
                obtain ⟨rfl, rfl⟩ := List.cons.inj hmore
                have hnot : ¬ CutsReference more u := by
                  rintro ⟨before, name', name'', after, rfl, rfl, hinside⟩
                  exact hcut ⟨'&' :: name ++ ';' :: before, name', name'', after, by simp, rfl,
                    hinside⟩
                obtain ⟨a, b, ha, hb, rfl⟩ := ih rfl hnot
                refine ⟨c :: a, b, ?_, hb, rfl⟩
                exact .reference inside resolved ha
          · -- The cut is inside of the reference.
            refine absurd ⟨[], t, more, w, rfl, hu, inside⟩ hcut

/-! ## Comments and CDATA sections -/

namespace Token

/-- A closing delimiter that repeats a character before its `>` is first found at the end of a text
in which it does not occur. -/
theorem cut_of_not_infix {d : Char} (hd : d ≠ '>') {t : List Char}
    (h : ¬ [d, d, '>'] <:+: t) (rest : List Char) :
    cut [d, d, '>'] (t ++ [d, d, '>'] ++ rest) = some (t, rest) := by
  have hfrom (done : List Char) :
      cutFrom [d, d, '>'] done (t ++ [d, d, '>'] ++ rest) = some (done.reverse ++ t, rest) := by
    induction t generalizing done with
    | nil => simp [cutFrom, List.isPrefixOf]
    | cons c t ih =>
        have hlater : ¬ [d, d, '>'] <:+: t :=
          fun hin => h (hin.trans (List.suffix_cons c t).isInfix)
        -- The `>` of an occurrence here is in `t`, as what follows `t` begins with `d` twice.
        have hhere : ¬ [d, d, '>'].isPrefixOf (c :: (t ++ [d, d, '>'] ++ rest)) := by
          intro hfits
          obtain ⟨r, hr⟩ := List.isPrefixOf_iff_prefix.mp hfits
          have hthree {x y z : Char} {u : List Char} (heq : [d, d, '>'] ++ r = x :: y :: z :: u) :
              x = d ∧ y = d ∧ z = '>' := by
            cases heq
            exact ⟨rfl, rfl, rfl⟩
          rcases t with _ | ⟨x, _ | ⟨y, t⟩⟩
          · exact hd (hthree hr).2.2
          · exact hd (hthree hr).2.2
          · obtain ⟨rfl, rfl, rfl⟩ := hthree hr
            exact h (List.prefix_append [_, _, _] t).isInfix
        rw [List.cons_append, List.cons_append, cutFrom, if_neg hhere, ih hlater,
          List.reverse_cons, List.append_assoc, List.singleton_append]
  exact hfrom []

theorem legible_comment {content : List Char} (h : '>' ∉ content) (rest : List Char) :
    (Token.comment content).Legible rest := by
  have hcut : cut commentClose (content ++ commentClose ++ rest) = some (content, rest) := by
    refine cut_of_not_infix (by decide) (fun hin => h (hin.subset ?_)) rest
    simp
  refine ⟨'<', '!' :: '-' :: '-' :: (content ++ commentClose ++ rest), ?_, ?_⟩
  · simp [spelling, commentOpen]
  · simp only [read, if_pos, readMarkup, readDeclared, readComment, hcut]

theorem legible_cdata {content : List Char} (h : ¬ cdataClose <:+: content) (rest : List Char) :
    (Token.cdata content).Legible rest := by
  have hopen : ¬ cdataClose <:+: ['C', 'D', 'A', 'T', 'A', '['] ++ content := by
    simpa [cdataClose, List.infix_cons_iff] using h
  have hcut := cut_of_not_infix (by decide) hopen rest
  refine ⟨'<', '!' :: '[' :: 'C' :: 'D' :: 'A' :: 'T' :: 'A' :: '[' ::
    (content ++ cdataClose ++ rest), ?_, ?_⟩
  · simp [spelling, cdataOpen]
  · simp only [List.cons_append, List.nil_append] at hcut
    simp only [read, if_pos, readMarkup, readDeclared, readCData, cdataClose, hcut]

end Token

/-! ## Documents -/

/-- A stretch of the character data of a document, and what stands before and behind it. At its ends
no reference is cut. -/
inductive Stretch (source : List Char) : (before run after : List Char) → Prop
  | intro {ks ks' : List Token} {t run u : List Char}
      (tokens : (Token.scan source).tokens = ks ++ .text (t ++ run ++ u) :: ks')
      (begins : ¬ CutsReference t (run ++ u)) (ends : ¬ CutsReference (t ++ run) u) :
      Stretch source (ks.flatMap spelling ++ t) run (u ++ ks'.flatMap spelling)

/-- A place between two tokens of a document, or in the middle of character data but of no
reference. -/
inductive Gap (source : List Char) : (before after : List Char) → Prop
  | between {ks ks' : List Token} (tokens : (Token.scan source).tokens = ks ++ ks') :
      Gap source (ks.flatMap spelling) (ks'.flatMap spelling)
  | inside {before after : List Char} (stretch : Stretch source before [] after) :
      Gap source before after

theorem Stretch.append_eq {source before run after : List Char}
    (h : Stretch source before run after) (hfault : (Token.scan source).fault = none) :
    before ++ run ++ after = source := by
  cases h with
  | intro tokens begins ends =>
      rw [← Token.flatMap_spelling_scan hfault, tokens]
      simp [spelling]

theorem Gap.append_eq {source before after : List Char} (h : Gap source before after)
    (hfault : (Token.scan source).fault = none) : before ++ after = source := by
  cases h with
  | between tokens => rw [← Token.flatMap_spelling_scan hfault, tokens, List.flatMap_append]
  | inside stretch =>
      have hall := stretch.append_eq hfault
      rwa [List.append_nil] at hall

def Token.ofText (t : List Char) : List Token :=
  if t = [] then [] else [.text t]

@[simp] theorem Token.flatMap_spelling_ofText (t : List Char) :
    (ofText t).flatMap spelling = t := by
  by_cases h : t = []
  · simp [ofText, h]
  · simp [ofText, h, spelling]

theorem holds_ofText {t v : List Char} (h : Unescapes t v) : Holds (Token.ofText t) v := by
  by_cases ht : t = []
  · subst ht
    cases h
    exact .nil
  · rw [Token.ofText, if_neg ht]
    refine .single ?_
    rw [Token.characters?, unescape_eq_ok_iff.mpr h]
    rfl

theorem Token.run_ofText {t : List Char} {ks : List Token} (hplain : ∀ c ∈ t, c ≠ '<')
    (hks : Run ks) (hopens : ∀ c, (ks.flatMap spelling).head? = some c → c = '<') :
    Run (ofText t ++ ks) := by
  by_cases ht : t = []
  · rw [ofText, if_pos ht]
    exact hks
  · rw [ofText, if_neg ht]
    exact ⟨legible_text_iff.mpr ⟨ht, hplain, hopens⟩, hks⟩

/-- Markup in the middle of character data leaves tokens on both sides of it, in front of which is
what was there before, or the markup. -/
theorem Token.run_divided {k : Token} {t run u : List Char} {ks : List Token}
    (h : Run (.text (t ++ run ++ u) :: ks)) (hlegible : ∀ rest, k.Legible rest)
    (hopens : k.spelling.head? = some '<') :
    Run (ofText t ++ ([k] ++ ofText u) ++ ks) ∧
      ∀ c, ((ofText t ++ ([k] ++ ofText u) ++ ks).flatMap spelling).head? = some c →
        c = '<' ∨ ((.text (t ++ run ++ u) :: ks).flatMap spelling).head? = some c := by
  obtain ⟨hwhole, hks⟩ := h
  obtain ⟨-, hplain, hstop⟩ := legible_text_iff.mp hwhole
  have hbehind : Run (ofText u ++ ks) :=
    run_ofText (fun c hc => hplain c (by simp [hc])) hks hstop
  have hfirst (more : List Char) : ∀ c, (k.spelling ++ more).head? = some c → c = '<' := by
    intro c hc
    rw [List.head?_append, hopens] at hc
    exact (Option.some.inj hc).symm
  constructor
  · have hrun : Run (ofText t ++ (k :: (ofText u ++ ks))) :=
      run_ofText (fun c hc => hplain c (by simp [hc])) ⟨hlegible _, hbehind⟩ (hfirst _)
    simpa using hrun
  · intro c hc
    have hspelling : (ofText t ++ ([k] ++ ofText u) ++ ks).flatMap spelling =
        t ++ (k.spelling ++ (u ++ ks.flatMap spelling)) := by simp
    rw [hspelling] at hc
    cases t with
    | nil => exact Or.inl (hfirst _ c hc)
    | cons d t => exact Or.inr hc

namespace Document

variable {xml : String} {document : Document} {before run after : List Char}

theorem fault_of_parse (hmark : xml.toList.head? ≠ some '\uFEFF')
    (hparse : parse xml = .ok document) : (Token.scan xml.toList).fault = none := by
  have hfault := (foldlM_step_of_parse hparse).2.1
  rwa [dropMark_eq_self hmark] at hfault

/-- A document in which tokens are replaced by a run that means the same characters, and begins as
they do or with markup. -/
theorem parse_replace {ks ms ms' ks' : List Token} {v : List Char} (h : Holds ms v)
    (h' : Holds ms' v) (hmark : xml.toList.head? ≠ some '\uFEFF')
    (hparse : parse xml = .ok document)
    (htokens : (Token.scan xml.toList).tokens = ks ++ (ms ++ ks')) (hrun : Run (ms' ++ ks'))
    (hhead : ∀ c, ((ms' ++ ks').flatMap spelling).head? = some c →
      c = '<' ∨ ((ms ++ ks').flatMap spelling).head? = some c) :
    ∃ document',
      parse (String.ofList ((ks ++ (ms' ++ ks')).flatMap spelling)) = .ok document' ∧
        document'.root.spread = document.root.spread := by
  have hfault := fault_of_parse hmark hparse
  have hall : Run (ks ++ (ms ++ ks')) := by
    rw [← htokens]
    exact Token.run_scan _ hfault
  have hmark' : ((ks ++ (ms' ++ ks')).flatMap spelling).head? ≠ some '\uFEFF' := by
    rw [← Token.flatMap_spelling_scan hfault, htokens, List.flatMap_append] at hmark
    rw [List.flatMap_append]
    intro hbegins
    cases hks : ks.flatMap spelling with
    | nil =>
        rw [hks] at hmark hbegins
        rcases hhead _ hbegins with hopens | hsame
        · exact absurd hopens (by decide)
        · exact hmark hsame
    | cons d t =>
        rw [hks] at hmark hbegins
        exact hmark hbegins
  have hscan : (Token.scan (dropMark xml.toList)).tokens = ks ++ ms ++ ks' := by
    rw [dropMark_eq_self hmark, htokens, List.append_assoc]
  refine parse_of_holds h h' hparse hscan ?_
  rw [String.toList_ofList, dropMark_eq_self hmark',
    Token.scan_flatMap_spelling (hall.replace hrun hhead), List.append_assoc]

theorem unescapes_of_parse (hparse : parse xml = .ok document) {ks ks' : List Token}
    {content : List Char}
    (htokens : (Token.scan (dropMark xml.toList)).tokens = ks ++ .text content :: ks') :
    ∃ v, Unescapes content v := by
  obtain ⟨-, -, r, hrun⟩ := foldlM_step_of_parse hparse
  rw [htokens, List.foldlM_append] at hrun
  obtain ⟨⟨r₁, b₁⟩, -, hrest⟩ := bind_eq_ok_iff.mp hrun
  rw [List.foldlM_cons] at hrest
  obtain ⟨state, hstep, -⟩ := bind_eq_ok_iff.mp hrest
  obtain ⟨v, b, hv, -, -⟩ := step_text_eq_ok hstep
  exact ⟨v, unescape_eq_ok_iff.mp hv⟩

/-- A stretch of character data stands for a text, and any markup that means this text may stand in
its place. -/
theorem parse_stretch (hmark : xml.toList.head? ≠ some '\uFEFF')
    (hparse : parse xml = .ok document) (hstretch : Stretch xml.toList before run after) :
    ∃ v, Unescapes run v ∧ ∀ k : Token, k.characters? = some v → (∀ rest, k.Legible rest) →
      k.spelling.head? = some '<' →
        ∃ document', parse (String.ofList (before ++ k.spelling ++ after)) = .ok document' ∧
          document'.root.spread = document.root.spread := by
  obtain @⟨ks, ks', t, _, u, tokens, begins, ends⟩ := hstretch
  obtain ⟨w, hw⟩ := unescapes_of_parse hparse (by rw [dropMark_eq_self hmark]; exact tokens)
  obtain ⟨x, c, hx, hc, rfl⟩ := hw.split rfl ends
  obtain ⟨a, v, ha, hv, rfl⟩ := hx.split rfl fun hcut => begins (hcut.append_right u)
  refine ⟨v, hv, fun k hk hlegible hopens => ?_⟩
  have hwhole : Holds [.text (t ++ run ++ u)] (a ++ v ++ c) :=
    .single (by rw [Token.characters?, unescape_eq_ok_iff.mpr hw]; rfl)
  have hpieces : Holds (Token.ofText t ++ ([k] ++ Token.ofText u)) (a ++ v ++ c) := by
    rw [List.append_assoc]
    exact (holds_ofText ha).append ((Holds.single hk).append (holds_ofText hc))
  have hall : Run (ks ++ .text (t ++ run ++ u) :: ks') := by
    rw [← tokens]
    exact Token.run_scan _ (fault_of_parse hmark hparse)
  obtain ⟨hrun, hhead⟩ := Token.run_divided hall.right hlegible hopens
  have hnew := parse_replace hwhole hpieces hmark hparse tokens hrun hhead
  simpa using hnew

theorem parse_gap (hmark : xml.toList.head? ≠ some '\uFEFF') (hparse : parse xml = .ok document)
    (hgap : Gap xml.toList before after) {comment : List Char} (hcomment : '>' ∉ comment) :
    ∃ document',
      parse (String.ofList (before ++ (Token.comment comment).spelling ++ after)) = .ok document' ∧
        document'.root.spread = document.root.spread := by
  cases hgap with
  | @between ks ks' tokens =>
      have hall : Run (ks ++ ks') := by
        rw [← tokens]
        exact Token.run_scan _ (fault_of_parse hmark hparse)
      have hmeans : Holds [.comment comment] [] := .single rfl
      have hrun : Run ([.comment comment] ++ ks') :=
        ⟨Token.legible_comment hcomment _, hall.right⟩
      have hnew := parse_replace .nil hmeans hmark hparse tokens hrun fun c hc => ?_
      · simpa using hnew
      · cases hc
        exact Or.inl rfl
  | inside stretch =>
      obtain ⟨v, hv, hplace⟩ := parse_stretch hmark hparse stretch
      cases hv
      exact hplace _ rfl (Token.legible_comment hcomment) rfl

end Document

end Markup

end GiftQuiz
