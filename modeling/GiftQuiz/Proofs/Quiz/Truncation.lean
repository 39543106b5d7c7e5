import GiftQuiz.Proofs.Markup.Boundaries
import GiftQuiz.Proofs.Quiz.Yield

/-!
# Truncated documents

A document that breaks off has the tokens it had up to there. The token it breaks off in is not
another token of markup: a reader that found the end of one in the remainder would have found the
same end in the whole document. So what is left of this token is either not read at all or read as
character data (`scan_truncated`).

Hence nothing but the last token of the root completes a root, and `truncated_unreadable` says that
a document which breaks off before the end of its root is refused, wherever this happens: it never
becomes a shorter quiz.
-/

namespace GiftQuiz

open Markup (Document ReadError Spells)

namespace Markup

namespace Token

/-! ## Tokens of a prefix -/

/-- Whether a token is character data as it stands in the document. -/
def isText : Token → Bool
  | .text _ => true
  | _ => false

/-- A token cannot be told from another piece of markup before its end is reached. -/
theorem eq_nil_of_readMarkup {t more rest rest' : List Char} {k k' : Token}
    (h : readMarkup t = .ok (k', rest'))
    (hwhole : readMarkup (t ++ more ++ rest) = .ok (k, rest)) : more = [] := by
  obtain ⟨c, body, rfl, hagain⟩ := local_readMarkup h
  have hsame := hagain (rest' ++ more ++ rest)
  rw [← List.append_assoc, ← List.append_assoc, hwhole] at hsame
  have hrest : rest = rest' ++ more ++ rest := congrArg Prod.snd (Except.ok.inj hsame)
  have hlength := congrArg List.length hrest
  simp only [List.length_append] at hlength
  exact List.length_eq_zero_iff.mp (by omega)

theorem read_of_forall {c : Char} {t : List Char} (hc : c ≠ '<')
    (h : ∀ d ∈ t, d ≠ '<') : read c t = .ok (.text (c :: t), []) := by
  have hlegible : (Token.text (c :: t)).Legible [] :=
    legible_text_iff.mpr ⟨List.cons_ne_nil _ _, List.forall_mem_cons.mpr ⟨hc, h⟩, by rintro d ⟨⟩⟩
  obtain ⟨d, u, heq, hread⟩ := hlegible
  rw [List.append_nil] at heq
  cases heq
  exact hread

/-- What is left of a token that breaks off is character data, if it can be read. -/
theorem isText_of_mem_scan {k : Token} {rest p : List Char} (h : k.Legible rest)
    (hp : p <+: k.spelling) (hcut : ¬ k.spelling <+: p) : ∀ k' ∈ (scan p).tokens, k'.isText := by
  obtain ⟨more, hmore⟩ := hp
  obtain ⟨d, u, heq, hread⟩ := h
  rw [← hmore] at heq hcut
  cases p with
  | nil =>
      intro k' hk'
      rw [scan, scanFrom] at hk'
      cases hk'
  | cons c t =>
      obtain ⟨rfl, rfl⟩ := List.cons.inj heq
      cases hfirst : read c t with
      | error fault =>
          intro k' hk'
          rw [scan_of_fault hfirst] at hk'
          cases hk'
      | ok found =>
          obtain ⟨k', rest'⟩ := found
          by_cases hc : c = '<'
          · simp only [read, if_pos hc] at hread hfirst
            have hnone := eq_nil_of_readMarkup hfirst hread
            rw [hnone, List.append_nil] at hcut
            exact absurd (List.prefix_refl _) hcut
          · -- Of character data all that is there is read, as it has no `<` inside.
            simp only [read, if_neg hc] at hread
            obtain rfl := congrArg Prod.fst (Except.ok.inj hread)
            have hinside : t ++ more = List.takeWhile (· != '<') (t ++ more ++ rest) :=
              (List.cons.inj hmore).2
            have hall : ∀ d ∈ t, d ≠ '<' := by
              intro d hd
              have hmem := List.mem_append_left more hd
              rw [hinside] at hmem
              exact bne_iff_ne.mp (List.all_eq_true.mp List.all_takeWhile d hmem)
            have hdata := read_of_forall hc hall
            intro k' hk'
            rw [scan_of_read hdata, scan, scanFrom] at hk'
            obtain rfl := List.mem_singleton.mp hk'
            rfl

/-- The tokens of a prefix are those of the whole text that it contains, and at most a piece of
character data. -/
theorem scan_truncated {ks : List Token} (h : Run ks) {p : List Char}
    (hp : p <+: ks.flatMap spelling) :
    ∃ done rest tail, ks = done ++ rest ∧ (scan p).tokens = done ++ tail ∧
      (∀ k ∈ tail, k.isText) ∧ done.flatMap spelling <+: p := by
  induction ks generalizing p with
  | nil =>
      obtain rfl := List.prefix_nil.mp hp
      rw [scan, scanFrom]
      refine ⟨[], [], [], rfl, rfl, ?_, List.prefix_refl _⟩
      intro k hk
      cases hk
  | cons k ks ih =>
      obtain ⟨hlegible, hrun⟩ := h
      rw [List.flatMap_cons] at hp
      by_cases hk : k.spelling <+: p
      · obtain ⟨p, rfl⟩ := hk
        have hrest : p <+: ks.flatMap spelling := (List.prefix_append_right_inj _).mp hp
        have hbegins : ∀ c, p.head? = some c → c = '<' ∨ (ks.flatMap spelling).head? = some c := by
          obtain ⟨u, hu⟩ := hrest
          rintro c hc
          rw [← hu, List.head?_append, hc]
          exact Or.inr rfl
        obtain ⟨c, t, heq, hread⟩ := hlegible.replace hbegins
        obtain ⟨done, rest, tail, rfl, htokens, htail, hdone⟩ := ih hrun hrest
        refine ⟨k :: done, rest, tail, rfl, ?_, htail, ?_⟩
        · rw [heq, scan_of_read hread, htokens]
          rfl
        · exact (List.prefix_append_right_inj _).mpr hdone
      · have hinside : p <+: k.spelling :=
          (List.prefix_or_prefix_of_prefix hp (List.prefix_append _ _)).resolve_right hk
        exact ⟨[], k :: ks, _, rfl, rfl, isText_of_mem_scan hlegible hinside hk,
          List.nil_prefix⟩

end Token

/-! ## Roots of a prefix -/

theorem SpelledIn.stop_le {p : Nat} {ks : List Token} {e : Element} (h : SpelledIn p ks e) :
    e.span.stop ≤ p + Token.extent ks := by
  obtain ⟨before, own, after, rfl, hown⟩ := h
  rw [hown.span_eq]
  simp only [Token.extent_append]
  omega

namespace Document

/-- Character data makes no root. -/
theorem eq_of_foldlM_isText {tail : List Token} (htail : ∀ k ∈ tail, k.isText)
    {state : Reader × Builder} {r : Reader} {e : Element}
    (h : tail.foldlM step state = .ok (r, ⟨[], some e⟩)) : state.2 = ⟨[], some e⟩ := by
  induction tail generalizing state with
  | nil =>
      cases h
      rfl
  | cons k tail ih =>
      rw [List.foldlM_cons] at h
      obtain ⟨⟨r₁, b₁⟩, hstep, hrest⟩ := bind_eq_ok_iff.mp h
      obtain rfl : b₁ = _ := ih (fun k' hk' => htail k' (List.mem_cons_of_mem _ hk')) hrest
      have hk := htail k (List.mem_cons_self ..)
      obtain ⟨r₀, opened, root⟩ := state
      cases k with
      | text content =>
          obtain ⟨t, b, -, hadd, hstate⟩ := step_text_eq_ok hstep
          obtain rfl := (Prod.mk.inj hstate).2
          rcases Builder.addText_eq_ok hadd with ⟨o, os, -, ⟨⟩⟩ | ⟨rfl, -, ⟨⟩⟩
          rfl
      | _ => cases hk

theorem dropMark_truncated {p t : List Char} (h : p <+: t) : dropMark p <+: dropMark t := by
  obtain ⟨u, rfl⟩ := h
  cases p with
  | nil => exact List.nil_prefix
  | cons c p =>
      simp only [List.cons_append, dropMark]
      split
      · exact List.prefix_append _ _
      · exact List.prefix_append (c :: p) u

/-- A root in a prefix of a document is the root of the document, which ends there. -/
theorem stop_le_of_parse_truncated {xml : String} {document document' : Document}
    (h : parse xml = .ok document) {p : List Char} (hp : p <+: xml.toList)
    (hbroken : parse (String.ofList p) = .ok document') :
    document.root.span.stop ≤ Utf8.size (dropMark p) := by
  obtain ⟨-, hfault, r, hrun⟩ := foldlM_step_of_parse h
  obtain ⟨-, -, r', hrun'⟩ := foldlM_step_of_parse hbroken
  rw [String.toList_ofList] at hrun'
  have hcut := dropMark_truncated hp
  rw [← Token.flatMap_spelling_scan hfault] at hcut
  obtain ⟨done, rest, tail, htokens, hcuttokens, htail, hdone⟩ :=
    Token.scan_truncated (Token.run_scan _ hfault) hcut
  rw [htokens, List.foldlM_append] at hrun
  rw [hcuttokens, List.foldlM_append] at hrun'
  obtain ⟨⟨r₁, b⟩, hboth, hbehind⟩ := bind_eq_ok_iff.mp hrun
  obtain ⟨state, hboth', hbehind'⟩ := bind_eq_ok_iff.mp hrun'
  obtain rfl := Except.ok.inj (hboth.symm.trans hboth')
  -- Both runs go through the state behind `done`, where the root is there already.
  obtain rfl : b = _ := eq_of_foldlM_isText htail hbehind'
  have hroot : document'.root = document.root := root_foldlM rfl rfl hbehind
  have hspelled := (spelledIn_of_foldlM hboth).stop_le
  rw [hroot, Nat.zero_add] at hspelled
  obtain ⟨u, hu⟩ := hdone
  rw [← hu, Utf8.size_append]
  exact Nat.le_trans hspelled (Nat.le_add_right ..)

/-- Where the root of a document ends: with the last character of its own tokens, an angle
bracket. -/
theorem exists_root_end {xml : String} {document : Document} (h : parse xml = .ok document) :
    ∃ (before own : List Token) (inside after : List Char),
      Spells (Token.extent before) own document.root ∧
      before.flatMap Token.spelling ++ own.flatMap Token.spelling = inside ++ ['>'] ∧
      dropMark xml.toList = inside ++ '>' :: after ∧
      document.root.span.stop = Utf8.size (inside ++ ['>']) := by
  have hself : document.root ∈ document.root.subtree := by
    rw [Element.subtree_eq]
    exact List.mem_cons_self ..
  obtain ⟨before, own, after, htext, hown⟩ := exists_spells h hself
  obtain ⟨t, ht⟩ := hown.delimited
  have hinside : before.flatMap Token.spelling ++ own.flatMap Token.spelling =
      before.flatMap Token.spelling ++ '<' :: (document.root.name.toList ++ t) ++ ['>'] := by
    rw [ht]
    simp only [List.append_assoc, List.cons_append]
  refine ⟨before, own, _, after.flatMap Token.spelling, hown, hinside, ?_, ?_⟩
  · rw [htext, hinside, List.append_assoc _ ['>'], List.singleton_append]
  · rw [hown.span_eq, ← hinside, Utf8.size_append]
    rfl

end Document

end Markup

/-- Of a document that is read, the root ends with an angle bracket, the last character of its end
tag or of its only tag. A document that breaks off anywhere before is refused when it is read, and
hence it is not converted, whatever the options. -/
theorem truncated_unreadable {xml : String} {document : Document}
    (h : Document.parse xml = .ok document) :
    ∃ (before own : List Markup.Token) (inside after : List Char),
      Spells (Markup.Token.extent before) own document.root ∧
      before.flatMap Markup.Token.spelling ++ own.flatMap Markup.Token.spelling =
        inside ++ ['>'] ∧
      Document.dropMark xml.toList = inside ++ '>' :: after ∧
      document.root.span.stop = Utf8.size (inside ++ ['>']) ∧
      ∀ p, p <+: xml.toList → Utf8.size (Document.dropMark p) < document.root.span.stop →
        ∃ e : ReadError, Document.parse (String.ofList p) = .error e ∧
          ∀ options, convert (String.ofList p) options = .error (.unreadable e) := by
  obtain ⟨before, own, inside, after, hown, hinside, htext, hstop⟩ := Document.exists_root_end h
  refine ⟨before, own, inside, after, hown, hinside, htext, hstop, fun p hp hcut => ?_⟩
  cases hbroken : Document.parse (String.ofList p) with
  | error e => exact ⟨e, rfl, convert_eq_unreadable hbroken⟩
  | ok document' =>
      exact absurd hcut (Nat.not_lt.mpr (Document.stop_le_of_parse_truncated h hp hbroken))

/-- A document whose root has an angle bracket in an attribute value. -/
def quotedBracket : String := "<?x?><a b=\">\">é</a >\n"

/-- The same, broken off behind that bracket. -/
def brokenInQuotes : String := "<?x?><a b=\">"

/-- The bracket in the value ends nothing: the document that breaks off behind it is refused. -/
theorem brokenInQuotes_unreadable :
    ∃ document, Document.parse quotedBracket = .ok document ∧
      brokenInQuotes.toList <+: quotedBracket.toList ∧
      Utf8.size (Document.dropMark brokenInQuotes.toList) < document.root.span.stop ∧
      ∃ e, Document.parse brokenInQuotes = .error e ∧
        ∀ options, convert brokenInQuotes options = .error (.unreadable e) := by
  have hread : (Document.parse quotedBracket).toOption.map (·.root.span.stop) = some 21 := by
    decide +kernel
  have hbroken : brokenInQuotes.toList <+: quotedBracket.toList := by
    decide +kernel
  have hsize : Utf8.size (Document.dropMark brokenInQuotes.toList) = 12 := by
    decide +kernel
  cases hdocument : Document.parse quotedBracket with
  | error e =>
      rw [hdocument] at hread
      cases hread
  | ok document =>
      rw [hdocument] at hread
      have hstop : document.root.span.stop = 21 := Option.some.inj hread
      have hcut : Utf8.size (Document.dropMark brokenInQuotes.toList) <
          document.root.span.stop := by
        rw [hsize, hstop]
        decide
      obtain ⟨-, -, -, -, -, -, -, -, hrefused⟩ := truncated_unreadable hdocument
      obtain ⟨e, he, hconvert⟩ := hrefused _ hbroken hcut
      rw [String.ofList_toList] at he hconvert
      exact ⟨document, rfl, hbroken, hcut, e, he, hconvert⟩

end GiftQuiz
