import GiftQuiz.Markup.Printer
import GiftQuiz.Proofs.Markup.Legible

/-!
# Written tags

A tag is found by its first `>` outside of quotes, and what stands in it is read as a name and
attributes. A text that `Passes` has no such `>` and closes all its quotes, so that the search goes
on behind it as if it had just begun. Names have no quotes at all, and there are none inside the
quotes of a written value, as it has references for them.

`Attribute.readTag_tagText` says that the name and the attributes of a written tag are read back,
and `legible_startTag`, `legible_emptyTag` and `legible_endTag` say that a written tag is a token,
whatever stands behind it.
-/

namespace GiftQuiz

namespace Markup

open Element (inName isKey isName areAttributes)

def tagText (name : String) (attributes : List Attribute) : List Char :=
  name.toList ++ attributes.flatMap Attribute.print

/-! ## Characters of names and of written texts -/

theorem inName_iff {c : Char} : inName c = true ↔
    isSpace c = false ∧ c ≠ '/' ∧ c ≠ '<' ∧ c ≠ '>' ∧ c ≠ '=' ∧ c ≠ '"' ∧ c ≠ '\'' := by
  simp only [inName, Bool.and_eq_true, Bool.not_eq_true', bne_iff_ne, ne_eq, and_assoc]

theorem isKey_iff {s : String} :
    isKey s = true ↔ s.toList ≠ [] ∧ ∀ c ∈ s.toList, inName c = true := by
  simp [isKey]

theorem isName_iff {s : String} : isName s = true ↔
    isKey s = true ∧ s.toList.head? ≠ some '!' ∧ s.toList.head? ≠ some '?' := by
  simp only [isName, Bool.and_eq_true, bne_iff_ne, ne_eq, and_assoc]

theorem of_mem_guardNamedChar {c d : Char} (h : c ∈ guardNamedChar d) : c ≠ '<' ∧ c ≠ '"' := by
  unfold guardNamedChar at h
  cases hname : nameOf? d with
  | some name =>
      rw [hname] at h
      have hall : ('&' :: (name ++ [';'])).all (fun c => c != '<' && c != '"') = true := by
        simp only [nameOf?] at hname
        repeat' split at hname
        all_goals cases hname
        all_goals decide
      simpa using List.all_eq_true.mp hall c h
  | none =>
      rw [hname] at h
      obtain rfl := List.mem_singleton.mp h
      constructor
      all_goals
        rintro rfl
        cases hname

/-- A written text has no angle bracket and no quotation mark. -/
theorem of_mem_guardNamed {c : Char} {t : List Char} (h : c ∈ guardNamed t) :
    c ≠ '<' ∧ c ≠ '"' := by
  obtain ⟨d, -, hd⟩ := List.mem_flatMap.mp h
  exact of_mem_guardNamedChar hd

theorem guardNamed_ne_nil {t : List Char} (h : t ≠ []) : guardNamed t ≠ [] := by
  obtain ⟨c, u, rfl⟩ := List.exists_cons_of_ne_nil h
  rw [guardNamed_cons, guardNamedChar]
  split <;> simp

/-! ## Reading attributes -/

namespace Attribute

namespace Rest

/-- Skipping stops where it has to. -/
theorem skip_append {q : Char → Bool} {t u : List Char} (ht : ∀ c ∈ t, q c = true)
    (hu : ∀ c, u.head? = some c → q c = false) (position : Nat) :
    (Rest.mk position (t ++ u)).skip q = ⟨position + Utf8.size t, u⟩ := by
  simp only [skip, takeWhile_append_eq ht hu, dropWhile_append_eq ht hu]

theorem skip_eq_self {q : Char → Bool} {u : List Char}
    (hu : ∀ c, u.head? = some c → q c = false) (position : Nat) :
    (Rest.mk position u).skip q = ⟨position, u⟩ :=
  skip_append (t := []) (fun _ hc => nomatch hc) hu position

end Rest

theorem readValue_written (value : String) (position : Nat) (rest : List Char) :
    ∃ behind, readValue ⟨position, '"' :: guardNamed value.toList ++ '"' :: rest⟩ =
      .ok (value, ⟨behind, rest⟩) := by
  have hinside : ∀ c ∈ guardNamed value.toList, (c != '"') = true := fun c hc =>
    bne_iff_ne.mpr (of_mem_guardNamed hc).2
  have hquote : ∀ c, ('"' :: rest).head? = some c → (c != '"') = false := by
    intro c hc
    cases hc
    rfl
  have hskip := Rest.skip_append hinside hquote (position + 1)
  have htake := takeWhile_append_eq hinside hquote
  refine ⟨position + 1 + Utf8.size (guardNamed value.toList) + 1, ?_⟩
  simp only [readValue, List.cons_append, true_or, if_true, hskip, htake, unescape_guardNamed,
    String.ofList_toList]

/-- A written attribute is read if its key is new. -/
theorem readOne_written {before : List Placed} {a : Attribute} {c : Char} {key : List Char}
    (hkey : a.key.toList = c :: key) (hname : ∀ d ∈ key, inName d = true)
    (hnew : ∀ p ∈ before, p.content.key ≠ a.key) (position : Nat) (rest : List Char) :
    ∃ behind, readOne before position c
        (key ++ '=' :: '"' :: guardNamed a.value.toList ++ '"' :: rest) =
      .ok (⟨position, a⟩, ⟨behind, rest⟩) := by
  let value := '"' :: guardNamed a.value.toList ++ '"' :: rest
  have htext : key ++ '=' :: '"' :: guardNamed a.value.toList ++ '"' :: rest =
      key ++ '=' :: value := by
    simp [value]
  have hinKey : ∀ d ∈ key, inKey d = true := by
    intro d hd
    obtain ⟨hspace, -, -, -, hequals, -⟩ := inName_iff.mp (hname d hd)
    simp [inKey, hspace, hequals]
  have hequals : ∀ d, ('=' :: value).head? = some d → inKey d = false ∧ isSpace d = false := by
    intro d hd
    cases hd
    decide
  have hskip := Rest.skip_append (q := inKey) (u := '=' :: value) hinKey
    (fun d hd => (hequals d hd).1) (position + c.utf8Size)
  have hspaces := Rest.skip_eq_self (q := isSpace) (u := '=' :: value)
    (fun d hd => (hequals d hd).2)
  have hquote := Rest.skip_eq_self (q := isSpace) (u := value) (fun d hd => by cases hd; decide)
  have htake := takeWhile_append_eq hinKey fun d hd => (hequals d hd).1
  have hofList : String.ofList (c :: key) = a.key := by
    rw [← hkey, String.ofList_toList]
  have hfind : before.find? (·.content.key == a.key) = none := by
    refine List.find?_eq_none.mpr fun p hp => ?_
    rw [beq_iff_eq]
    exact hnew p hp
  obtain ⟨behind, hvalue⟩ := readValue_written a.value
    (position + c.utf8Size + Utf8.size key + 1) rest
  refine ⟨behind, ?_⟩
  rw [htext]
  simp only [readOne, hskip, hspaces, htake, hofList, hfind, hquote, value, hvalue]

theorem readFrom_of_end {before : List Placed} {r : Rest} (h : (r.skip isSpace).text = []) :
    readFrom before r = .ok (before.reverse.map Placed.content) := by
  rw [readFrom]
  split
  · rfl
  · rename_i hmore
    rw [h] at hmore
    cases hmore

theorem readFrom_of_one {before : List Placed} {r behind : Rest} {position : Nat} {c : Char}
    {t : List Char} {p : Placed} (hstart : r.skip isSpace = ⟨position, c :: t⟩)
    (hone : readOne before position c t = .ok (p, behind)) :
    readFrom before r = readFrom (p :: before) behind := by
  rw [readFrom]
  split
  · rename_i hend
    rw [hstart] at hend
    cases hend
  · rename_i c' t' hmore
    rw [hstart] at hmore
    obtain ⟨rfl, rfl⟩ := List.cons.inj hmore
    split
    · rename_i hread
      rw [hstart, hone] at hread
      cases hread
      rfl
    · rename_i hread
      rw [hstart, hone] at hread
      cases hread

theorem print_eq (a : Attribute) (rest : List Char) :
    a.print ++ rest =
      ' ' :: (a.key.toList ++ '=' :: '"' :: guardNamed a.value.toList ++ '"' :: rest) := by
  simp [print]

/-- Written attributes with different keys are read back. -/
theorem readFrom_written {attributes : List Attribute}
    (hkeys : ∀ a ∈ attributes, isKey a.key = true)
    (hdistinct : (attributes.map Attribute.key).Nodup) (before : List Placed)
    (hnew : ∀ a ∈ attributes, ∀ p ∈ before, p.content.key ≠ a.key) (position : Nat) :
    readFrom before ⟨position, attributes.flatMap print⟩ =
      .ok (before.reverse.map Placed.content ++ attributes) := by
  -- Every attribute that is read joins the ones that the next key is compared with.
  induction attributes generalizing before position with
  | nil =>
      rw [readFrom_of_end rfl, List.append_nil]
  | cons a attributes ih =>
      obtain ⟨hnonempty, hname⟩ := isKey_iff.mp (hkeys a (List.mem_cons_self ..))
      obtain ⟨c, key, hkey⟩ := List.exists_cons_of_ne_nil hnonempty
      rw [hkey] at hname
      have hc : isSpace c = false := (inName_iff.mp (hname c (List.mem_cons_self ..))).1
      have hskip := Rest.skip_append (q := isSpace) (t := [' '])
        (u := c :: (key ++ '=' :: '"' :: guardNamed a.value.toList ++
          '"' :: attributes.flatMap print)) (by simp [isSpace])
        (fun d hd => by cases hd; exact hc) position
      obtain ⟨behind, hone⟩ := readOne_written hkey
        (fun d hd => hname d (List.mem_cons_of_mem _ hd)) (hnew a (List.mem_cons_self ..))
        (position + Utf8.size [' ']) (attributes.flatMap print)
      rw [List.map_cons, List.nodup_cons] at hdistinct
      have hrest := ih (fun b hb => hkeys b (List.mem_cons_of_mem _ hb)) hdistinct.2
        (⟨position + Utf8.size [' '], a⟩ :: before) (by
          intro b hb p hp
          rcases List.mem_cons.mp hp with rfl | hp
          · intro hsame
            exact hdistinct.1 (hsame ▸ List.mem_map_of_mem hb)
          · exact hnew b (List.mem_cons_of_mem _ hb) p hp) behind
      rw [List.flatMap_cons, print_eq, hkey]
      refine Eq.trans (readFrom_of_one hskip hone) ?_
      rw [hrest]
      simp

theorem readTag_tagText {name : String} {attributes : List Attribute} (hname : isKey name = true)
    (hattributes : areAttributes attributes = true) :
    readTag (tagText name attributes) = .ok (name, attributes) := by
  have hall : ∀ c ∈ name.toList, (!isSpace c) = true := by
    intro c hc
    rw [(inName_iff.mp ((isKey_iff.mp hname).2 c hc)).1]
    rfl
  have hbehind : ∀ c, (attributes.flatMap print).head? = some c → (!isSpace c) = false := by
    intro c hc
    cases attributes with
    | nil => cases hc
    | cons a attributes =>
        rw [List.flatMap_cons, print_eq] at hc
        cases hc
        rfl
  simp only [areAttributes, Bool.and_eq_true, List.all_eq_true, decide_eq_true_eq] at hattributes
  have hread := readFrom_written hattributes.1 hattributes.2 []
    (fun _ _ p hp => nomatch hp) (Utf8.size name.toList)
  have htake : (tagText name attributes).takeWhile (!isSpace ·) = name.toList :=
    takeWhile_append_eq hall hbehind
  have hdrop : (tagText name attributes).dropWhile (!isSpace ·) = attributes.flatMap print :=
    dropWhile_append_eq hall hbehind
  simp only [readTag, htake, hdrop, hread, String.ofList_toList]
  rfl

end Attribute

/-! ## Finding the end of a tag -/

namespace Token

/-- A text without `>` outside of quotes that closes all its quotes. -/
def Passes (t : List Char) : Prop :=
  ∀ done rest, cutTagFrom done none (t ++ rest) = cutTagFrom (t.reverse ++ done) none rest

namespace Passes

theorem nil : Passes [] := fun _ _ => rfl

theorem append {t u : List Char} (ht : Passes t) (hu : Passes u) : Passes (t ++ u) := by
  intro done rest
  rw [List.append_assoc, ht, hu, List.reverse_append, List.append_assoc]

theorem of_plain {t : List Char} (h : ∀ c ∈ t, c ≠ '>' ∧ c ≠ '"' ∧ c ≠ '\'') : Passes t := by
  induction t with
  | nil => exact nil
  | cons c t ih =>
      obtain ⟨hclose, hdouble, hsingle⟩ := h c (List.mem_cons_self ..)
      intro done rest
      have hrest := ih (fun d hd => h d (List.mem_cons_of_mem _ hd)) (c :: done) rest
      rw [List.cons_append, cutTagFrom, if_neg hclose, if_neg (by simp [hdouble, hsingle]), hrest,
        List.reverse_cons, List.append_assoc, List.singleton_append]

theorem quoted {t : List Char} (h : ∀ c ∈ t, c ≠ '"') : Passes ('"' :: t ++ ['"']) := by
  have hinside : ∀ done rest, cutTagFrom done (some '"') (t ++ '"' :: rest) =
      cutTagFrom ('"' :: (t.reverse ++ done)) none rest := by
    induction t with
    | nil => exact fun _ _ => rfl
    | cons c t ih =>
        intro done rest
        have hc : c ≠ '"' := h c (List.mem_cons_self ..)
        have hrest := ih (fun d hd => h d (List.mem_cons_of_mem _ hd)) (c :: done) rest
        rw [List.cons_append, cutTagFrom, if_neg hc, hrest, List.reverse_cons, List.append_assoc,
          List.singleton_append]
  intro done rest
  have hall := hinside ('"' :: done) rest
  have hopen : cutTagFrom done none ('"' :: (t ++ '"' :: rest)) =
      cutTagFrom ('"' :: done) (some '"') (t ++ '"' :: rest) := by
    rw [cutTagFrom, if_neg (by decide), if_pos (Or.inl rfl)]
  simp only [List.cons_append, List.append_assoc, List.nil_append, List.reverse_cons,
    List.reverse_append, List.reverse_nil]
  rw [hopen, hall]

theorem of_inName {t : List Char} (h : ∀ c ∈ t, inName c = true) : Passes t := by
  refine of_plain fun c hc => ?_
  obtain ⟨-, -, -, hclose, -, hquotes⟩ := inName_iff.mp (h c hc)
  exact ⟨hclose, hquotes⟩

theorem print {a : Attribute} (h : isKey a.key = true) : Passes a.print := by
  have hspace : Passes [' '] := of_plain (by simp)
  have hkey : Passes a.key.toList := of_inName (isKey_iff.mp h).2
  have hequals : Passes ['='] := of_plain (by simp)
  have hvalue := quoted (t := guardNamed a.value.toList) fun c hc => (of_mem_guardNamed hc).2
  have hall := ((hspace.append hkey).append hequals).append hvalue
  simpa [Attribute.print] using hall

theorem flatMap_print {attributes : List Attribute} (h : ∀ a ∈ attributes, isKey a.key = true) :
    Passes (attributes.flatMap Attribute.print) := by
  induction attributes with
  | nil => exact nil
  | cons a attributes ih =>
      rw [List.flatMap_cons]
      exact (print (h a (List.mem_cons_self ..))).append
        (ih fun b hb => h b (List.mem_cons_of_mem _ hb))

theorem of_tagText {name : String} {attributes : List Attribute} (hname : isKey name = true)
    (hattributes : areAttributes attributes = true) : Passes (tagText name attributes) := by
  simp only [areAttributes, Bool.and_eq_true, List.all_eq_true] at hattributes
  exact (of_inName (isKey_iff.mp hname).2).append (flatMap_print hattributes.1)

theorem cutTag_eq {t : List Char} (h : Passes t) (rest : List Char) :
    cutTag (t ++ '>' :: rest) = some (t, rest) := by
  rw [cutTag, h [] ('>' :: rest), List.append_nil, cutTagFrom, if_pos rfl, List.reverse_reverse]

end Passes

/-! ## Written tags are tokens -/

/-- What passes and announces no other markup is a tag. -/
theorem legible_ofTag {content : List Char} (h : Passes content)
    (hdeclared : content.head? ≠ some '!') (hinstruction : content.head? ≠ some '?')
    (rest : List Char) : (ofTag content).Legible rest := by
  have hread : readMarkup (content ++ '>' :: rest) = .ok (ofTag content, rest) := by
    rw [readMarkup]
    · simp only [readTag, h.cutTag_eq rest]
    · intro t ht
      cases content with
      | nil => cases ht
      | cons c u =>
          obtain ⟨rfl, -⟩ := List.cons.inj ht
          exact hdeclared rfl
    · intro t ht
      cases content with
      | nil => cases ht
      | cons c u =>
          obtain ⟨rfl, -⟩ := List.cons.inj ht
          exact hinstruction rfl
  refine ⟨'<', content ++ '>' :: rest, by rw [spelling_ofTag]; simp, ?_⟩
  rw [read, if_pos rfl, hread]

section

variable {name : String} {attributes : List Attribute} (hname : isName name = true)

include hname

theorem head?_tagText (attributes : List Attribute) (t : List Char) :
    ∃ c, (tagText name attributes ++ t).head? = some c ∧ c ≠ '/' ∧ c ≠ '!' ∧ c ≠ '?' := by
  obtain ⟨hkey, hdeclared, hinstruction⟩ := isName_iff.mp hname
  obtain ⟨hnonempty, hall⟩ := isKey_iff.mp hkey
  obtain ⟨c, u, hc⟩ := List.exists_cons_of_ne_nil hnonempty
  rw [hc] at hdeclared hinstruction hall
  refine ⟨c, by simp [tagText, hc], ?_, ?_, ?_⟩
  · exact (inName_iff.mp (hall c (List.mem_cons_self ..))).2.1
  · rintro rfl
    exact hdeclared rfl
  · rintro rfl
    exact hinstruction rfl

theorem getLast?_tagText : (tagText name attributes).getLast? ≠ some '/' := by
  obtain ⟨hnonempty, hall⟩ := isKey_iff.mp (isName_iff.mp hname).1
  rcases List.eq_nil_or_concat attributes with rfl | ⟨init, a, rfl⟩
  · intro hlast
    have hmem : '/' ∈ name.toList := by
      have hslash := List.mem_of_getLast? hlast
      simpa [tagText] using hslash
    exact (inName_iff.mp (hall _ hmem)).2.1 rfl
  · have hquote : tagText name (init ++ [a]) = (name.toList ++ init.flatMap Attribute.print ++
        ' ' :: a.key.toList ++ '=' :: '"' :: guardNamed a.value.toList) ++ ['"'] := by
      simp [tagText, Attribute.print]
    rw [List.concat_eq_append, hquote, List.getLast?_concat]
    decide

theorem legible_endTag (rest : List Char) : (endTag name.toList).Legible rest := by
  have hslash : Passes ['/'] := .of_plain (by simp)
  have hpasses := hslash.append (.of_inName (isKey_iff.mp (isName_iff.mp hname).1).2)
  exact legible_ofTag hpasses (by simp) (by simp) rest

variable (hattributes : areAttributes attributes = true)

include hattributes

theorem legible_startTag (rest : List Char) :
    (startTag (tagText name attributes)).Legible rest := by
  obtain ⟨c, hhead, hslash, hdeclared, hinstruction⟩ := head?_tagText hname attributes []
  rw [List.append_nil] at hhead
  have hpasses := Passes.of_tagText (isName_iff.mp hname).1 hattributes
  have htag : ofTag (tagText name attributes) = startTag (tagText name attributes) := by
    unfold ofTag
    split
    · rename_i hcontent
      rw [hcontent] at hhead
      exact absurd (Option.some.inj hhead).symm hslash
    · rw [if_neg (getLast?_tagText hname)]
  rw [← htag]
  refine legible_ofTag hpasses ?_ ?_ rest
  · rw [hhead]
    exact fun h => hdeclared (Option.some.inj h)
  · rw [hhead]
    exact fun h => hinstruction (Option.some.inj h)

theorem legible_emptyTag (rest : List Char) :
    (emptyTag (tagText name attributes)).Legible rest := by
  obtain ⟨c, hhead, hslash, hdeclared, hinstruction⟩ := head?_tagText hname attributes ['/']
  have hpasses := (Passes.of_tagText (isName_iff.mp hname).1 hattributes).append
    (Passes.of_plain (t := ['/']) (by simp))
  have htag : ofTag (tagText name attributes ++ ['/']) = emptyTag (tagText name attributes) := by
    unfold ofTag
    split
    · rename_i hcontent
      rw [hcontent] at hhead
      exact absurd (Option.some.inj hhead).symm hslash
    · simp
  rw [← htag]
  refine legible_ofTag hpasses ?_ ?_ rest
  · rw [hhead]
    exact fun h => hdeclared (Option.some.inj h)
  · rw [hhead]
    exact fun h => hinstruction (Option.some.inj h)

end

end Token

end Markup

end GiftQuiz
