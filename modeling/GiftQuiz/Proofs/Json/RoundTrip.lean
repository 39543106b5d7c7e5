import GiftQuiz.Json.Reader
import GiftQuiz.Json.Writer
import GiftQuiz.Text.Split
import Mathlib.Data.List.Forall2
import Mathlib.Data.List.DropRight

/-!
# Reading back what was written

`Writes t j` says that the reader takes `t` for the value `j`, whatever stands behind it. One lemma
for each kind of value says how a text that writes it is made: strings with their escapes, integers
in digits, and arrays and objects from the texts of what is in them, with any white space in front
of an item or a value and before the end. The two layouts of the writer are such texts, so that both
are read back (`parse_compact`, `parse_pretty`).

A value is lawful if its decimals are numbers that the reader keeps as they are written. The other
values are lawful by themselves.
-/

namespace GiftQuiz

namespace Json

/-! ## Strings -/

theorem unit?_hex4 {n : Nat} (h : n < 0x20) :
    unit? (Nat.digitChar (n / 4096 % 16)) (Nat.digitChar (n / 256 % 16))
      (Nat.digitChar (n / 16 % 16)) (Nat.digitChar (n % 16)) = some n := by
  have hall : ∀ m < 0x20, unit? (Nat.digitChar (m / 4096 % 16)) (Nat.digitChar (m / 256 % 16))
      (Nat.digitChar (m / 16 % 16)) (Nat.digitChar (m % 16)) = some m := by decide
  exact hall n h

theorem readUnit_hex4 {c : Char} (h : c.toNat < 0x20) (t : List Char) :
    readUnit (hex4 c.toNat ++ t) = some (c, t) := by
  have hunit := unit?_hex4 h
  have hhigh : isHighSurrogate c.toNat = false := by
    simp only [isHighSurrogate, Bool.and_eq_false_iff, decide_eq_false_iff_not]
    omega
  have hchar : ofUnit? c.toNat = some c := by
    unfold ofUnit?
    rw [if_pos (show c.toNat.isValidChar from c.valid), Char.ofNat_toNat]
  unfold hex4 readUnit
  simp only [List.cons_append, List.nil_append, hunit, hhigh, hchar]
  rfl

/-- An escaped character does not end a string, and is read as the character. -/
theorem readStringFrom_escapeChar (c : Char) (done t : List Char) :
    readStringFrom done (escapeChar c ++ t) = readStringFrom (c :: done) t := by
  have hstep {e : Char} {u : List Char} (he : e ≠ '"') (h : readChar e u = some (c, t)) :
      readStringFrom done (e :: u) = readStringFrom (c :: done) t := by
    rw [readStringFrom, if_neg he]
    split
    · rename_i hread
      rw [h] at hread
      cases hread
      rfl
    · rename_i hread
      rw [h] at hread
      cases hread
  unfold escapeChar
  split_ifs with hquote hbackslash hb ht hn hf hr hcontrol
  · exact hstep (by decide) (by rw [hquote]; rfl)
  · exact hstep (by decide) (by rw [hbackslash]; rfl)
  · exact hstep (by decide) (by rw [hb]; rfl)
  · exact hstep (by decide) (by rw [ht]; rfl)
  · exact hstep (by decide) (by rw [hn]; rfl)
  · exact hstep (by decide) (by rw [hf]; rfl)
  · exact hstep (by decide) (by rw [hr]; rfl)
  · exact hstep (by decide) (readUnit_hex4 hcontrol t)
  · exact hstep hquote (by simp [readChar, hbackslash, hcontrol])

theorem readStringFrom_flatMap (chars done rest : List Char) :
    readStringFrom done (chars.flatMap escapeChar ++ '"' :: rest) =
      some (String.ofList (done.reverse ++ chars), rest) := by
  induction chars generalizing done with
  | nil =>
      rw [List.flatMap_nil, List.nil_append, readStringFrom, if_pos rfl, List.append_nil]
  | cons c chars ih =>
      rw [List.flatMap_cons, List.append_assoc, readStringFrom_escapeChar, ih, List.reverse_cons,
        List.append_assoc]
      rfl

theorem readString_quote (s : String) (rest : List Char) :
    readString (s.toList.flatMap escapeChar ++ '"' :: rest) = some (s, rest) := by
  rw [readString, readStringFrom_flatMap, List.reverse_nil, List.nil_append, String.ofList_toList]

/-! ## Numbers -/

theorem below?_digitChar {n : Nat} (h : n < 10) : Digit.below? 10 n.digitChar = some n := by
  have hall : ∀ m < 10, Digit.below? 10 m.digitChar = some m := by decide
  exact hall n h

theorem foldlM_toDigits (n : Nat) :
    (Nat.toDigits 10 n).foldlM (fun n c => (Digit.below? 10 c).map (n * 10 + ·)) 0 = some n := by
  induction n using Nat.strongRecOn with
  | ind n ih =>
      by_cases hn : n < 10
      · rw [Nat.toDigits_of_lt_base hn]
        simp [below?_digitChar hn]
      · have hdigit : n % 10 < 10 := Nat.mod_lt _ (by decide)
        rw [Nat.toDigits_of_base_le (by decide) (by omega), List.foldlM_append,
          ih (n / 10) (by omega)]
        simp [below?_digitChar hdigit]
        omega

theorem natural?_toDigits (n : Nat) : Digit.natural? (Nat.toDigits 10 n) = some n := by
  unfold Digit.natural?
  rw [foldlM_toDigits, if_neg]
  simp [Nat.toDigits_ne_nil]

theorem head?_toDigits_ne {n : Nat} (h : 0 < n) : (Nat.toDigits 10 n).head? ≠ some '0' := by
  induction n using Nat.strongRecOn with
  | ind n ih =>
      by_cases hn : n < 10
      · rw [Nat.toDigits_of_lt_base hn, List.head?_cons]
        intro hzero
        have := Nat.digitChar_eq_zero.mp (Option.some.inj hzero)
        omega
      · rw [Nat.toDigits_of_base_le (by decide) (by omega),
          List.head?_append_of_ne_nil _ Nat.toDigits_ne_nil]
        exact ih (n / 10) (by omega) (by omega)

/-- No zero stands in front of other digits. -/
theorem isWhole_toDigits (n : Nat) : isWhole (Nat.toDigits 10 n) = true := by
  have hdigits : isDigits (Nat.toDigits 10 n) = true := by
    simp only [isDigits, Bool.and_eq_true, Bool.not_eq_true', List.isEmpty_eq_false_iff]
    exact ⟨Nat.toDigits_ne_nil, List.all_eq_true.mpr Digit.isDigit_of_mem_toDigits⟩
  unfold isWhole
  rw [hdigits, Bool.true_and, Bool.or_eq_true, bne_iff_ne, beq_iff_eq]
  rcases Nat.eq_zero_or_pos n with rfl | hpos
  · exact Or.inr rfl
  · exact Or.inl (head?_toDigits_ne hpos)

theorem takeWhile_toDigits (n : Nat) :
    (Nat.toDigits 10 n).takeWhile Char.isDigit = Nat.toDigits 10 n ∧
      (Nat.toDigits 10 n).dropWhile Char.isDigit = [] := by
  have htake := takeWhile_append_eq (u := []) (Digit.isDigit_of_mem_toDigits (n := n)) (by simp)
  have hdrop := dropWhile_append_eq (u := []) (Digit.isDigit_of_mem_toDigits (n := n)) (by simp)
  rw [List.append_nil] at htake hdrop
  exact ⟨htake, hdrop⟩

theorem number?_toDigits (n : Nat) : number? (Nat.toDigits 10 n) = some (.integer n) := by
  have hminus : ((Nat.toDigits 10 n).head? == some '-') = false := by
    cases h : Nat.toDigits 10 n with
    | nil => rfl
    | cons c t =>
        have hc := Digit.isDigit_of_mem_toDigits (n := n) c (by rw [h]; exact List.mem_cons_self ..)
        rw [List.head?_cons, Option.some_beq_some, beq_eq_false_iff_ne]
        rintro rfl
        cases hc
  obtain ⟨htake, hdrop⟩ := takeWhile_toDigits n
  unfold number?
  simp only [hminus, Bool.false_eq_true, if_false, htake, hdrop, isWhole_toDigits,
    natural?_toDigits]
  rfl

theorem number?_minus_toDigits (n : Nat) :
    number? ('-' :: Nat.toDigits 10 (n + 1)) = some (.integer (Int.negSucc n)) := by
  obtain ⟨htake, hdrop⟩ := takeWhile_toDigits (n + 1)
  unfold number?
  simp only [List.head?_cons, beq_self_eq_true, if_true, List.drop_succ_cons, List.drop_zero, htake,
    hdrop, isWhole_toDigits, natural?_toDigits]
  rfl

theorem writeInt_ofNat (n : Nat) : writeInt n = Nat.toDigits 10 n := by
  show (toString n).toList = _
  rw [Nat.toString_eq_repr, Nat.toList_repr]

theorem writeInt_negSucc (n : Nat) : writeInt (Int.negSucc n) = '-' :: Nat.toDigits 10 (n + 1) := by
  show ("-" ++ Nat.repr (n + 1)).toList = _
  rw [String.toList_append, Nat.toList_repr]
  rfl

theorem number?_writeInt (n : Int) : number? (writeInt n) = some (.integer n) := by
  cases n with
  | ofNat n =>
      show number? (writeInt (n : Int)) = _
      rw [writeInt_ofNat]
      exact number?_toDigits n
  | negSucc n =>
      rw [writeInt_negSucc]
      exact number?_minus_toDigits n

theorem inNumber_of_isDigit {c : Char} (h : c.isDigit = true) : inNumber c = true := by
  simp [inNumber, h]

theorem inNumber_of_mem_writeInt {n : Int} : ∀ c ∈ writeInt n, inNumber c = true := by
  intro c hc
  cases n with
  | ofNat n =>
      have hdigits : c ∈ Nat.toDigits 10 n := by
        rw [← writeInt_ofNat]
        exact hc
      exact inNumber_of_isDigit (Digit.isDigit_of_mem_toDigits c hdigits)
  | negSucc n =>
      rw [writeInt_negSucc] at hc
      rcases List.mem_cons.mp hc with rfl | hc
      · rfl
      · exact inNumber_of_isDigit (Digit.isDigit_of_mem_toDigits c hc)

theorem number?_nil : number? [] = none := rfl

/-! ## Values -/

/-- Behind a value: nothing that could be part of a number. -/
def Ends (rest : List Char) : Prop :=
  ∀ c, rest.head? = some c → inNumber c = false

/-- The reader takes a text for a value, whatever stands behind it. The bound on the recursion may
be any that is at least the length of the text. -/
def Writes (t : List Char) (j : Json) : Prop :=
  ∀ fuel, t.length ≤ fuel → ∀ rest, Ends rest → readValue fuel (t ++ rest) = some (j, rest)

def Blank (ws : List Char) : Prop :=
  ∀ c ∈ ws, isSpace c = true

theorem skipSpace_append {ws : List Char} (h : Blank ws) (t : List Char) :
    skipSpace (ws ++ t) = skipSpace t :=
  List.dropWhile_append_of_pos h

theorem readValue_skipSpace (fuel : Nat) (t : List Char) :
    readValue fuel (skipSpace t) = readValue fuel t := by
  cases fuel with
  | zero => rfl
  | succ fuel =>
      have hidem : skipSpace (skipSpace t) = skipSpace t := List.dropWhile_idempotent ..
      rw [readValue, readValue, hidem]

theorem Writes.blank {ws t : List Char} {j : Json} (h : Writes t j) (hws : Blank ws) :
    Writes (ws ++ t) j := by
  intro fuel hfuel rest hrest
  rw [List.length_append] at hfuel
  rw [List.append_assoc, ← readValue_skipSpace, skipSpace_append hws, readValue_skipSpace]
  exact h fuel (by omega) rest hrest

/-- A text of one character or more that is read for a value where the bound is not exhausted. -/
theorem writes_of_readValue {t : List Char} {j : Json} (hne : t ≠ [])
    (h : ∀ fuel, t.length ≤ fuel + 1 → ∀ rest, Ends rest →
      readValue (fuel + 1) (t ++ rest) = some (j, rest)) : Writes t j := by
  intro fuel hfuel rest hrest
  cases fuel with
  | zero => exact absurd (List.length_eq_zero_iff.mp (Nat.le_zero.mp hfuel)) hne
  | succ fuel => exact h fuel hfuel rest hrest

theorem writes_null : Writes "null".toList .null :=
  writes_of_readValue (by decide) fun _ _ _ _ => rfl

theorem writes_bool (b : Bool) : Writes (if b then "true" else "false").toList (.bool b) := by
  cases b
  · exact writes_of_readValue (by decide) fun _ _ _ _ => rfl
  · exact writes_of_readValue (by decide) fun _ _ _ _ => rfl

theorem writes_quote (s : String) : Writes (quote s) (.string s) := by
  refine writes_of_readValue (by simp [quote]) fun fuel _ rest _ => ?_
  have hread := readString_quote s rest
  have hquote : quote s ++ rest = '"' :: (s.toList.flatMap escapeChar ++ '"' :: rest) := by
    simp [quote]
  rw [hquote, readValue]
  show (readString _).map _ = _
  rw [hread]
  rfl

theorem not_isSpace_of_inNumber {c : Char} (h : inNumber c = true) : isSpace c = false := by
  refine Bool.eq_false_iff.mpr fun hspace => ?_
  simp only [isSpace, Bool.or_eq_true, beq_iff_eq] at hspace
  rcases hspace with ((rfl | rfl) | rfl) | rfl <;> cases h

theorem writes_number {t : List Char} {j : Json} (hchars : ∀ c ∈ t, inNumber c = true)
    (h : number? t = some j) : Writes t j := by
  cases t with
  | nil =>
      rw [number?_nil] at h
      cases h
  | cons c t =>
      refine writes_of_readValue (by simp) fun fuel _ rest hrest => ?_
      have hc := hchars c (List.mem_cons_self ..)
      have hskip : skipSpace (c :: t ++ rest) = c :: t ++ rest :=
        List.dropWhile_cons_of_neg (by simp [not_isSpace_of_inNumber hc])
      have htake : (c :: t ++ rest).takeWhile inNumber = c :: t := takeWhile_append_eq hchars hrest
      have hdrop : (c :: t ++ rest).dropWhile inNumber = rest := dropWhile_append_eq hchars hrest
      -- None of the other values begins with a character of a number.
      have hother : ∀ d, inNumber d = false → c ≠ d := by
        rintro d hd rfl
        rw [hc] at hd
        cases hd
      rw [readValue, hskip]
      split
      case h_7 =>
        rw [htake, hdrop, h]
        rfl
      all_goals
        rename_i heq
        exact absurd (List.cons.inj heq).1 (hother _ (by decide))

theorem writes_integer (n : Int) : Writes (writeInt n) (.integer n) :=
  writes_number inNumber_of_mem_writeInt (number?_writeInt n)

/-! ## Arrays -/

theorem ends_cons {c : Char} (h : inNumber c = false) (t : List Char) : Ends (c :: t) := by
  rintro _ ⟨⟩
  exact h

/-- White space and then a character that is not of a number. -/
theorem ends_blank {ws t : List Char} (hws : Blank ws) (ht : Ends t) : Ends (ws ++ t) := by
  cases ws with
  | nil => exact ht
  | cons c ws =>
      refine ends_cons ?_ _
      have hc := hws c (List.mem_cons_self ..)
      refine Bool.eq_false_iff.mpr fun hnumber => ?_
      rw [not_isSpace_of_inNumber hnumber] at hc
      cases hc

theorem length_intercalate_cons {t : List Char} {ts : List (List Char)} (hts : ts ≠ []) :
    ([','].intercalate (t :: ts)).length = t.length + 1 + ([','].intercalate ts).length := by
  rw [List.intercalate_cons_of_ne_nil hts, List.length_append, List.length_append]
  rfl

/-- The reader takes the texts of items, with commas between them, up to the end of the array. -/
theorem readItems_intercalate {ts : List (List Char)} {items : List Json}
    (h : List.Forall₂ Writes ts items) (hne : ts ≠ []) {ws : List Char} (hws : Blank ws)
    {fuel : Nat} (hfuel : ([','].intercalate ts).length < fuel) (rest : List Char) :
    readItems fuel ([','].intercalate ts ++ (ws ++ ']' :: rest)) = some (items, rest) := by
  induction h generalizing fuel with
  | nil => exact absurd rfl hne
  | @cons t item ts items hitem hitems ih =>
      obtain ⟨fuel, rfl⟩ : ∃ n, fuel = n + 1 := ⟨fuel - 1, by omega⟩
      by_cases hts : ts = []
      · obtain rfl := hts
        obtain rfl : items = [] := by cases hitems; rfl
        rw [List.intercalate_singleton] at hfuel ⊢
        have hend : Ends (ws ++ ']' :: rest) := ends_blank hws (ends_cons rfl rest)
        have hclose : skipSpace (ws ++ ']' :: rest) = ']' :: rest := skipSpace_append hws _
        rw [readItems, hitem fuel (by omega) _ hend]
        simp only [hclose]
      · rw [length_intercalate_cons hts] at hfuel
        have hrest := ih hts (show ([','].intercalate ts).length < fuel by omega)
        have hcomma : skipSpace (',' :: ([','].intercalate ts ++ (ws ++ ']' :: rest))) =
            ',' :: ([','].intercalate ts ++ (ws ++ ']' :: rest)) := rfl
        have hsplit : [','].intercalate (t :: ts) ++ (ws ++ ']' :: rest) =
            t ++ ',' :: ([','].intercalate ts ++ (ws ++ ']' :: rest)) := by
          rw [List.intercalate_cons_of_ne_nil hts]
          simp
        rw [hsplit, readItems, hitem fuel (by omega) _ (ends_cons rfl _)]
        simp only [hcomma, hrest]
        rfl

theorem readItems_skipSpace (fuel : Nat) (t : List Char) :
    readItems fuel (skipSpace t) = readItems fuel t := by
  cases fuel with
  | zero => rfl
  | succ fuel => rw [readItems, readItems, readValue_skipSpace]

/-- No item begins with the end of the array. -/
theorem readItems_bracket (fuel : Nat) (t : List Char) : readItems fuel (']' :: t) = none := by
  cases fuel with
  | zero => rfl
  | succ fuel => cases fuel <;> rfl

theorem readValue_bracket {fuel : Nat} {t : List Char} (h : ∀ u, skipSpace t ≠ ']' :: u) :
    readValue (fuel + 1) ('[' :: t) =
      (readItems fuel t).map fun read => (.array read.1, read.2) := by
  have hskip : skipSpace ('[' :: t) = '[' :: t := rfl
  rw [readValue, hskip]
  split
  case h_5 u hu =>
    obtain rfl := (List.cons.inj hu).2
    split
    · rename_i hbracket
      exact absurd hbracket (h _)
    · rw [readItems_skipSpace]
  all_goals grind

theorem writes_array {ts : List (List Char)} {items : List Json}
    (h : List.Forall₂ Writes ts items) (hne : ts ≠ []) {ws : List Char} (hws : Blank ws) :
    Writes ('[' :: ([','].intercalate ts ++ (ws ++ [']']))) (.array items) := by
  refine writes_of_readValue (by simp) fun fuel hfuel rest _ => ?_
  have hlength : ([','].intercalate ts).length < fuel := by
    simp only [List.length_cons, List.length_append] at hfuel
    omega
  have hitems := readItems_intercalate h hne hws hlength rest
  have hsplit : '[' :: ([','].intercalate ts ++ (ws ++ [']'])) ++ rest =
      '[' :: ([','].intercalate ts ++ (ws ++ ']' :: rest)) := by simp
  have hopen : ∀ u, skipSpace ([','].intercalate ts ++ (ws ++ ']' :: rest)) ≠ ']' :: u := by
    intro u hbracket
    rw [← readItems_skipSpace, hbracket, readItems_bracket] at hitems
    cases hitems
  rw [hsplit, readValue_bracket hopen, hitems]
  rfl

theorem writes_array_nil : Writes ['[', ']'] (.array []) :=
  writes_of_readValue (by decide) fun _ _ _ _ => rfl

/-! ## Objects -/

/-- The text of a field: white space, the name, a colon and the value. -/
def WritesField (t : List Char) (field : String × Json) : Prop :=
  ∃ ws v, t = ws ++ quote field.1 ++ ':' :: v ∧ Blank ws ∧ Writes v field.2

theorem skipSpace_quote (s : String) (t : List Char) :
    skipSpace (quote s ++ t) = '"' :: (s.toList.flatMap escapeChar ++ '"' :: t) := by
  have hquote : quote s ++ t = '"' :: (s.toList.flatMap escapeChar ++ '"' :: t) := by
    simp [quote]
  rw [hquote]
  rfl

/-- What is read behind a field: a comma and the other fields, or the end. -/
def readOnFields (fuel : Nat) (field : String × Json) (t : List Char) :
    Option (List (String × Json) × List Char) :=
  match skipSpace t with
  | '}' :: t => some ([field], t)
  | ',' :: t => (readFields fuel t).map fun (fields, t) => (field :: fields, t)
  | _ => none

/-- The reader takes a name and its value, and then reads on. -/
theorem readFields_field {t : List Char} {field : String × Json} (h : WritesField t field)
    {fuel : Nat} (hfuel : t.length ≤ fuel) {rest : List Char} (hrest : Ends rest) :
    readFields (fuel + 1) (t ++ rest) = readOnFields fuel field rest := by
  obtain ⟨ws, v, rfl, hws, hv⟩ := h
  simp only [List.length_append, List.length_cons] at hfuel
  have hvalue := hv fuel (by omega) rest hrest
  have hcolon : skipSpace (':' :: v ++ rest) = ':' :: (v ++ rest) := rfl
  rw [readFields, List.append_assoc, List.append_assoc, skipSpace_append hws, skipSpace_quote]
  simp only [readString_quote, hcolon, hvalue]
  rfl

theorem readFields_intercalate {ts : List (List Char)} {fields : List (String × Json)}
    (h : List.Forall₂ WritesField ts fields) (hne : ts ≠ []) {ws : List Char} (hws : Blank ws)
    {fuel : Nat} (hfuel : ([','].intercalate ts).length < fuel) (rest : List Char) :
    readFields fuel ([','].intercalate ts ++ (ws ++ '}' :: rest)) = some (fields, rest) := by
  induction h generalizing fuel with
  | nil => exact absurd rfl hne
  | @cons t field ts fields hfield hfields ih =>
      obtain ⟨fuel, rfl⟩ : ∃ n, fuel = n + 1 := ⟨fuel - 1, by omega⟩
      by_cases hts : ts = []
      · obtain rfl := hts
        obtain rfl : fields = [] := by cases hfields; rfl
        rw [List.intercalate_singleton] at hfuel ⊢
        have hend : Ends (ws ++ '}' :: rest) := ends_blank hws (ends_cons rfl rest)
        have hclose : skipSpace (ws ++ '}' :: rest) = '}' :: rest := skipSpace_append hws _
        rw [readFields_field hfield (by omega) hend, readOnFields, hclose]
        rfl
      · rw [length_intercalate_cons hts] at hfuel
        have hrest := ih hts (show ([','].intercalate ts).length < fuel by omega)
        have hsplit : [','].intercalate (t :: ts) ++ (ws ++ '}' :: rest) =
            t ++ ',' :: ([','].intercalate ts ++ (ws ++ '}' :: rest)) := by
          rw [List.intercalate_cons_of_ne_nil hts]
          simp
        rw [hsplit, readFields_field hfield (by omega) (ends_cons rfl _)]
        show (readFields fuel _).map _ = _
        rw [hrest]
        rfl

theorem readFields_skipSpace (fuel : Nat) (t : List Char) :
    readFields fuel (skipSpace t) = readFields fuel t := by
  cases fuel with
  | zero => rfl
  | succ fuel =>
      have hidem : skipSpace (skipSpace t) = skipSpace t := List.dropWhile_idempotent ..
      rw [readFields, readFields, hidem]

/-- No field begins with the end of the object. -/
theorem readFields_brace (fuel : Nat) (t : List Char) : readFields fuel ('}' :: t) = none := by
  cases fuel <;> rfl

theorem readValue_brace {fuel : Nat} {t : List Char} (h : ∀ u, skipSpace t ≠ '}' :: u) :
    readValue (fuel + 1) ('{' :: t) =
      (readFields fuel t).map fun read => (.object read.1, read.2) := by
  have hskip : skipSpace ('{' :: t) = '{' :: t := rfl
  rw [readValue, hskip]
  split
  case h_6 u hu =>
    obtain rfl := (List.cons.inj hu).2
    split
    · rename_i hbrace
      exact absurd hbrace (h _)
    · rw [readFields_skipSpace]
  all_goals grind

theorem writes_object {ts : List (List Char)} {fields : List (String × Json)}
    (h : List.Forall₂ WritesField ts fields) (hne : ts ≠ []) {ws : List Char} (hws : Blank ws) :
    Writes ('{' :: ([','].intercalate ts ++ (ws ++ ['}']))) (.object fields) := by
  refine writes_of_readValue (by simp) fun fuel hfuel rest _ => ?_
  have hlength : ([','].intercalate ts).length < fuel := by
    simp only [List.length_cons, List.length_append] at hfuel
    omega
  have hfields := readFields_intercalate h hne hws hlength rest
  have hsplit : '{' :: ([','].intercalate ts ++ (ws ++ ['}'])) ++ rest =
      '{' :: ([','].intercalate ts ++ (ws ++ '}' :: rest)) := by simp
  have hopen : ∀ u, skipSpace ([','].intercalate ts ++ (ws ++ '}' :: rest)) ≠ '}' :: u := by
    intro u hbrace
    rw [← readFields_skipSpace, hbrace, readFields_brace] at hfields
    cases hfields
  rw [hsplit, readValue_brace hopen, hfields]
  rfl

theorem writes_object_nil : Writes ['{', '}'] (.object []) :=
  writes_of_readValue (by decide) fun _ _ _ _ => rfl

/-! ## The layouts -/

/-- Every decimal in a value is a number that the reader keeps as it is written. -/
inductive Lawful : Json → Prop
  | null : Lawful .null
  | bool (b : Bool) : Lawful (.bool b)
  | integer (n : Int) : Lawful (.integer n)
  | decimal {text : String} (chars : ∀ c ∈ text.toList, inNumber c = true)
      (kept : number? text.toList = some (.decimal text)) : Lawful (.decimal text)
  | string (s : String) : Lawful (.string s)
  | array {items : List Json} (h : ∀ item ∈ items, Lawful item) : Lawful (.array items)
  | object {fields : List (String × Json)} (h : ∀ field ∈ fields, Lawful field.2) :
      Lawful (.object fields)

variable {j : Json}

theorem forall₂_map_left {β γ : Type} {R : β → γ → Prop} {f : γ → β} {l : List γ}
    (h : ∀ x ∈ l, R (f x) x) : List.Forall₂ R (l.map f) l :=
  List.forall₂_map_left_iff.mpr (List.forall₂_same.mpr h)

theorem blank_nil : Blank [] := nofun

theorem blank_newline (depth : Nat) : Blank (newline depth) := by
  intro c hc
  rcases List.mem_cons.mp hc with rfl | hc
  · rfl
  · rw [List.eq_of_mem_replicate hc]
    rfl

theorem writeItems_eq (items : List Json) :
    writeItems items = [','].intercalate (items.map write) := by
  induction items with
  | nil => rfl
  | cons item items ih =>
      rw [writeItems, ih]
      cases items <;> simp

def writeField (field : String × Json) : List Char :=
  quote field.1 ++ ':' :: write field.2

theorem writeFields_eq (fields : List (String × Json)) :
    writeFields fields = [','].intercalate (fields.map writeField) := by
  induction fields with
  | nil => rfl
  | cons field fields ih =>
      rw [writeFields, ih]
      cases fields <;> simp [writeField]

theorem writes_write (h : Lawful j) : Writes (write j) j := by
  induction h with
  | null => exact writes_null
  | bool b => exact writes_bool b
  | integer n => exact writes_integer n
  | decimal chars kept => exact writes_number chars kept
  | string s => exact writes_quote s
  | @array items _ ih =>
      cases items with
      | nil => exact writes_array_nil
      | cons item items =>
          rw [write, writeItems_eq]
          exact writes_array (forall₂_map_left ih) (by simp) blank_nil
  | @object fields _ ih =>
      cases fields with
      | nil => exact writes_object_nil
      | cons field fields =>
          rw [write, writeFields_eq]
          refine writes_object (forall₂_map_left fun f hf => ?_) (by simp) blank_nil
          exact ⟨[], write f.2, rfl, blank_nil, ih f hf⟩

theorem writeItemsAt_eq (depth : Nat) (items : List Json) :
    writeItemsAt depth items =
      [','].intercalate (items.map fun item => newline depth ++ writeAt depth item) := by
  induction items with
  | nil => rfl
  | cons item items ih =>
      rw [writeItemsAt, ih]
      cases items <;> simp

def writeFieldAt (depth : Nat) (field : String × Json) : List Char :=
  newline depth ++ quote field.1 ++ ':' :: ' ' :: writeAt depth field.2

theorem writeFieldsAt_eq (depth : Nat) (fields : List (String × Json)) :
    writeFieldsAt depth fields = [','].intercalate (fields.map (writeFieldAt depth)) := by
  induction fields with
  | nil => rfl
  | cons field fields ih =>
      rw [writeFieldsAt, ih]
      cases fields <;> simp [writeFieldAt]

theorem writes_writeAt (h : Lawful j) (depth : Nat) : Writes (writeAt depth j) j := by
  induction h generalizing depth with
  | null => exact writes_null
  | bool b => exact writes_bool b
  | integer n => exact writes_integer n
  | decimal chars kept => exact writes_number chars kept
  | string s => exact writes_quote s
  | @array items _ ih =>
      cases items with
      | nil => exact writes_array_nil
      | cons item items =>
          rw [writeAt, writeItemsAt_eq, List.append_assoc]
          refine writes_array (forall₂_map_left fun j hj => ?_) (by simp) (blank_newline depth)
          exact (ih j hj (depth + 1)).blank (blank_newline _)
  | @object fields _ ih =>
      cases fields with
      | nil => exact writes_object_nil
      | cons field fields =>
          rw [writeAt, writeFieldsAt_eq, List.append_assoc]
          refine writes_object (forall₂_map_left fun f hf => ?_) (by simp) (blank_newline depth)
          have hspace : Blank [' '] := by
            intro c hc
            rw [List.mem_singleton.mp hc]
            rfl
          exact ⟨newline (depth + 1), ' ' :: writeAt (depth + 1) f.2, rfl, blank_newline _,
            (ih f hf (depth + 1)).blank hspace⟩

/-- A whole text is read as the value, also with white space behind it. -/
theorem Writes.parse {t ws : List Char} {j : Json} (h : Writes t j) (hws : Blank ws) :
    parse (String.ofList (t ++ ws)) = some j := by
  have hnone : Ends [] := nofun
  have hread := h ((t ++ ws).length + 1) (by simp; omega) ws
    (by simpa using ends_blank hws hnone)
  have hbehind : (skipSpace ws).isEmpty = true := by
    have := skipSpace_append hws []
    rw [List.append_nil] at this
    rw [this]
    rfl
  unfold Json.parse
  rw [String.toList_ofList]
  simp only [hread, hbehind]
  rfl

theorem parse_compact (h : Lawful j) : parse j.compact = some j := by
  have hparse := (writes_write h).parse blank_nil
  rwa [List.append_nil] at hparse

theorem parse_pretty (h : Lawful j) : parse j.pretty = some j := by
  have hparse := (writes_writeAt h 0).parse blank_nil
  rwa [List.append_nil] at hparse

/-- The indented layout is read back also with the end of its last line. -/
theorem parse_pretty_newline (h : Lawful j) : parse (j.pretty ++ "\n") = some j := by
  have hend : Blank ['\n'] := by
    intro c hc
    rw [List.mem_singleton.mp hc]
    rfl
  have hparse := (writes_writeAt h 0).parse hend
  have htext : String.ofList (writeAt 0 j ++ ['\n']) = j.pretty ++ "\n" := by
    rw [← String.toList_inj]
    simp [pretty]
  rw [← htext]
  exact hparse

end Json

end GiftQuiz
