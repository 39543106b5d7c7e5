import GiftQuiz.CommandLine.Run
import GiftQuiz.Proofs.Quiz.Interchange
import GiftQuiz.Proofs.Text.Bare

/-!
# What is printed of a record

Standard output may leave out control characters. A text without them is printed as it is
(`printed_eq`). In a record they are escaped and come through, except for the delete, which the
writer lets stand for itself: what is printed of a record is the record of a conversion whose
warnings have lost their deletes (`prints_toJson`), and it is read back with the quiz unchanged
(`parse_printed_toJson`). There are no escape characters in a record, so that all this is said of
texts that `printed` is meant for (`escape_not_mem_toJson`).

`Prints` says so of one value and another, and has a lemma for each kind of value that occurs in a
record. The texts around the values have nothing to lose.
-/

namespace GiftQuiz

namespace CommandLine

theorem printed_eq {s : String} (h : ∀ c ∈ s.toList, isPrinted c = true) : printed s = s := by
  unfold printed
  rw [List.filter_eq_self.mpr h, String.ofList_toList]

/-! ## Strings -/

/-- A text without the one character that is neither printed nor escaped. -/
def withoutDelete (s : String) : String :=
  String.ofList (s.toList.filter (· != '\x7f'))

theorem withoutDelete_eq {s : String} (h : ∀ c ∈ s.toList, isPrinted c = true) :
    withoutDelete s = s := by
  have hkept : ∀ c ∈ s.toList, (c != '\x7f') = true := by
    intro c hc
    rw [bne_iff_ne]
    rintro rfl
    cases h _ hc
  unfold withoutDelete
  rw [List.filter_eq_self.mpr hkept, String.ofList_toList]

theorem isPrinted_hex4 {n : Nat} (h : n < 0x20) : ∀ c ∈ Json.hex4 n, isPrinted c = true := by
  have hall : ((List.range 0x20).all fun m => (Json.hex4 m).all isPrinted) = true := by decide
  exact List.all_eq_true.mp (List.all_eq_true.mp hall n (List.mem_range.mpr h))

theorem isPrinted_escapeChar {c : Char} (h : c ≠ '\x7f') :
    ∀ d ∈ Json.escapeChar c, isPrinted d = true := by
  unfold Json.escapeChar
  split_ifs with _ _ _ _ _ _ _ hcontrol
  iterate 7 exact List.all_eq_true.mp rfl
  · simp only [List.forall_mem_cons]
    exact ⟨rfl, rfl, isPrinted_hex4 hcontrol⟩
  · intro d hd
    obtain rfl := List.mem_singleton.mp hd
    have hcode : d.toNat ≠ 0x7F := fun heq => h (Char.toNat_inj.mp heq)
    have hlow : 0x20 ≤ d.toNat := by omega
    simp [isPrinted, hlow, hcode]

theorem filter_escapeChar (t : List Char) :
    (t.flatMap Json.escapeChar).filter isPrinted =
      (t.filter (· != '\x7f')).flatMap Json.escapeChar := by
  induction t with
  | nil => rfl
  | cons c t ih =>
      rw [List.flatMap_cons, List.filter_append, ih]
      by_cases hc : c = '\x7f'
      · obtain rfl := hc
        rfl
      · have hkept : (c != '\x7f') = true := bne_iff_ne.mpr hc
        rw [List.filter_eq_self.mpr (isPrinted_escapeChar hc),
          List.filter_cons_of_pos (p := (· != '\x7f')) hkept, List.flatMap_cons]

theorem filter_quote (s : String) :
    (Json.quote s).filter isPrinted = Json.quote (withoutDelete s) := by
  unfold Json.quote withoutDelete
  rw [List.filter_cons_of_pos rfl, List.filter_append, filter_escapeChar, String.toList_ofList]
  rfl

/-! ## Values -/

/-- What is printed of the layout of one value is the layout of another. -/
def Prints (j j' : Json) : Prop :=
  ∀ depth, (Json.writeAt depth j).filter isPrinted = Json.writeAt depth j'

def PrintsField (field field' : String × Json) : Prop :=
  withoutDelete field.1 = field'.1 ∧ Prints field.2 field'.2

theorem prints_string (s : String) : Prints (.string s) (.string (withoutDelete s)) :=
  fun _ => filter_quote s

theorem isPrinted_of_inNumber {c : Char} (h : Json.inNumber c = true) : isPrinted c = true := by
  unfold Json.inNumber at h
  simp only [Bool.or_eq_true, beq_iff_eq] at h
  rcases h with ((((hdigit | rfl) | rfl) | rfl) | rfl) | rfl
  · obtain ⟨hlow, hhigh⟩ : 0x30 ≤ c.toNat ∧ c.toNat ≤ 0x39 := by
      simpa [Char.isDigit, UInt32.le_iff_toNat_le] using hdigit
    have hspace : 0x20 ≤ c.toNat := by omega
    have hdelete : c.toNat ≠ 0x7F := by omega
    simp [isPrinted, hspace, hdelete]
  all_goals rfl

theorem prints_integer (n : Int) : Prints (.integer n) (.integer n) := by
  intro depth
  exact List.filter_eq_self.mpr fun c hc =>
    isPrinted_of_inNumber (Json.inNumber_of_mem_writeInt c hc)

theorem filter_intercalate (ts : List (List Char)) :
    ([','].intercalate ts).filter isPrinted =
      [','].intercalate (ts.map (List.filter isPrinted)) := by
  induction ts with
  | nil => rfl
  | cons t ts ih =>
      by_cases hts : ts = []
      · obtain rfl := hts
        simp
      · rw [List.intercalate_cons_of_ne_nil hts, List.map_cons,
          List.intercalate_cons_of_ne_nil (by simpa using hts), List.filter_append,
          List.filter_append, ih]
        rfl

theorem filter_newline (depth : Nat) :
    (Json.newline depth).filter isPrinted = Json.newline depth := by
  refine List.filter_eq_self.mpr fun c hc => ?_
  rcases List.mem_cons.mp hc with rfl | hc
  · rfl
  · rw [List.eq_of_mem_replicate hc]
    rfl

theorem map_eq_map_of_forall₂ {α β γ : Type} {R : α → β → Prop} {f : α → γ} {g : β → γ}
    {l : List α} {l' : List β} (h : List.Forall₂ R l l') (hfg : ∀ a b, R a b → f a = g b) :
    l.map f = l'.map g := by
  induction h with
  | nil => rfl
  | cons hab _ ih => rw [List.map_cons, List.map_cons, hfg _ _ hab, ih]

theorem prints_array {items items' : List Json} (h : List.Forall₂ Prints items items') :
    Prints (.array items) (.array items') := by
  intro depth
  have hitems : ([','].intercalate (items.map fun item =>
      Json.newline (depth + 1) ++ Json.writeAt (depth + 1) item)).filter isPrinted =
      [','].intercalate (items'.map fun item =>
        Json.newline (depth + 1) ++ Json.writeAt (depth + 1) item) := by
    rw [filter_intercalate, List.map_map]
    congr 1
    refine map_eq_map_of_forall₂ h fun item item' hitem => ?_
    show (Json.newline (depth + 1) ++ Json.writeAt (depth + 1) item).filter isPrinted = _
    rw [List.filter_append, filter_newline, hitem]
  cases h with
  | nil => rfl
  | cons _ _ =>
      rw [Json.writeAt, Json.writeAt, Json.writeItemsAt_eq, Json.writeItemsAt_eq,
        List.filter_cons_of_pos rfl, List.filter_append, List.filter_append, hitems,
        filter_newline]
      rfl

theorem prints_object {fields fields' : List (String × Json)}
    (h : List.Forall₂ PrintsField fields fields') : Prints (.object fields) (.object fields') := by
  intro depth
  have hfields : ([','].intercalate (fields.map (Json.writeFieldAt (depth + 1)))).filter isPrinted =
      [','].intercalate (fields'.map (Json.writeFieldAt (depth + 1))) := by
    rw [filter_intercalate, List.map_map]
    congr 1
    refine map_eq_map_of_forall₂ h fun field field' hfield => ?_
    show (Json.writeFieldAt (depth + 1) field).filter isPrinted = _
    unfold Json.writeFieldAt
    rw [List.filter_append, List.filter_append, filter_newline, filter_quote, hfield.1,
      List.filter_cons_of_pos rfl, List.filter_cons_of_pos rfl, hfield.2]
  cases h with
  | nil => rfl
  | cons _ _ =>
      rw [Json.writeAt, Json.writeAt, Json.writeFieldsAt_eq, Json.writeFieldsAt_eq,
        List.filter_cons_of_pos rfl, List.filter_append, List.filter_append, hfields,
        filter_newline]
      rfl

theorem prints_field {name : String} {j j' : Json} (hname : withoutDelete name = name)
    (h : Prints j j') : PrintsField (name, j) (name, j') :=
  ⟨hname, h⟩

/-! ## Escape characters -/

theorem escape_ne_of_isPrinted {c : Char} (h : isPrinted c = true) : '\x1b' ≠ c := by
  rintro rfl
  cases h

theorem escape_not_mem_quote (s : String) : '\x1b' ∉ Json.quote s := by
  have hchar (c : Char) : '\x1b' ∉ Json.escapeChar c := by
    intro hmem
    by_cases hc : c = '\x7f'
    · obtain rfl := hc
      cases List.mem_singleton.mp hmem
    · exact escape_ne_of_isPrinted (isPrinted_escapeChar hc _ hmem) rfl
  simp [Json.quote, hchar]

theorem escape_not_mem_newline (depth : Nat) : '\x1b' ∉ Json.newline depth := by
  simp [Json.newline]

theorem escape_not_mem_intercalate {ts : List (List Char)} (h : ∀ t ∈ ts, '\x1b' ∉ t) :
    '\x1b' ∉ [','].intercalate ts := by
  refine Text.intercalate_induction (P := fun t => '\x1b' ∉ t) nofun ?_ (by decide) h
  intro t u ht hu
  exact List.not_mem_append ht hu

/-- A layout has no escape character in it, whatever its strings are. -/
theorem escape_not_mem_writeAt {j : Json} (h : Json.Lawful j) (depth : Nat) :
    '\x1b' ∉ Json.writeAt depth j := by
  induction h generalizing depth with
  | null => simp [Json.writeAt, Json.write]
  | bool b => cases b <;> simp [Json.writeAt, Json.write]
  | integer n =>
      intro hmem
      have hnumber := Json.inNumber_of_mem_writeInt _ hmem
      exact escape_ne_of_isPrinted (isPrinted_of_inNumber hnumber) rfl
  | decimal chars _ =>
      intro hmem
      exact escape_ne_of_isPrinted (isPrinted_of_inNumber (chars _ hmem)) rfl
  | string s => exact escape_not_mem_quote s
  | @array items _ ih =>
      cases items with
      | nil => simp [Json.writeAt, Json.write, Json.writeItems]
      | cons item items =>
          have hitems : '\x1b' ∉ Json.writeItemsAt (depth + 1) (item :: items) := by
            rw [Json.writeItemsAt_eq]
            refine escape_not_mem_intercalate (List.forall_mem_map.mpr fun j hj => ?_)
            simp [escape_not_mem_newline, ih j hj]
          simp [Json.writeAt, hitems, escape_not_mem_newline]
  | @object fields _ ih =>
      cases fields with
      | nil => simp [Json.writeAt, Json.write, Json.writeFields]
      | cons field fields =>
          have hfields : '\x1b' ∉ Json.writeFieldsAt (depth + 1) (field :: fields) := by
            rw [Json.writeFieldsAt_eq]
            refine escape_not_mem_intercalate (List.forall_mem_map.mpr fun f hf => ?_)
            simp [Json.writeFieldAt, escape_not_mem_newline, escape_not_mem_quote, ih f hf]
          simp [Json.writeAt, hfields, escape_not_mem_newline]

/-! ## Records -/

def cleaned : Warning → Warning
  | .unsupportedElement tag => .unsupportedElement (withoutDelete tag)
  | .droppedTitle title => .droppedTitle (withoutDelete title)
  | .missingAnswer id => .missingAnswer id

theorem prints_warning (w : Warning) : Prints w.toJson (cleaned w).toJson := by
  have hkind : (cleaned w).kind = w.kind := by cases w <;> rfl
  have hargument : Prints w.argument (cleaned w).argument := by
    cases w with
    | unsupportedElement tag => exact prints_string tag
    | droppedTitle title => exact prints_string title
    | missingAnswer id => exact prints_integer _
  have hwords : withoutDelete w.kind.name = w.kind.name ∧
      withoutDelete w.kind.fieldName = w.kind.fieldName := by
    cases w.kind <;> decide
  have hname := prints_string w.kind.name
  rw [hwords.1] at hname
  unfold Warning.toJson
  rw [hkind]
  exact prints_object
    (.cons (prints_field (by decide) hname) (.cons (prints_field hwords.2 hargument) .nil))

/-- What is printed of the record of a conversion is a record of the same quiz. -/
theorem prints_toJson {c : Conversion} (h : ∀ d ∈ c.gift.toList, isPrinted d = true) :
    Prints c.toJson { c with warnings := c.warnings.map cleaned }.toJson := by
  have hgift := prints_string c.gift
  rw [withoutDelete_eq h] at hgift
  have hwarnings : List.Forall₂ Prints (c.warnings.map Warning.toJson)
      ((c.warnings.map cleaned).map Warning.toJson) := by
    rw [List.map_map]
    refine List.forall₂_map_left_iff.mpr (List.forall₂_map_right_iff.mpr ?_)
    exact List.forall₂_same.mpr fun w _ => prints_warning w
  exact prints_object (.cons (prints_field (by decide) hgift)
    (.cons (prints_field (by decide) (prints_integer _))
      (.cons (prints_field (by decide) (prints_integer _))
        (.cons (prints_field (by decide) (prints_array hwarnings)) .nil))))

/-- The line that is printed for a conversion reads as a record of the same quiz. -/
theorem parse_printed_toJson {c : Conversion} (h : ∀ d ∈ c.gift.toList, isPrinted d = true) :
    Json.parse (printed (c.toJson.pretty ++ "\n")) =
      some { c with warnings := c.warnings.map cleaned }.toJson := by
  have hline : printed (c.toJson.pretty ++ "\n") =
      { c with warnings := c.warnings.map cleaned }.toJson.pretty ++ "\n" := by
    unfold printed Json.pretty
    rw [String.toList_append, String.toList_ofList, List.filter_append, prints_toJson h 0,
      ← String.toList_inj]
    simp
    rfl
  rw [hline]
  exact Json.parse_pretty_newline (Report.lawful_toJson _)

theorem escape_not_mem_toJson (c : Conversion) : '\x1b' ∉ (c.toJson.pretty ++ "\n").toList := by
  have hrecord := escape_not_mem_writeAt (Report.lawful_toJson c.report) 0
  have hend : '\x1b' ∉ "\n".toList := by decide
  rw [String.toList_append, Json.pretty, String.toList_ofList, List.mem_append]
  exact not_or.mpr ⟨hrecord, hend⟩

end CommandLine

end GiftQuiz
