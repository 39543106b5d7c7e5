import GiftQuiz.Proofs.Json.RoundTrip
import GiftQuiz.Quiz.Interchange

/-!
# Reading reports and warnings back

A report is written as an object with a field for each of its parts, and read back from the indented
layout; with it what a conversion holds is read back (`report_reads_back`). Strings are written so
that any character comes back, and numbers in all their digits. What standard output leaves out of
such a text is said where it is printed.

What an object is as a warning depends on two of its fields only: the one that names the kind, and
the one that this kind has its argument in (`Warning.ofJson?_eq_some_iff`). If one of them is not
there or has a value of another type, the object is no warning (`Warning.ofJson?_eq_none_iff`), and
any other field may come and go (`Warning.ofJson?_insert`).
-/

namespace GiftQuiz

namespace Json

theorem toString?_eq_some_iff {j : Json} {s : String} : j.toString? = some s ↔ j = .string s := by
  cases j <;> simp [toString?]

theorem toUInt64?_natural (n : UInt64) : (natural n).toUInt64? = some n := by
  unfold natural toUInt64?
  have hsize : n.toNat < UInt64.size := n.toNat_lt
  simp [hsize]

theorem toUInt64?_eq_some_iff {j : Json} {n : UInt64} : j.toUInt64? = some n ↔ j = .natural n := by
  constructor
  · intro h
    cases j with
    | integer i =>
        rw [toUInt64?, dite_eq_iff] at h
        obtain ⟨hi, hn⟩ | ⟨-, hn⟩ := h
        · obtain rfl := Option.some.inj hn
          simp only [natural, UInt64.toNat_ofNatLT, integer.injEq]
          omega
        · cases hn
    | _ => cases h
  · rintro rfl
    exact toUInt64?_natural n

theorem field?_insert {name other : String} (h : other ≠ name) (value : Json)
    (front back : List (String × Json)) :
    field? (front ++ (other, value) :: back) name = field? (front ++ back) name := by
  have hother : (name == other) = false := beq_false_of_ne h.symm
  simp [field?, List.lookup_append, List.lookup_cons, hother]

end Json

namespace Warning

/-! ## Kinds -/

namespace Kind

theorem ofName?_eq_some_iff {s : String} {kind : Kind} : ofName? s = some kind ↔ s = kind.name := by
  constructor
  · intro h
    have hname := List.find?_some h
    exact (beq_iff_eq.mp hname).symm
  · rintro rfl
    cases kind <;> rfl

theorem name_injective : Function.Injective name := by
  intro kind kind' h
  have hname := ofName?_eq_some_iff.mpr h
  rw [ofName?_eq_some_iff.mpr rfl] at hname
  exact Option.some.inj hname

/-- Whether a value is of the type of the argument. -/
def Takes : Kind → Json → Prop
  | .missingAnswer, j => ∃ n, j = .natural n
  | .unsupportedElement, j | .droppedTitle, j => ∃ s, j = .string s

theorem warning?_eq_some_iff {kind : Kind} {j : Json} {w : Warning} :
    kind.warning? j = some w ↔ w.kind = kind ∧ w.argument = j := by
  cases kind <;> cases w <;>
    simp [warning?, Warning.kind, Warning.argument, Json.toString?_eq_some_iff,
      Json.toUInt64?_eq_some_iff, eq_comm (b := j)]

/-- The values of its type are the arguments that a kind can have. -/
theorem takes_iff {kind : Kind} {j : Json} :
    kind.Takes j ↔ ∃ w : Warning, w.kind = kind ∧ w.argument = j := by
  constructor
  · intro h
    cases kind with
    | unsupportedElement =>
        obtain ⟨tag, rfl⟩ := h
        exact ⟨.unsupportedElement tag, rfl, rfl⟩
    | droppedTitle =>
        obtain ⟨title, rfl⟩ := h
        exact ⟨.droppedTitle title, rfl, rfl⟩
    | missingAnswer =>
        obtain ⟨id, rfl⟩ := h
        exact ⟨.missingAnswer id, rfl, rfl⟩
  · rintro ⟨w, rfl, rfl⟩
    cases w <;> exact ⟨_, rfl⟩

theorem warning?_eq_none_iff {kind : Kind} {j : Json} :
    kind.warning? j = none ↔ ¬ kind.Takes j := by
  rw [takes_iff, Option.eq_none_iff_forall_ne_some, not_exists]
  exact forall_congr' fun w => not_congr warning?_eq_some_iff

end Kind

/-! ## Objects -/

variable {fields : List (String × Json)}

theorem ofJson?_object (fields : List (String × Json)) :
    ofJson? (.object fields) =
      ((Json.field? fields "kind").bind Json.toString?).bind fun word =>
        (Kind.ofName? word).bind fun kind =>
          (Json.field? fields kind.fieldName).bind kind.warning? := by
  simp only [ofJson?]
  cases Json.field? fields "kind" <;> rfl

theorem ofJson?_object_eq_some_iff {w : Warning} :
    ofJson? (.object fields) = some w ↔
      Json.field? fields "kind" = some (.string w.kind.name) ∧
        Json.field? fields w.kind.fieldName = some w.argument := by
  rw [ofJson?_object]
  simp only [Option.bind_eq_some_iff, Json.toString?_eq_some_iff, Kind.ofName?_eq_some_iff,
    Kind.warning?_eq_some_iff]
  constructor
  · rintro ⟨_, ⟨_, hkind, rfl⟩, _, rfl, _, hfield, rfl, rfl⟩
    exact ⟨hkind, hfield⟩
  · rintro ⟨hkind, hfield⟩
    exact ⟨_, ⟨_, hkind, rfl⟩, _, rfl, _, hfield, rfl, rfl⟩

/-- Why an object is no warning. -/
inductive Unreadable (fields : List (String × Json)) : Prop
  | noKind (kind : Json.field? fields "kind" = none)
  | unknownKind {value : Json} (kind : Json.field? fields "kind" = some value)
      (unknown : ∀ kind : Kind, value ≠ .string kind.name)
  | noArgument {known : Kind} (kind : Json.field? fields "kind" = some (.string known.name))
      (argument : Json.field? fields known.fieldName = none)
  | wrongType {known : Kind} {value : Json}
      (kind : Json.field? fields "kind" = some (.string known.name))
      (argument : Json.field? fields known.fieldName = some value)
      (wrong : ¬ known.Takes value)

theorem ofJson?_object_eq_none_iff : ofJson? (.object fields) = none ↔ Unreadable fields := by
  constructor
  · intro h
    rw [ofJson?_object] at h
    cases hkind : Json.field? fields "kind" with
    | none => exact .noKind hkind
    | some value =>
        by_cases hknown : ∃ kind : Kind, value = .string kind.name
        · obtain ⟨known, rfl⟩ := hknown
          have hname : Kind.ofName? known.name = some known := Kind.ofName?_eq_some_iff.mpr rfl
          simp only [hkind, Option.bind_some, Json.toString?, hname] at h
          cases hargument : Json.field? fields known.fieldName with
          | none => exact .noArgument hkind hargument
          | some value =>
              rw [hargument, Option.bind_some] at h
              exact .wrongType hkind hargument (Kind.warning?_eq_none_iff.mp h)
        · exact .unknownKind hkind (not_exists.mp hknown)
  · intro h
    refine Option.eq_none_iff_forall_ne_some.mpr fun w hw => ?_
    obtain ⟨hkind, hargument⟩ := ofJson?_object_eq_some_iff.mp hw
    have hsame : ∀ known : Kind,
        Json.field? fields "kind" = some (.string known.name) → known = w.kind := by
      intro known h
      rw [hkind] at h
      exact Kind.name_injective (Json.string.inj (Option.some.inj h)).symm
    cases h with
    | noKind kind =>
        rw [hkind] at kind
        cases kind
    | unknownKind kind unknown =>
        rw [hkind] at kind
        exact unknown w.kind (Option.some.inj kind).symm
    | noArgument kind argument =>
        rw [hsame _ kind, hargument] at argument
        cases argument
    | wrongType kind argument wrong =>
        obtain rfl := hsame _ kind
        rw [hargument] at argument
        obtain rfl := Option.some.inj argument
        exact wrong (Kind.takes_iff.mpr ⟨w, rfl, rfl⟩)

/-- Whether a name is neither that of the kind nor that of the argument of the kind that an object
names. -/
def Unknown (fields : List (String × Json)) (name : String) : Prop :=
  name ≠ "kind" ∧ ∀ kind : Kind, Json.field? fields "kind" = some (.string kind.name) →
    name ≠ kind.fieldName

theorem ofJson?_insert {front back : List (String × Json)} {name : String}
    (h : Unknown (front ++ back) name) (value : Json) :
    ofJson? (.object (front ++ (name, value) :: back)) = ofJson? (.object (front ++ back)) := by
  refine Option.ext fun w => ?_
  rw [ofJson?_object_eq_some_iff, ofJson?_object_eq_some_iff, Json.field?_insert h.1]
  refine and_congr_right fun hkind => ?_
  rw [Json.field?_insert (h.2 w.kind hkind)]

theorem ofJson?_toJson (w : Warning) : ofJson? w.toJson = some w := by
  refine ofJson?_object_eq_some_iff.mpr ⟨?_, ?_⟩ <;> cases w <;> rfl

theorem lawful_toJson (w : Warning) : Json.Lawful w.toJson := by
  have hargument : Json.Lawful w.argument := by
    cases w with
    | unsupportedElement tag => exact .string tag
    | droppedTitle title => exact .string title
    | missingAnswer id => exact .integer _
  refine .object ?_
  simp only [List.forall_mem_cons]
  exact ⟨.string _, hargument, nofun⟩

end Warning

/-! ## Reports -/

namespace Report

theorem lawful_toJson (r : Report) : Json.Lawful r.toJson := by
  have hwarnings : ∀ j ∈ r.warnings.map Warning.toJson, Json.Lawful j :=
    List.forall_mem_map.mpr fun w _ => w.lawful_toJson
  refine .object ?_
  simp only [List.forall_mem_cons]
  exact ⟨.string _, .integer _, .integer _, .array hwarnings, nofun⟩

structure IsIn (r : Report) (fields : List (String × Json)) : Prop where
  gift : Json.field? fields "gift" = some (.string r.gift)
  questions : (Json.field? fields "questions").bind Json.toUInt64? = some r.questions
  nextId : (Json.field? fields "next_id").bind Json.toUInt64? = some r.nextId
  warnings : ∃ items, Json.field? fields "warnings" = some (.array items) ∧
    items.map Warning.ofJson? = r.warnings.map some

/-- A text reads as an object with a report in it. -/
def IsText (r : Report) (text : String) : Prop :=
  ∃ fields, Json.parse text = some (.object fields) ∧ r.IsIn fields

theorem isText_pretty (r : Report) : r.IsText r.toJson.pretty := by
  refine ⟨_, Json.parse_pretty r.lawful_toJson, ⟨rfl, ?_, ?_, _, rfl, ?_⟩⟩
  · exact Json.toUInt64?_natural r.questions
  · exact Json.toUInt64?_natural r.nextId
  · rw [List.map_map]
    exact List.map_congr_left fun w _ => w.ofJson?_toJson

end Report

/-- A report is read back from its text with every part unchanged. What is written of a conversion
is an object with its quiz, how many numbers it used, the first one that it did not, and its
warnings in order. An object is a warning exactly if it names the kind of the warning and has its
argument, whatever else it has; without a known kind and an argument of the right type it is
none. -/
theorem report_reads_back :
    (∀ r : Report, r.IsText r.toJson.pretty) ∧
      (∀ c : Conversion, ∃ fields, Json.parse c.toJson.pretty = some (.object fields) ∧
        Json.field? fields "gift" = some (.string c.gift) ∧
        (Json.field? fields "questions").bind Json.toUInt64? = some c.count ∧
        (Json.field? fields "next_id").bind Json.toUInt64? = some c.nextId ∧
        ∃ items, Json.field? fields "warnings" = some (.array items) ∧
          items.map Warning.ofJson? = c.warnings.map some) ∧
      (∀ fields w, Warning.ofJson? (.object fields) = some w ↔
        Json.field? fields "kind" = some (.string w.kind.name) ∧
          Json.field? fields w.kind.fieldName = some w.argument) ∧
      (∀ fields, Warning.ofJson? (.object fields) = none ↔ Warning.Unreadable fields) ∧
      ∀ front back name value, Warning.Unknown (front ++ back) name →
        Warning.ofJson? (.object (front ++ (name, value) :: back)) =
          Warning.ofJson? (.object (front ++ back)) := by
  refine ⟨Report.isText_pretty, fun c => ?_, fun _ _ => Warning.ofJson?_object_eq_some_iff,
    fun _ => Warning.ofJson?_object_eq_none_iff,
    fun _ _ _ value h => Warning.ofJson?_insert h value⟩
  obtain ⟨fields, hparse, hin⟩ := c.report.isText_pretty
  exact ⟨fields, hparse, hin.gift, hin.questions, hin.nextId, hin.warnings⟩

/-- A conversion with quotes, control characters and the greatest numbers in it. -/
def awkwardConversion : Conversion where
  earlier := ["\"\\\x00", "\x7f\n"]
  questions := [⟨1, true, true, "<p a=\"é\">", .numerical none none⟩]
  warnings := [.droppedTitle "\t\"", .missingAnswer 18446744073709551615]
  count := 9007199254740993
  nextId := 18446744073709551615

/-- It is read back, and so is a warning with a number that its kind does not have. -/
theorem awkwardConversion_reads_back :
    (∃ fields, Json.parse awkwardConversion.toJson.pretty = some (.object fields) ∧
      Json.field? fields "gift" =
        some (.string "\"\\\x00\x7f\n\n::Q1::[html]<p a=\"é\">\x7b#\n\t=%100%\n\x7d\n") ∧
      (Json.field? fields "questions").bind Json.toUInt64? = some 9007199254740993 ∧
      (Json.field? fields "next_id").bind Json.toUInt64? = some 18446744073709551615 ∧
      ∃ items, Json.field? fields "warnings" = some (.array items) ∧
        items.map Warning.ofJson? =
          [some (.droppedTitle "\t\""), some (.missingAnswer 18446744073709551615)]) ∧
      Warning.ofJson? (.object
        [("tag", .string "img"), ("id", .null), ("kind", .string "unsupported_element")]) =
        some (.unsupportedElement "img") := by
  obtain ⟨-, hconversion, hread, -, hinsert⟩ := report_reads_back
  have hgift : awkwardConversion.gift =
      "\"\\\x00\x7f\n\n::Q1::[html]<p a=\"é\">\x7b#\n\t=%100%\n\x7d\n" := by decide +kernel
  have hunknown : Warning.Unknown
      ([("tag", .string "img")] ++ [("kind", .string "unsupported_element")]) "id" := by
    refine ⟨by decide, fun kind hkind => ?_⟩
    have hname := Json.string.inj (Option.some.inj hkind)
    cases kind <;> revert hname <;> decide
  refine ⟨?_, (hinsert _ _ _ .null hunknown).trans ((hread _ _).mpr ⟨rfl, rfl⟩)⟩
  rw [← hgift]
  exact hconversion awkwardConversion

end GiftQuiz
