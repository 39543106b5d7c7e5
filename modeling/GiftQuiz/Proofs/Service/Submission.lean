import GiftQuiz.Proofs.Service.Refusal
import GiftQuiz.Proofs.Text.Utf8

/-!
# Submitted documents

There are many ways to write a text in a form: a byte may stand for itself, unless it has a meaning
there, a space may be a plus sign, and any byte may be a percent sign with two digits. `Encodes`
says which texts stand for which bytes, and `Submits` which bodies give a field once, among any
other fields. Every text can be submitted (`Form.submits_submission`). However it is written, the
text of the field is what is read (`Form.required_fields`), and a request with the right credentials
is answered by what becomes of it (`Service.respond_of_posts`).
-/

namespace GiftQuiz

namespace Form

/-! ## Encoded bytes -/

/-- The ways to write bytes in a name or a value. -/
inductive Encodes : (written bytes : List UInt8) → Prop
  | nil : Encodes [] []
  /-- A byte that is no separator, no plus and no percent sign. -/
  | literal {b : UInt8} {written bytes : List UInt8} (separator : b ≠ 0x26) (plus : b ≠ 0x2B)
      (percent : b ≠ 0x25) (rest : Encodes written bytes) : Encodes (b :: written) (b :: bytes)
  | space {written bytes : List UInt8} (rest : Encodes written bytes) :
      Encodes (0x2B :: written) (0x20 :: bytes)
  /-- Digits of either case. -/
  | escaped {high low b : UInt8} {written bytes : List UInt8}
      (hhigh : Digit.value? (Char.ofUInt8 high) = some (b.toNat / 16))
      (hlow : Digit.value? (Char.ofUInt8 low) = some (b.toNat % 16))
      (rest : Encodes written bytes) : Encodes (0x25 :: high :: low :: written) (b :: bytes)

def spaced (bytes : List UInt8) : List UInt8 :=
  bytes.map fun b => if b = 0x2B then 0x20 else b

theorem spaced_cons {b : UInt8} (h : b ≠ 0x2B) (bytes : List UInt8) :
    spaced (b :: bytes) = b :: spaced bytes := by
  simp [spaced, h]

theorem percentDecodeFrom_cons {b : UInt8} (h : b ≠ 0x25) (done bytes : List UInt8) :
    percentDecodeFrom done (b :: bytes) = percentDecodeFrom (b :: done) bytes := by
  rw [percentDecodeFrom.eq_def]
  split
  · rename_i heq
    exact absurd (List.cons.inj heq).1 h
  · rename_i heq
    cases heq
    rfl
  · rename_i heq
    cases heq

theorem percentDecodeFrom_escaped {high low b : UInt8}
    (hhigh : Digit.value? (Char.ofUInt8 high) = some (b.toNat / 16))
    (hlow : Digit.value? (Char.ofUInt8 low) = some (b.toNat % 16)) (done bytes : List UInt8) :
    percentDecodeFrom done (0x25 :: high :: low :: bytes) =
      percentDecodeFrom (b :: done) bytes := by
  have hvalue : b.toNat / 16 * 16 + b.toNat % 16 = b.toNat := by omega
  have hpair : hexPair? high low = some b := by
    unfold hexPair?
    rw [hhigh, hlow]
    show some (UInt8.ofNat (b.toNat / 16 * 16 + b.toNat % 16)) = some b
    rw [hvalue, UInt8.ofNat_toNat]
  rw [percentDecodeFrom, hpair]

/-- A byte that is a digit is neither of the characters with a meaning. -/
theorem ne_of_value? {b c : UInt8} {n : Nat} (h : Digit.value? (Char.ofUInt8 b) = some n)
    (hc : Digit.value? (Char.ofUInt8 c) = none) : b ≠ c := by
  rintro rfl
  rw [hc] at h
  cases h

theorem Encodes.percentDecodeFrom {written bytes : List UInt8} (h : Encodes written bytes)
    (done : List UInt8) : percentDecodeFrom done (spaced written) = done.reverse ++ bytes := by
  induction h generalizing done with
  | nil => exact (List.append_nil _).symm
  | literal separator plus percent rest ih =>
      rw [spaced_cons plus, percentDecodeFrom_cons percent, ih]
      simp
  | space rest ih =>
      show Form.percentDecodeFrom done (0x20 :: spaced _) = _
      rw [percentDecodeFrom_cons (by decide), ih]
      simp
  | escaped hhigh hlow rest ih =>
      rw [spaced_cons (by decide), spaced_cons (ne_of_value? hhigh (by decide)),
        spaced_cons (ne_of_value? hlow (by decide)), percentDecodeFrom_escaped hhigh hlow, ih]
      simp

theorem Encodes.decodeText {written : List UInt8} {s : String}
    (h : Encodes written (Utf8.encode s.toList)) : decodeText written = s := by
  have hbytes : percentDecode (spaced written) = Utf8.encode s.toList := h.percentDecodeFrom []
  show String.ofList (Utf8.decodeLossy (percentDecode (spaced written))) = s
  rw [hbytes, Utf8.decodeLossy_encode, String.ofList_toList]

theorem Encodes.separator_not_mem {written bytes : List UInt8} (h : Encodes written bytes) :
    0x26 ∉ written := by
  induction h with
  | nil => simp
  | literal separator plus percent rest ih => simp [separator.symm, ih]
  | space rest ih => simp [ih]
  | escaped hhigh hlow rest ih =>
      have hhigh' := ne_of_value? (c := 0x26) hhigh (by decide)
      have hlow' := ne_of_value? (c := 0x26) hlow (by decide)
      simp [hhigh'.symm, hlow'.symm, ih]

def digitByte (n : Nat) : UInt8 :=
  UInt8.ofNat n.digitChar.toNat

/-- Whether a byte is written as itself by everyone who submits a form. -/
def isPlain (b : UInt8) : Bool :=
  (Char.ofUInt8 b).isAlphanum || b == 0x2A || b == 0x2D || b == 0x2E || b == 0x5F

/-- One way to write bytes: letters, digits and four marks as they are, spaces as plus signs and all
other bytes in digits. -/
def percentEncode (bytes : List UInt8) : List UInt8 :=
  bytes.flatMap fun b =>
    if isPlain b then [b]
    else if b = 0x20 then [0x2B]
    else [0x25, digitByte (b.toNat / 16), digitByte (b.toNat % 16)]

theorem value?_digitByte {n : Nat} (h : n < 16) :
    Digit.value? (Char.ofUInt8 (digitByte n)) = some n := by
  have hall : ∀ m < 16, Digit.value? (Char.ofUInt8 (digitByte m)) = some m := by decide
  exact hall n h

theorem encodes_percentEncode (bytes : List UInt8) : Encodes (percentEncode bytes) bytes := by
  induction bytes with
  | nil => exact .nil
  | cons b bytes ih =>
      have hne {c : UInt8} (hb : isPlain b = true) (hc : isPlain c = false) : b ≠ c := by
        rintro rfl
        rw [hb] at hc
        cases hc
      unfold percentEncode
      rw [List.flatMap_cons]
      split_ifs with hplain hspace
      · exact .literal (hne hplain rfl) (hne hplain rfl) (hne hplain rfl) ih
      · obtain rfl := hspace
        exact .space ih
      · have hb := b.toNat_lt
        exact .escaped (value?_digitByte (by omega)) (value?_digitByte (by omega)) ih

theorem equals_not_mem_percentEncode (bytes : List UInt8) : 0x3D ∉ percentEncode bytes := by
  intro h
  obtain ⟨b, -, hb⟩ := List.mem_flatMap.mp h
  split_ifs at hb with hplain hspace
  · obtain rfl := List.mem_singleton.mp hb
    cases hplain
  · exact absurd (List.mem_singleton.mp hb) (by decide)
  · have hbyte := b.toNat_lt
    have hdigit {n : Nat} (hn : n < 16) : digitByte n ≠ 0x3D :=
      ne_of_value? (value?_digitByte hn) (by decide)
    simp only [List.mem_cons, List.not_mem_nil, or_false] at hb
    rcases hb with hb | hb | hb
    · exact absurd hb (by decide)
    · exact hdigit (by omega) hb.symm
    · exact hdigit (by omega) hb.symm

/-! ## Fields -/

/-- A body that gives a field once: a piece for the field, in some way of writing it, and pieces of
other names. -/
def Submits (name value : String) (body : List UInt8) : Prop :=
  ∃ before after nameText valueText,
    body = [0x26].intercalate (before ++ (nameText ++ 0x3D :: valueText) :: after) ∧
    (∀ piece ∈ before ++ after, 0x26 ∉ piece ∧ (decodeField piece).1 ≠ name) ∧
    Encodes nameText (Utf8.encode name.toList) ∧ 0x3D ∉ nameText ∧
    Encodes valueText (Utf8.encode value.toList)

def submission (name value : String) : List UInt8 :=
  percentEncode (Utf8.encode name.toList) ++ 0x3D :: percentEncode (Utf8.encode value.toList)

/-- Every text can be submitted. -/
theorem submits_submission (name value : String) : Submits name value (submission name value) :=
  ⟨[], [], _, _, (List.intercalate_singleton ..).symm, nofun, encodes_percentEncode _,
    equals_not_mem_percentEncode _, encodes_percentEncode _⟩

theorem filter_fields_eq_nil (pieces : List (List UInt8)) {name : String}
    (h : ∀ piece ∈ pieces, (decodeField piece).1 ≠ name) :
    ((pieces.filter (!·.isEmpty)).map decodeField).filter (·.1 == name) = [] := by
  refine List.filter_eq_nil_iff.mpr fun field hfield => ?_
  obtain ⟨piece, hpiece, rfl⟩ := List.mem_map.mp hfield
  rw [beq_iff_eq]
  exact h piece (List.mem_filter.mp hpiece).1

/-- The value of a field that is given once is what was written. -/
theorem required_fields {name value : String} {body : List UInt8} (h : Submits name value body) :
    required name (fields body) = .ok value := by
  obtain ⟨before, after, nameText, valueText, rfl, hothers, hname, hequals, hvalue⟩ := h
  have hbefore := filter_fields_eq_nil before fun piece hpiece =>
    (hothers piece (List.mem_append_left _ hpiece)).2
  have hafter := filter_fields_eq_nil after fun piece hpiece =>
    (hothers piece (List.mem_append_right _ hpiece)).2
  have hfield : decodeField (nameText ++ 0x3D :: valueText) = (name, value) := by
    unfold decodeField
    rw [splitOnce_append hequals]
    simp only [hname.decodeText, hvalue.decodeText]
  have hpieces : ([0x26].intercalate (before ++ (nameText ++ 0x3D :: valueText) :: after)).splitOn
      0x26 = before ++ (nameText ++ 0x3D :: valueText) :: after := by
    refine List.splitOn_intercalate 0x26 ?_ (by simp)
    intro piece hpiece
    rcases List.mem_append.mp hpiece with hpiece | hpiece
    · exact (hothers piece (List.mem_append_left _ hpiece)).1
    · rcases List.mem_cons.mp hpiece with rfl | hpiece
      · simp [hname.separator_not_mem, hvalue.separator_not_mem]
      · exact (hothers piece (List.mem_append_right _ hpiece)).1
  have hfilter : (fields ([0x26].intercalate
      (before ++ (nameText ++ 0x3D :: valueText) :: after))).filter (·.1 == name) =
      [(name, value)] := by
    unfold fields
    rw [hpieces, List.filter_append, List.map_append, List.filter_append, hbefore,
      List.filter_cons_of_pos (by simp), List.map_cons, List.filter_cons_of_pos (by simp [hfield]),
      hafter, hfield]
    rfl
  unfold required
  rw [hfilter]

end Form

namespace Service

/-- A request for the conversion of a document, by someone who has the account. -/
structure Posts (s : Service) (r : Request) (xml : String) : Prop where
  toConvert : r.ToConvert
  accepted : ∃ name, s.credentials.authenticate (r.values "authorization") = .ok name
  form : r.saysForm = true
  document : Form.Submits "content" xml r.body

theorem respond_of_posts {s : Service} {r : Request} {xml : String} (h : s.Posts r xml) :
    s.respond r = s.convertDocument xml := by
  obtain ⟨name, hname⟩ := h.accepted
  have hdocument : r.document = .ok xml := by
    unfold Request.document
    rw [if_pos h.form, Form.required_fields h.document]
  simp [respond, h.toConvert.route, h.toConvert.method, hname, hdocument]

end Service

end GiftQuiz
