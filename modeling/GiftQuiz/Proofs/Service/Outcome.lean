import GiftQuiz.Proofs.Quiz.Capacity
import GiftQuiz.Proofs.Service.Submission

/-!
# What a request is answered

A request may have several flaws at once. `Flaw.inOrder` lists them in the order in which they
decide, and the first that a request has gives its status (`Service.respond_judges`). Each flaw is a
condition on the request and the account alone: the credentials that the header values present, the
texts of the field `content` among the decoded fields, whether such a text can be read as a
document.

`Service.Answers` has a rule for every end of a request, with the whole answer, and
`Service.exists_answers` finds the rule that applies. There is none for numbers that have given out:
a form has at most four bytes of text for each of its own (`Form.size_le`), and a document has no
more questions than bytes.
-/

namespace GiftQuiz

open Markup (Document)

/-! ## The size of a form -/

theorem length_le_of_mem_splitOn {α : Type} [BEq α] [LawfulBEq α] {separator : α} {l piece : List α}
    (h : piece ∈ l.splitOn separator) : piece.length ≤ l.length := by
  have hpieces : ∀ ls : List (List α), piece ∈ ls →
      piece.length ≤ ([separator].intercalate ls).length := by
    intro ls hpiece
    induction ls with
    | nil => cases hpiece
    | cons first rest ih =>
        by_cases hrest : rest = []
        · obtain rfl := hrest
          rw [List.mem_singleton.mp hpiece, List.intercalate_singleton]
        · rw [List.intercalate_cons_of_ne_nil hrest, List.length_append, List.length_append]
          rcases List.mem_cons.mp hpiece with rfl | hpiece
          · omega
          · have := ih hpiece
            omega
  have hall := hpieces _ h
  rwa [List.intercalate_splitOn] at hall

namespace Form

theorem length_percentDecodeFrom_le (done bytes : List UInt8) :
    (percentDecodeFrom done bytes).length ≤ done.length + bytes.length := by
  fun_induction percentDecodeFrom done bytes with
  | case1 done high low bytes b hb ih =>
      simp only [List.length_cons] at ih ⊢
      omega
  | case2 done high low bytes hb ih =>
      simp only [List.length_cons] at ih ⊢
      omega
  | case3 done b bytes _ ih =>
      simp only [List.length_cons] at ih ⊢
      omega
  | case4 done => simp

theorem size_decodeText_le (bytes : List UInt8) :
    Utf8.size (decodeText bytes).toList ≤ 4 * bytes.length := by
  have hdecoded := length_percentDecodeFrom_le []
    (bytes.map fun b => if b = 0x2B then 0x20 else b)
  have hsize := Utf8.size_decodeLossy_le
    (percentDecode (bytes.map fun b => if b = 0x2B then 0x20 else b))
  rw [List.length_map, List.length_nil] at hdecoded
  rw [percentDecode] at hsize
  rw [decodeText, String.toList_ofList, percentDecode]
  omega

theorem size_decodeField_le (bytes : List UInt8) :
    Utf8.size (decodeField bytes).2.toList ≤ 4 * bytes.length := by
  unfold decodeField
  split
  · rename_i name value hsplit
    obtain ⟨rfl, -⟩ := splitOnce_eq hsplit
    have hvalue := size_decodeText_le value
    rw [List.length_append, List.length_cons]
    dsimp only
    omega
  · exact Nat.zero_le _

/-- The value of a field has at most four bytes for each byte of the form. -/
theorem size_le {body : List UInt8} {field : String × String} (h : field ∈ fields body) :
    Utf8.size field.2.toList ≤ 4 * body.length := by
  obtain ⟨piece, hpiece, rfl⟩ := List.mem_map.mp h
  have hlength := length_le_of_mem_splitOn (List.mem_of_mem_filter hpiece)
  have hsize := size_decodeField_le piece
  omega

end Form

/-! ## Flaws -/

namespace Request

def bodyLimit : Nat := 2097152

def contents (r : Request) : List String :=
  ((Form.fields r.body).filter (·.1 == "content")).map Prod.snd

/-- A body that is taken gives no text with a byte for every number. -/
theorem size_contents_lt {r : Request} (h : r.body.length ≤ bodyLimit) :
    ∀ xml ∈ r.contents, Utf8.size xml.toList < UInt64.size - 1 := by
  intro xml hxml
  obtain ⟨field, hfield, rfl⟩ := List.mem_map.mp hxml
  have hsize := Form.size_le (List.mem_of_mem_filter hfield)
  have hlimit : 4 * bodyLimit < UInt64.size - 1 := by decide
  omega

end Request

/-- What may be wrong with a request. -/
inductive Flaw where
  | path
  | method
  | credentials
  | contentType
  | field
  | document
deriving Repr, DecidableEq

namespace Flaw

def inOrder : List Flaw :=
  [path, method, credentials, contentType, field, document]

def status : Flaw → Nat
  | path => 404
  | method => 405
  | credentials => 401
  | contentType => 415
  | field => 422
  | document => 400

def isIn (s : Service) (r : Request) : Flaw → Bool
  | path => r.route ≠ "/convert"
  | method => r.method ≠ "POST"
  | credentials => Credentials.presented (r.values "authorization") ≠ .ok s.credentials
  | contentType => !r.saysForm
  | field => r.contents.length ≠ 1
  | document => r.contents.any fun xml => !(Document.parse xml).isOk

end Flaw

namespace Service

def firstFlaw? (s : Service) (r : Request) : Option Flaw :=
  Flaw.inOrder.find? (·.isIn s r)

/-- A request without a flaw, the conversion of whose document is undefined. -/
def Stuck (s : Service) (r : Request) : Prop :=
  s.firstFlaw? r = none ∧ ∃ xml ∈ r.contents, ∃ span,
    convert xml { titleMode := s.titleMode } = .error (.offBoundary span)

/-- How a request ends, by the first of its flaws, and with which answer. -/
inductive Answers (s : Service) (r : Request) : Option Flaw → Response → Prop
  | path : Answers s r (some .path) { status := 404 }
  | method : Answers s r (some .method) { status := 405, allow := some "POST" }
  | credentials {e : AccessError}
      (refused : s.credentials.authenticate (r.values "authorization") = .error e) :
      Answers s r (some .credentials) (.unauthorized e)
  | contentType : Answers s r (some .contentType) (.badForm .notAForm)
  | missing : Answers s r (some .field) (.badForm (.missing "content"))
  | duplicate : Answers s r (some .field) (.badForm (.duplicate "content"))
  | document {xml : String} {e : Markup.ReadError} (contents : r.contents = [xml])
      (unreadable : Document.parse xml = .error e) :
      Answers s r (some .document) (.detail 400 (ConversionError.unreadable e).message)
  | quiz {xml : String} {c : Conversion} (contents : r.contents = [xml])
      (converted : convert xml { titleMode := s.titleMode } = .ok c) :
      Answers s r none (.plain 200 c.gift)

/-! ## One answer for every end -/

section

variable {s : Service} {r : Request}

theorem document_of_saysForm (hform : r.saysForm = true) :
    r.document =
      match r.contents with
      | [] => .error (.missing "content")
      | [xml] => .ok xml
      | _ => .error (.duplicate "content") := by
  unfold Request.document Request.contents
  rw [if_pos hform, Form.required]
  cases h : (Form.fields r.body).filter (·.1 == "content") with
  | nil => rfl
  | cons field rest => cases rest <;> rfl

section

variable (hr : r.ToConvert)
  (hpresented : Credentials.presented (r.values "authorization") = .ok s.credentials)

include hr hpresented

/-- The flaws that are left to the owner of the account. -/
theorem firstFlaw?_of_accepted :
    s.firstFlaw? r = [Flaw.contentType, .field, .document].find? (·.isIn s r) := by
  simp [firstFlaw?, Flaw.inOrder, Flaw.isIn, hr.route, hr.method, hpresented]

theorem respond_of_badForm {e : FormError} (h : r.document = .error e) :
    s.respond r = some (.badForm e) := by
  simp [respond, hr.route, hr.method, Credentials.authenticate_eq, hpresented, h]

theorem respond_of_document {xml : String} (h : r.document = .ok xml) :
    s.respond r = s.convertDocument xml := by
  simp [respond, hr.route, hr.method, Credentials.authenticate_eq, hpresented, h]

end

theorem convertDocument_of_error {xml : String} {e : Markup.ReadError}
    (h : Document.parse xml = .error e) :
    s.convertDocument xml = some (.detail 400 (ConversionError.unreadable e).message) := by
  unfold convertDocument
  rw [convert_eq_unreadable h]

theorem exists_answers_of_contents {xml : String} (hcontents : r.contents = [xml])
    (hnumbers : Utf8.size xml.toList < UInt64.size - 1)
    (hdefined : (Document.parse xml).isOk → ∀ span,
      convert xml { titleMode := s.titleMode } ≠ .error (.offBoundary span)) :
    ∃ x, s.convertDocument xml = some x ∧
      s.Answers r (if (Document.parse xml).isOk then none else some .document) x := by
  cases hparse : Document.parse xml with
  | error e => exact ⟨_, convertDocument_of_error hparse, .document hcontents hparse⟩
  | ok document =>
      have hfit : 1 + Utf8.size xml.toList < UInt64.size := by omega
      obtain ⟨c, hc⟩ : ∃ c, convert xml { titleMode := s.titleMode } = .ok c :=
        exists_convert_eq_ok hparse hfit (hdefined (by rw [hparse]; rfl))
      exact ⟨_, by simp [convertDocument, hc], .quiz hcontents hc⟩

/-- What becomes of a request by the owner of the account. -/
theorem exists_answers_of_accepted (hr : r.ToConvert)
    (hpresented : Credentials.presented (r.values "authorization") = .ok s.credentials)
    (hnumbers : ∀ xml ∈ r.contents, Utf8.size xml.toList < UInt64.size - 1)
    (hdefined : ¬ s.Stuck r) :
    ∃ x, s.respond r = some x ∧ s.Answers r (s.firstFlaw? r) x := by
  have hfirst := firstFlaw?_of_accepted hr hpresented
  cases hform : r.saysForm with
  | false =>
      have hdocument : r.document = .error .notAForm := by simp [Request.document, hform]
      refine ⟨_, respond_of_badForm hr hpresented hdocument, ?_⟩
      simpa [hfirst, Flaw.isIn, hform] using Answers.contentType
  | true =>
      have hdocument := document_of_saysForm hform
      cases hcontents : r.contents with
      | nil =>
          rw [hcontents] at hdocument
          refine ⟨_, respond_of_badForm hr hpresented hdocument, ?_⟩
          simpa [hfirst, Flaw.isIn, hform, hcontents] using Answers.missing
      | cons xml rest =>
          cases rest with
          | cons xml' rest =>
              rw [hcontents] at hdocument
              refine ⟨_, respond_of_badForm hr hpresented hdocument, ?_⟩
              simpa [hfirst, Flaw.isIn, hform, hcontents] using Answers.duplicate
          | nil =>
              rw [hcontents] at hdocument
              have hxml : xml ∈ r.contents := by simp [hcontents]
              have hflaws : s.firstFlaw? r =
                  if (Document.parse xml).isOk then none else some .document := by
                cases hparse : (Document.parse xml).isOk <;>
                  simp [hfirst, Flaw.isIn, hform, hcontents, hparse]
              rw [respond_of_document hr hpresented hdocument, hflaws]
              refine exists_answers_of_contents hcontents (hnumbers xml hxml) ?_
              intro hparse span hspan
              exact hdefined ⟨by rw [hflaws, if_pos hparse], xml, hxml, span, hspan⟩

/-- A request ends in one of the ways, if there are numbers enough for its document. -/
theorem exists_answers
    (hnumbers : ∀ xml ∈ r.contents, Utf8.size xml.toList < UInt64.size - 1)
    (hdefined : ¬ s.Stuck r) :
    ∃ x, s.respond r = some x ∧ s.Answers r (s.firstFlaw? r) x := by
  by_cases hpath : r.route = "/convert"
  case neg =>
    have hfirst : s.firstFlaw? r = some .path := by
      simp [firstFlaw?, Flaw.inOrder, Flaw.isIn, hpath]
    rw [hfirst]
    exact ⟨_, by simp [respond, hpath], .path⟩
  by_cases hmethod : r.method = "POST"
  case neg =>
    have hfirst : s.firstFlaw? r = some .method := by
      simp [firstFlaw?, Flaw.inOrder, Flaw.isIn, hpath, hmethod]
    rw [hfirst]
    exact ⟨_, by simp [respond, hpath, hmethod], .method⟩
  by_cases hpresented : Credentials.presented (r.values "authorization") = .ok s.credentials
  case neg =>
    have hfirst : s.firstFlaw? r = some .credentials := by
      simp [firstFlaw?, Flaw.inOrder, Flaw.isIn, hpath, hmethod, hpresented]
    have hrefused := Credentials.authenticate_eq_error_iff.mpr ⟨hpresented, rfl⟩
    rw [hfirst]
    exact ⟨_, respond_of_authenticate_error ⟨hpath, hmethod⟩ hrefused, .credentials hrefused⟩
  exact exists_answers_of_accepted ⟨hpath, hmethod⟩ hpresented hnumbers hdefined

/-! ## What an answer says -/

/-- What is said about a request by the answer to it. -/
structure Judges (s : Service) (r : Request) (x : Response) : Prop where
  status : x.status = (s.firstFlaw? r).elim 200 Flaw.status
  allow : x.allow = if x.status = 405 then some "POST" else none
  challenge : x.wwwAuthenticate = if x.status = 401 then some "Basic" else none
  quiz : x.status = 200 → ∃ xml c, r.contents = [xml] ∧
    convert xml { titleMode := s.titleMode } = .ok c ∧
    x.contentType = some Response.plainText ∧ x.body = c.gift
  refused : x.status = 401 → ∃ e,
    s.credentials.authenticate (r.values "authorization") = .error e ∧
    Json.parse x.body = some (.object [("detail", .string e.message)])
  unreadable : x.status = 400 → ∃ xml e, r.contents = [xml] ∧ Document.parse xml = .error e ∧
    Json.parse x.body = some (.object [("detail", .string (ConversionError.unreadable e).message)])

theorem Answers.judges {flaw? : Option Flaw} {x : Response} (h : s.Answers r flaw? x)
    (hfirst : s.firstFlaw? r = flaw?) : s.Judges r x := by
  cases h with
  | path => exact ⟨by rw [hfirst]; rfl, rfl, rfl, nofun, nofun, nofun⟩
  | method => exact ⟨by rw [hfirst]; rfl, rfl, rfl, nofun, nofun, nofun⟩
  | credentials refused =>
      exact ⟨by rw [hfirst]; rfl, rfl, rfl, nofun,
        fun _ => ⟨_, refused, Response.parse_detail 401 _⟩, nofun⟩
  | contentType => exact ⟨by rw [hfirst]; rfl, rfl, rfl, nofun, nofun, nofun⟩
  | missing => exact ⟨by rw [hfirst]; rfl, rfl, rfl, nofun, nofun, nofun⟩
  | duplicate => exact ⟨by rw [hfirst]; rfl, rfl, rfl, nofun, nofun, nofun⟩
  | document contents unreadable =>
      exact ⟨by rw [hfirst]; rfl, rfl, rfl, nofun, nofun,
        fun _ => ⟨_, _, contents, unreadable, Response.parse_detail ..⟩⟩
  | quiz contents converted =>
      exact ⟨by rw [hfirst]; rfl, rfl, rfl, fun _ => ⟨_, _, contents, converted, rfl, rfl⟩,
        nofun, nofun⟩

end

/-- The first flaw of a request decides its answer, in the order of the path, the method, the
credentials, the content type, the field and the document, and a request without a flaw is answered
with the quiz. Nothing else is answered: as long as a document has fewer bytes than there are
numbers, they do not give out. -/
theorem respond_judges :
    (∀ (s : Service) (r : Request), r.body.length ≤ Request.bodyLimit → ¬ s.Stuck r →
      ∃ x, s.respond r = some x ∧ s.Judges r x) ∧
    ∀ (xml : String) (mode : TitleMode), Utf8.size xml.toList < UInt64.size - 1 →
      ∀ last, convert xml { titleMode := mode } ≠ .error (.idsExhausted last) := by
  constructor
  · intro s r hbody hdefined
    obtain ⟨x, hx, hanswers⟩ := exists_answers (Request.size_contents_lt hbody) hdefined
    exact ⟨x, hx, hanswers.judges rfl⟩
  · intro xml mode hsize
    have hfit : 1 + Utf8.size xml.toList < UInt64.size := by omega
    exact convert_ne_idsExhausted hfit

/-- A document that cannot be read for an entity with a quote and a control character in it. -/
def strangeEntity : Request :=
  ⟨"POST", "/convert",
    [("Content-Type", "application/x-www-form-urlencoded"),
      ("Authorization", "Basic Zm9vOmJhcg==")],
    Form.submission "content" "<a>&\"\x01;</a>"⟩

theorem strangeEntity_judged :
    (∃ x, (⟨⟨"foo", "bar"⟩, .markup⟩ : Service).respond strangeEntity = some x ∧
      x.status = 400 ∧ x.wwwAuthenticate = none ∧
      Json.parse x.body = some (.object [("detail",
        .string "XML parse error at byte 3: at 1..3: unrecognized entity `\"\x01`")])) ∧
    ∀ last, convert "<a>&\"\x01;</a>" {} ≠ .error (.idsExhausted last) := by
  obtain ⟨hjudges, hnumbers⟩ := respond_judges
  have hflaw : (⟨⟨"foo", "bar"⟩, .markup⟩ : Service).firstFlaw? strangeEntity =
      some .document := by decide +kernel
  have hdefined : ¬ (⟨⟨"foo", "bar"⟩, .markup⟩ : Service).Stuck strangeEntity := by
    rintro ⟨hnone, -⟩
    rw [hflaw] at hnone
    cases hnone
  have hcontents : strangeEntity.contents = ["<a>&\"\x01;</a>"] := by decide +kernel
  refine ⟨?_, hnumbers _ .markup (by decide)⟩
  obtain ⟨x, hx, hjudged⟩ := hjudges _ strangeEntity (by decide +kernel) hdefined
  have hstatus : x.status = 400 := by rw [hjudged.status, hflaw]; rfl
  have hchallenge : x.wwwAuthenticate = none := by rw [hjudged.challenge, hstatus]; rfl
  obtain ⟨xml, e, hxml, hparse, hbody⟩ := hjudged.unreadable hstatus
  rw [hcontents] at hxml
  obtain rfl := (List.cons.inj hxml).1
  have hmessage : (match Document.parse "<a>&\"\x01;</a>" with
      | .ok _ => ""
      | .error e => e.message) =
      "XML parse error at byte 3: at 1..3: unrecognized entity `\"\x01`" := by decide +kernel
  rw [hparse] at hmessage
  have hreason : (ConversionError.unreadable e).message =
      "XML parse error at byte 3: at 1..3: unrecognized entity `\"\x01`" := hmessage
  rw [hreason] at hbody
  exact ⟨x, hx, hstatus, hchallenge, hbody⟩

end Service

end GiftQuiz
