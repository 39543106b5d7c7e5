import GiftQuiz.Proofs.Json.RoundTrip
import GiftQuiz.Proofs.Service.Access
import GiftQuiz.Service.Exchange

/-!
# Refused requests

A request without the right credentials is answered 401, and the answer depends on the
`Authorization` values alone: which of the three reasons it gives is `Credentials.refusal` of them,
whatever the account is, and form and document are not looked at (`Service.respond_refused_alike`).
The statement is about two requests and two services at a time; both are reduced to what one
service answers to one request.

A service gives other answers before and after it looks at the credentials. None of them has the
status 401 (`Service.respond_eq_unauthorized_of_status`), so that the status tells which these are.
-/

namespace GiftQuiz

/-- A request for a conversion, whatever its headers and its body. -/
structure Request.ToConvert (r : Request) : Prop where
  route : r.route = "/convert"
  method : r.method = "POST"

instance (r : Request) : Decidable r.ToConvert :=
  decidable_of_iff (r.route = "/convert" ∧ r.method = "POST")
    ⟨fun h => ⟨h.1, h.2⟩, fun h => ⟨h.route, h.method⟩⟩

/-- The reason that an answer gives is read back from its body, whatever characters it has. -/
theorem Response.parse_detail (status : Nat) (reason : String) :
    Json.parse (detail status reason).body = some (.object [("detail", .string reason)]) := by
  refine Json.parse_compact (.object ?_)
  simp only [List.forall_mem_cons]
  exact ⟨.string _, nofun⟩

/-! ## What has the status 401 -/

theorem Response.status_badForm_ne (e : FormError) : (Response.badForm e).status ≠ 401 := by
  cases e <;> simp [Response.badForm, Response.plain]

namespace Service

variable {s s' : Service} {r r' : Request} {x x' : Response}

theorem status_convertDocument_ne {xml : String} (h : s.convertDocument xml = some x) :
    x.status ≠ 401 := by
  unfold convertDocument at h
  split at h
  · cases h
    simp [Response.plain]
  · cases h
  · cases h
    simp [Response.detail]

theorem respond_of_authenticate_error (hr : r.ToConvert) {e : AccessError}
    (h : s.credentials.authenticate (r.values "authorization") = .error e) :
    s.respond r = some (.unauthorized e) := by
  simp [respond, hr.route, hr.method, h]

/-- An answer 401 is given to refused credentials only. -/
theorem respond_eq_unauthorized_of_status (h : s.respond r = some x) (hx : x.status = 401) :
    ∃ e, s.credentials.authenticate (r.values "authorization") = .error e ∧
      x = .unauthorized e := by
  unfold respond at h
  split_ifs at h with hroute hmethod
  · cases h
    cases hx
  · cases h
    cases hx
  · split at h
    case h_1 e he => exact ⟨e, he, (Option.some.inj h).symm⟩
    case h_2 =>
      -- The credentials are accepted: what is answered is about the form or the document.
      split at h
      · cases h
        exact absurd hx (Response.status_badForm_ne _)
      · exact absurd hx (status_convertDocument_ne h)

/-- A request for a conversion is answered 401 exactly if its header values do not present the
account, and then with the reason that these values give. -/
theorem respond_eq_some_and_status_iff (hr : r.ToConvert) :
    s.respond r = some x ∧ x.status = 401 ↔
      Credentials.presented (r.values "authorization") ≠ .ok s.credentials ∧
        x = .unauthorized (Credentials.refusal (r.values "authorization")) := by
  constructor
  · rintro ⟨h, hx⟩
    obtain ⟨e, he, rfl⟩ := respond_eq_unauthorized_of_status h hx
    obtain ⟨hne, rfl⟩ := Credentials.authenticate_eq_error_iff.1 he
    exact ⟨hne, rfl⟩
  · rintro ⟨hne, rfl⟩
    have he := Credentials.authenticate_eq_error_iff.2 ⟨hne, rfl⟩
    exact ⟨respond_of_authenticate_error hr he, rfl⟩

/-! ## Two requests -/

/-- Two requests for a conversion with the same `Authorization` values, whatever else they carry.

* Where both are answered 401, by whichever services, the answers are the same.
* Where a service answers 401 to one of them, it answers so to the other: no form and no document
  changes the answer.
* Where the values present credentials that are not those of the account, in the user name, in the
  password or in both, the answer is one and the same. -/
theorem respond_refused_alike (hr : r.ToConvert) (hr' : r'.ToConvert)
    (hvalues : r.values "authorization" = r'.values "authorization") :
    (∀ (s s' : Service) (x x' : Response),
      s.respond r = some x → s'.respond r' = some x' → x.status = 401 → x'.status = 401 →
        x = x') ∧
    (∀ (s : Service) (x : Response), s.respond r = some x → x.status = 401 →
      s.respond r' = some x) ∧
    (∀ c, Credentials.presented (r.values "authorization") = .ok c →
      ∀ s : Service, c.username ≠ s.credentials.username ∨ c.password ≠ s.credentials.password →
        s.respond r = some (.unauthorized .invalid) ∧
        s.respond r' = some (.unauthorized .invalid)) := by
  have hsame : ∀ (s : Service) (x : Response), s.respond r = some x → x.status = 401 →
      s.respond r' = some x := by
    intro s x h hx
    have h' := (respond_eq_some_and_status_iff hr).1 ⟨h, hx⟩
    rw [hvalues] at h'
    exact ((respond_eq_some_and_status_iff hr').2 h').1
  refine ⟨?alike, hsame, ?invalid⟩
  case alike =>
    intro s s' x x' h h' hx hx'
    obtain ⟨-, rfl⟩ := (respond_eq_some_and_status_iff hr).1 ⟨h, hx⟩
    obtain ⟨-, rfl⟩ := (respond_eq_some_and_status_iff hr').1 ⟨h', hx'⟩
    rw [hvalues]
  case invalid =>
    intro c hc s hne
    have hother : Credentials.presented (r.values "authorization") ≠ .ok s.credentials := by
      rw [hc]
      rintro ⟨⟩
      exact hne.elim (· rfl) (· rfl)
    have h := (respond_eq_some_and_status_iff hr).2 ⟨hother, rfl⟩
    rw [Credentials.refusal, hc] at h
    exact ⟨h.1, hsame s _ h.1 h.2⟩

/-- A request with a document and one with a body that is no form, by the same stranger. -/
theorem respond_stranger_alike :
    let document : Request :=
      ⟨"POST", "/convert",
        [("Content-Type", "application/x-www-form-urlencoded"),
          ("Authorization", "Basic Zm9vOmJhcg==")],
        Utf8.encode "content=%3Ca/%3E".toList⟩
    let noForm : Request :=
      ⟨"POST", "/convert?q", [("authorization", "Basic Zm9vOmJhcg==")], [0xFF]⟩
    document.ToConvert ∧ noForm.ToConvert ∧
      document.values "authorization" = noForm.values "authorization" ∧
      Credentials.presented (document.values "authorization") = .ok ⟨"foo", "bar"⟩ ∧
      (∀ s : Service, s.credentials = ⟨"foo", "baz"⟩ ∨ s.credentials = ⟨"fo", "bar"⟩ →
        s.respond document = some (.unauthorized .invalid) ∧
        s.respond noForm = some (.unauthorized .invalid)) := by
  intro document noForm
  have hd : document.ToConvert := by decide +kernel
  have hn : noForm.ToConvert := by decide +kernel
  have hv : document.values "authorization" = noForm.values "authorization" := by decide +kernel
  have hp : Credentials.presented (document.values "authorization") = .ok ⟨"foo", "bar"⟩ := by
    decide +kernel
  refine ⟨hd, hn, hv, hp, fun s hs => ?_⟩
  obtain ⟨-, -, hinvalid⟩ := respond_refused_alike hd hn hv
  refine hinvalid _ hp s ?_
  rcases hs with hs | hs <;> simp [hs]

end Service

end GiftQuiz
