import GiftQuiz.Proofs.Service.Access
import GiftQuiz.Proofs.Text.Base64
import GiftQuiz.Proofs.Text.Utf8

/-!
# Who is let in, exactly

`Credentials.authenticate_exact` gives the four ends of a check as conditions on the header values.
A request is let in if its first value, which is text, names the scheme and then carries the one
written form of the user name, a colon and the password. Values that name no scheme, values that
cannot be read and all others are told apart.

The conditions do not mention a reader. `CarriesToken` takes a value apart by what it is made of,
and a token is compared with what is written for a text (`token`). As each stage of reading is the
inverse of one of writing, `ofToken_cases` and `ofBasic_cases` find one of the conditions for every
token and every value; they exclude each other, as a value carries one token at most
(`CarriesToken.unique`) and two texts do not have the same one (`token_injective`).
-/

namespace GiftQuiz

namespace Credentials

open Text (trim)

/-! ## What a value is made of -/

/-- What is sent for a text. -/
def token (text : List Char) : List Char :=
  Base64.encode (Utf8.encode text)

def text (c : Credentials) : List Char :=
  c.username.toList ++ ':' :: c.password.toList

/-- A value that names the scheme, in any case, and a token behind it. Blanks around the value and
around the token do not count. -/
def CarriesToken (value : String) (t : List Char) : Prop :=
  ∃ name behind, trim value.toList = name ++ ' ' :: behind ∧ name.map Char.toLower = scheme ∧
    t = trim behind

/-- A value without a space, or with another scheme in front of the first one. -/
def NamesNoScheme (value : String) : Prop :=
  ' ' ∉ trim value.toList ∨
    ∃ name behind, trim value.toList = name ++ ' ' :: behind ∧ ' ' ∉ name ∧
      name.map Char.toLower ≠ scheme

theorem decode_token (text : List Char) : Base64.decode (token text) = some (Utf8.encode text) :=
  Base64.decode_eq_some_iff.mpr rfl

theorem token_injective : Function.Injective token := by
  intro t u h
  have hbytes := decode_token t
  rw [h, decode_token] at hbytes
  exact (Utf8.encode_injective (Option.some.inj hbytes)).symm

/-- A user name without a colon ends at the first colon. -/
theorem splitOnce_text {c : Credentials} (h : ':' ∉ c.username.toList) :
    splitOnce ':' c.text = some (c.username.toList, c.password.toList) :=
  splitOnce_append h _

theorem eq_of_text_eq {c d : Credentials} (hc : ':' ∉ c.username.toList)
    (hd : ':' ∉ d.username.toList) (h : c.text = d.text) : c = d := by
  have hsplit := splitOnce_text hc
  rw [h, splitOnce_text hd] at hsplit
  simp only [Option.some.injEq, Prod.mk.injEq, String.toList_inj] at hsplit
  cases c
  cases d
  rw [mk.injEq]
  exact ⟨hsplit.1.symm, hsplit.2.symm⟩

theorem not_mem_of_map_toLower {name : List Char} (h : name.map Char.toLower = scheme) :
    ' ' ∉ name := by
  intro hmem
  have hlower := List.mem_map_of_mem (f := Char.toLower) hmem
  rw [h] at hlower
  revert hlower
  decide

theorem CarriesToken.unique {value : String} {t u : List Char} (ht : CarriesToken value t)
    (hu : CarriesToken value u) : t = u := by
  obtain ⟨name, behind, hvalue, hname, rfl⟩ := ht
  obtain ⟨name', behind', hvalue', hname', rfl⟩ := hu
  have hsplit := splitOnce_append (not_mem_of_map_toLower hname) behind
  rw [← hvalue, hvalue', splitOnce_append (not_mem_of_map_toLower hname')] at hsplit
  cases hsplit
  rfl

theorem NamesNoScheme.not_carriesToken {value : String} {t : List Char} (h : NamesNoScheme value) :
    ¬ CarriesToken value t := by
  rintro ⟨name, behind, hvalue, hname, rfl⟩
  rcases h with h | ⟨name', behind', hvalue', hfirst, hname'⟩
  · rw [hvalue] at h
    exact h (by simp)
  · have hsplit := splitOnce_append (not_mem_of_map_toLower hname) behind
    rw [← hvalue, hvalue', splitOnce_append hfirst] at hsplit
    cases hsplit
    exact hname' hname

/-! ## What is read from a value -/

def ofToken (t : List Char) : Except AccessError Credentials :=
  match Base64.decode t with
  | none => .error .malformed
  | some bytes =>
    match Utf8.decode bytes with
    | .error _ => .error .malformed
    | .ok text =>
      match splitOnce ':' text with
      | none => .error .malformed
      | some (username, password) => .ok ⟨String.ofList username, String.ofList password⟩

theorem ofToken_token (text : List Char) :
    ofToken (token text) =
      match splitOnce ':' text with
      | none => .error .malformed
      | some (username, password) => .ok ⟨String.ofList username, String.ofList password⟩ := by
  unfold ofToken
  rw [decode_token]
  simp only [Utf8.decode_eq_ok_iff.mpr rfl]

theorem ofToken_of_ne {t : List Char} (h : ∀ u, t ≠ token u) : ofToken t = .error .malformed := by
  unfold ofToken
  cases hbytes : Base64.decode t with
  | none => rfl
  | some bytes =>
      cases htext : Utf8.decode bytes with
      | error fault => simp only [htext]
      | ok u =>
          refine absurd ?_ (h u)
          rw [Base64.decode_eq_some_iff.mp hbytes, Utf8.decode_eq_ok_iff.mp htext, token]

/-- A token is the one of some credentials, or it is not the one of a text with a colon. -/
theorem ofToken_cases (t : List Char) :
    (∃ c : Credentials, t = token c.text ∧ ':' ∉ c.username.toList ∧ ofToken t = .ok c) ∨
      ((∀ u, ':' ∈ u → t ≠ token u) ∧ ofToken t = .error .malformed) := by
  by_cases h : ∃ u, t = token u
  case neg => exact .inr ⟨fun u _ hu => h ⟨u, hu⟩, ofToken_of_ne fun u hu => h ⟨u, hu⟩⟩
  case pos =>
    obtain ⟨u, rfl⟩ := h
    rw [ofToken_token]
    cases hcolon : splitOnce ':' u with
    | none =>
        refine .inr ⟨fun u' hmem hu => ?_, rfl⟩
        rw [← token_injective hu] at hmem
        exact splitOnce_eq_none_iff.mp hcolon hmem
    | some sides =>
        obtain ⟨username, password⟩ := sides
        obtain ⟨rfl, hfree⟩ := splitOnce_eq hcolon
        refine .inl ⟨⟨String.ofList username, String.ofList password⟩, ?_, ?_, rfl⟩
        · simp only [text, String.toList_ofList]
        · simpa only [String.toList_ofList] using hfree

/-- A value names no scheme, or it carries the token of some credentials, or it carries a token that
is not the one of a text with a colon. -/
theorem ofBasic_cases (value : String) :
    (NamesNoScheme value ∧ ofBasic value = .error .notAuthenticated) ∨
      (∃ c : Credentials, CarriesToken value (token c.text) ∧ ':' ∉ c.username.toList ∧
        ofBasic value = .ok c) ∨
      ∃ t, CarriesToken value t ∧ (∀ u, ':' ∈ u → t ≠ token u) ∧
        ofBasic value = .error .malformed := by
  unfold ofBasic
  cases hsplit : splitOnce ' ' (trim value.toList) with
  | none => exact .inl ⟨.inl (splitOnce_eq_none_iff.mp hsplit), rfl⟩
  | some sides =>
      obtain ⟨name, behind⟩ := sides
      obtain ⟨hvalue, hfirst⟩ := splitOnce_eq hsplit
      by_cases hname : name.map Char.toLower = scheme
      case neg =>
        exact .inl ⟨.inr ⟨name, behind, hvalue, hfirst, hname⟩, by simp only [if_neg hname]⟩
      case pos =>
        right
        have hcarries : CarriesToken value (trim behind) := ⟨name, behind, hvalue, hname, rfl⟩
        simp only [if_pos hname]
        show (∃ c : Credentials, CarriesToken value (token c.text) ∧ ':' ∉ c.username.toList ∧
            ofToken (trim behind) = .ok c) ∨
          ∃ t, CarriesToken value t ∧ (∀ u, ':' ∈ u → t ≠ token u) ∧
            ofToken (trim behind) = .error .malformed
        rcases ofToken_cases (trim behind) with ⟨c, ht, hfree, hread⟩ | ⟨hnone, hread⟩
        · rw [ht] at hcarries
          exact .inl ⟨c, hcarries, hfree, hread⟩
        · exact .inr ⟨_, hcarries, hnone, hread⟩

/-! ## The four ends of a check -/

/-- The first value is text and carries the token of the account, whose user name has no colon. -/
def ShowsAccount (authorization : List String) (account : Credentials) : Prop :=
  ∃ value ∈ authorization.head?, isHeaderText value = true ∧
    CarriesToken value (token account.text) ∧ ':' ∉ account.username.toList

/-- There is no value, or the first one is text that names no scheme. -/
def ShowsNothing (authorization : List String) : Prop :=
  authorization = [] ∨
    ∃ value ∈ authorization.head?, isHeaderText value = true ∧ NamesNoScheme value

/-- The first value is no text, or it carries a token that is not the one of a text with a colon. -/
def ShowsJunk (authorization : List String) : Prop :=
  ∃ value ∈ authorization.head?, isHeaderText value = false ∨
    isHeaderText value = true ∧ ∃ t, CarriesToken value t ∧ ∀ u, ':' ∈ u → t ≠ token u

section

variable {value : String} {rest : List String} {c account : Credentials} {t : List Char}

theorem not_showsNothing (h : CarriesToken value t) : ¬ ShowsNothing (value :: rest) := by
  rintro (hnil | ⟨_, hmem, -, hnone⟩)
  · cases hnil
  · obtain rfl := Option.mem_some_iff.mp hmem
    exact hnone.not_carriesToken h

theorem not_showsJunk (hvalue : isHeaderText value = true)
    (h : ∀ t, CarriesToken value t → ∃ u, ':' ∈ u ∧ t = token u) :
    ¬ ShowsJunk (value :: rest) := by
  rintro ⟨_, hmem, hjunk⟩
  obtain rfl := Option.mem_some_iff.mp hmem
  rcases hjunk with hfalse | ⟨-, t, ht, hnone⟩
  · rw [hvalue] at hfalse
    cases hfalse
  · obtain ⟨u, hu, rfl⟩ := h t ht
    exact hnone u hu rfl

/-- No second token and no other way to divide its text shows an account. -/
theorem showsAccount_iff (hvalue : isHeaderText value = true)
    (h : CarriesToken value (token c.text)) (hfree : ':' ∉ c.username.toList) :
    ShowsAccount (value :: rest) account ↔ c = account := by
  constructor
  · rintro ⟨_, hmem, -, haccount, hfree'⟩
    obtain rfl := Option.mem_some_iff.mp hmem
    exact eq_of_text_eq hfree hfree' (token_injective (h.unique haccount))
  · rintro rfl
    exact ⟨value, rfl, hvalue, h, hfree⟩

theorem not_showsAccount (h : ∀ u, ':' ∈ u → ¬ CarriesToken value (token u)) :
    ¬ ShowsAccount (value :: rest) account := by
  rintro ⟨_, hmem, -, haccount, -⟩
  obtain rfl := Option.mem_some_iff.mp hmem
  exact h account.text (by simp [text]) haccount

end

/-- What header values show decides how a check of them ends: as the owner of the account, without
credentials, with credentials that cannot be read, and in all other cases with those of another
account. -/
theorem authenticate_exact (account : Credentials) (authorization : List String) :
    (∀ name, account.authenticate authorization = .ok name ↔
        ShowsAccount authorization account ∧ name = account.username) ∧
      (account.authenticate authorization = .error .notAuthenticated ↔
        ShowsNothing authorization) ∧
      (account.authenticate authorization = .error .malformed ↔ ShowsJunk authorization) ∧
      (account.authenticate authorization = .error .invalid ↔
        ¬ ShowsAccount authorization account ∧ ¬ ShowsNothing authorization ∧
          ¬ ShowsJunk authorization) := by
  cases authorization with
  | nil => simp [authenticate, ShowsAccount, ShowsNothing, ShowsJunk]
  | cons value rest =>
      rw [authenticate_eq, presented]
      cases hvalue : isHeaderText value with
      | false => simp [ShowsAccount, ShowsNothing, ShowsJunk, hvalue]
      | true =>
          rw [if_pos rfl]
          rcases ofBasic_cases value with
            ⟨hnone, hread⟩ | ⟨c, hcarries, hfree, hread⟩ | ⟨t, hcarries, hnone, hread⟩
          · have hnothing : ShowsNothing (value :: rest) := .inr ⟨value, rfl, hvalue, hnone⟩
            have haccount : ¬ ShowsAccount (value :: rest) account :=
              not_showsAccount fun _ _ => hnone.not_carriesToken
            have hjunk : ¬ ShowsJunk (value :: rest) :=
              not_showsJunk hvalue fun _ ht => absurd ht hnone.not_carriesToken
            simp [hread, hnothing, haccount, hjunk]
          · have hnothing : ¬ ShowsNothing (value :: rest) := not_showsNothing hcarries
            have hjunk : ¬ ShowsJunk (value :: rest) :=
              not_showsJunk hvalue fun t ht => ⟨c.text, by simp [text], ht.unique hcarries⟩
            rw [hread, showsAccount_iff hvalue hcarries hfree]
            by_cases hc : c = account
            · simp [hc, hnothing, hjunk, eq_comm]
            · simp [hc, hnothing, hjunk]
          · have hnothing : ¬ ShowsNothing (value :: rest) := not_showsNothing hcarries
            have hjunk : ShowsJunk (value :: rest) :=
              ⟨value, rfl, .inr ⟨hvalue, t, hcarries, hnone⟩⟩
            have haccount : ¬ ShowsAccount (value :: rest) account :=
              not_showsAccount fun u hu hcarries' => hnone u hu (hcarries.unique hcarries')
            simp [hread, hnothing, haccount, hjunk]

end Credentials

end GiftQuiz
