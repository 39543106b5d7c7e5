import GiftQuiz.Text.Base64
import GiftQuiz.Text.Blank
import GiftQuiz.Text.Split
import GiftQuiz.Text.Utf8

/-!
# Credentials

The service knows one account. A request proves that it comes from its owner by the Basic scheme:
the first `Authorization` value names the scheme and carries the Base64 form of the user name and
the password with a colon between them, so that a user name holds no colon.

User name and password are compared without looking for the first difference, and both of them
even when one is already known to be wrong.
-/

namespace GiftQuiz

inductive AccessError where
  /-- No credentials of the scheme. -/
  | notAuthenticated
  /-- Credentials that cannot be read. -/
  | malformed
  /-- Credentials of another account. -/
  | invalid
deriving Repr, DecidableEq

namespace AccessError

def message : AccessError → String
  | .notAuthenticated => "Not authenticated"
  | .malformed => "Invalid authentication credentials"
  | .invalid => "Incorrect email or password"

end AccessError

/-- Whether a header value is text: tabs and the printable ASCII characters. -/
def isHeaderText (value : String) : Bool :=
  value.toList.all fun c => c == '\t' || (0x20 ≤ c.toNat && c.toNat ≤ 0x7E)

/-- Whether two byte sequences are equal. All bytes are looked at: every difference leaves a bit
in the accumulator, and no later byte takes it away. -/
def sameBytes (a b : List UInt8) : Bool :=
  a.length == b.length && (a.zip b).foldl (fun seen (x, y) => seen ||| (x ^^^ y)) 0 == 0

structure Credentials where
  username : String
  password : String
deriving Repr, DecidableEq

namespace Credentials

/-- The name of the scheme, which requests may write in any case. -/
def scheme : List Char := "basic".toList

/-- The credentials that an `Authorization` value carries. -/
def ofBasic (value : String) : Except AccessError Credentials :=
  match splitOnce ' ' (Text.trim value.toList) with
  | none => .error .notAuthenticated
  | some (name, token) =>
    if name.map Char.toLower = scheme then
      match Base64.decode (Text.trim token) with
      | none => .error .malformed
      | some bytes =>
        match Utf8.decode bytes with
        | .error _ => .error .malformed
        | .ok text =>
          match splitOnce ':' text with
          | none => .error .malformed
          | some (username, password) =>
            .ok ⟨String.ofList username, String.ofList password⟩
    else .error .notAuthenticated

def agrees (c d : Credentials) : Bool :=
  let username := sameBytes (Utf8.encode c.username.toList) (Utf8.encode d.username.toList)
  let password := sameBytes (Utf8.encode c.password.toList) (Utf8.encode d.password.toList)
  username && password

/-- The user name of a request with the given `Authorization` values, of which only the first
counts. -/
def authenticate (account : Credentials) (authorization : List String) :
    Except AccessError String :=
  match authorization with
  | [] => .error .notAuthenticated
  | value :: _ =>
    if isHeaderText value then
      match ofBasic value with
      | .error e => .error e
      | .ok presented =>
        if presented.agrees account then .ok presented.username else .error .invalid
    else .error .malformed

end Credentials

end GiftQuiz
