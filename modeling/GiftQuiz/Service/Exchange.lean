import GiftQuiz.Json.Writer
import GiftQuiz.Quiz.Conversion
import GiftQuiz.Service.Credentials
import GiftQuiz.Service.Form

/-!
# The conversion service

One route, `POST /convert`, takes a form with the document in its field `content` and answers
with the quiz. What is wrong with a request is decided in a fixed order: the path, the method,
the credentials, the form, the document. Refused credentials and refused documents are answered
in JSON with the reason in the field `detail`.

Files of a front end beside the route, the lines of the logger and the limit on the size of a body
belong to the server around the service and are not part of an answer here.
-/

namespace GiftQuiz

/-- A request, with the headers in the order they came. -/
structure Request where
  method : String
  /-- What is asked for: a path, or a whole address with a scheme and an authority in front of
  the path, with a query and a fragment behind it. -/
  target : String
  headers : List (String × String)
  body : List UInt8
deriving Repr, DecidableEq

/-- An answer, with the headers that the service sets. -/
structure Response where
  status : Nat
  contentType : Option String := none
  wwwAuthenticate : Option String := none
  allow : Option String := none
  body : String := ""
deriving Repr, DecidableEq

/-- The service: its account and how it makes titles. -/
structure Service where
  credentials : Credentials
  titleMode : TitleMode := .markup
deriving Repr, DecidableEq

namespace Request

def values (r : Request) (name : String) : List String :=
  (r.headers.filter fun h => h.1.toList.map Char.toLower == name.toList).map Prod.snd

def inScheme (c : Char) : Bool :=
  c.isAlphanum || c == '+' || c == '-' || c == '.'

def inAuthority (c : Char) : Bool :=
  c != '/' && c != '?' && c != '#'

/-- What stands behind the authority of an address. -/
def behindAuthority? (target : List Char) : Option (List Char) :=
  match target.dropWhile inScheme with
  | ':' :: '/' :: '/' :: t => some (t.dropWhile inAuthority)
  | _ => none

/-- The path, without the query and the fragment. -/
def route (r : Request) : String :=
  let path := (behindAuthority? r.target.toList).getD r.target.toList
  String.ofList (path.takeWhile fun c => c != '?' && c != '#')

/-- Whether the request says that its body is a form. -/
def saysForm (r : Request) : Bool :=
  match r.values "content-type" with
  | [] => false
  | value :: _ =>
    isHeaderText value && "application/x-www-form-urlencoded".toList.isPrefixOf value.toList

/-- The field of the form that holds the document. -/
def document (r : Request) : Except FormError String :=
  if r.saysForm then Form.required "content" (Form.fields r.body) else .error .notAForm

end Request

namespace Response

def plainText : String := "text/plain; charset=utf-8"

def plain (status : Nat) (body : String) : Response :=
  { status, contentType := some plainText, body }

/-- An answer that gives a reason. -/
def detail (status : Nat) (reason : String) : Response :=
  { status, contentType := some "application/json",
    body := (Json.object [("detail", .string reason)]).compact }

/-- The answer to credentials that are refused. -/
def unauthorized (e : AccessError) : Response :=
  { detail 401 e.message with wwwAuthenticate := some "Basic" }

/-- The answer to a form that is refused. -/
def badForm (e : FormError) : Response :=
  match e with
  | .notAForm => plain 415 e.message
  | _ => plain 422 e.message

end Response

namespace Service

/-- The answer to a document, unless its conversion is undefined. -/
def convertDocument (s : Service) (xml : String) : Option Response :=
  match convert xml { titleMode := s.titleMode } with
  | .ok c => some (.plain 200 c.gift)
  | .error (.offBoundary _) => none
  | .error e => some (.detail 400 e.message)

/-- The answer to a request. There is none where the conversion is undefined. -/
def respond (s : Service) (r : Request) : Option Response :=
  if r.route ≠ "/convert" then some { status := 404 }
  else if r.method ≠ "POST" then some { status := 405, allow := some "POST" }
  else
    match s.credentials.authenticate (r.values "authorization") with
    | .error e => some (.unauthorized e)
    | .ok _ =>
      match r.document with
      | .error e => some (.badForm e)
      | .ok xml => s.convertDocument xml

end Service

end GiftQuiz
