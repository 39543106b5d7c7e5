import GiftQuiz.Text.Utf8

/-!
# Tokens of a document

A document is cut into tokens without regard to nesting: runs of character data and seven kinds
of markup. A token holds the text between its delimiters, and `Token.spelling` writes it back as
it stands in the document. Where no token can be read there is a `Fault`: an opening delimiter
whose closing one is missing, or whose text is not of its kind.
-/

namespace GiftQuiz

namespace Markup

/-- A run of character data or a piece of markup. -/
inductive Token where
  /-- Character data, up to the next `<`. -/
  | text (content : List Char)
  /-- `<!--content-->` -/
  | comment (content : List Char)
  /-- `<![CDATA[content]]>` -/
  | cdata (content : List Char)
  /-- `<!content>` where the content begins with `DOCTYPE`, in any case. -/
  | doctype (content : List Char)
  /-- `<?content?>`: a processing instruction or the declaration of a document. -/
  | instruction (content : List Char)
  /-- `<content>` -/
  | startTag (content : List Char)
  /-- `<content/>` -/
  | emptyTag (content : List Char)
  /-- `</content>` -/
  | endTag (content : List Char)
deriving Repr, DecidableEq

inductive SyntaxError where
  | unclosedTag
  | unclosedComment
  | unclosedCData
  | unclosedDoctype
  | unclosedInstruction
  /-- `<!` with none of the characters behind it that begin a kind of markup. -/
  | unknownMarkup
  /-- A doctype with nothing behind the word. -/
  | namelessDoctype
deriving Repr, DecidableEq

namespace SyntaxError

def unclosed (what delimiter : String) : String :=
  "syntax error: " ++ what ++ " not closed: `" ++ delimiter ++ "` not found before end of input"

def message : SyntaxError → String
  | .unclosedTag => unclosed "tag" ">"
  | .unclosedComment => unclosed "comment" "-->"
  | .unclosedCData => unclosed "CDATA" "]]>"
  | .unclosedDoctype => unclosed "DOCTYPE" ">"
  | .unclosedInstruction => unclosed "processing instruction or xml declaration" "?>"
  | .unknownMarkup => "syntax error: unknown or missed symbol in markup"
  | .namelessDoctype =>
    "ill-formed document: `<!DOCTYPE>` declaration does not contain a name of a document type"

end SyntaxError

/-- An error and how many bytes, counted from the `<`, were read before it was found. -/
structure Fault where
  error : SyntaxError
  consumed : Nat
deriving Repr, DecidableEq

namespace Token

/-! ## Delimiters -/

def commentOpen : List Char := ['<', '!', '-', '-']
def commentClose : List Char := ['-', '-', '>']
def cdataOpen : List Char := ['<', '!', '[', 'C', 'D', 'A', 'T', 'A', '[']
def cdataClose : List Char := [']', ']', '>']
def instructionClose : List Char := ['?', '>']
def doctypeWord : List Char := ['D', 'O', 'C', 'T', 'Y', 'P', 'E']

/-- The text of a token in a document. -/
def spelling : Token → List Char
  | .text t => t
  | .comment t => commentOpen ++ t ++ commentClose
  | .cdata t => cdataOpen ++ t ++ cdataClose
  | .doctype t => '<' :: '!' :: t ++ ['>']
  | .instruction t => '<' :: '?' :: t ++ instructionClose
  | .startTag t => '<' :: t ++ ['>']
  | .emptyTag t => '<' :: t ++ ['/', '>']
  | .endTag t => '<' :: '/' :: t ++ ['>']

def size (t : Token) : Nat :=
  Utf8.size t.spelling

end Token

end Markup

end GiftQuiz
