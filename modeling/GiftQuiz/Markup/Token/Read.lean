import GiftQuiz.Markup.Attribute
import GiftQuiz.Markup.Token

/-!
# Reading one token

The first characters of a text tell the kind of its first token, and the kind tells how its end
is found: by the first occurrence of a closing delimiter, by the first `>` outside of quotes, or
by the `>` that balances the opening `<`. `Token.read` gives the token and what stands behind it.
-/

namespace GiftQuiz

namespace Markup

namespace Token

/-! ## Finding the end of a token -/

/-- Searches behind the characters `done`, which are held latest first. -/
def cutFrom (pattern done : List Char) : List Char → Option (List Char × List Char)
  | [] => none
  | c :: t =>
    if pattern.isPrefixOf (c :: t) then some (done.reverse, (c :: t).drop pattern.length)
    else cutFrom pattern (c :: done) t

/-- What stands before and behind the first occurrence of a pattern that is not empty. -/
def cut (pattern t : List Char) : Option (List Char × List Char) :=
  cutFrom pattern [] t

/-- Searches the `>` outside of quotes, behind the characters `done`, which are held latest
first; `quote` is the quote that is open. -/
def cutTagFrom (done : List Char) (quote : Option Char) :
    List Char → Option (List Char × List Char)
  | [] => none
  | c :: t =>
    match quote with
    | some q => cutTagFrom (c :: done) (if c = q then none else quote) t
    | none =>
      if c = '>' then some (done.reverse, t)
      else cutTagFrom (c :: done) (if c = '"' ∨ c = '\'' then some c else none) t

/-- What stands before and behind the first `>` outside of quotes. -/
def cutTag (t : List Char) : Option (List Char × List Char) :=
  cutTagFrom [] none t

/-- Searches the `>` that no `<` inside the text opens, behind the characters `done`, which are
held latest first; `depth` counts the ones that are open. -/
def cutBalancedFrom (done : List Char) (depth : Nat) :
    List Char → Option (List Char × List Char)
  | [] => none
  | c :: t =>
    if c = '<' then cutBalancedFrom (c :: done) (depth + 1) t
    else if c = '>' then
      match depth with
      | 0 => some (done.reverse, t)
      | depth + 1 => cutBalancedFrom (c :: done) depth t
    else cutBalancedFrom (c :: done) depth t

/-- What stands before and behind the `>` that closes a `<` in front of the text. -/
def cutBalanced (t : List Char) : Option (List Char × List Char) :=
  cutBalancedFrom [] 0 t

/-! ## Reading one token -/

/-- The closing delimiter is missing: all that is left has been read. -/
def unclosed (error : SyntaxError) (opening t : List Char) :
    Except Fault (Token × List Char) :=
  .error ⟨error, Utf8.size opening + Utf8.size t⟩

/-- The text up to the closing delimiter is not of the kind its opening announces. -/
def mismatched (error : SyntaxError) (opening content closing : List Char) :
    Except Fault (Token × List Char) :=
  .error ⟨error, Utf8.size opening + Utf8.size content + Utf8.size closing⟩

/-- Behind `<?`. The closing delimiter may not share its question mark with the opening one. -/
def readInstruction (t : List Char) : Except Fault (Token × List Char) :=
  match t with
  | '>' :: _ => mismatched .unclosedInstruction ['<', '?'] [] ['>']
  | _ =>
    match cut instructionClose t with
    | some (content, rest) => .ok (.instruction content, rest)
    | none => unclosed .unclosedInstruction ['<', '?'] t

/-- Behind `<!-`. -/
def readComment (t : List Char) : Except Fault (Token × List Char) :=
  match t with
  | [] => unclosed .unclosedComment ['<', '!', '-'] []
  | c :: t =>
    match cut commentClose t with
    | some (content, rest) =>
      if c = '-' then .ok (.comment content, rest)
      else mismatched .unclosedComment ['<', '!', '-', c] content commentClose
    | none => unclosed .unclosedComment ['<', '!', '-', c] t

/-- Behind `<![`. -/
def readCData (t : List Char) : Except Fault (Token × List Char) :=
  match cut cdataClose t with
  | some (content, rest) =>
    match content with
    | 'C' :: 'D' :: 'A' :: 'T' :: 'A' :: '[' :: content => .ok (.cdata content, rest)
    | content => mismatched .unclosedCData ['<', '!', '['] content cdataClose
  | none => unclosed .unclosedCData ['<', '!', '['] t

/-- Behind `<!`, in front of a `D` in either case. -/
def readDoctype (t : List Char) : Except Fault (Token × List Char) :=
  match cutBalanced t with
  | some (content, rest) =>
    if (content.take doctypeWord.length).map Char.toUpper = doctypeWord then
      if (content.drop doctypeWord.length).all isSpace then
        mismatched .namelessDoctype ['<', '!'] content ['>']
      else .ok (.doctype content, rest)
    else mismatched .unclosedDoctype ['<', '!'] content ['>']
  | none => unclosed .unclosedDoctype ['<', '!'] t

/-- Behind `<!`; the next character tells the kind of markup. -/
def readDeclared (t : List Char) : Except Fault (Token × List Char) :=
  match t with
  | '-' :: t => readComment t
  | '[' :: t => readCData t
  | 'D' :: _ => readDoctype t
  | 'd' :: _ => readDoctype t
  | _ => .error ⟨.unknownMarkup, 1⟩

def ofTag (content : List Char) : Token :=
  match content with
  | '/' :: content => .endTag content
  | content =>
    if content.getLast? = some '/' then .emptyTag content.dropLast else .startTag content

/-- Behind `<`, in front of a tag. -/
def readTag (t : List Char) : Except Fault (Token × List Char) :=
  match cutTag t with
  | some (content, rest) => .ok (ofTag content, rest)
  | none => unclosed .unclosedTag ['<'] t

/-- Behind `<`. -/
def readMarkup (t : List Char) : Except Fault (Token × List Char) :=
  match t with
  | '!' :: t => readDeclared t
  | '?' :: t => readInstruction t
  | t => readTag t

/-- The first token of a text that begins with `c`, and what stands behind it. -/
def read (c : Char) (t : List Char) : Except Fault (Token × List Char) :=
  if c = '<' then readMarkup t
  else .ok (.text (c :: t.takeWhile (· != '<')), t.dropWhile (· != '<'))

end Token

end Markup

end GiftQuiz
