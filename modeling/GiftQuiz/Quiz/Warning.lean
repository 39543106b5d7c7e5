/-!
# Warnings

What a user should hear about although it does not stop a conversion.
-/

namespace GiftQuiz

/-- Something in a problem that did not reach the quiz. -/
inductive Warning where
  /-- An element that is neither a response nor content of a title. -/
  | unsupportedElement (tag : String)
  /-- A title that no response follows. -/
  | droppedTitle (title : String)
  /-- A numerical response without an answer. -/
  | missingAnswer (id : UInt64)
deriving Repr, DecidableEq

namespace Warning

def message : Warning → String
  | .unsupportedElement tag => "Unsupported question <" ++ tag ++ ">"
  | .droppedTitle title => "Dropped title without a response: " ++ title
  | .missingAnswer id =>
    "Numerical response Q" ++ toString id.toNat ++ " has no answer attribute"

end Warning

end GiftQuiz
