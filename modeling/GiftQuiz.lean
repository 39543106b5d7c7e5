import GiftQuiz.Json.Reader
import GiftQuiz.Main
import GiftQuiz.Markup.Preorder
import GiftQuiz.Markup.Printer
import GiftQuiz.Proofs.CommandLine.Printing
import GiftQuiz.Proofs.CommandLine.Reading
import GiftQuiz.Proofs.CommandLine.Routes
import GiftQuiz.Proofs.CommandLine.Summary
import GiftQuiz.Proofs.Json.RoundTrip
import GiftQuiz.Proofs.Markup.Acceptance
import GiftQuiz.Proofs.Markup.Boundaries
import GiftQuiz.Proofs.Markup.Content
import GiftQuiz.Proofs.Markup.Division
import GiftQuiz.Proofs.Markup.Gathering
import GiftQuiz.Proofs.Markup.Insertion
import GiftQuiz.Proofs.Markup.Legible
import GiftQuiz.Proofs.Markup.Paths
import GiftQuiz.Proofs.Markup.Printing
import GiftQuiz.Proofs.Markup.SourceText
import GiftQuiz.Proofs.Markup.Spread
import GiftQuiz.Proofs.Markup.Tag
import GiftQuiz.Proofs.Number.Binary64
import GiftQuiz.Proofs.Number.Decimal
import GiftQuiz.Proofs.Number.Estimate
import GiftQuiz.Proofs.Number.Magnitude
import GiftQuiz.Proofs.Number.Nearest
import GiftQuiz.Proofs.Number.Numeral
import GiftQuiz.Proofs.Quiz.Agenda
import GiftQuiz.Proofs.Quiz.Bodies
import GiftQuiz.Proofs.Quiz.Braces
import GiftQuiz.Proofs.Quiz.Capacity
import GiftQuiz.Proofs.Quiz.Choices
import GiftQuiz.Proofs.Quiz.Comments
import GiftQuiz.Proofs.Quiz.Interchange
import GiftQuiz.Proofs.Quiz.Layout
import GiftQuiz.Proofs.Quiz.Messages
import GiftQuiz.Proofs.Quiz.Modes
import GiftQuiz.Proofs.Quiz.Nesting
import GiftQuiz.Proofs.Quiz.Numbering
import GiftQuiz.Proofs.Quiz.Percentage
import GiftQuiz.Proofs.Quiz.Renumbering
import GiftQuiz.Proofs.Quiz.Series
import GiftQuiz.Proofs.Quiz.Shares
import GiftQuiz.Proofs.Quiz.Titles
import GiftQuiz.Proofs.Quiz.Truncation
import GiftQuiz.Proofs.Quiz.Verbatim
import GiftQuiz.Proofs.Quiz.Weights
import GiftQuiz.Proofs.Quiz.Yield
import GiftQuiz.Proofs.Service.Access
import GiftQuiz.Proofs.Service.Admission
import GiftQuiz.Proofs.Service.Outcome
import GiftQuiz.Proofs.Service.Refusal
import GiftQuiz.Proofs.Service.Submission
import GiftQuiz.Proofs.Text.Bare
import GiftQuiz.Proofs.Text.Base64
import GiftQuiz.Proofs.Text.Escapes
import GiftQuiz.Proofs.Text.NormalForm
import GiftQuiz.Proofs.Text.Utf8
import GiftQuiz.Quiz.Descent
import GiftQuiz.Service.Exchange
import GiftQuiz.Proofs.Markup.Gathering
