import FormLetter.Condition.Evaluation
import FormLetter.Condition.Expression
import FormLetter.Condition.Fault
import FormLetter.Condition.Lexeme
import FormLetter.Condition.Memo
import FormLetter.Condition.Reading
import FormLetter.Condition.Token
import FormLetter.Data.Datum
import FormLetter.Data.Entries
import FormLetter.Data.Path
import FormLetter.Document.Filling
import FormLetter.Document.Forest
import FormLetter.Document.Job
import FormLetter.Document.Problem
import FormLetter.Document.Report
import FormLetter.Document.Settings
import FormLetter.Document.Visibility
import FormLetter.Exchange.Condition
import FormLetter.Exchange.Data
import FormLetter.Exchange.Document
import FormLetter.Exchange.Json
import FormLetter.Exchange.Rendering
import FormLetter.Field.Placeholder
import FormLetter.Field.Source
import FormLetter.Number.Basic
import FormLetter.Number.Decimal
import FormLetter.Number.Magnitude
import FormLetter.Number.Numeral
import FormLetter.Number.Power
import FormLetter.Number.Shortest
import FormLetter.Renderer
import FormLetter.Repeat.Directive
import FormLetter.Repeat.Expansion
import FormLetter.Session
import FormLetter.Text.Backslash
import FormLetter.Text.Blank
import FormLetter.Text.Glyph
import FormLetter.Text.Leading
import FormLetter.Text.Quoted
import FormLetter.Proofs.Grammar
import FormLetter.Proofs.OnePass
import FormLetter.Proofs.Scanning
import FormLetter.Proofs.Splicing
import FormLetter.Proofs.Brackets
import FormLetter.Proofs.ShownTexts
import FormLetter.Proofs.Draft
import FormLetter.Proofs.Letter
import FormLetter.Proofs.Scope
import FormLetter.Proofs.Rereading
import FormLetter.Proofs.Occurrence
import FormLetter.Proofs.Selection
import FormLetter.Proofs.Descent
import FormLetter.Proofs.Lexing
import FormLetter.Proofs.Spelling
import FormLetter.Proofs.Located
import FormLetter.Proofs.FilledCondition
import FormLetter.Proofs.Remembering
import FormLetter.Proofs.Ceiling
import FormLetter.Proofs.Diagnosis
import FormLetter.Proofs.Growth
import FormLetter.Proofs.Refilling
import FormLetter.Proofs.Settled
import FormLetter.Proofs.Outstanding
import FormLetter.Proofs.Unanswered
import FormLetter.Proofs.FirstFault
import FormLetter.Proofs.NumberCondition
import FormLetter.Proofs.Unlimited
import FormLetter.Proofs.PartByPart
import FormLetter.Proofs.DirectiveText
import FormLetter.Proofs.Concealed
import FormLetter.Proofs.Skeleton
import FormLetter.Proofs.CountedList
import FormLetter.Proofs.QuotedValue
import FormLetter.Proofs.PlaceholderText
import FormLetter.Proofs.Replacement
import FormLetter.Proofs.Reached
import FormLetter.Proofs.RepeatedOnce
import FormLetter.Proofs.Lexemes
import FormLetter.Proofs.LooseEquality
import FormLetter.Proofs.Ordering
import FormLetter.Proofs.JoinedPaths
import FormLetter.Proofs.Enclosed
import FormLetter.Proofs.SortedEntries
import FormLetter.Proofs.DataExchange
import FormLetter.Proofs.HandedOver
import FormLetter.Proofs.Recursion
import FormLetter.Proofs.StackDepth
