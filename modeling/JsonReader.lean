import JsonReader.Calendar.Date
import JsonReader.Calendar.DateTime
import JsonReader.Calendar.Reader
import JsonReader.Codec.Base64
import JsonReader.Codec.Guid
import JsonReader.Cursor
import JsonReader.Cursor.Scalar
import JsonReader.Failure
import JsonReader.Lexeme.Basic
import JsonReader.Lexeme.NumberLiteral
import JsonReader.Lexeme.Scan
import JsonReader.Lexeme.StringLiteral
import JsonReader.Lexeme.Trivia
import JsonReader.Number.Binary
import JsonReader.Number.Digits
import JsonReader.Number.Integer
import JsonReader.Number.ScaledDecimal
import JsonReader.Number.Scientific
import JsonReader.Number.Shortest
import JsonReader.Object.Engine
import JsonReader.Object.Updater
import JsonReader.Parser.Basic
import JsonReader.Parser.Combinators
import JsonReader.Parser.Error
import JsonReader.Parser.Recursive
import JsonReader.Parser.Scalar
import JsonReader.Parser.Token
import JsonReader.Parser.Value
import JsonReader.Proofs.Calendar.Agreement
import JsonReader.Proofs.Calendar.Reader
import JsonReader.Proofs.Calendar.Timeline
import JsonReader.Proofs.Codec.Base64
import JsonReader.Proofs.Codec.Decoder
import JsonReader.Proofs.Codec.Guid
import JsonReader.Proofs.Grammar.Calendar
import JsonReader.Proofs.Grammar.Document
import JsonReader.Proofs.Grammar.Lexical
import JsonReader.Proofs.Grammar.NumberValue
import JsonReader.Proofs.Lexeme.Basic
import JsonReader.Proofs.Lexeme.LineBreaks
import JsonReader.Proofs.Lexeme.LongestMatch
import JsonReader.Proofs.Lexeme.NumberLiteral
import JsonReader.Proofs.Lexeme.Scan
import JsonReader.Proofs.Lexeme.Spelling
import JsonReader.Proofs.Lexeme.StringLiteral
import JsonReader.Proofs.Lexeme.Trivia
import JsonReader.Proofs.Number.Digits
import JsonReader.Proofs.Number.Exactness
import JsonReader.Proofs.Number.Integer
import JsonReader.Proofs.Number.ScaledDecimal
import JsonReader.Proofs.Object.Entries
import JsonReader.Proofs.Object.Fallback
import JsonReader.Proofs.Object.Ignored
import JsonReader.Proofs.Object.Order
import JsonReader.Proofs.Object.SinglePass
import JsonReader.Proofs.Object.SubType
import JsonReader.Proofs.Object.Termination
import JsonReader.Proofs.Parser.Built
import JsonReader.Proofs.Parser.Choice
import JsonReader.Proofs.Parser.Detection
import JsonReader.Proofs.Parser.EndOfStream
import JsonReader.Proofs.Parser.Forward
import JsonReader.Proofs.Parser.Integer
import JsonReader.Proofs.Parser.Local
import JsonReader.Proofs.Parser.Location
import JsonReader.Proofs.Parser.LooksAhead
import JsonReader.Proofs.Parser.Marks
import JsonReader.Proofs.Parser.Repetition
import JsonReader.Proofs.Parser.Scalar
import JsonReader.Proofs.Parser.SelfDelimiting
import JsonReader.Proofs.Parser.Shift
import JsonReader.Proofs.Parser.Skipping
import JsonReader.Proofs.Parser.Truncation
import JsonReader.Proofs.Text.Hex
import JsonReader.Proofs.Token.Completeness
import JsonReader.Proofs.Token.Completion
import JsonReader.Proofs.Token.Faults
import JsonReader.Proofs.Token.LineBreaks
import JsonReader.Proofs.Token.LoneReturns
import JsonReader.Proofs.Token.Nesting
import JsonReader.Proofs.Token.Places
import JsonReader.Proofs.Token.Recognition
import JsonReader.Proofs.Token.Relaxation
import JsonReader.Proofs.Token.Resumption
import JsonReader.Proofs.Token.Run
import JsonReader.Proofs.Token.Spans
import JsonReader.Proofs.Value.Assembly
import JsonReader.Proofs.Value.Balance
import JsonReader.Proofs.Value.Entries
import JsonReader.Proofs.Value.Skip
import JsonReader.Settings
import JsonReader.Settings.Load
import JsonReader.Settings.Outline
import JsonReader.Text.Blank
import JsonReader.Text.Hex
import JsonReader.Text.Printable
import JsonReader.Text.Quoted
import JsonReader.Text.Shown
import JsonReader.Token.Basic
import JsonReader.Token.Location
import JsonReader.Token.Structure
import JsonReader.Token.Tokenizer
import JsonReader.Url.Basic
import JsonReader.Url.Host
import JsonReader.Url.Path
import JsonReader.Url.Percent
import JsonReader.Url.Punycode
import JsonReader.Url.Reader
import JsonReader.Value.Assembly
import JsonReader.Value.Basic
import JsonReader.Value.Decoder
import JsonReader.Value.Number
