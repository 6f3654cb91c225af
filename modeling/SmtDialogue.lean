import SmtDialogue.Identifier
import SmtDialogue.Model
import SmtDialogue.Proofs.SourceText
import SmtDialogue.Reader.Basic
import SmtDialogue.Reader.Expression
import SmtDialogue.Session.Basic
import SmtDialogue.Session.Error
import SmtDialogue.Session.Event
import SmtDialogue.Session.Launch
import SmtDialogue.Session.Request
import SmtDialogue.Session.Sink
import SmtDialogue.Sexp.Assembly
import SmtDialogue.Sexp.Basic
import SmtDialogue.Sexp.Printer
import SmtDialogue.SyntaxError
import SmtDialogue.Term.Basic
import SmtDialogue.Term.Builder
import SmtDialogue.Term.Encoding
import SmtDialogue.Term.Sort
import SmtDialogue.Text.Blank
import SmtDialogue.Text.Cursor
import SmtDialogue.Text.Digits
import SmtDialogue.Text.Pointer
import SmtDialogue.Text.Quoted
import SmtDialogue.Text.Source
import SmtDialogue.Text.Utf8
import SmtDialogue.Token.Basic
import SmtDialogue.Token.Gap
import SmtDialogue.Verdict
import SmtDialogue.Proofs.GapText
import SmtDialogue.Proofs.TokenText
import SmtDialogue.Proofs.Grammar
import SmtDialogue.Proofs.Reading
import SmtDialogue.Proofs.Layout
import SmtDialogue.Proofs.Boundary
import SmtDialogue.Proofs.CanonicalText
import SmtDialogue.Proofs.RoundTrip
import SmtDialogue.Proofs.Answer
import SmtDialogue.Proofs.ByteText
import SmtDialogue.Proofs.Reply
import SmtDialogue.Proofs.Dialogue
import SmtDialogue.Proofs.WrittenForm
import SmtDialogue.Proofs.Turn
import SmtDialogue.Proofs.Framing
import SmtDialogue.Proofs.Pairing
import SmtDialogue.Proofs.Overflow
import SmtDialogue.Proofs.ListText
import SmtDialogue.Proofs.ModelReading
import SmtDialogue.Proofs.BitLiteral
import SmtDialogue.Proofs.ModelText
import SmtDialogue.Proofs.ModelReply
import SmtDialogue.Proofs.Ending
import SmtDialogue.Proofs.Beyond
import SmtDialogue.Proofs.Failure
import SmtDialogue.Proofs.ByteReading
import SmtDialogue.Proofs.Story
import SmtDialogue.Proofs.SpentSession
import SmtDialogue.Proofs.Recording
import SmtDialogue.Proofs.Lifecycle
import SmtDialogue.Proofs.Coverage
import SmtDialogue.Proofs.LayoutFreedom
import SmtDialogue.Proofs.ErrorPlace
import SmtDialogue.Proofs.PointerText
import SmtDialogue.Proofs.Viability
import SmtDialogue.Proofs.FirstOffence
import SmtDialogue.Proofs.Concatenation
import SmtDialogue.Proofs.ModelEntries
import SmtDialogue.Proofs.LiteralValue
import SmtDialogue.Proofs.Encoding
import SmtDialogue.Proofs.FlatTerms
