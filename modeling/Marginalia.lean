import Marginalia.Main
import Marginalia.Proofs.Outline.Comments
import Marginalia.Proofs.Routing
import Marginalia.Proofs.Reading
import Marginalia.Proofs.Expansion.Settling
import Marginalia.Proofs.Expansion.Sharing
import Marginalia.Proofs.Expression.Grammar
import Marginalia.Proofs.Expression.Lexeme
import Marginalia.Proofs.Expression.Reader
import Marginalia.Proofs.Note.ValidPart
import Marginalia.Proofs.Expression.Spelling
import Marginalia.Proofs.Expression.Sentence
import Marginalia.Proofs.DocComment.Extent
import Marginalia.Proofs.DocComment.Passages
import Marginalia.Proofs.Expression.Literal
import Marginalia.Proofs.Expression.Printer
import Marginalia.Proofs.Note.Assembly
import Marginalia.Proofs.Expression.RoundTrip
import Marginalia.Proofs.Outline.Segments
import Marginalia.Proofs.Outline.ForeignImports
import Marginalia.Proofs.Expansion.OwnWords
import Marginalia.Proofs.Files.Watched
import Marginalia.Proofs.Pooling
import Marginalia.Proofs.Expansion.Course
import Marginalia.Proofs.Expansion.BreadthFirst
import Marginalia.Proofs.Expansion.FirstValue
import Marginalia.Proofs.Expansion.Below
import Marginalia.Proofs.Expansion.Circular
import Marginalia.Proofs.Expansion.Commuting
import Marginalia.Proofs.Expansion.Order
import Marginalia.Proofs.Rereading
import Marginalia.Proofs.Outline.Declarations
import Marginalia.Proofs.Outline.Modifiers
import Marginalia.Proofs.Names
import Marginalia.Proofs.Outline.Preamble
import Marginalia.Proofs.Outline.HeldOverImports
import Marginalia.Proofs.Outline.Namespaces
import Marginalia.Proofs.Expression.Groups
import Marginalia.Proofs.Expression.Nesting
import Marginalia.Proofs.Expression.Arrays
import Marginalia.Proofs.DocComment.Wrapped
import Marginalia.Proofs.Note.Foreign
import Marginalia.Proofs.Expression.Foreign
import Marginalia.Proofs.Rendering
import Marginalia.Proofs.Expansion.TextFields
import Marginalia.Proofs.Filings
import Marginalia.Proofs.Precedence
import Marginalia.Proofs.Files.Collected
import Marginalia.Proofs.Note.Dumping
import Marginalia.Proofs.DocComment.Refused
import Marginalia.Proofs.Php.Lossless
import Marginalia.Proofs.Php.Parsed
import Marginalia.Proofs.DocComment.Cut
import Marginalia.Proofs.DocComment.Layout
import Marginalia.Proofs.Watching.Batches
import Marginalia.Proofs.Watching.Tasks
