import SplatLisp.Number
import SplatLisp.Text.Blank
import SplatLisp.Text.Decimal
import SplatLisp.Text.Utf8
import SplatLisp.Pos
import SplatLisp.Symbol
import SplatLisp.Form
import SplatLisp.Form.Equality
import SplatLisp.Form.Text
import SplatLisp.Form.Inspect
import SplatLisp.Reader.Cursor
import SplatLisp.Reader.Token
import SplatLisp.Reader.Failure
import SplatLisp.Reader
import SplatLisp.Rendering
import SplatLisp.Types.Kind
import SplatLisp.Types.Registry
import SplatLisp.Value
import SplatLisp.Value.Equality
import SplatLisp.Value.Text
import SplatLisp.Heap
import SplatLisp.Sink
import SplatLisp.Message
import SplatLisp.Error
import SplatLisp.Diagnostics
import SplatLisp.Context
import SplatLisp.Eval.Calls
import SplatLisp.Eval.Host
import SplatLisp.Eval.Primitives
import SplatLisp.Eval.Evaluator
import SplatLisp.Eval.Source
import SplatLisp.Host.Files
import SplatLisp.Host.Primitives
import SplatLisp.Host.Probe
import SplatLisp.Proofs.Inherited
import SplatLisp.Proofs.FrameEffects
import SplatLisp.Proofs.ErrorDelivery
import SplatLisp.Proofs.Grammar
import SplatLisp.Proofs.Lexing
import SplatLisp.Proofs.ReaderSteps
import SplatLisp.Proofs.Reading
import SplatLisp.Proofs.Interning
import SplatLisp.Proofs.RoundTrip
import SplatLisp.Proofs.PlainFrames
import SplatLisp.Proofs.Layout
import SplatLisp.Proofs.Rereading
import SplatLisp.Proofs.Places
import SplatLisp.Proofs.Likeness
import SplatLisp.Proofs.Parallel
import SplatLisp.Proofs.Runs
import SplatLisp.Proofs.Clean
import SplatLisp.Proofs.Lockstep
import SplatLisp.Proofs.Sound
import SplatLisp.Proofs.Siblings
import SplatLisp.Proofs.Correspondence
import SplatLisp.Proofs.Handles
import SplatLisp.Proofs.Repetition
import SplatLisp.Proofs.Continuation
import SplatLisp.Proofs.Cutting
import SplatLisp.Proofs.Data
import SplatLisp.Proofs.Reprinting
import SplatLisp.Proofs.Registration
import SplatLisp.Proofs.Mentions
import SplatLisp.Proofs.SymbolTables
import SplatLisp.Proofs.Arity
import SplatLisp.Proofs.Decoding
import SplatLisp.Proofs.Order
import SplatLisp.Proofs.Hostless
import SplatLisp.Proofs.Phases
import SplatLisp.Proofs.Depth
import SplatLisp.Proofs.Splicing
import SplatLisp.Proofs.Application
import SplatLisp.Proofs.Sameness
import SplatLisp.Proofs.Parameters
import SplatLisp.Proofs.Tracking
import SplatLisp.Proofs.Origins
import SplatLisp.Proofs.Sessions
import SplatLisp.Proofs.CoreCalls
import SplatLisp.Proofs.Arithmetic
import SplatLisp.Proofs.Dumping
import SplatLisp.Proofs.Agreement
import SplatLisp.Proofs.Written
import SplatLisp.Proofs.Headers
import SplatLisp.Proofs.Indexing
import SplatLisp.Proofs.Offsets
import SplatLisp.Proofs.Bounds
import SplatLisp.Proofs.Suffix
import SplatLisp.Proofs.Assembly
import SplatLisp.Proofs.Descent
import SplatLisp.Proofs.OwnHandles
