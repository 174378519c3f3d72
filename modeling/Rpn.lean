import Rpn.Number.Grid
import Rpn.Number.Binary64
import Rpn.Number.Decimal
import Rpn.Number.Shortest
import Rpn.Number.Numeral
import Rpn.Number.Text
import Rpn.Text.Blank
import Rpn.Text.Words
import Rpn.Text.ByteOffset
import Rpn.Stack.Operation
import Rpn.Stack.Builtin
import Rpn.Stack.Bindings
import Rpn.Stack.Evaluation
import Rpn.Stack.Description
import Rpn.Stack.Engine
import Rpn.Session.Command
import Rpn.Session.Basic
import Rpn.Console.Vocabulary
import Rpn.Console.Completion
import Rpn.Console.Highlight
import Rpn.Console.Arguments
import Rpn.Console.Transcript
import Rpn.Main
import Rpn.Proofs.Evaluation.Expression
import Rpn.Proofs.Number.Status
import Rpn.Proofs.Evaluation.Outcome
import Rpn.Proofs.Evaluation.Machine
import Rpn.Proofs.Description.Run
import Rpn.Proofs.Description.Growth
import Rpn.Proofs.Description.Cut
import Rpn.Proofs.Number.Decimal
import Rpn.Proofs.Number.Text
import Rpn.Proofs.Description.Reader
import Rpn.Proofs.Description.Tokens
import Rpn.Proofs.Description.Unambiguous
import Rpn.Proofs.Description.Conservation
import Rpn.Proofs.Description.Holes
import Rpn.Proofs.Session.Display
import Rpn.Proofs.Session.Memory
import Rpn.Proofs.Session.Undo
import Rpn.Proofs.Text.Words
import Rpn.Proofs.Session.Run
import Rpn.Proofs.Session.Entry
import Rpn.Proofs.Session.Retyping
import Rpn.Proofs.Session.Effect
import Rpn.Proofs.Console.Colour
import Rpn.Proofs.Evaluation.Binding
import Rpn.Proofs.Session.Store
import Rpn.Proofs.Number.Value
import Rpn.Proofs.Number.Whole
import Rpn.Proofs.Session.RoundTrip
import Rpn.Proofs.Console.Transcript
import Rpn.Proofs.Text.Layout
import Rpn.Proofs.Console.Highlight
import Rpn.Proofs.Session.MemoryName
import Rpn.Proofs.Console.Completion
import Rpn.Proofs.Description.Ending
import Rpn.Proofs.Session.History
