import FlatLisp.Embed.Sample
import FlatLisp.Main
import FlatLisp.Value.Describe
import FlatLisp.Value.Snapshot
import FlatLisp.Workspace
import FlatLisp.Proofs.Simulation.Correspondence
import FlatLisp.Proofs.Simulation.Basic
import FlatLisp.Proofs.Simulation.Operand
import FlatLisp.Proofs.Simulation.Primitive
import FlatLisp.Proofs.Balance
import FlatLisp.Proofs.Comments
import FlatLisp.Proofs.DepthLimit
import FlatLisp.Proofs.Frame
import FlatLisp.Proofs.Adaptation
import FlatLisp.Proofs.Reachability
import FlatLisp.Proofs.Repetition
import FlatLisp.Proofs.Arena.Refinement
import FlatLisp.Proofs.Forest
import FlatLisp.Proofs.Grammar
import FlatLisp.Proofs.RoundTrip
import FlatLisp.Proofs.Sequencing
import FlatLisp.Proofs.Words
import FlatLisp.Proofs.Conversation.Basic
import FlatLisp.Proofs.Conversation.Completeness
import FlatLisp.Proofs.Naming
import FlatLisp.Proofs.Arena.Call
import FlatLisp.Proofs.Arithmetic.Accumulation
import FlatLisp.Proofs.Arithmetic.Basic
import FlatLisp.Proofs.Arithmetic.Conversion
import FlatLisp.Proofs.Arithmetic.Division
import FlatLisp.Proofs.Arithmetic.Order
import FlatLisp.Proofs.Arithmetic.Power
import FlatLisp.Proofs.Arithmetic.Whole
import FlatLisp.Proofs.Snapshot.ByteOrder
import FlatLisp.Proofs.Snapshot.Lookup
import FlatLisp.Proofs.Rereading.Text
import FlatLisp.Proofs.Rereading.Written
import FlatLisp.Proofs.Rereading.Evaluation
import FlatLisp.Proofs.Rereading.Session
import FlatLisp.Proofs.Coercion
import FlatLisp.Proofs.Literals.Integer
import FlatLisp.Proofs.Literals.Decimal
import FlatLisp.Proofs.Literals.Complex
import FlatLisp.Proofs.Height
import FlatLisp.Proofs.Opening
import FlatLisp.Proofs.Formals
import FlatLisp.Proofs.Conversation.Startup
