import RegisterForm.Batch
import RegisterForm.LogFormat
import RegisterForm.Tree.Builder
import RegisterForm.Proofs.Export.Initial
import RegisterForm.Proofs.Export.Everywhere
import RegisterForm.Proofs.Script.Module
import RegisterForm.Proofs.Resolve.Ambient
import RegisterForm.Proofs.Depth.Module
import RegisterForm.Proofs.Fresh.Generated
import RegisterForm.Proofs.Fresh.Helpers
import RegisterForm.Proofs.Registration.Routes
import RegisterForm.Proofs.Print.Grammar
import RegisterForm.Proofs.Print.ReadBack
import RegisterForm.Proofs.Print.Spacing
import RegisterForm.Proofs.Print.Start
import RegisterForm.Proofs.Print.Nesting
import RegisterForm.Proofs.Print.Restricted
import RegisterForm.Proofs.Registration.Precedence
import RegisterForm.Proofs.Session.Reuse
import RegisterForm.Proofs.Export.LoopHeads
import RegisterForm.Proofs.Temporary.Module
import RegisterForm.Proofs.Renumber.Module
import RegisterForm.Proofs.Text.StringLiteral
import RegisterForm.Proofs.Print.Division
import RegisterForm.Proofs.Print.Nested
import RegisterForm.Proofs.Lowering.Linear
import RegisterForm.Proofs.Hoist.Module
import RegisterForm.Proofs.Lowering.Composed
import RegisterForm.Proofs.Lowering.Frames
import RegisterForm.Proofs.Lowering.Resembles
import RegisterForm.Proofs.Lowering.Apart
import RegisterForm.Proofs.Lowering.TakesApart
import RegisterForm.Proofs.Lowering.Ordered
import RegisterForm.Proofs.Dynamic.Eval
import RegisterForm.Proofs.Dynamic.Local
import RegisterForm.Proofs.Dynamic.Sequence
import RegisterForm.Proofs.Fresh.Requests
import RegisterForm.Proofs.Print.SourceOrder
import RegisterForm.Proofs.Dynamic.Calls
import RegisterForm.Proofs.Dynamic.Forwarding
import RegisterForm.Proofs.Registration.Forwards
import RegisterForm.Proofs.Resolve.Parameters
import RegisterForm.Proofs.Dynamic.RestKeys
import RegisterForm.Proofs.Scope.Reached
import RegisterForm.Proofs.Run.Module
