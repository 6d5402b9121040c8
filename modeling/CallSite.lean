import CallSite.Host
import CallSite.Defaults
import CallSite.Resolve.OptionsText
import CallSite.Type.Initial
import CallSite.Type.Walk
import CallSite.Proofs.Type.Commute
import CallSite.Proofs.Type.Interning
import CallSite.Proofs.Type.Compose
import CallSite.Proofs.Type.Whole
import CallSite.Proofs.Type.Copies
import CallSite.Proofs.Type.Interfaces
import CallSite.Proofs.Access.Text
import CallSite.Proofs.Member.Applied
import CallSite.Proofs.Match.Rule
import CallSite.Proofs.Match.Growth
import CallSite.Proofs.Match.Lockstep
import CallSite.Proofs.Match.Closed
import CallSite.Proofs.Match.Constraint
import CallSite.Proofs.Match.Count
import CallSite.Proofs.Match.Assignable
import CallSite.Proofs.Match.Converse
import CallSite.Proofs.Match.Relax
import CallSite.Proofs.Match.Transitive
import CallSite.Proofs.Match.Termination
import CallSite.Proofs.Resolve.Constraint
import CallSite.Proofs.Resolve.Constructed
import CallSite.Proofs.Resolve.Repeat
import CallSite.Proofs.Resolve.Selection
import CallSite.Proofs.Resolve.Specific
import CallSite.Proofs.Resolve.Visibility
import CallSite.Proofs.Call.Fill
import CallSite.Proofs.Call.Reordering
import CallSite.Proofs.Resolve.Explicit
import CallSite.Proofs.Resolve.ClosedCall
import CallSite.Proofs.Host.Contract
import CallSite.Proofs.Host.Action
import CallSite.Proofs.Host.Scope
import CallSite.Proofs.Defaults
