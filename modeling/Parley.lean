import Parley.Main
import Parley.Scenario.Run
import Parley.Logging
import Parley.Proofs.Script.TagRoundTrip
import Parley.Proofs.Script.BodyRoundTrip
import Parley.Proofs.Script.Joined
import Parley.Proofs.Bus.Cascade
import Parley.Proofs.Bus.Delivery
import Parley.Proofs.Session.OnScreen
import Parley.Proofs.Session.Resumed
import Parley.Proofs.Session.Frozen
import Parley.Proofs.Session.Anew
import Parley.Proofs.Session.Notices
import Parley.Proofs.Isolation.Interleaved
import Parley.Proofs.Input.Serial
import Parley.Proofs.Manager.OneSession
import Parley.Proofs.Manager.Ending
import Parley.Proofs.Script.Metadata
import Parley.Proofs.Script.Substitution
import Parley.Proofs.Session.Atomic
import Parley.Proofs.Display.Attachment
import Parley.Proofs.Bus.OneShot
import Parley.Proofs.Display.Outlook
import Parley.Proofs.Session.Completion
import Parley.Proofs.Manager.FailedStart
import Parley.Proofs.Graph.Keyed
import Parley.Proofs.Graph.Refused
import Parley.Proofs.Manager.Loading
import Parley.Proofs.Script.Conservation
import Parley.Proofs.Actions.Dispatch
import Parley.Proofs.Actions.TwoWays
import Parley.Proofs.Display.Console
import Parley.Proofs.Script.Cuts
import Parley.Proofs.Node.Traversal
import Parley.Proofs.Actions.Additions
import Parley.Proofs.Demo
