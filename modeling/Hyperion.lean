import Hyperion.Capability.Lifetime
import Hyperion.Graph.Tenants
import Hyperion.Graph.Traverse
import Hyperion.Graph.EdgeIdentity
import Hyperion.Audit.Concurrent
import Hyperion.Audit.Anchors
import Hyperion.Events.Confidential
import Hyperion.Events.Order
import Hyperion.Events.Durable
import Hyperion.Events.Buffering
import Hyperion.Recovery.Retention
import Hyperion.Recovery.Crash
import Hyperion.Recovery.Undo
import Hyperion.Recovery.Terminal
import Hyperion.Federation.Converge
import Hyperion.Update.SystemImage
import Hyperion.Update.Signed
import Hyperion.Update.Rollback
import Hyperion.Update.Retry
import Hyperion.Agent.Lifecycle
import Hyperion.Federation.Offload
import Hyperion.Plugin.Review
import Hyperion.Plugin.Failure
import Hyperion.Plugin.Quarantine
import Hyperion.Privacy.Grace
import Hyperion.Privacy.Proof
import Hyperion.Fs.Inodes
import Hyperion.Console.Hex
import Hyperion.Console.Impersonation
import Hyperion.Device.Authority
import Hyperion.Supervision.Authority
import Hyperion.Console.LocalOnly
import Hyperion.Netstack.Egress
import Hyperion.Workspace.Invisible
import Hyperion.App.Contract
import Hyperion.Storage.FailedPut
import Hyperion.Storage.FreshIds
import Hyperion.Storage.Purge
import Hyperion.Ai.Signature
import Hyperion.Context.Budget
import Hyperion.Context.Propagation
