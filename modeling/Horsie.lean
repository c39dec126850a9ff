import Horsie.Account.Titles
import Horsie.Agent.InFlight
import Horsie.Agent.Nudges
import Horsie.Agent.Park
import Horsie.Agent.Repaired
import Horsie.Agent.Retries
import Horsie.Agent.Salvage
import Horsie.Agent.Search
import Horsie.Agent.Summaries
import Horsie.Agent.Window
import Horsie.Agent.Wire
import Horsie.AgentCore.Bounded
import Horsie.AgentCore.Loops
import Horsie.AgentCore.Progress
import Horsie.Artifacts.Uses
import Horsie.Auth.Redemption
import Horsie.Bus.Topic
import Horsie.Client.Tab
import Horsie.Config.Store
import Horsie.Db.Recovery
import Horsie.Db.Revisions
import Horsie.EventLog.Delivery
import Horsie.EventLog.Event
import Horsie.LlmProviders.ChatBody
import Horsie.LlmProviders.MessagesStream
import Horsie.Mcp.Service
import Horsie.Mcp.Stdio
import Horsie.Mcp.Toolbox
import Horsie.Plugins.Artifact
import Horsie.Plugins.Generations
import Horsie.Reconciler.Safety
import Horsie.Routines.Arming
import Horsie.Routines.Isolation
import Horsie.Routines.Ticking
import Horsie.Runtime.Checkouts
import Horsie.Runtime.Provisioning
import Horsie.Runtime.Sweep
import Horsie.Runtime.Velos
import Horsie.Runtime.VendorTable
import Horsie.Runtime.Websocket
import Horsie.RuntimeHost.Connections
import Horsie.RuntimeHost.Lifecycle
import Horsie.RuntimeHost.Overtaking
import Horsie.RuntimeHost.Tracking
import Horsie.Session.Attendance
import Horsie.Session.Branching
import Horsie.Session.Deletion
import Horsie.Session.Outstanding
import Horsie.Session.Readiness
import Horsie.Session.Reports
import Horsie.Session.Restart
import Horsie.Session.Validated
import Horsie.Tools.Reapply
import Horsie.Tools.ReplaceLines
import Horsie.Tools.Spill
import Horsie.Tools.Update
import Horsie.UserInbox.Release
