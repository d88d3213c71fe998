import Mullion.Lib.Run
import Mullion.Lib.Table
import Mullion.Task.Worker
import Mullion.Mux.Pair
import Mullion.Mux.Budget
import Mullion.Mux.Credit
import Mullion.Mux.Allocation
import Mullion.Task.Cap
import Mullion.Task.Sweeps
import Mullion.Task.AutoClaim
import Mullion.Task.Orphan
import Mullion.Task.WorkflowGate
import Mullion.Project.Lossless
import Mullion.Session.Exits
import Mullion.Message.Order
import Mullion.Placement.Discreet
import Mullion.Pty.Master
import Mullion.Relay.Eof
import Mullion.Relay.Pairing
import Mullion.Relay.Parking
import Mullion.Stream.Delivery
import Mullion.Auth.Nonce
import Mullion.Auth.Bridge
import Mullion.Auth.OneHost
import Mullion.Auth.Signed
import Mullion.Terminal.Replay
import Mullion.Terminal.Gapless
import Mullion.Event.Paging
import Mullion.Message.Frame
import Mullion.Project.Owners
import Mullion.Pty.Deframer
import Mullion.Placement.Optimal
import Mullion.Placement.Waiting
import Mullion.Event.ReadCursor
import Mullion.Lib.Window
import Mullion.Event.Feed
import Mullion.Event.Writer
import Mullion.Session.ReviewGate
import Mullion.Session.Attention
import Mullion.Session.Tracker
import Mullion.Session.Hooks
import Mullion.Session.Owned
import Mullion.Session.StateFile
import Mullion.Session.Wait
import Mullion.Git.Readings
import Mullion.Git.Status
import Mullion.Url.Guard
import Mullion.Auth.HostIdentity
import Mullion.Auth.Revocation
import Mullion.Relay.SignOnly
import Mullion.Terminal.Ring
import Mullion.Terminal.Boundaries
import Mullion.Terminal.Cwd
import Mullion.Terminal.Strip
import Mullion.Session.OutputWait
import Mullion.Stream.Settling
import Mullion.Stream.Streaming
import Mullion.Stream.Outcome
import Mullion.Files.Roots
import Mullion.Host.Links
import Mullion.Session.HookInput
import Mullion.Session.ControlSocket
import Mullion.Session.HookMessages
import Mullion.Git.Log
import Mullion.Session.AttentionRuns
import Mullion.Terminal.StartupQuery
import Mullion.Task.RetryBackoff
import Mullion.Git.GraphLayout
import Mullion.Page.Workspaces
import Mullion.Task.Quarantine
import Mullion.Lib.Fields
import Mullion.Page.SettingsMerge
