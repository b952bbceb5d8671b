import RallyPoint.Transport.Correctness.Collapse
import RallyPoint.Transport.Correctness.History
import RallyPoint.Relay.Correctness.Validation
import RallyPoint.Transport.Correctness.Delivery
import RallyPoint.Relay.Correctness.MakerSync
import RallyPoint.Relay.Correctness.Hashes
import RallyPoint.Relay.Correctness.LeaveCounts
import RallyPoint.Relay.Correctness.Finalize
import RallyPoint.Relay.Correctness.Fencing
import RallyPoint.Relay.Correctness.Presence
import RallyPoint.Client.Correctness.Directive
import RallyPoint.Relay.Correctness.Honor
import RallyPoint.Relay.Correctness.Holds
import RallyPoint.Relay.Correctness.Completion
import RallyPoint.Relay.Correctness.Promotion
import RallyPoint.Relay.Correctness.OwnPresence
import RallyPoint.Relay.Correctness.Redial
import RallyPoint.Client.Correctness.Reorder
import RallyPoint.Relay.ClockProgress
import RallyPoint.Relay.Correctness.Clock
import RallyPoint.Relay.Correctness.LeaveFrame
import RallyPoint.Client.Correctness.SyncGeneration
import RallyPoint.Relay.Correctness.Resume
import RallyPoint.Coordinator.Correctness.Create
import RallyPoint.Coordinator.Correctness.Rehome
import RallyPoint.Coordinator.Correctness.Departures
import RallyPoint.Coordinator.Correctness.Retirement
import RallyPoint.Coordinator.Presence
import RallyPoint.Coordinator.Attest
import RallyPoint.Coordinator.Webhooks
import RallyPoint.Transport.Correctness.MeshLink
import RallyPoint.Client.Phase
import RallyPoint.Coordinator.RateLimit
import RallyPoint.Relay.Correctness.ParseSync
