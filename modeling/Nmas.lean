import Nmas.Text.Str
import Nmas.Outline.Chains
import Nmas.Outline.Modes
import Nmas.Outline.ReadBack
import Nmas.Nsot.Diff.Preview
import Nmas.Nsot.Removal.Candidates
import Nmas.Nsot.Roundtrip
import Nmas.Nsot.Rollback.Sources
import Nmas.Nsot.Rollback.Provenance
import Nmas.Pipeline.Run
import Nmas.Sdn.Modes
import Nmas.Sdn.Pending
import Nmas.Sdn.Detect.Sustained
import Nmas.Sdn.Detect.Episodes
import Nmas.Sdn.FlowIntent.Verdicts
import Nmas.Log.Touches
import Nmas.Sdn.FlowOps.Undone
import Nmas.Heal.Kept
import Nmas.Heal.Grounded
import Nmas.Heal.Rates
import Nmas.Ai.Reservations
import Nmas.Holds.OneHolder
import Nmas.Holds.Interrupted
import Nmas.Holds.Busy
import Nmas.Heal.OneOutcome
import Nmas.Rotation.Rates
import Nmas.Ai.MadeOnce
import Nmas.Ai.WaitedFor
import Nmas.Ai.Batches.Accounted
import Nmas.Nsot.RolledBack.Blocked
import Nmas.Dhcp.Unique
import Nmas.Dhcp.Undone
import Nmas.Dhcp.Kept
import Nmas.Nsot.ReadBack.Alarms
import Nmas.Nsot.RenderArtifact
import Nmas.Nsot.Removal.Program
import Nmas.Alerts.Archive
import Nmas.Heal.Triggers
import Nmas.Records.Kept
import Nmas.Nsot.Approval.Sound
import Nmas.Nsot.Repo.Renames
import Nmas.Nsot.Repo.SaveGolden
import Nmas.History.Shared
import Nmas.Nsot.Batch
import Nmas.Nsot.Rollback.Instances
import Nmas.Nsot.Rollback.Regrouped
import Nmas.Pipeline.ConfigDiff
import Nmas.Sdn.FlowIntent.Exact
import Nmas.Sdn.FlowOps.Response
import Nmas.Sdn.Detect.OneKey
import Nmas.Sdn.Detect.Windowed
import Nmas.Sdn.ClosedLoop.TopologyPorts
import Nmas.Heal.Halted
import Nmas.Heal.Persisted
import Nmas.Nsot.Recreate.Excluded
import Nmas.Nsot.Recreate.Restored
import Nmas.Nsot.BulkIntent.Steps
import Nmas.Sdn.Incidents.Exact
import Nmas.Sdn.Trace.Exact
import Nmas.Nsot.Banners
import Nmas.Dhcp.PoolsApart
import Nmas.Heal.Units
import Nmas.Dhcp.Moved
import Nmas.Nsot.NewHardware.Sound
import Nmas.Nsot.Convergence
import Nmas.Nsot.Coverage
import Nmas.Nsot.HiddenLines
import Nmas.Rotation.NextStart
import Nmas.Filestore.OneHolder
import Nmas.PathTrace.EveryWay
