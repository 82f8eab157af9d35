import Horizon.Invariants.Missions
import Horizon.Invariants.Capacity
import Horizon.Invariants.Ownership
import Horizon.Invariants.Objectives
import Horizon.Integrations.Targets
import Horizon.Invariants.Labels
import Horizon.Invariants.MaintainerDecisions
import Horizon.Missions.GoalUpdates
import Horizon.Missions.Queue
import Horizon.Worker.StopReceipts
import Horizon.Worker.Preservation
import Horizon.Client.Settlement
import Horizon.Integrations.ChangeVerification
import Horizon.Execution.Coordination
import Horizon.Review.LabelKeys
import Horizon.Execution.Completion
import Horizon.Worker.CacheRetention
import Horizon.Projects.GraphProgress
import Horizon.Dashboard.Pages
import Horizon.Worker.ActivityReplay
