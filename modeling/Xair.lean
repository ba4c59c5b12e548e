import Xair.Store.Predicates
import Xair.Store.Commit
import Xair.Store.Acknowledge
import Xair.Store.Backends
import Xair.Runtime.TargetLock
import Xair.Runtime.Records
import Xair.Release.Bounds
import Xair.Release.ExactlyOnce
import Xair.Server.Admissions
import Xair.Gateway.Deployment
import Xair.Server.Submission
import Xair.Gateway.Reports
import Xair.Gateway.Starts
import Xair.Gateway.Witness
import Xair.Gateway.Rego
import Xair.Release.CellCtl
import Xair.Context.Grammar
import Xair.Runtime.Replay
import Xair.Runtime.Stranded
import Xair.Runtime.Draining
import Xair.Runtime.PolicyDocument
import Xair.Server.Conflicts
import Xair.Server.Counters
import Xair.Server.Settling
import Xair.Gateway.PlcClient
import Xair.Release.CellLives
import Xair.Runtime.Collection
import Xair.Runtime.Degradation
import Xair.Server.Tombstones
import Xair.Server.Fence
import Xair.Server.Revocations
import Xair.Experiments.Offline
import Xair.Experiments.Paired
import Xair.Store.Updates
import Xair.Release.Recheck
import Xair.Gateway.Mirror
import Xair.Context.SameValue
import Xair.Server.Grounds
import Xair.Gateway.Standing
import Xair.Gateway.Verdicts
