import K3sm.Bootstrap.MemberRoute
import K3sm.Bootstrap.RateBounds
import K3sm.Eviction.BudgetWorse
import K3sm.Eviction.Paced
import K3sm.Executor.ChildReports
import K3sm.Executor.EtcdRestore
import K3sm.Executor.KineHistory
import K3sm.Executor.KineRestore
import K3sm.Executor.SnapshotSchedule
import K3sm.Executor.SnapshotVerified
import K3sm.Helmchart.Exclusion
import K3sm.Interconnect.Cabling
import K3sm.Interconnect.Segments
import K3sm.Mesh.OneOwner
import K3sm.Mesh.ServerIdentity
import K3sm.Mlx.Sizing
import K3sm.Mlx.Topology
import K3sm.Modelpack.Download
import K3sm.Netserve.ZoneName
import K3sm.Podlogs.Lossless
import K3sm.Podlogs.ReadBack
import K3sm.Podlogs.Sweep
import K3sm.Podlogs.TailRing
import K3sm.Policy.VmPodFit
import K3sm.Provider.LateCreates
import K3sm.Provider.NoStaleOverride
import K3sm.Provider.OneDeath
import K3sm.Provider.OneWorker
import K3sm.Registry.ChunkRange
import K3sm.Registry.ConditionalDelete
import K3sm.Registry.ConvergeRotation
import K3sm.Registry.GateForward
import K3sm.Registry.HalfBrake
import K3sm.Registry.Listing
import K3sm.Registry.NamedSweep
import K3sm.Registry.PruneOrder
import K3sm.Registry.PutResolves
import K3sm.Registry.QuotaExact
import K3sm.Registry.ReferrerProgress
import K3sm.Registry.RepoListing
import K3sm.Registry.RowOrder
import K3sm.Registry.Serving
import K3sm.Registry.UploadAppend
import K3sm.Registry.UploadCommit
import K3sm.Registry.UploadFloor
import K3sm.Svclb.Earned
import K3sm.Svclb.TruthfulReport
import K3sm.Update.LostWrites
import K3sm.Update.Retention
import K3sm.Updatectl.Cancel
import K3sm.Updatectl.Cordon
import K3sm.Updatectl.Downgrade
import K3sm.Updatectl.SettleRun
