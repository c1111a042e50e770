import Kubernetes.Apiserver.CacherSnapshots
import Kubernetes.Apiserver.GuaranteedUpdate
import Kubernetes.Apiserver.Pagination
import Kubernetes.Apiserver.QuotaCharges
import Kubernetes.Apiserver.ShuffleSharding
import Kubernetes.Apiserver.WatchHistory
import Kubernetes.ClientGo.SharedInformer
import Kubernetes.ClientGo.WorkQueue
import Kubernetes.Controllers.IndexedJob
import Kubernetes.Controllers.RollingAvailability
import Kubernetes.Controllers.StatefulSetOrder
import Kubernetes.Kubelet.CPUCheckpoint
import Kubernetes.Kubelet.CPUPreference
import Kubernetes.Kubelet.MemoryRestart
import Kubernetes.Rbac.Escalation
import Kubernetes.Registry.FailedUpdate
import Kubernetes.Registry.Repair
import Kubernetes.Resource.QuantityArithmetic
import Kubernetes.Scheduler.CachePods
import Kubernetes.Scheduler.CriticalPaths
import Kubernetes.Scheduler.HostPorts
import Kubernetes.Scheduler.InterPodAffinity
import Kubernetes.Scheduler.PreemptionOrder
import Kubernetes.Scheduler.QueueMoves
import Kubernetes.Scheduler.SnapshotRuns
