import Clusterd.AuthorizerRoles
import Clusterd.CgroupsRecover
import Clusterd.CommonApply
import Clusterd.Contender
import Clusterd.CsiLifecycle
import Clusterd.CsiOrder
import Clusterd.DevicesEnforced
import Clusterd.DevicesRecover
import Clusterd.DockerMemory
import Clusterd.DockerPulls
import Clusterd.FilesGuarded
import Clusterd.GidExclusive
import Clusterd.GpuContainerizers
import Clusterd.GpuOwnership
import Clusterd.GpuRocm
import Clusterd.GroupLeader
import Clusterd.LogAgreement
import Clusterd.LogInitialize
import Clusterd.MasterAcknowledged
import Clusterd.MasterDraining
import Clusterd.MasterSchedules
import Clusterd.OomListener
import Clusterd.OperationReconcile
import Clusterd.PortAllocator
import Clusterd.PortRanges
import Clusterd.ProviderConnections
import Clusterd.Provisioner
import Clusterd.ResourcesNested
import Clusterd.SlaveAtomic
import Clusterd.SorterAllocation
import Clusterd.StateAtomic
import Clusterd.StatusDelivery
