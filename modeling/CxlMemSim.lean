import CxlMemSim.Shm.Lifecycle
import CxlMemSim.Shm.Validity
import CxlMemSim.Server.Atomic
import CxlMemSim.Server.Failure
import CxlMemSim.Pgas.Isolation
import CxlMemSim.Pgas.OldValue
import CxlMemSim.Pgas.Handshake
import CxlMemSim.Comm.Ring
import CxlMemSim.Coherency.Messages
import CxlMemSim.Mhsld.Agree
import CxlMemSim.Mhsld.BackInvalidation
import CxlMemSim.Mhsld.Pool
import CxlMemSim.Hdm.Interleaved
import CxlMemSim.Hdm.Ranges
import CxlMemSim.Dist.Matching
import CxlMemSim.Dist.Home
import CxlMemSim.Dist.Queue
import CxlMemSim.Dist.Lsa
import CxlMemSim.Dist.PendingLocks
import CxlMemSim.Dist.Arrival
import CxlMemSim.Type2.DeviceWrites
import CxlMemSim.Type2.SnoopConsistent
import CxlMemSim.Type2.Writebacks
import CxlMemSim.Type2.BiasFlip
import CxlMemSim.Type2.FilterSize
import CxlMemSim.Type2.RangeCalls
import CxlMemSim.Type2.RangeCommands
import CxlMemSim.Type2.MemCopy
import CxlMemSim.Type2.CoherencyLock
import CxlMemSim.Type2.Allocators
import CxlMemSim.Type2.P2pQueue
import CxlMemSim.Type2.P2pPeers
import CxlMemSim.Mpi.UniformFallback
import CxlMemSim.Mpi.CollectiveResult
import CxlMemSim.Mpi.PointToPointLaw
import CxlMemSim.Mpi.SendSteps
import CxlMemSim.Mpi.Leftover
import CxlMemSim.Mpi.WindowLock
import CxlMemSim.Mpi.WindowAccess
import CxlMemSim.Qemu.HostBits
import CxlMemSim.Qemu.InvalidationQueue
import CxlMemSim.Type3.Lsa
import CxlMemSim.Endpoint.Credits
import CxlMemSim.Endpoint.TopoDenotes
import CxlMemSim.Endpoint.TopoFaults
import CxlMemSim.Endpoint.Congestion
import CxlMemSim.Endpoint.Bandwidth
import CxlMemSim.Endpoint.Fifo
import CxlMemSim.Comm.Tcp
import CxlMemSim.Simulator.Rob
