import CxlMemSim.Type2.Device

/-! Transfers between the memories of registered peers, the queue they pass through, and the three commands that ask for
one. -/
namespace CxlMemSim.Type2
open ByteMemory

structure CXLType3Dev where
  slot : Nat
  hostmem : Bool
deriving DecidableEq

/-- `pci_dev` of a peer.  Only the engine's owner registers as a Type 2 peer. -/
inductive PCIDevice where
  | type2
  | type3 (ct3d : CXLType3Dev)
deriving DecidableEq

def PCIDevice.hasMemPtr : PCIDevice → Bool
  | .type2 => true
  | .type3 ct3d => ct3d.hostmem

namespace P2p

structure CXLP2PPeer where
  pciDev : PCIDevice
  memSize : UInt64
  peerId : UInt32
deriving DecidableEq

inductive CXLP2PStatus where
  | idle | pending | inProgress | complete | error | aborted
deriving DecidableEq

structure CXLP2PDescriptor where
  srcAddr : UInt64
  dstAddr : UInt64
  size : UInt64
  srcPeerId : UInt32
  dstPeerId : UInt32
  sync : Bool
  coherent : Bool
  status : CXLP2PStatus := .idle
  errorCode : UInt32 := 0

def CXLP2PDescriptor.fail (desc : CXLP2PDescriptor) (errorCode : UInt32) : CXLP2PDescriptor :=
  { desc with status := .error, errorCode }

def maxPeers : Nat := 16

def queueDepth : Nat := 64

structure CXLP2PDMAEngine where
  peers : Vector (Option CXLP2PPeer) maxPeers := Vector.replicate maxPeers none
  ownerPeerId : UInt32 := 0
  enabled : Bool := true
  pendingTransfers : List CXLP2PDescriptor := []
  completedTransfers : List CXLP2PDescriptor := []

def CXLP2PDMAEngine.getPeer (engine : CXLP2PDMAEngine) (peerId : UInt32) : Option CXLP2PPeer :=
  engine.peers.toList.findSome? fun slot => slot.filter (·.peerId = peerId)

structure Host where
  ct2d : CXLType2State
  type3 : CXLType3Dev → Segment
  engine : CXLP2PDMAEngine

namespace Host
variable (host : Host)

def mem : PCIDevice → Segment
  | .type2 => host.ct2d.deviceMem
  | .type3 ct3d => host.type3 ct3d

def setMem (dev : PCIDevice) (bytes : Segment) : Host :=
  match dev with
  | .type2 => { host with ct2d := { host.ct2d with deviceMem := bytes } }
  | .type3 ct3d => { host with type3 := Function.update host.type3 ct3d bytes }

def store (dev : PCIDevice) (addr : UInt64) (buf : Nat → UInt8) (size : UInt64) : Host :=
  host.setMem dev (poke (host.mem dev) (walk addr) (peek buf id size.toNat))

def load (dev : PCIDevice) (addr : UInt64) (i : Nat) : UInt8 := host.mem dev (walk addr i)

end Host

def copyChunk {α : Type} [DecidableEq α] (size : Nat) (buf : Nat → UInt8) (at_ : Nat → α) (m : α → UInt8) (off : Nat) :
    α → UInt8 :=
  let chunk := min 8 (size - off)
  storeLE m (fun i => at_ (off + i)) chunk (loadLE buf (off + ·) chunk)

/-- The size is at most 64 MiB here, so that the offset does not wrap. -/
def copyChunks {α : Type} [DecidableEq α] (size : UInt64) (buf : Nat → UInt8) (at_ : Nat → α) (m : α → UInt8) :
    α → UInt8 :=
  (List.range ((size.toNat + 7) / 8)).foldl (fun m k => copyChunk size.toNat buf at_ m (8 * k)) m

def rangesMeet (src dst size : UInt64) : Bool := dst - src < size || src - dst < size

namespace Host
variable (host : Host)

def directCopy (src dst : PCIDevice) (desc : CXLP2PDescriptor) (junk : Nat → UInt8) : Host :=
  host.store dst desc.dstAddr
    (if src = dst ∧ rangesMeet desc.srcAddr desc.dstAddr desc.size then junk else host.load src desc.srcAddr)
    desc.size

/-- The source has no pointer.  The buffer read from it goes nowhere if the destination has none either. -/
def copyFromType3 (src dst : PCIDevice) (desc : CXLP2PDescriptor) (junk : Nat → UInt8) : Host :=
  if src.hasMemPtr then host
  else
    let tempBuf := copyChunks desc.size (host.load src desc.srcAddr) id junk
    if dst.hasMemPtr then host.store dst desc.dstAddr tempBuf desc.size else host

/-- The destination has no pointer.  The buffer is the source's memory, or one that nobody filled. -/
def copyToType3 (src dst : PCIDevice) (desc : CXLP2PDescriptor) (junk : Nat → UInt8) : Host :=
  if dst.hasMemPtr then host
  else
    let tempBuf := if src.hasMemPtr then host.load src desc.srcAddr else junk
    host.setMem dst (copyChunks desc.size tempBuf (walk desc.dstAddr) (host.mem dst))

def transfer (src dst : PCIDevice) (desc : CXLP2PDescriptor) (junk : Nat → UInt8) : Host :=
  if src.hasMemPtr ∧ dst.hasMemPtr then host.directCopy src dst desc junk
  else (host.copyFromType3 src dst desc junk).copyToType3 src dst desc junk

end Host

def CXLP2PDMAEngine.ownerView (engine : CXLP2PDMAEngine) (peer : CXLP2PPeer) : CXLType2State.CXLP2PPeer where
  isType2 := peer.pciDev = .type2
  isOwner := peer.peerId = engine.ownerPeerId
  memSize := peer.memSize

def CXLP2PDMAEngine.resolve (engine : CXLP2PDMAEngine) (src dst : CXLP2PPeer) (desc : CXLP2PDescriptor) :
    CXLType2State.CXLP2PDescriptor where
  srcPeer := engine.ownerView src
  dstPeer := engine.ownerView dst
  srcAddr := desc.srcAddr
  dstAddr := desc.dstAddr
  size := desc.size
  coherent := desc.coherent

namespace Host
variable (host : Host)

def prepare (src dst : CXLP2PPeer) (desc : CXLP2PDescriptor) : Host :=
  { host with ct2d := host.ct2d.prepareTransfer (host.engine.resolve src dst desc) }

def notify (dst : CXLP2PPeer) (desc : CXLP2PDescriptor) : Host :=
  if dst.peerId = host.engine.ownerPeerId then { host with ct2d := host.ct2d.notifyGpuAccess desc.dstAddr true }
  else host

/-- Where the coherency lock is taken twice the call does not return, which shows in the state. -/
def performP2pTransfer (desc : CXLP2PDescriptor) (junk : Nat → UInt8) : Host × CXLP2PDescriptor :=
  match host.engine.getPeer desc.srcPeerId, host.engine.getPeer desc.dstPeerId with
  | some src, some dst =>
    if maxTransferSize < desc.size then (host, desc.fail 2)
    else if src.memSize < desc.srcAddr + desc.size ∨ dst.memSize < desc.dstAddr + desc.size then (host, desc.fail 3)
    else
      let host := (host.prepare src dst desc).transfer src.pciDev dst.pciDev desc junk
      (host.notify dst desc, { desc with status := .complete })
  | _, _ => (host, desc.fail 1)

def performHead (desc : CXLP2PDescriptor) (junk : Nat → UInt8) : Host × CXLP2PDescriptor :=
  match host.engine.pendingTransfers with
  | [] => (host, desc)
  | pending :: rest =>
    let popped := { host with engine := { host.engine with pendingTransfers := rest } }
    let (host, pending) := popped.performP2pTransfer pending junk
    ({ host with engine := { host.engine with completedTransfers := host.engine.completedTransfers ++ [pending] } },
      { desc with status := pending.status, errorCode := pending.errorCode })

def dmaSubmit (desc : CXLP2PDescriptor) (junk : Nat → UInt8) : Host × CXLP2PDescriptor × Int :=
  if !host.engine.enabled then (host, desc, -1)
  else if queueDepth ≤ host.engine.pendingTransfers.length then (host, desc, -1)
  else
    let queued := { desc with status := .pending }
    let host := { host with
      engine := { host.engine with pendingTransfers := host.engine.pendingTransfers ++ [queued] } }
    if desc.sync then
      let (host, desc) := host.performHead desc junk
      (host, desc, 0)
    else (host, desc, 0)

def dmaSubmitAndWait (desc : CXLP2PDescriptor) (junk : Nat → UInt8) : Host × CXLP2PDescriptor × Int :=
  host.dmaSubmit { desc with sync := true } junk

end Host

/-- `CXL_GPU_CMD_P2P_GPU_TO_MEM`, `CXL_GPU_CMD_P2P_MEM_TO_GPU` and `CXL_GPU_CMD_P2P_MEM_TO_MEM` with their
parameters. -/
inductive P2pCommand where
  | gpuToMem (t3PeerId gpuOffset memOffset xferSize : UInt64)
  | memToGpu (t3PeerId memOffset gpuOffset xferSize : UInt64)
  | memToMem (srcPeerId dstPeerId srcOffset dstOffset xferSize : UInt64)

namespace P2pCommand

def descriptor (engine : CXLP2PDMAEngine) : P2pCommand → CXLP2PDescriptor
  | gpuToMem t3PeerId gpuOffset memOffset xferSize =>
    { srcAddr := gpuOffset, dstAddr := memOffset, size := xferSize, srcPeerId := engine.ownerPeerId,
      dstPeerId := t3PeerId.toUInt32, sync := true, coherent := true }
  | memToGpu t3PeerId memOffset gpuOffset xferSize =>
    { srcAddr := memOffset, dstAddr := gpuOffset, size := xferSize, srcPeerId := t3PeerId.toUInt32,
      dstPeerId := engine.ownerPeerId, sync := true, coherent := true }
  | memToMem srcPeerId dstPeerId srcOffset dstOffset xferSize =>
    { srcAddr := srcOffset, dstAddr := dstOffset, size := xferSize, srcPeerId := srcPeerId.toUInt32,
      dstPeerId := dstPeerId.toUInt32, sync := true, coherent := true }

def exec (c : P2pCommand) (host : Host) (junk : Nat → UInt8) : Host × CXLType2State.CXLGPUError :=
  let (host, _, ret) := host.dmaSubmitAndWait (c.descriptor host.engine) junk
  (host, if ret = 0 then .success else .errorOutOfMemory)

end P2pCommand
end P2p
end CxlMemSim.Type2
