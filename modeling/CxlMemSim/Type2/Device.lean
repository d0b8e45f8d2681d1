import CxlMemSim.Shm.Access
import CxlMemSim.Type2.BarCoherency

/-! Device memory, the CPU-side cache `coherency.cache_lines`, and everything that reads or writes either. -/
namespace CxlMemSim.Type2
open ByteMemory StrideLoop

structure CXLCacheLine where
  state : CXLCoherencyState
  dirty : Bool := false
  data : Nat → UInt8

structure CXLType2State where
  deviceMem : Segment := fun _ => 0
  deviceMemSize : UInt64
  cacheMem : Segment := fun _ => 0
  cacheSize : UInt64
  cacheLines : UInt64 → Option CXLCacheLine := fun _ => none
  coherencyEnabled : Bool := true
  barCoherency : CXLBARCoherencyState
  connected : Bool
  passthroughEnabled : Bool
  vfioDeviceFd : Int
  hetgpuInitialized : Bool
  gpuData : Nat → UInt8 := fun _ => 0

def gpuDataOffset : UInt64 := 0x1000

def gpuDataSize : UInt64 := 0x100000

def gpuCmdRegSize : UInt64 := 0x101000

def gpuBulkTransferSize : UInt64 := 0x4000000

def maxTransferSize : UInt64 := 0x4000000

structure Config where
  deviceMemSize : UInt64
  cacheSize : UInt64
  connected : Bool := false
  passthroughEnabled : Bool := false
  vfioDeviceFd : Int := 0
  hetgpuInitialized : Bool := false

def realize (config : Config) : CXLType2State where
  deviceMemSize := config.deviceMemSize
  cacheSize := config.cacheSize
  barCoherency := { regions := [⟨0, config.cacheSize, 2, true⟩, ⟨0, config.deviceMemSize, 4, true⟩] }
  connected := config.connected
  passthroughEnabled := config.passthroughEnabled
  vfioDeviceFd := config.vfioDeviceFd
  hetgpuInitialized := config.hetgpuInitialized

/-- The accesses that QEMU passes on: of 1, 2, 4 or 8 bytes at a multiple of their size. -/
structure Access where
  addr : UInt64
  size : Nat
  width : size = 1 ∨ size = 2 ∨ size = 4 ∨ size = 8
  aligned : addr.toNat % size = 0

namespace CXLType2State
variable (ct2d : CXLType2State)

def copyIn (offset : UInt64) (buf : Nat → UInt8) (size : UInt64) : CXLType2State :=
  { ct2d with deviceMem := poke ct2d.deviceMem (walk offset) (peek buf id size.toNat) }

def copyOut (offset : UInt64) (i : Nat) : UInt8 := ct2d.deviceMem (walk offset i)

def cacheLookup (addr : UInt64) : Option CXLCacheLine := ct2d.cacheLines (addrToCacheline addr)

def setLine (addr : UInt64) (line : Option CXLCacheLine) : CXLType2State :=
  { ct2d with cacheLines := Function.update ct2d.cacheLines (addrToCacheline addr) line }

def cacheInsert (addr : UInt64) (data : Nat → UInt8) (state : CXLCoherencyState) : CXLType2State :=
  ct2d.setLine addr (some { state, data })

def cacheInvalidate (addr : UInt64) : CXLType2State := ct2d.setLine addr none

def cacheWriteback (addr : UInt64) : CXLType2State :=
  match ct2d.cacheLookup addr with
  | none => ct2d
  | some line =>
    if line.dirty then
      let written :=
        if addrToCacheline addr < ct2d.deviceMemSize then ct2d.copyIn (addrToCacheline addr) line.data 64
        else ct2d
      written.setLine addr (some { line with dirty := false })
    else ct2d

def snoopRequest (addr : UInt64) (invalidate : Bool) : CXLType2State × Bool :=
  match ct2d.cacheLookup addr with
  | none => (ct2d, false)
  | some line =>
    let ct2d := if line.dirty then ct2d.cacheWriteback addr else ct2d
    match ct2d.cacheLookup addr with
    | none => (ct2d, true)
    | some line =>
      if invalidate then (ct2d.setLine addr none, true)
      else (ct2d.setLine addr (some { line with state := .shared }), true)

def request (req : CXLCoherencyReqType) (addr : UInt64) (source : CXLCoherencyDomain) : CXLType2State :=
  { ct2d with barCoherency := (ct2d.barCoherency.coherencyRequest req addr source).1 }

def readMiss (access : Access) : CXLType2State × UInt64 :=
  if access.addr < ct2d.deviceMemSize then
    (ct2d.cacheInsert access.addr (ct2d.copyOut (addrToCacheline access.addr)) .shared,
      UInt64.ofNat (loadLE ct2d.deviceMem (walk access.addr) access.size))
  else (ct2d, 0)

def cacheRead (access : Access) : CXLType2State × UInt64 :=
  let offset := access.addr.toNat % 64
  let ct2d := ct2d.request .rdShared access.addr .cpu
  match ct2d.cacheLookup access.addr with
  | none => ct2d.readMiss access
  | some line =>
    if line.state ≠ .invalid then
      (ct2d, UInt64.ofNat (loadLE line.data (offset + ·) (min access.size (64 - offset))))
    else ct2d.readMiss access

def hasLine (addr : UInt64) : Bool :=
  match ct2d.cacheLookup addr with
  | none => false
  | some line => line.state ≠ .invalid

def fetchLine (addr : UInt64) : CXLType2State :=
  if !ct2d.hasLine addr ∧ addrToCacheline addr < ct2d.deviceMemSize then
    ct2d.cacheInsert addr (ct2d.copyOut (addrToCacheline addr)) .modified
  else ct2d

def writeLine (addr : UInt64) (line : CXLCacheLine) (bytes : List UInt8) : CXLType2State :=
  let offset := addr.toNat % 64
  let data := poke line.data (offset + ·) (bytes.take (64 - offset))
  let ct2d := ct2d.setLine addr (some { state := .modified, dirty := true, data })
  if addr < ct2d.deviceMemSize then { ct2d with deviceMem := poke ct2d.deviceMem (walk addr) bytes } else ct2d

def cacheWrite (access : Access) (value : UInt64) : CXLType2State :=
  let ct2d := (ct2d.request .wrInv access.addr .cpu).fetchLine access.addr
  match ct2d.cacheLookup access.addr with
  | none => ct2d
  | some line => ct2d.writeLine access.addr line (toBytesLE access.size value.toNat)

def gpuCmdWrite (addr value : UInt64) (size : Nat) : CXLType2State :=
  if gpuDataOffset ≤ addr ∧ addr < gpuDataOffset + gpuDataSize then
    let offset := addr - gpuDataOffset
    if offset + UInt64.ofNat size ≤ gpuDataSize then
      { ct2d with gpuData := poke ct2d.gpuData (offset.toNat + ·) (toBytesLE (min size 8) value.toNat) }
    else ct2d
  else ct2d

/-- With a VFIO device the bytes go there; `written` is whether `pwrite` takes them all. -/
def gpuWrite (offset : UInt64) (buf : Nat → UInt8) (size : UInt64) (written : Bool) : CXLType2State × Bool :=
  if ct2d.passthroughEnabled then
    if 0 ≤ ct2d.vfioDeviceFd then
      if written then (ct2d.cacheInvalidate offset, true) else (ct2d, false)
    else if offset + size ≤ ct2d.deviceMemSize then ((ct2d.copyIn offset buf size).cacheInvalidate offset, true)
    else (ct2d, false)
  else (ct2d, false)

inductive CXLGPUError where
  | success | errorInvalidValue | errorOutOfMemory | errorNotInitialized
deriving DecidableEq

/-- What a copy by the GPU backend comes back with: its status, and the bytes that a copy from the GPU has stored. -/
structure GpuReply where
  ok : Bool
  delivered : Option (Nat → UInt8) := none

def notifyGpuAccess (addr : UInt64) (isWrite : Bool) : CXLType2State :=
  { ct2d with barCoherency := ct2d.barCoherency.notifyGpuAccess addr isWrite }

def hetgpuCoherencyCallback (addr size : UInt64) (invalidate : Bool) : Option CXLType2State :=
  if ct2d.coherencyEnabled then
    let ct2d := if ct2d.barCoherency.enabled then ct2d.notifyGpuAccess addr invalidate else ct2d
    if addr ≠ 0 ∧ size ≠ 0 then
      strideLoop 64 (addrToCacheline (addr + size + 63)) (if invalidate then cacheInvalidate else cacheWriteback)
        (2 ^ 58) (addrToCacheline addr) ct2d
    else some ct2d
  else some ct2d

def memCopyHtod (devPtr size : UInt64) (reply : GpuReply) : CXLType2State × CXLGPUError :=
  if gpuDataSize < size then (ct2d, .errorInvalidValue)
  else if ct2d.hetgpuInitialized then
    (if devPtr + size ≤ ct2d.deviceMemSize then (ct2d.copyIn devPtr ct2d.gpuData size).notifyGpuAccess devPtr true
      else ct2d,
      if reply.ok then .success else .errorInvalidValue)
  else if devPtr + size ≤ ct2d.deviceMemSize then
    ((ct2d.copyIn devPtr ct2d.gpuData size).notifyGpuAccess devPtr true, .success)
  else (ct2d, .errorInvalidValue)

def fillGpuData (buf : Option (Nat → UInt8)) (size : UInt64) : CXLType2State :=
  { ct2d with
    gpuData := match buf with
      | some bytes => poke ct2d.gpuData id (peek bytes id size.toNat)
      | none => ct2d.gpuData }

/-- `CXL_GPU_CMD_MEM_COPY_DTOH`.  With a backend the bytes come from the GPU and go to device memory too. -/
def memCopyDtoh (devPtr size : UInt64) (reply : GpuReply) : CXLType2State × CXLGPUError :=
  if gpuDataSize < size then (ct2d, .errorInvalidValue)
  else if ct2d.hetgpuInitialized then
    let ct2d := (ct2d.notifyGpuAccess devPtr false).fillGpuData reply.delivered size
    (if devPtr + size ≤ ct2d.deviceMemSize then ct2d.copyIn devPtr ct2d.gpuData size else ct2d,
      if reply.ok then .success else .errorInvalidValue)
  else if devPtr + size ≤ ct2d.deviceMemSize then
    let ct2d := ct2d.notifyGpuAccess devPtr false
    (ct2d.fillGpuData (some (ct2d.copyOut devPtr)) size, .success)
  else (ct2d, .errorInvalidValue)

def bulkDtoh (bar4Offset xferSize : UInt64) (reply : GpuReply) : CXLType2State × CXLGPUError :=
  if gpuBulkTransferSize < xferSize then (ct2d, .errorInvalidValue)
  else if ct2d.hetgpuInitialized then
    if bar4Offset + xferSize ≤ ct2d.deviceMemSize then
      (match reply.delivered with
        | some bytes => ct2d.copyIn bar4Offset bytes xferSize
        | none => ct2d,
        if reply.ok then .success else .errorInvalidValue)
    else (ct2d, .errorInvalidValue)
  else (ct2d, .errorNotInitialized)

def forLines (start size : UInt64) (body : CXLType2State → UInt64 → CXLType2State) : Option CXLType2State :=
  strideLoop 64 (start + size) body (2 ^ 58) start ct2d

/-- `CXL_GPU_CMD_CACHE_FLUSH` does nothing without a connection. -/
def cacheFlushCmd (addr size : UInt64) : Option CXLType2State :=
  if ct2d.coherencyEnabled ∧ ct2d.connected then ct2d.forLines addr size cacheInvalidate else some ct2d

def cacheInvalidateCmd (addr size : UInt64) : Option CXLType2State :=
  if ct2d.coherencyEnabled then ct2d.forLines addr size cacheInvalidate else some ct2d

def cacheWritebackCmd (addr size : UInt64) : Option CXLType2State :=
  if ct2d.coherencyEnabled then ct2d.forLines addr size cacheWriteback else some ct2d

def processBackInvalidation (ct2d : CXLType2State) (entry : CXLBackInvalidateEntry) : CXLType2State :=
  if entry.source = .gpu then ct2d.cacheInvalidate entry.addr
  else if ct2d.hetgpuInitialized then
    { ct2d with barCoherency := ct2d.barCoherency.snoopUpdate entry.addr .invalid .gpu }
  else ct2d

def coherentFence : CXLType2State :=
  let fenced := ct2d.barCoherency.memoryFence
  fenced.backInvalidateQueue.foldl processBackInvalidation
    { ct2d with barCoherency := { fenced with backInvalidateQueue := [] } }

def setBias (addr size : UInt64) (biasMode : BiasMode) : Option CXLType2State :=
  (ct2d.barCoherency.setBias addr size biasMode).map fun barCoherency => { ct2d with barCoherency }

def biasFlip (addr size : UInt64) (newBias : BiasMode) : Option CXLType2State :=
  (ct2d.barCoherency.biasFlip addr size newBias).map fun barCoherency => { ct2d with barCoherency }

/-- A registered peer. Discovering the peers again registers the owner under a new id. -/
structure CXLP2PPeer where
  isType2 : Bool
  isOwner : Bool
  memSize : UInt64

def ensureCoherency (peer : CXLP2PPeer) (addr : UInt64) (isWrite : Bool) : CXLType2State :=
  if peer.isType2 ∧ peer.isOwner then
    if isWrite then (ct2d.request .wrInv addr .gpu).cacheInvalidate addr
    else (ct2d.request .rdShared addr .gpu).cacheWriteback addr
  else ct2d

structure CXLP2PDescriptor where
  srcPeer : CXLP2PPeer
  dstPeer : CXLP2PPeer
  srcAddr : UInt64
  dstAddr : UInt64
  size : UInt64
  coherent : Bool

def prepareTransfer (desc : CXLP2PDescriptor) : CXLType2State :=
  if desc.coherent then
    (ct2d.ensureCoherency desc.dstPeer desc.dstAddr true).ensureCoherency desc.srcPeer desc.srcAddr false
  else ct2d

def sourceBytes (desc : CXLP2PDescriptor) (fetched : Nat → UInt8) : Nat → UInt8 :=
  if desc.srcPeer.isType2 then ct2d.copyOut desc.srcAddr else fetched

/-- `perform_p2p_transfer` between two registered peers, as far as the owner is concerned.  The result is
the error code. -/
def performP2pTransfer (desc : CXLP2PDescriptor) (fetched : Nat → UInt8) : CXLType2State × UInt32 :=
  if maxTransferSize < desc.size then (ct2d, 2)
  else if desc.srcPeer.memSize < desc.srcAddr + desc.size ∨ desc.dstPeer.memSize < desc.dstAddr + desc.size then
    (ct2d, 3)
  else
    let ct2d := ct2d.prepareTransfer desc
    let bytes := ct2d.sourceBytes desc fetched
    let ct2d := if desc.dstPeer.isType2 then ct2d.copyIn desc.dstAddr bytes desc.size else ct2d
    (if desc.dstPeer.isOwner then ct2d.notifyGpuAccess desc.dstAddr true else ct2d, 0)

def trackCpu (barOffset : UInt64) (req : CXLCoherencyReqType) (state : CXLCoherencyState) : CXLBARCoherencyState :=
  let coh := ct2d.barCoherency
  let coh := match coh.findRegionForAddr barOffset with
    | some region => if region.coherent then (coh.coherencyRequest req barOffset .cpu).1 else coh
    | none => coh
  coh.snoopInsert barOffset state .cpu

def queueForGpu (coh : CXLBARCoherencyState) (addr size : UInt64) : CXLBARCoherencyState :=
  let (coh, entry) := coh.snoopLookup addr
  match entry with
  | some entry => if .gpu ∈ entry.domainMask then coh.backInvalidate addr size .cpu else coh
  | none => coh

/-- BAR 2 is the cache memory, BAR 4 the device memory. -/
def coherentRead (barOffset : UInt64) (size : Nat) (barIndex : UInt32) : CXLType2State × UInt64 :=
  if barIndex = 2 ∨ barIndex = 4 then
    let (mem, memSize) := if barIndex = 2 then (ct2d.cacheMem, ct2d.cacheSize) else (ct2d.deviceMem, ct2d.deviceMemSize)
    let barCoherency :=
      if ct2d.barCoherency.enabled then ct2d.trackCpu barOffset .rdShared .shared else ct2d.barCoherency
    ({ ct2d with barCoherency },
      if barOffset + UInt64.ofNat size ≤ memSize then UInt64.ofNat (loadLE mem (walk barOffset) (min size 8)) else 0)
  else (ct2d, 0)

def coherentWrite (barOffset value : UInt64) (size : Nat) (barIndex : UInt32) : CXLType2State :=
  if barIndex = 2 ∨ barIndex = 4 then
    let barCoherency :=
      if ct2d.barCoherency.enabled then
        queueForGpu (ct2d.trackCpu barOffset .wrInv .modified) barOffset (UInt64.ofNat size)
      else ct2d.barCoherency
    let ct2d := { ct2d with barCoherency }
    let bytes := toBytesLE (min size 8) value.toNat
    if barIndex = 2 then
      if barOffset + UInt64.ofNat size ≤ ct2d.cacheSize then
        { ct2d with cacheMem := poke ct2d.cacheMem (walk barOffset) bytes }
      else ct2d
    else if barOffset + UInt64.ofNat size ≤ ct2d.deviceMemSize then
      { ct2d with deviceMem := poke ct2d.deviceMem (walk barOffset) bytes }
    else ct2d
  else ct2d

inductive CXLAtomicOp where
  | add | sub | and | or | xor | min | max | cas | swap

def CXLAtomicOp.apply (old operand1 operand2 : UInt64) : CXLAtomicOp → UInt64
  | .add => old + operand1
  | .sub => old - operand1
  | .and => old &&& operand1
  | .or => old ||| operand1
  | .xor => old ^^^ operand1
  | .min => if old < operand1 then old else operand1
  | .max => if operand1 < old then old else operand1
  | .cas => if old = operand1 then operand2 else old
  | .swap => operand1

def atomicOp (addr operand1 operand2 : UInt64) (op : CXLAtomicOp) (size : Nat) : CXLType2State × UInt64 :=
  if ct2d.deviceMemSize ≤ addr then (ct2d, 0)
  else
    let ct2d := ct2d.request .rdOwn addr .cpu
    let width := Nat.min size 8
    let oldValue := UInt64.ofNat (loadLE ct2d.deviceMem (walk addr) width)
    let newValue := op.apply oldValue operand1 operand2
    let deviceMem := storeLE ct2d.deviceMem (walk addr) width newValue.toNat
    -- the old value is read and the new one written under the lock
    let coh := ct2d.barCoherency.acquire.release
    let barCoherency :=
      if coh.enabled then queueForGpu (coh.snoopUpdate addr .modified .cpu) addr (UInt64.ofNat size) else coh
    ({ ct2d with deviceMem, barCoherency }, oldValue)

end CXLType2State

/-- What reaches the device. Below the command registers' end a guest access is one of those registers. -/
inductive Call where
  | read (access : Access)
  | write (access : Access) (value : UInt64)
  | memCopyHtod (devPtr size : UInt64) (reply : CXLType2State.GpuReply)
  | memCopyDtoh (devPtr size : UInt64) (reply : CXLType2State.GpuReply)
  | bulkDtoh (bar4Offset xferSize : UInt64) (reply : CXLType2State.GpuReply)
  | cacheFlush (addr size : UInt64)
  | cacheInvalidate (addr size : UInt64)
  | cacheWriteback (addr size : UInt64)
  | coherentFence
  | setBias (addr size : UInt64) (biasMode : BiasMode)
  | biasFlip (addr size : UInt64) (newBias : BiasMode)
  | p2pTransfer (desc : CXLType2State.CXLP2PDescriptor) (fetched : Nat → UInt8)
  | snoopMessage (addr : UInt64) (invalidate : Bool)
  | invalidateMessage (addr : UInt64)
  | gpuWrite (offset : UInt64) (buf : Nat → UInt8) (size : UInt64) (written : Bool)
  | coherentRead (barOffset : UInt64) (size : Nat) (barIndex : UInt32)
  | coherentWrite (barOffset value : UInt64) (size : Nat) (barIndex : UInt32)
  | atomicOp (addr operand1 operand2 : UInt64) (op : CXLType2State.CXLAtomicOp) (size : Nat)

namespace CXLType2State

/-- `none` for a command whose loop does not end. -/
def exec (ct2d : CXLType2State) : Call → Option CXLType2State
  | .read access => some (if access.addr < gpuCmdRegSize then ct2d else (ct2d.cacheRead access).1)
  | .write access value => some
      (if access.addr < gpuCmdRegSize then ct2d.gpuCmdWrite access.addr value access.size
      else ct2d.cacheWrite access value)
  | .memCopyHtod devPtr size reply => some (ct2d.memCopyHtod devPtr size reply).1
  | .memCopyDtoh devPtr size reply => some (ct2d.memCopyDtoh devPtr size reply).1
  | .bulkDtoh bar4Offset xferSize reply => some (ct2d.bulkDtoh bar4Offset xferSize reply).1
  | .cacheFlush addr size => ct2d.cacheFlushCmd addr size
  | .cacheInvalidate addr size => ct2d.cacheInvalidateCmd addr size
  | .cacheWriteback addr size => ct2d.cacheWritebackCmd addr size
  | .coherentFence => some ct2d.coherentFence
  | .setBias addr size biasMode => ct2d.setBias addr size biasMode
  | .biasFlip addr size newBias => ct2d.biasFlip addr size newBias
  | .p2pTransfer desc fetched => some (ct2d.performP2pTransfer desc fetched).1
  | .snoopMessage addr invalidate => some (ct2d.snoopRequest addr invalidate).1
  | .invalidateMessage addr => some (ct2d.cacheInvalidate addr)
  | .gpuWrite offset buf size written => some (ct2d.gpuWrite offset buf size written).1
  | .coherentRead barOffset size barIndex => some (ct2d.coherentRead barOffset size barIndex).1
  | .coherentWrite barOffset value size barIndex => some (ct2d.coherentWrite barOffset value size barIndex)
  | .atomicOp addr operand1 operand2 op size => some (ct2d.atomicOp addr operand1 operand2 op size).1

end CXLType2State

def step (ct2d : Option CXLType2State) (c : Call) : Option CXLType2State := ct2d.bind (·.exec c)

def run (config : Config) (calls : List Call) : Option CXLType2State := calls.foldl step (some (realize config))

end CxlMemSim.Type2
