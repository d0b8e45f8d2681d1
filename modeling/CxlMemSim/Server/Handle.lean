import CxlMemSim.Server.State

/-! `handle_request` and what it calls, one function of the source at a time. -/
namespace CxlMemSim
open ByteMemory

def copyInto (buffer : Vector UInt8 64) (bytes : List UInt8) : Vector UInt8 64 :=
  Vector.ofFn fun i => bytes.getD i buffer[i]

def registerBackInvalidation (cachelineAddr : UInt64) (sourceThreadId : Int) (dirtyData : List UInt8)
    (timestamp : UInt64) (s : ServerState) : ServerState :=
  let entry : BackInvalidationEntry := { cachelineAddr, sourceThreadId, timestamp, dirtyData }
  let queue := s.backInvalidationQueue cachelineAddr ++ [entry]
  { s with backInvalidationQueue := Function.update s.backInvalidationQueue cachelineAddr queue }

/-- The `while` loop of `check_and_apply_back_invalidations` over the pending entries.
The bytes go to the start of the line, whatever offset they were taken from. -/
def applyBackInvalidations (cachelineAddr : UInt64) :
    List BackInvalidationEntry → (Nat → Bool) → ServerState → Bool → ServerState × Bool
  | [], _, s, had => (s, had)
  | entry :: rest, msync, s, had =>
    let info := s.metadata cachelineAddr
    if info.lastAccessTime < entry.timestamp then
      match writeCacheline s.mem cachelineAddr entry.dirtyData (msync 0) with
      | (mem, false) =>
        applyBackInvalidations cachelineAddr rest (fun k => msync (k + 1)) { s with mem } had
      | (mem, true) =>
        let s := { s with mem, backInvalidations := s.backInvalidations + 1 }
        applyBackInvalidations cachelineAddr rest (fun k => msync (k + 1))
          (s.setMetadata cachelineAddr { info with hasDirtyUpdate := false }) true
    else applyBackInvalidations cachelineAddr rest msync s had

/-- Replay and drop everything pending for the line; the flag is `had_back_invalidation`. -/
def checkAndApplyBackInvalidations (s : ServerState) (cachelineAddr : UInt64) (msync : Nat → Bool) :
    ServerState × Bool :=
  let (s, had) := applyBackInvalidations cachelineAddr (s.backInvalidationQueue cachelineAddr) msync s false
  ({ s with backInvalidationQueue := Function.update s.backInvalidationQueue cachelineAddr [] }, had)

def clampSize (size : UInt64) : Nat :=
  if size = 0 ∨ 64 < size then cachelineSize else size.toNat

def handleRead (s : ServerState) (threadId : Int) (req : ServerRequest) (msync : Nat → Bool) :
    ServerState × ServerResponse :=
  let cachelineAddr := addrToCacheline req.addr
  let (s, _) := checkAndApplyBackInvalidations s cachelineAddr msync
  let (info, downgrades) := handleReadCoherency threadId (s.metadata cachelineAddr)
  let s := { s.setMetadata cachelineAddr info with coherencyDowngrades := s.coherencyDowngrades + downgrades }
  match readCacheline s.mem req.addr (clampSize req.size) with
  | none => (s, { status := 1 })
  | some bytes =>
    ({ s.setMetadata cachelineAddr { info with lastAccessTime := req.timestamp } with
        totalReads := s.totalReads + 1 },
      { data := copyInto (Vector.replicate 64 0) bytes })

def threadsToInvalidate (threadId : Int) (info : CachelineMetadata) : Finset Int :=
  if info.state = .shared then info.sharers
  else if (info.state = .exclusive ∨ info.state = .modified) ∧ info.owner ≠ threadId then {info.owner}
  else ∅

/-- The WRITE branch, after the address check.  One entry is queued for each other thread
that loses the line; the entries do not name it and are all equal. -/
def handleWrite (s : ServerState) (threadId : Int) (req : ServerRequest) (msync : Nat → Bool) :
    ServerState × ServerResponse :=
  let cachelineAddr := addrToCacheline req.addr
  let size := clampSize req.size
  let losers := (threadsToInvalidate threadId (s.metadata cachelineAddr)).erase threadId
  let (info, invalidations) := handleWriteCoherency threadId (s.metadata cachelineAddr)
  let s := { s.setMetadata cachelineAddr info with
    coherencyInvalidations := s.coherencyInvalidations + invalidations }
  match writeCacheline s.mem req.addr (req.data.toList.take size) (msync 0) with
  | (mem, false) => ({ s with mem }, { status := 1 })
  | (mem, true) =>
    let dirtyData := (readCacheline mem req.addr size).getD (List.replicate size 0)
    let s := (registerBackInvalidation cachelineAddr threadId dirtyData req.timestamp)^[losers.card]
      { s with mem }
    ({ s.setMetadata cachelineAddr { info with lastAccessTime := req.timestamp } with
        totalWrites := s.totalWrites + 1 }, {})

/-- The pointer of an atomic request, relative to `data_area`: the line address and the
offset in the line are added to it as they are. -/
def atomicPtr (addr : UInt64) : UInt64 := addrToCacheline addr + addr % 64

def CachelineMetadata.afterAtomic (info : CachelineMetadata) (threadId : Int) (timestamp : UInt64) :
    CachelineMetadata :=
  { info with
    lastAccessTime := timestamp
    state := .modified
    owner := threadId
    sharers := ∅
    version := info.version + 1 }

def handleAtomicRequest (s : ServerState) (threadId : Int) (req : ServerRequest) :
    ServerState × ServerResponse :=
  let cachelineAddr := addrToCacheline req.addr
  let info := s.metadata cachelineAddr
  let ptr := atomicPtr req.addr
  let oldValue := loadU64 s.mem ptr
  match req.opType with
  | .atomicFaa =>
    ({ s.setMetadata cachelineAddr (info.afterAtomic threadId req.timestamp) with
        mem := storeU64 s.mem ptr (oldValue + req.value)
        totalAtomicFaa := s.totalAtomicFaa + 1 }, { oldValue })
  | .atomicCas =>
    if oldValue = req.expected then
      ({ s.setMetadata cachelineAddr (info.afterAtomic threadId req.timestamp) with
          mem := storeU64 s.mem ptr req.value
          totalAtomicCas := s.totalAtomicCas + 1
          totalAtomicCasSuccess := s.totalAtomicCasSuccess + 1 }, { oldValue })
    else
      ({ s.setMetadata cachelineAddr { info with lastAccessTime := req.timestamp } with
          totalAtomicCas := s.totalAtomicCas + 1 }, { oldValue })
  | .fence => ({ s with totalFences := s.totalFences + 1 }, {})
  | _ => (s, { status := 1 })

def lsaClampSize (size : UInt64) : UInt64 := min size 64

def handleLsaRead (s : ServerState) (req : ServerRequest) : ServerState × ServerResponse :=
  let size := lsaClampSize req.size
  if req.addr + size ≤ s.lsaSize then
    (s, { data := copyInto (Vector.replicate 64 0) (peek s.lsaData (walk req.addr) size.toNat) })
  else (s, { status := 1 })

/-- The area grows to the end of the write, and what it grows by is zeroed first. -/
def handleLsaWrite (s : ServerState) (req : ServerRequest) : ServerState × ServerResponse :=
  let size := lsaClampSize req.size
  let newSize := req.addr + size
  let s := if s.lsaSize < newSize then
      { s with
        lsaData := fun p => if s.lsaSize ≤ p ∧ p < newSize then 0 else s.lsaData p
        lsaSize := newSize }
    else s
  ({ s with lsaData := poke s.lsaData (walk req.addr) (req.data.toList.take size.toNat) }, {})

def handleRequest (s : ServerState) (threadId : Int) (req : ServerRequest) (msync : Nat → Bool) :
    ServerState × ServerResponse :=
  match req.opType with
  | .atomicFaa | .atomicCas | .fence => handleAtomicRequest s threadId req
  | .lsaRead => handleLsaRead s req
  | .lsaWrite => handleLsaWrite s req
  | .read =>
    if isValidAddress s.mem req.addr then handleRead s threadId req msync else (s, { status := 1 })
  | .write =>
    if isValidAddress s.mem req.addr then handleWrite s threadId req msync else (s, { status := 1 })

structure Call where
  threadId : Int
  req : ServerRequest
  msync : Nat → Bool := fun _ => true

def step (s : ServerState) (c : Call) : ServerState := (handleRequest s c.threadId c.req c.msync).1

def respond (s : ServerState) (c : Call) : ServerResponse := (handleRequest s c.threadId c.req c.msync).2

def run (s : ServerState) (calls : List Call) : ServerState := calls.foldl step s

/-- The states a server can reach; connections get non-negative thread ids. -/
inductive Reachable : ServerState → Prop
  | start (mem : Segment) : Reachable (.initial mem)
  | next {s : ServerState} (c : Call) : Reachable s → 0 ≤ c.threadId → Reachable (step s c)

end CxlMemSim
