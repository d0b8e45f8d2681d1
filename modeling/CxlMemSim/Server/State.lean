import Mathlib.Data.Finset.Card
import CxlMemSim.Shm.Manager

/-! The data that the request handlers of the thread-per-connection server read and write. Latencies and congestion
figures are left out: no decision depends on them. -/
namespace CxlMemSim

inductive CoherencyState where
  | invalid
  | shared
  | exclusive
  | modified
  deriving DecidableEq, Repr

/-- `CachelineMetadata`: thread ids are C `int`s and an owner of `-1` means none. -/
structure CachelineMetadata where
  state : CoherencyState := .invalid
  sharers : Finset Int := ∅
  owner : Int := -1
  lastAccessTime : UInt64 := 0
  hasDirtyUpdate : Bool := false
  version : UInt64 := 0

/-- The op types `handle_client` lets through to `handle_request`. -/
inductive OpType where
  | read
  | write
  | atomicFaa
  | atomicCas
  | fence
  | lsaRead
  | lsaWrite
  deriving DecidableEq, Repr

structure ServerRequest where
  opType : OpType
  addr : UInt64
  size : UInt64
  timestamp : UInt64
  value : UInt64 := 0
  expected : UInt64 := 0
  data : Vector UInt8 64 := Vector.replicate 64 0

structure ServerResponse where
  status : UInt8 := 0
  oldValue : UInt64 := 0
  data : Vector UInt8 64 := Vector.replicate 64 0

structure BackInvalidationEntry where
  cachelineAddr : UInt64
  sourceThreadId : Int
  timestamp : UInt64
  dirtyData : List UInt8
  deriving DecidableEq

/-- Maps with a default for absent keys stand for `metadata_cache`, whose lookup inserts that default, and for
`back_invalidation_queue`, which drops a queue once it is empty. -/
structure ServerState where
  mem : Segment
  metadata : UInt64 → CachelineMetadata
  backInvalidationQueue : UInt64 → List BackInvalidationEntry
  lsaData : Segment
  lsaSize : UInt64
  totalReads : Nat := 0
  totalWrites : Nat := 0
  totalAtomicFaa : Nat := 0
  totalAtomicCas : Nat := 0
  totalAtomicCasSuccess : Nat := 0
  totalFences : Nat := 0
  coherencyInvalidations : Nat := 0
  coherencyDowngrades : Nat := 0
  backInvalidations : Nat := 0

def ServerState.initial (mem : Segment) : ServerState where
  mem := mem
  metadata := fun _ => {}
  backInvalidationQueue := fun _ => []
  lsaData := fun _ => 0
  lsaSize := 256 * 1024

def ServerState.setMetadata (s : ServerState) (cachelineAddr : UInt64) (info : CachelineMetadata) :
    ServerState :=
  { s with metadata := Function.update s.metadata cachelineAddr info }

/-- Increments of `coherency_invalidations`: every sharer and the owner, the requester apart. -/
def invalidateSharers (requestingThread : Int) (info : CachelineMetadata) : Nat :=
  (info.sharers.erase requestingThread).card +
    if info.owner ≠ -1 ∧ info.owner ≠ requestingThread then 1 else 0

def downgradeOwner (requestingThread : Int) (info : CachelineMetadata) : Nat :=
  if info.owner ≠ -1 ∧ info.owner ≠ requestingThread then 1 else 0

def handleReadCoherency (threadId : Int) (info : CachelineMetadata) : CachelineMetadata × Nat :=
  match info.state with
  | .invalid => ({ info with state := .shared, sharers := insert threadId info.sharers }, 0)
  | .shared => ({ info with sharers := insert threadId info.sharers }, 0)
  | .exclusive | .modified =>
    ({ info with
        state := .shared
        sharers := insert threadId (insert info.owner info.sharers)
        owner := -1 }, downgradeOwner threadId info)

def handleWriteCoherency (threadId : Int) (info : CachelineMetadata) : CachelineMetadata × Nat :=
  match info.state with
  | .invalid => ({ info with state := .modified, owner := threadId }, 0)
  | .shared =>
    ({ info with
        state := .modified
        owner := threadId
        sharers := ∅
        hasDirtyUpdate := true }, invalidateSharers threadId info)
  | .exclusive | .modified =>
    if info.owner ≠ threadId then
      ({ info with state := .modified, owner := threadId, hasDirtyUpdate := true }, invalidateSharers threadId info)
    else ({ info with state := .modified, owner := threadId }, 0)

end CxlMemSim
