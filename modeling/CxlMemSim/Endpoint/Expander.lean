import Mathlib.Data.List.Basic

/-! The request queue of an expander with its credits, the record of occupied addresses and the two caches derived from
it. -/
namespace CxlMemSim.Endpoint

structure CXLRequest where
  timestamp : UInt64
  address : UInt64
  tid : UInt64
  isRead : Bool
  isWrite : Bool
  issueTime : UInt64 := 0
  completeTime : UInt64 := 0
deriving DecidableEq

structure OccupationInfo where
  timestamp : UInt64
  address : UInt64
  accessCount : UInt64 := 0
deriving DecidableEq

structure AddressRange where
  start : UInt64
  stop : UInt64
deriving DecidableEq

def maxQueueSize : Nat := 64
def initialCredits : Nat := 2

/-- `current_time + calculate_pipeline_latency(req)` with the queue at the given length. -/
abbrev Timing := (now : UInt64) → (queueLength : Nat) → CXLRequest → UInt64

/-- `in_flight_requests_` has one request for each address, in no particular order. -/
structure CXLMemExpander where
  id : Int
  occupation : List OccupationInfo := []
  addressCache : List UInt64 := []
  cacheValid : Bool := false
  addressRanges : List AddressRange := []
  requestQueue : List CXLRequest := []
  readCredits : Nat := initialCredits
  writeCredits : Nat := initialCredits
  inFlight : List CXLRequest := []
  lastTimestamp : UInt64 := 0

namespace CXLMemExpander

def canAcceptRequest (e : CXLMemExpander) : Bool := e.requestQueue.length < maxQueueSize

def credits (e : CXLMemExpander) (isRead : Bool) : Nat := if isRead then e.readCredits else e.writeCredits

def hasCredits (e : CXLMemExpander) (isRead : Bool) : Bool := 0 < e.credits isRead

def consumeCredit (e : CXLMemExpander) (isRead : Bool) : CXLMemExpander :=
  if isRead then { e with readCredits := e.readCredits - 1 } else { e with writeCredits := e.writeCredits - 1 }

def releaseCredit (e : CXLMemExpander) (isRead : Bool) : CXLMemExpander :=
  if isRead then
    if e.readCredits < initialCredits then { e with readCredits := e.readCredits + 1 } else e
  else
    if e.writeCredits < initialCredits then { e with writeCredits := e.writeCredits + 1 } else e

def completeRequests (e : CXLMemExpander) (now : UInt64) : CXLMemExpander :=
  let done := e.inFlight.filter fun req => req.completeTime ≤ now
  let e := done.foldl (fun e req => e.releaseCredit req.isRead) e
  { e with inFlight := e.inFlight.filter fun req => now < req.completeTime }

def launch (e : CXLMemExpander) (req : CXLRequest) : CXLMemExpander :=
  { e with inFlight := e.inFlight.filter (fun other => other.address ≠ req.address) ++ [req] }

def stamp (timing : Timing) (now : UInt64) (queueLength : Nat) (req : CXLRequest) : CXLRequest :=
  { req with issueTime := now, completeTime := timing now queueLength req }

def issueRequests (timing : Timing) (now : UInt64) : List CXLRequest → CXLMemExpander → CXLMemExpander
  | [], e => { e with requestQueue := [] }
  | req :: rest, e =>
    if e.inFlight.length < maxQueueSize / 2 ∧ e.hasCredits req.isRead then
      issueRequests timing now rest
        ((e.consumeCredit req.isRead).launch (stamp timing now (rest.length + 1) req))
    else { e with requestQueue := req :: rest }

def processQueuedRequests (e : CXLMemExpander) (timing : Timing) (now : UInt64) : CXLMemExpander :=
  let e := e.completeRequests now
  issueRequests timing now e.requestQueue e

def updateAddressCache (e : CXLMemExpander) : CXLMemExpander :=
  if e.cacheValid then e
  else { e with addressCache := e.occupation.map OccupationInfo.address, cacheValid := true }

def invalidateCache (e : CXLMemExpander) : CXLMemExpander := { e with cacheValid := false }

def mergeRanges (current : AddressRange) : List OccupationInfo → List AddressRange
  | [] => [current]
  | o :: rest =>
    if o.address = current.stop + 1 then mergeRanges { current with stop := o.address } rest
    else current :: mergeRanges ⟨o.address, o.address⟩ rest

def updateRangeCache (e : CXLMemExpander) : CXLMemExpander :=
  if e.cacheValid then e
  else
    let occupation := e.occupation.mergeSort fun a b => a.address ≤ b.address
    let addressRanges := match occupation with
      | [] => []
      | first :: rest => mergeRanges ⟨first.address, first.address⟩ rest
    { e with occupation, addressRanges, cacheValid := true }

def isAddressLocal (e : CXLMemExpander) (addr : UInt64) : Bool × CXLMemExpander :=
  let e := e.updateRangeCache
  -- the first range that does not end before the address
  let found := e.addressRanges.find? fun range => !(decide (range.stop < addr))
  (found.any fun range => decide (range.start ≤ addr ∧ addr ≤ range.stop), e)

def record (e : CXLMemExpander) (timestamp tid physAddr : UInt64) : Nat × CXLMemExpander :=
  if physAddr ≠ 0 then
    if e.canAcceptRequest then
      let occupied := e.occupation.any fun o => o.address = physAddr
      if physAddr ∈ e.addressCache ∧ occupied then
        -- an address seen before makes the request a read
        let req : CXLRequest := { timestamp, address := physAddr, tid, isRead := true, isWrite := false }
        (2, { e with
          requestQueue := e.requestQueue ++ [req]
          occupation := e.occupation.eraseP (fun o => o.address = physAddr) ++ [{ timestamp, address := physAddr }] })
      else
        let req : CXLRequest := { timestamp, address := physAddr, tid, isRead := false, isWrite := true }
        (1, { e with
          requestQueue := e.requestQueue ++ [req]
          occupation := e.occupation ++ [{ timestamp, address := physAddr }]
          addressCache := physAddr :: e.addressCache })
    else (0, e)
  else (1, e)

def dated (e : CXLMemExpander) (lastTimestamp : UInt64) : CXLMemExpander := { e with lastTimestamp }

/-- 0 for an access that is not taken, 1 for a store, 2 for a load. -/
def insert (e : CXLMemExpander) (timing : Timing) (timestamp tid physAddr : UInt64) (index : Int) :
    Nat × CXLMemExpander :=
  if index = e.id then
    let e := e.dated (if timestamp < e.lastTimestamp then e.lastTimestamp else timestamp)
    (e.processQueuedRequests timing timestamp).record timestamp tid physAddr
  else (0, e)

/-- The loop of `calculate_latency`: which of the accesses count as local. -/
def localAccesses : List (UInt64 × UInt64) → CXLMemExpander → List (UInt64 × UInt64) × CXLMemExpander
  | [], e => ([], e)
  | (timestamp, addr) :: rest, e =>
    let (isLocal, e) := e.isAddressLocal addr
    let (others, e) := localAccesses rest e
    (if isLocal then (timestamp, addr) :: others else others, e)

def calculateLatency (e : CXLMemExpander) (timing : Timing) (elem : List (UInt64 × UInt64)) :
    List (UInt64 × UInt64) × CXLMemExpander :=
  match elem.getLast? with
  | none => ([], e)
  | some last => localAccesses elem (e.processQueuedRequests timing last.1).updateAddressCache

/-- The entries of `addr` and of the rest of the range are counted and dated. -/
def deleteEntry (e : CXLMemExpander) (addr length : UInt64) : CXLMemExpander :=
  let hit := fun (o : OccupationInfo) => o.address = addr ∨ addr ≤ o.address ∧ o.address ≤ addr + length
  let touched := e.occupation.map fun o =>
    if hit o then { o with accessCount := o.accessCount + 1, timestamp := e.lastTimestamp } else o
  if e.occupation.any fun o => hit o then { e with occupation := touched }.invalidateCache else e

def freeStats (e : CXLMemExpander) (kept : Nat → Bool) : CXLMemExpander :=
  let occupation := (e.occupation.zipIdx.filter fun entry => kept entry.2).map Prod.fst
  if occupation.length < e.occupation.length then { e with occupation }.invalidateCache else e

end CXLMemExpander

end CxlMemSim.Endpoint
