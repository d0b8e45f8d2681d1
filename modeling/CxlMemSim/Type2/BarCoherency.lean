import CxlMemSim.Lib.StrideLoop
import CxlMemSim.Shm.Manager

/-! The snoop filter records for a line which domains have it. It holds no data. -/
namespace CxlMemSim.Type2
open StrideLoop

inductive CXLCoherencyState where
  | invalid | shared | exclusive | modified
deriving DecidableEq

def CXLCoherencyState.value : CXLCoherencyState → Nat
  | .invalid => 0
  | .shared => 1
  | .exclusive => 2
  | .modified => 3

inductive CXLCoherencyDomain where
  | cpu | gpu | cxlHost | cxlDev
deriving DecidableEq

inductive CXLCoherencyReqType where
  | rdShared | rdOwn | rdAny | wrInv | wrCur | clrDevCache | cleanEvict | dirtyEvict

inductive CXLCoherencyRspType where
  | i | v | s | e | m | o | f

inductive BiasMode where
  | host | device
deriving DecidableEq

structure CXLSnoopEntry where
  addr : UInt64
  state : CXLCoherencyState := .invalid
  domainMask : Finset CXLCoherencyDomain := ∅
  ownerDomain : CXLCoherencyDomain := .cpu
  biasMode : BiasMode := .host
  dirty : Bool := false

structure CXLBARCoherencyRegion where
  baseAddr : UInt64
  size : UInt64
  barIndex : UInt32
  coherent : Bool

structure CXLBackInvalidateEntry where
  addr : UInt64
  size : UInt64
  source : CXLCoherencyDomain

structure Stats where
  snoopHits : UInt64 := 0
  snoopMisses : UInt64 := 0
  coherencyRequests : UInt64 := 0
  backInvalidations : UInt64 := 0
  writebacks : UInt64 := 0
  evictions : UInt64 := 0
  upgrades : UInt64 := 0
  downgrades : UInt64 := 0
  cpuToGpuXfers : UInt64 := 0
  gpuToCpuXfers : UInt64 := 0
  biasFlips : UInt64 := 0
  deviceBiasHits : UInt64 := 0
  hostBiasHits : UInt64 := 0

/-- A `QemuMutex` is not recursive: the call that takes it while it is held never returns.  The model goes on and keeps
that in `relocked`. -/
structure QemuMutex where
  held : Bool := false
  relocked : Bool := false

structure CXLBARCoherencyState where
  lock : QemuMutex := {}
  snoopFilter : UInt64 → Option CXLSnoopEntry := fun _ => none
  snoopFilterSize : UInt32 := 0
  regions : List CXLBARCoherencyRegion := []
  backInvalidateQueue : List CXLBackInvalidateEntry := []
  enabled : Bool := true
  stats : Stats := {}

namespace CXLBARCoherencyState
variable (state : CXLBARCoherencyState)

def acquire : CXLBARCoherencyState :=
  { state with lock := ⟨true, state.lock.relocked || state.lock.held⟩ }

def release : CXLBARCoherencyState := { state with lock := { state.lock with held := false } }

def findRegionForAddr (addr : UInt64) : Option CXLBARCoherencyRegion :=
  state.regions.find? fun region => region.baseAddr ≤ addr ∧ addr < region.baseAddr + region.size

def snoopLookup (addr : UInt64) : CXLBARCoherencyState × Option CXLSnoopEntry :=
  let state := state.acquire
  let entry := state.snoopFilter (addrToCacheline addr)
  let stats :=
    if entry.isSome then { state.stats with snoopHits := state.stats.snoopHits + 1 }
    else { state.stats with snoopMisses := state.stats.snoopMisses + 1 }
  ({ state with stats }.release, entry)

def setEntry (addr : UInt64) (entry : CXLSnoopEntry) : CXLBARCoherencyState :=
  { state with snoopFilter := Function.update state.snoopFilter (addrToCacheline addr) (some entry) }

def snoopInsert (addr : UInt64) (stateVal : CXLCoherencyState) (domain : CXLCoherencyDomain) :
    CXLBARCoherencyState :=
  let state := state.acquire
  let state := match state.snoopFilter (addrToCacheline addr) with
    | some existing =>
      state.setEntry addr
        { existing with
          state := stateVal
          domainMask := insert domain existing.domainMask
          ownerDomain :=
            if stateVal = CXLCoherencyState.exclusive ∨ stateVal = CXLCoherencyState.modified then domain
            else existing.ownerDomain }
    | none =>
      { state.setEntry addr
          { addr := addrToCacheline addr, state := stateVal, domainMask := {domain}, ownerDomain := domain } with
        snoopFilterSize := state.snoopFilterSize + 1 }
  state.release

def snoopUpdate (addr : UInt64) (newState : CXLCoherencyState) (domain : CXLCoherencyDomain) :
    CXLBARCoherencyState :=
  let state := state.acquire
  let state := match state.snoopFilter (addrToCacheline addr) with
    | none => state
    | some entry =>
      let stats :=
        if entry.state.value < newState.value then { state.stats with upgrades := state.stats.upgrades + 1 }
        else if newState.value < entry.state.value then
          { state.stats with downgrades := state.stats.downgrades + 1 }
        else state.stats
      let entry := { entry with state := newState }
      let entry := match newState with
        | .exclusive | .modified => { entry with ownerDomain := domain, domainMask := {domain} }
        | .shared => { entry with domainMask := insert domain entry.domainMask }
        | .invalid => { entry with domainMask := entry.domainMask.erase domain }
      { state.setEntry addr entry with stats }
  state.release

def snoopRemove (addr : UInt64) : CXLBARCoherencyState :=
  let state := state.acquire
  let state :=
    if (state.snoopFilter (addrToCacheline addr)).isSome then
      { state with
        snoopFilter := Function.update state.snoopFilter (addrToCacheline addr) none
        snoopFilterSize := state.snoopFilterSize - 1
        stats := { state.stats with evictions := state.stats.evictions + 1 } }
    else state
  state.release

def countWriteback : CXLBARCoherencyState :=
  { state with stats := { state.stats with writebacks := state.stats.writebacks + 1 } }

def countBackInvalidation : CXLBARCoherencyState :=
  { state with stats := { state.stats with backInvalidations := state.stats.backInvalidations + 1 } }

def countDeviceBiasHit : CXLBARCoherencyState :=
  { state with stats := { state.stats with deviceBiasHits := state.stats.deviceBiasHits + 1 } }

def countHostBiasHit : CXLBARCoherencyState :=
  { state with stats := { state.stats with hostBiasHits := state.stats.hostBiasHits + 1 } }

def requestRdShared (addr : UInt64) (source : CXLCoherencyDomain) : CXLBARCoherencyState :=
  match state.snoopFilter (addrToCacheline addr) with
  | none => state.snoopInsert addr .shared source
  | some entry =>
    let state :=
      if entry.state = .modified then
        state.countWriteback.setEntry addr
          { entry with state := .shared, domainMask := insert source entry.domainMask, dirty := false }
      else state.setEntry addr { entry with domainMask := insert source entry.domainMask }
    if entry.biasMode = .device ∧ source = .gpu then state.countDeviceBiasHit
    else if entry.biasMode = .host ∧ source = .cpu then state.countHostBiasHit
    else state

def requestRdOwn (addr : UInt64) (source : CXLCoherencyDomain) : CXLBARCoherencyState :=
  match state.snoopFilter (addrToCacheline addr) with
  | none => state.snoopInsert addr .exclusive source
  | some entry =>
    let state :=
      if entry.biasMode = .device ∧ source = .gpu then state.countDeviceBiasHit
      else if entry.ownerDomain ≠ source then
        let state := state.countBackInvalidation
        if entry.state = .modified then state.countWriteback else state
      else state
    let state := state.setEntry addr
      { entry with state := .exclusive, domainMask := {source}, ownerDomain := source }
    if entry.biasMode = .host ∧ source = .cpu then state.countHostBiasHit else state

def requestWrInv (addr : UInt64) (source : CXLCoherencyDomain) : CXLBARCoherencyState :=
  match state.snoopFilter (addrToCacheline addr) with
  | some entry =>
    let state :=
      if entry.ownerDomain ≠ source ∧ entry.state ≠ .invalid then
        let state := state.countBackInvalidation
        if entry.state = .modified then state.countWriteback else state
      else state
    state.setEntry addr
      { entry with state := .modified, domainMask := {source}, ownerDomain := source, dirty := true }
  | none =>
    let state := state.snoopInsert addr .modified source
    match state.snoopFilter (addrToCacheline addr) with
    | some entry => state.setEntry addr { entry with dirty := true }
    | none => state

def requestClrDevCache (addr : UInt64) : CXLBARCoherencyState :=
  match state.snoopFilter (addrToCacheline addr) with
  | none => state
  | some entry =>
    if .gpu ∈ entry.domainMask then
      let state := if entry.state = .modified ∧ entry.ownerDomain = .gpu then state.countWriteback else state
      let domainMask := entry.domainMask.erase .gpu
      state.setEntry addr { entry with domainMask, state := if domainMask = ∅ then .invalid else .shared }
    else state

def requestCleanEvict (addr : UInt64) (source : CXLCoherencyDomain) : CXLBARCoherencyState :=
  match state.snoopFilter (addrToCacheline addr) with
  | none => state
  | some entry =>
    let domainMask := entry.domainMask.erase source
    let state := state.setEntry addr { entry with domainMask }
    if domainMask = ∅ then state.snoopRemove addr else state

def requestDirtyEvict (addr : UInt64) (source : CXLCoherencyDomain) : CXLBARCoherencyState :=
  match state.snoopFilter (addrToCacheline addr) with
  | none => state
  | some entry =>
    if entry.ownerDomain = source then
      let domainMask := entry.domainMask.erase source
      let entry := { entry with domainMask, dirty := false }
      if domainMask = ∅ then (state.countWriteback.setEntry addr entry).snoopRemove addr
      else state.countWriteback.setEntry addr { entry with state := .shared }
    else state

/-- The size of a request is not looked at: it is for the line of `addr`. -/
def coherencyRequest (req : CXLCoherencyReqType) (addr : UInt64) (source : CXLCoherencyDomain) :
    CXLBARCoherencyState × CXLCoherencyRspType :=
  if state.enabled then
    let state := state.acquire
    let state :=
      { state with stats := { state.stats with coherencyRequests := state.stats.coherencyRequests + 1 } }
    let (state, response) : CXLBARCoherencyState × CXLCoherencyRspType := match req with
      | .rdShared => (state.requestRdShared addr source, .s)
      | .rdOwn => (state.requestRdOwn addr source, .e)
      | .wrInv => (state.requestWrInv addr source, .m)
      | .clrDevCache => (state.requestClrDevCache addr, .i)
      | .cleanEvict => (state.requestCleanEvict addr source, .i)
      | .dirtyEvict => (state.requestDirtyEvict addr source, .i)
      | .rdAny | .wrCur => (state, .i)
    (state.release, response)
  else (state, .v)

def notifyGpuAccess (addr : UInt64) (isWrite : Bool) : CXLBARCoherencyState :=
  if state.enabled ∧ (state.findRegionForAddr addr).isSome then
    if isWrite then
      let state := (state.coherencyRequest .wrInv addr .gpu).1.snoopUpdate addr .modified .gpu
      { state with stats := { state.stats with gpuToCpuXfers := state.stats.gpuToCpuXfers + 1 } }
    else
      let state := (state.coherencyRequest .rdShared addr .gpu).1
      { state with stats := { state.stats with cpuToGpuXfers := state.stats.cpuToGpuXfers + 1 } }
  else state

def backInvalidate (addr size : UInt64) (source : CXLCoherencyDomain) : CXLBARCoherencyState :=
  { state.countBackInvalidation with
    backInvalidateQueue := state.backInvalidateQueue ++ [⟨addrToCacheline addr, addrToCacheline (size + 63), source⟩] }

/-- The transactions that a fence would complete are never queued. -/
def memoryFence : CXLBARCoherencyState := if state.enabled then state.acquire.release else state

def forLines (addr size : UInt64) (body : CXLBARCoherencyState → UInt64 → CXLBARCoherencyState) :
    Option CXLBARCoherencyState :=
  strideLoop 64 (addrToCacheline (addr + size + 63)) body (2 ^ 58) (addrToCacheline addr) state

def flushLine (a : UInt64) : CXLBARCoherencyState :=
  match state.snoopFilter (addrToCacheline a) with
  | none => state
  | some entry =>
    if entry.dirty then state.countWriteback.setEntry a { entry with dirty := false, state := .shared } else state

def cacheFlush (addr size : UInt64) : Option CXLBARCoherencyState :=
  if state.enabled then (state.acquire.forLines addr size flushLine).map release else some state

def biasLine (biasMode : BiasMode) (state : CXLBARCoherencyState) (a : UInt64) : CXLBARCoherencyState :=
  match state.snoopFilter (addrToCacheline a) with
  | some entry => state.setEntry a { entry with biasMode }
  | none => { state.setEntry a { addr := a, biasMode } with snoopFilterSize := state.snoopFilterSize + 1 }

def setBias (addr size : UInt64) (biasMode : BiasMode) : Option CXLBARCoherencyState :=
  (state.acquire.forLines addr size (biasLine biasMode)).map release

def clearLine (source : CXLCoherencyDomain) (state : CXLBARCoherencyState) (a : UInt64) : CXLBARCoherencyState :=
  (state.coherencyRequest .clrDevCache a source).1

def biasFlip (addr size : UInt64) (newBias : BiasMode) : Option CXLBARCoherencyState := do
  let state ← match newBias with
    | .device => do (← state.cacheFlush addr size).forLines addr size (clearLine .cpu)
    | .host => state.forLines addr size (clearLine .gpu)
  let state := (← state.setBias addr size newBias).acquire
  return { state with stats := { state.stats with biasFlips := state.stats.biasFlips + 1 } }.release

end CXLBARCoherencyState
end CxlMemSim.Type2
