import CxlMemSim.Coherency.Engine
import CxlMemSim.Shm.Access

/-! `MHSLDDevice`: a device with sixteen heads, its cacheline directory and its pool. -/
namespace CxlMemSim.Mhsld
open Coherency Function Moesi

def maxHeads : UInt32 := 16

structure MHSLDCachelineInfo where
  address : UInt64
  sharers : Finset UInt32 := ∅
  ownerHead : UInt32 := noNode
  ownerState : MHSLDCacheState := .invalid
  version : UInt32 := 0
  lastAccessTime : UInt64 := 0
  accessCount : UInt64 := 0
  hasDirtyData : Bool := false
deriving DecidableEq

structure MHSLDHeadState where
  allocatedCapacity : UInt64 := 0
  usedCapacity : UInt64 := 0
  totalReads : UInt64 := 0
  totalWrites : UInt64 := 0
  backInvalidations : UInt64 := 0
  active : Bool := false

/-- What one operation adds to the statistics and to the heads' `back_invalidations`. -/
structure Tally where
  coherencyMessages : UInt64 := 0
  invalidations : UInt64 := 0
  downgrades : UInt64 := 0
  writebacks : UInt64 := 0
  backInvalidations : UInt32 → UInt64 := fun _ => 0

namespace MHSLDCachelineInfo

def invalidateSharers (active : UInt32 → Bool) (exceptHead : UInt32) (e : MHSLDCachelineInfo) :
    MHSLDCachelineInfo × Tally :=
  let toInvalidate := e.sharers.filter fun sharer => sharer ≠ exceptHead ∧ active sharer
  let count := UInt64.ofNat toInvalidate.card
  ({ e with sharers := ∅ },
    { invalidations := count
      coherencyMessages := count
      backInvalidations := fun head => if head ∈ toInvalidate then 1 else 0 })

def read (headId : UInt32) (timestamp : UInt64) (e : MHSLDCachelineInfo) : MHSLDCachelineInfo × Tally :=
  let e := { e with accessCount := e.accessCount + 1, lastAccessTime := timestamp }
  if e.ownerHead = headId ∧ (e.ownerState = .exclusive ∨ e.ownerState = .modified ∨ e.ownerState = .owned) then
    (e, {})
  else if headId ∈ e.sharers then (e, {})
  else match e.ownerState with
    | .invalid => ({ e with sharers := insert headId e.sharers, ownerState := .shared, ownerHead := headId }, {})
    | .shared => ({ e with sharers := insert headId e.sharers }, {})
    | .exclusive =>
      ({ e with sharers := insert headId (insert e.ownerHead e.sharers), ownerState := .shared },
        { coherencyMessages := 1 })
    | .modified =>
      ({ e with ownerState := .owned, sharers := insert headId e.sharers },
        { downgrades := 1, coherencyMessages := 1 })
    | .owned => ({ e with sharers := insert headId e.sharers }, { coherencyMessages := 1 })

def acquire (active : UInt32 → Bool) (headId : UInt32) (e : MHSLDCachelineInfo) : Tally :=
  let sharers := (e.invalidateSharers active headId).2
  match e.ownerState with
  | .invalid => {}
  | .shared => sharers
  | .exclusive | .modified | .owned =>
    if e.ownerHead = headId then sharers
    else
      { sharers with
        writebacks := if e.ownerState = .modified ∨ e.ownerState = .owned then 1 else 0
        coherencyMessages := sharers.coherencyMessages + 1
        backInvalidations := fun head =>
          sharers.backInvalidations head + if head = e.ownerHead then 1 else 0 }

def write (active : UInt32 → Bool) (headId : UInt32) (timestamp : UInt64) (e : MHSLDCachelineInfo) :
    MHSLDCachelineInfo × Tally :=
  let e := { e with accessCount := e.accessCount + 1, lastAccessTime := timestamp, version := e.version + 1 }
  if e.ownerHead = headId ∧ (e.ownerState = .exclusive ∨ e.ownerState = .modified) then
    ({ e with ownerState := .modified, hasDirtyData := true }, {})
  else if e.ownerHead = headId ∧ e.ownerState = .owned then
    let (e, tally) := e.invalidateSharers active headId
    ({ e with ownerState := .modified, hasDirtyData := true }, tally)
  else
    ({ e with ownerHead := headId, ownerState := .modified, sharers := ∅, hasDirtyData := true },
      e.acquire active headId)

def deactivate (headId : UInt32) (e : MHSLDCachelineInfo) : MHSLDCachelineInfo :=
  let e :=
    if e.ownerHead = headId then
      { e with
        hasDirtyData := e.hasDirtyData || decide (e.ownerState = .modified)
        ownerHead := noNode
        ownerState := .invalid }
    else e
  { e with sharers := e.sharers.erase headId }

def release (headId : UInt32) (e : MHSLDCachelineInfo) : MHSLDCachelineInfo :=
  let e := { e with sharers := e.sharers.erase headId }
  if e.ownerHead = headId then { e with ownerHead := noNode, ownerState := .invalid } else e

def writeback (headId : UInt32) (e : MHSLDCachelineInfo) : MHSLDCachelineInfo :=
  { e with
    hasDirtyData := e.hasDirtyData && !decide (e.ownerState = .modified ∨ e.ownerState = .owned)
    ownerState := .invalid
    ownerHead := noNode
    sharers := e.sharers.erase headId }

def line (e : MHSLDCachelineInfo) : Line UInt32 := ⟨e.ownerState, e.ownerHead, e.sharers⟩

def stamp (e : MHSLDCachelineInfo) : UInt32 × Bool := (e.version, e.hasDirtyData)

end MHSLDCachelineInfo

abbrev Directory := UInt64 → Option MHSLDCachelineInfo

structure MHSLDDevice where
  totalCapacity : UInt64
  heads : UInt32 → MHSLDHeadState := fun _ => {}
  directory : Directory := fun _ => none
  totalCoherencyMessages : UInt64 := 0
  totalInvalidations : UInt64 := 0
  totalDowngrades : UInt64 := 0
  totalWritebacks : UInt64 := 0

/-- The loop of `release_pool` from `cl` on, for at most the given number of turns; `none` if
it goes on after that. -/
def releaseLines (headId : UInt32) (endAddr : UInt64) : Nat → UInt64 → Directory → Option Directory
  | 0, cl, directory => if cl < endAddr then none else some directory
  | n + 1, cl, directory =>
    if cl < endAddr then
      releaseLines headId endAddr n (cl + 64)
        (update directory (clAddr cl) ((directory (clAddr cl)).map (.release headId)))
    else some directory

namespace MHSLDDevice
variable (d : MHSLDDevice)

def Accepts (headId : UInt32) : Prop := headId < maxHeads ∧ (d.heads headId).active
deriving Decidable

def setHead (headId : UInt32) (h : MHSLDHeadState) : MHSLDDevice :=
  { d with heads := update d.heads headId h }

def activateHead (headId : UInt32) (capacityAlloc : UInt64) : MHSLDDevice × Bool :=
  if headId < maxHeads then
    (d.setHead headId
      { d.heads headId with active := true, allocatedCapacity := capacityAlloc, usedCapacity := 0 }, true)
  else (d, false)

def deactivateHead (headId : UInt32) : MHSLDDevice :=
  if headId < maxHeads then
    { d.setHead headId { d.heads headId with active := false } with
      directory := fun a => (d.directory a).map (.deactivate headId) }
  else d

def allocatePool (headId : UInt32) (size : UInt64) : MHSLDDevice × UInt64 :=
  if d.Accepts headId then
    let h := d.heads headId
    if h.allocatedCapacity < h.usedCapacity + size then (d, 0)
    else
      let base := headId.toUInt64 * (d.totalCapacity / 16)
      (d.setHead headId { h with usedCapacity := h.usedCapacity + size }, base + h.usedCapacity)
  else (d, 0)

/-- After 2^58 turns the loop is back at its first line: one that goes on for so long never ends. -/
def releasePool (headId : UInt32) (addr size : UInt64) : Option MHSLDDevice :=
  if d.Accepts headId then
    (releaseLines headId (addr + size) (2 ^ 58) (clAddr addr) d.directory).map fun directory =>
      let h := d.heads headId
      { d.setHead headId
          { h with usedCapacity := if size ≤ h.usedCapacity then h.usedCapacity - size else h.usedCapacity } with
        directory }
  else some d

def getOrCreateEntry (addr : UInt64) : MHSLDCachelineInfo :=
  (d.directory (clAddr addr)).getD { address := clAddr addr }

def store (a : UInt64) (e : MHSLDCachelineInfo) (tally : Tally) : MHSLDDevice :=
  { d with
    heads := fun i =>
      { d.heads i with backInvalidations := (d.heads i).backInvalidations + tally.backInvalidations i }
    directory := update d.directory a (some e)
    totalCoherencyMessages := d.totalCoherencyMessages + tally.coherencyMessages
    totalInvalidations := d.totalInvalidations + tally.invalidations
    totalDowngrades := d.totalDowngrades + tally.downgrades
    totalWritebacks := d.totalWritebacks + tally.writebacks }

def isActive (headId : UInt32) : Bool := (d.heads headId).active

def readWithCoherency (headId : UInt32) (addr timestamp : UInt64) : MHSLDDevice :=
  if d.Accepts headId then
    let (e, tally) := (d.getOrCreateEntry addr).read headId timestamp
    let h := d.heads headId
    (d.setHead headId { h with totalReads := h.totalReads + 1 }).store (clAddr addr) e tally
  else d

def writeWithCoherency (headId : UInt32) (addr timestamp : UInt64) : MHSLDDevice :=
  if d.Accepts headId then
    let (e, tally) := (d.getOrCreateEntry addr).write d.isActive headId timestamp
    let h := d.heads headId
    (d.setHead headId { h with totalWrites := h.totalWrites + 1 }).store (clAddr addr) e tally
  else d

/-- An atomic operation differs from a write in its latency only. -/
def atomicWithCoherency (headId : UInt32) (addr timestamp : UInt64) : MHSLDDevice :=
  d.writeWithCoherency headId addr timestamp

def writeback (addr : UInt64) (headId : UInt32) : MHSLDDevice :=
  match d.directory (clAddr addr) with
  | none => d
  | some e =>
    if e.ownerHead = headId then d.store (clAddr addr) (e.writeback headId) { writebacks := 1 } else d

def lineAt (a : UInt64) : Line UInt32 := ((d.directory a).map MHSLDCachelineInfo.line).getD { owner := noNode }

end MHSLDDevice

inductive Call where
  | activateHead (headId : UInt32) (capacityAlloc : UInt64)
  | deactivateHead (headId : UInt32)
  | allocatePool (headId : UInt32) (size : UInt64)
  | releasePool (headId : UInt32) (addr size : UInt64)
  | readWithCoherency (headId : UInt32) (addr timestamp : UInt64)
  | writeWithCoherency (headId : UInt32) (addr timestamp : UInt64)
  | atomicWithCoherency (headId : UInt32) (addr timestamp : UInt64)
  | writeback (addr : UInt64) (headId : UInt32)

def MHSLDDevice.exec (d : MHSLDDevice) : Call → Option MHSLDDevice
  | .activateHead headId capacityAlloc => some (d.activateHead headId capacityAlloc).1
  | .deactivateHead headId => some (d.deactivateHead headId)
  | .allocatePool headId size => some (d.allocatePool headId size).1
  | .releasePool headId addr size => d.releasePool headId addr size
  | .readWithCoherency headId addr timestamp => some (d.readWithCoherency headId addr timestamp)
  | .writeWithCoherency headId addr timestamp => some (d.writeWithCoherency headId addr timestamp)
  | .atomicWithCoherency headId addr timestamp => some (d.atomicWithCoherency headId addr timestamp)
  | .writeback addr headId => some (d.writeback addr headId)

def step (s : Option MHSLDDevice) (c : Call) : Option MHSLDDevice := s.bind fun d => d.exec c

def run (d : MHSLDDevice) (calls : List Call) : Option MHSLDDevice := calls.foldl step (some d)

def Call.event (d : MHSLDDevice) (a : UInt64) : Call → Event UInt32
  | .activateHead _ _ | .allocatePool _ _ => .keep
  | .deactivateHead headId => if headId < maxHeads then .leave headId else .keep
  | .releasePool headId addr size =>
    if d.Accepts headId ∧ clAddr addr ≤ a ∧ a < addr + size then .leave headId else .keep
  | .readWithCoherency headId addr _ => if d.Accepts headId ∧ clAddr addr = a then .read headId else .keep
  | .writeWithCoherency headId addr _ | .atomicWithCoherency headId addr _ =>
    if d.Accepts headId ∧ clAddr addr = a then .write headId else .keep
  | .writeback addr headId => if clAddr addr = a ∧ (d.lineAt a).owner = headId then .leave headId else .keep

def Call.activity (active : UInt32 → Bool) : Call → UInt32 → Bool
  | .activateHead headId _ => if headId < maxHeads then update active headId true else active
  | .deactivateHead headId => if headId < maxHeads then update active headId false else active
  | _ => active

variable {headId : UInt32} {cl endAddr : UInt64}

namespace MHSLDCachelineInfo
variable {e : MHSLDCachelineInfo}

theorem line_read (headId : UInt32) (timestamp : UInt64) : (e.read headId timestamp).1.line = e.line.read headId := by
  obtain ⟨addr, sharers, owner, state, version, time, count, dirty⟩ := e
  simp only [line]
  by_cases hit : owner = headId ∧ (state = .exclusive ∨ state = .modified ∨ state = .owned)
  · simp only [read, Line.read, if_pos hit]
  · by_cases sharer : headId ∈ sharers
    · simp only [read, Line.read, if_neg hit, if_pos sharer]
    · simp only [read, Line.read, if_neg hit, if_neg sharer]
      cases state <;> rfl

theorem line_write (coherent : Coherent noNode e.line) (active : UInt32 → Bool) (headId : UInt32)
    (timestamp : UInt64) :
    (e.write active headId timestamp).1.line = e.line.apply noNode (.write headId) := by
  have none_shares := coherent.modified
  have never := coherent.not_exclusive
  obtain ⟨addr, sharers, owner, state, version, time, count, dirty⟩ := e
  by_cases hit : owner = headId ∧ (state = .exclusive ∨ state = .modified)
  · simp only [write, Line.apply, line, if_pos hit]
    obtain ⟨rfl, exclusive | modified⟩ := hit
    · exact (never exclusive).elim
    · obtain rfl : sharers = ∅ := none_shares modified
      rfl
  · by_cases owns : owner = headId ∧ state = .owned
    · simp only [write, Line.apply, line, if_neg hit, if_pos owns, invalidateSharers]
      rw [owns.1]
    · simp only [write, Line.apply, line, if_neg hit, if_neg owns]

theorem line_deactivate (headId : UInt32) : (e.deactivate headId).line = e.line.leave noNode headId := by
  simp only [line]
  by_cases own : e.ownerHead = headId
  · simp only [deactivate, Line.leave, if_pos own]
  · simp only [deactivate, Line.leave, if_neg own]

theorem line_release (headId : UInt32) : (e.release headId).line = e.line.leave noNode headId := by
  simp only [line]
  by_cases own : e.ownerHead = headId
  · simp only [release, Line.leave, if_pos own]
  · simp only [release, Line.leave, if_neg own]

theorem line_writeback (own : e.ownerHead = headId) : (e.writeback headId).line = e.line.leave noNode headId := by
  simp only [line]
  simp only [writeback, Line.leave, if_pos own]

theorem stamp_read (headId : UInt32) (timestamp : UInt64) : (e.read headId timestamp).1.stamp = e.stamp := by
  simp only [read]
  split
  · rfl
  · split
    · rfl
    · split <;> rfl

theorem stamp_write (active : UInt32 → Bool) (headId : UInt32) (timestamp : UInt64) :
    (e.write active headId timestamp).1.stamp = (e.version + 1, true) := by
  simp only [write]
  split
  · rfl
  · split <;> rfl

end MHSLDCachelineInfo

theorem clAddr_toNat (addr : UInt64) : (clAddr addr).toNat = addr.toNat / 64 * 64 := addrToCacheline_toNat addr

theorem clAddr_clAddr (addr : UInt64) : clAddr (clAddr addr) = clAddr addr := by
  apply UInt64.toNat_inj.mp
  rw [clAddr_toNat, clAddr_toNat]
  omega

theorem clAddr_add (aligned : clAddr cl = cl) : clAddr (cl + 64) = cl + 64 := by
  have multiple := congrArg UInt64.toNat aligned
  rw [clAddr_toNat] at multiple
  apply UInt64.toNat_inj.mp
  rw [clAddr_toNat, UInt64.toNat_add]
  simp only [UInt64.reduceToNat]
  omega

theorem aligned_iff (a : UInt64) : clAddr a = a ↔ a.toNat % 64 = 0 := by
  rw [← UInt64.toNat_inj, clAddr_toNat]
  omega

theorem releaseLines_diverges (high : 2 ^ 64 - 64 < endAddr.toNat) (n : Nat)
    (aligned : clAddr cl = cl) (directory : Directory) :
    releaseLines headId endAddr n cl directory = none := by
  have below : ∀ {cl : UInt64}, clAddr cl = cl → cl < endAddr := by
    intro cl aligned
    have multiple := (aligned_iff cl).mp aligned
    have bound := cl.toNat_lt
    rw [UInt64.lt_iff_toNat_lt]
    omega
  induction n generalizing cl directory with
  | zero => exact if_pos (below aligned)
  | succ n ih =>
    rw [releaseLines, if_pos (below aligned)]
    exact ih (clAddr_add aligned) _

variable {a : UInt64}

theorem releaseLines_spec {n : Nat} (aligned : clAddr cl = cl)
    {directory after : Directory} (returns : releaseLines headId endAddr n cl directory = some after)
    (line : clAddr a = a) :
    after a = if cl ≤ a ∧ a < endAddr then (directory a).map (.release headId) else directory a := by
  have low : endAddr.toNat ≤ 2 ^ 64 - 64 := by
    by_contra high
    rw [releaseLines_diverges (by omega) n aligned] at returns
    cases returns
  induction n generalizing cl directory with
  | zero =>
    rw [releaseLines] at returns
    split at returns
    · cases returns
    · rename_i beyond
      cases returns
      rw [if_neg fun inside => beyond (UInt64.lt_of_le_of_lt inside.1 inside.2)]
  | succ n ih =>
    rw [releaseLines] at returns
    split at returns
    · rename_i below
      have next := ih (clAddr_add aligned) returns
      rw [next, aligned]
      have multiple := (aligned_iff cl).mp aligned
      have multiple' := (aligned_iff a).mp line
      rw [UInt64.lt_iff_toNat_lt] at below
      have advanced : (cl + 64).toNat = cl.toNat + 64 := by
        rw [UInt64.toNat_add]
        simp only [UInt64.reduceToNat]
        omega
      by_cases here : a = cl
      · subst here
        have passed : ¬ (a + 64 ≤ a ∧ a < endAddr) := by
          rw [UInt64.le_iff_toNat_le, advanced]
          omega
        rw [if_neg passed, if_pos ⟨UInt64.le_refl a, UInt64.lt_iff_toNat_lt.mpr below⟩, update_self]
      · have elsewhere : a.toNat ≠ cl.toNat := fun same => here (UInt64.toNat_inj.mp same)
        have same_lines : cl + 64 ≤ a ↔ cl ≤ a := by
          rw [UInt64.le_iff_toNat_le, UInt64.le_iff_toNat_le, advanced]
          omega
        simp only [update_of_ne here, same_lines]
    · rename_i beyond
      cases returns
      rw [if_neg fun inside => beyond (UInt64.lt_of_le_of_lt inside.1 inside.2)]

namespace MHSLDDevice
variable {d after : MHSLDDevice}

theorem line_getOrCreateEntry (addr : UInt64) : (d.getOrCreateEntry addr).line = d.lineAt (clAddr addr) := by
  unfold getOrCreateEntry lineAt
  cases d.directory (clAddr addr) <;> rfl

theorem lineAt_store (b : UInt64) (e : MHSLDCachelineInfo) (tally : Tally) (a : UInt64) :
    (d.store b e tally).lineAt a = if b = a then e.line else d.lineAt a := by
  unfold lineAt store
  by_cases same : b = a
  · subst same
    simp
  · simp [same, update_of_ne (Ne.symm same)]

theorem lineAt_map (f : MHSLDCachelineInfo → MHSLDCachelineInfo)
    (leaves : ∀ e, (f e).line = e.line.leave noNode headId) (mapped : after.directory a = (d.directory a).map f) :
    after.lineAt a = (d.lineAt a).apply noNode (.leave headId) := by
  unfold lineAt
  rw [mapped]
  cases d.directory a with
  | none => exact (CoherencyEngine.leave_empty headId).symm
  | some e => exact leaves e

theorem isActive_setHead (headId : UInt32) (state : MHSLDHeadState) :
    (d.setHead headId state).isActive = update d.isActive headId state.active := by
  funext h
  simp only [isActive, setHead, update_apply]
  split <;> rfl

theorem isActive_readWithCoherency (headId : UInt32) (addr timestamp : UInt64) :
    (d.readWithCoherency headId addr timestamp).isActive = d.isActive := by
  unfold readWithCoherency
  split
  · exact (isActive_setHead _ _).trans (update_eq_self headId d.isActive)
  · rfl

theorem isActive_writeWithCoherency (headId : UInt32) (addr timestamp : UInt64) :
    (d.writeWithCoherency headId addr timestamp).isActive = d.isActive := by
  unfold writeWithCoherency
  split
  · exact (isActive_setHead _ _).trans (update_eq_self headId d.isActive)
  · rfl

theorem isActive_exec {c : Call} (returns : d.exec c = some after) : after.isActive = c.activity d.isActive := by
  cases c with
  | activateHead headId capacityAlloc =>
    cases returns
    simp only [activateHead, Call.activity]
    split
    · exact isActive_setHead _ _
    · rfl
  | deactivateHead headId =>
    cases returns
    simp only [deactivateHead, Call.activity]
    split
    · exact isActive_setHead _ _
    · rfl
  | allocatePool headId size =>
    cases returns
    unfold allocatePool
    split
    · simp only
      split
      · rfl
      · exact (isActive_setHead _ _).trans (update_eq_self headId d.isActive)
    · rfl
  | releasePool headId addr size =>
    rw [exec, releasePool] at returns
    split at returns
    · obtain ⟨directory, -, rfl⟩ := Option.map_eq_some_iff.mp returns
      exact (isActive_setHead _ _).trans (update_eq_self headId d.isActive)
    · cases returns
      rfl
  | readWithCoherency headId addr timestamp =>
    cases returns
    exact isActive_readWithCoherency headId addr timestamp
  | writeWithCoherency headId addr timestamp | atomicWithCoherency headId addr timestamp =>
    cases returns
    exact isActive_writeWithCoherency headId addr timestamp
  | writeback addr headId =>
    cases returns
    unfold writeback
    split
    · rfl
    · split <;> rfl

theorem directory_deactivateHead (valid : headId < maxHeads) (a : UInt64) :
    (d.deactivateHead headId).directory a = (d.directory a).map (.deactivate headId) := by
  simp only [deactivateHead, if_pos valid]

theorem directory_releasePool {addr size : UInt64} (accepts : d.Accepts headId)
    (returns : d.releasePool headId addr size = some after) (line : clAddr a = a) :
    after.directory a =
      if clAddr addr ≤ a ∧ a < addr + size then (d.directory a).map (.release headId) else d.directory a := by
  rw [releasePool, if_pos accepts] at returns
  obtain ⟨directory, looped, rfl⟩ := Option.map_eq_some_iff.mp returns
  exact releaseLines_spec (clAddr_clAddr addr) looped line

theorem directory_readWithCoherency (accepts : d.Accepts headId) (addr timestamp : UInt64) :
    (d.readWithCoherency headId addr timestamp).directory = update d.directory (clAddr addr)
      (some ((d.getOrCreateEntry addr).read headId timestamp).1) := by
  rw [readWithCoherency, if_pos accepts]
  rfl

theorem directory_writeWithCoherency (accepts : d.Accepts headId) (addr timestamp : UInt64) :
    (d.writeWithCoherency headId addr timestamp).directory = update d.directory (clAddr addr)
      (some ((d.getOrCreateEntry addr).write d.isActive headId timestamp).1) := by
  rw [writeWithCoherency, if_pos accepts]
  rfl

theorem lineAt_readWithCoherency (headId : UInt32) (addr timestamp a : UInt64) :
    (d.readWithCoherency headId addr timestamp).lineAt a = (d.lineAt a).apply noNode
      (if d.Accepts headId ∧ clAddr addr = a then .read headId else .keep) := by
  by_cases accepts : d.Accepts headId
  · simp only [readWithCoherency, if_pos accepts, lineAt_store, MHSLDCachelineInfo.line_read]
    by_cases same : clAddr addr = a
    · subst same
      simp only [accepts, and_self, if_true, line_getOrCreateEntry, Line.apply]
    · simp only [same, and_false, if_false]
      rfl
  · simp only [readWithCoherency, accepts, false_and, if_false, Line.apply]

theorem lineAt_writeWithCoherency (coherent : Coherent noNode (d.lineAt a)) (headId : UInt32)
    (addr timestamp : UInt64) :
    (d.writeWithCoherency headId addr timestamp).lineAt a = (d.lineAt a).apply noNode
      (if d.Accepts headId ∧ clAddr addr = a then .write headId else .keep) := by
  by_cases accepts : d.Accepts headId
  · simp only [writeWithCoherency, if_pos accepts, lineAt_store]
    by_cases same : clAddr addr = a
    · subst same
      rw [← line_getOrCreateEntry] at coherent
      simp only [accepts, and_self, if_true, MHSLDCachelineInfo.line_write coherent]
      rfl
    · simp only [same, and_false, if_false]
      rfl
  · simp only [writeWithCoherency, accepts, false_and, if_false, Line.apply]

theorem lineAt_writeback (addr : UInt64) (headId : UInt32) (a : UInt64) :
    (d.writeback addr headId).lineAt a = (d.lineAt a).apply noNode
      (if clAddr addr = a ∧ (d.lineAt a).owner = headId then .leave headId else .keep) := by
  by_cases same : clAddr addr = a
  · subst same
    unfold writeback
    cases found : d.directory (clAddr addr) with
    | none =>
      simp only [lineAt, found, Option.map_none, Option.getD_none, true_and]
      split
      · exact (CoherencyEngine.leave_empty headId).symm
      · rfl
    | some e =>
      have at_line : d.lineAt (clAddr addr) = e.line := by
        simp only [lineAt, found, Option.map_some, Option.getD_some]
      simp only [at_line, true_and]
      by_cases own : e.ownerHead = headId
      · simp only [if_pos own, lineAt_store, if_true, MHSLDCachelineInfo.line_writeback own]
        rw [if_pos (show e.line.owner = headId from own)]
        rfl
      · rw [if_neg own, if_neg (show ¬ e.line.owner = headId from own)]
        exact at_line
  · rw [if_neg fun h => same h.1]
    unfold writeback
    split
    · rfl
    · split
      · rw [lineAt_store, if_neg same]
        rfl
      · rfl

theorem lineAt_exec (line : clAddr a = a) (coherent : Coherent noNode (d.lineAt a)) {c : Call}
    (returns : d.exec c = some after) :
    after.lineAt a = (d.lineAt a).apply noNode (c.event d a) := by
  cases c with
  | activateHead headId capacityAlloc =>
    cases returns
    unfold activateHead
    split <;> rfl
  | deactivateHead headId =>
    cases returns
    rw [Call.event]
    by_cases valid : headId < maxHeads
    · rw [if_pos valid]
      exact lineAt_map _ (fun e => e.line_deactivate headId) (directory_deactivateHead valid a)
    · rw [if_neg valid, deactivateHead, if_neg valid]
      rfl
  | allocatePool headId size =>
    cases returns
    unfold allocatePool
    split
    · simp only
      split <;> rfl
    · rfl
  | releasePool headId addr size =>
    rw [Call.event]
    by_cases accepts : d.Accepts headId
    · have directory := directory_releasePool accepts returns line
      by_cases inside : clAddr addr ≤ a ∧ a < addr + size
      · rw [if_pos inside] at directory
        rw [if_pos ⟨accepts, inside⟩]
        exact lineAt_map _ (fun e => e.line_release headId) directory
      · rw [if_neg inside] at directory
        rw [if_neg fun h => inside h.2, lineAt, directory]
        rfl
    · rw [if_neg fun h => accepts h.1]
      rw [exec, releasePool, if_neg accepts] at returns
      cases returns
      rfl
  | readWithCoherency headId addr timestamp =>
    cases returns
    exact lineAt_readWithCoherency headId addr timestamp a
  | writeWithCoherency headId addr timestamp | atomicWithCoherency headId addr timestamp =>
    cases returns
    exact lineAt_writeWithCoherency coherent headId addr timestamp
  | writeback addr headId =>
    cases returns
    exact lineAt_writeback addr headId a

end MHSLDDevice
end CxlMemSim.Mhsld
