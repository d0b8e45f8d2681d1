import CxlMemSim.Type2.Coherent
import CxlMemSim.Type2.FilterSteps

/-! A coherency request, a notification of a GPU access and the coherency part of a peer-to-peer transfer take a size
and do not look at it. -/
namespace CxlMemSim.Type2
open CXLBARCoherencyState Function LineOp

inductive Fetch where
  | rdShared | rdOwn | wrInv

def Fetch.req : Fetch → CXLCoherencyReqType
  | .rdShared => .rdShared
  | .rdOwn => .rdOwn
  | .wrInv => .wrInv

inductive RangeCall where
  | coherencyRequest (fetch : Fetch) (source : CXLCoherencyDomain)
  | notifyGpuAccess (isWrite : Bool)
  | ensureCoherency (peer : CXLType2State.CXLP2PPeer) (isWrite : Bool)

def CXLType2State.rangeCall (ct2d : CXLType2State) (c : RangeCall) (addr _size : UInt64) : CXLType2State :=
  match c with
  | .coherencyRequest fetch source => ct2d.request fetch.req addr source
  | .notifyGpuAccess isWrite => ct2d.notifyGpuAccess addr isWrite
  | .ensureCoherency peer isWrite => ct2d.ensureCoherency peer addr isWrite

def firstIn (addr line : UInt64) : UInt64 := if line = addrToCacheline addr then addr else line

/-- Each line of the range is left as the call for that line alone would leave it. -/
def CXLType2State.Covers (ct2d : CXLType2State) (c : RangeCall) (addr size : UInt64) : Prop :=
  ∀ line, Overlaps addr size line →
    (ct2d.rangeCall c addr size).barCoherency.entryOf line =
        (ct2d.rangeCall c (firstIn addr line) 1).barCoherency.entryOf line ∧
      (ct2d.rangeCall c addr size).cacheLookup line = (ct2d.rangeCall c (firstIn addr line) 1).cacheLookup line

def Fetch.Settled (source : CXLCoherencyDomain) (entry : Option CXLSnoopEntry) : Fetch → Prop
  | .rdShared => ∃ e ∈ entry, e.state ≠ .modified ∧ source ∈ e.domainMask
  | .rdOwn => ∃ e ∈ entry, e.state = .exclusive ∧ e.domainMask = {source} ∧ e.ownerDomain = source
  | .wrInv => ∃ e ∈ entry, e.state = .modified ∧ e.domainMask = {source} ∧ e.ownerDomain = source ∧ e.dirty = true

def gpuFetch (isWrite : Bool) : Fetch := if isWrite then .wrInv else .rdShared

def CXLType2State.SettledAt (ct2d : CXLType2State) (line : UInt64) : RangeCall → Prop
  | .coherencyRequest fetch source =>
    ct2d.barCoherency.enabled = true → fetch.Settled source (ct2d.barCoherency.entryOf line)
  | .notifyGpuAccess isWrite =>
    ct2d.barCoherency.enabled = true → (ct2d.barCoherency.findRegionForAddr line).isSome →
      (gpuFetch isWrite).Settled .gpu (ct2d.barCoherency.entryOf line)
  | .ensureCoherency peer isWrite =>
    peer.isType2 = true → peer.isOwner = true →
      (ct2d.barCoherency.enabled = true → (gpuFetch isWrite).Settled .gpu (ct2d.barCoherency.entryOf line)) ∧
        if isWrite then ct2d.cacheLookup line = none else ∀ l ∈ ct2d.cacheLookup line, l.dirty = false

def CXLType2State.lineOp (ct2d : CXLType2State) (addr : UInt64) : RangeCall → Option LineOp
  | .coherencyRequest fetch source =>
    if ct2d.barCoherency.enabled then some (.request fetch.req source) else none
  | .notifyGpuAccess isWrite =>
    if ct2d.barCoherency.enabled ∧ (ct2d.barCoherency.findRegionForAddr addr).isSome then
      some (.request (gpuFetch isWrite).req .gpu)
    else none
  | .ensureCoherency peer isWrite =>
    if (peer.isType2 ∧ peer.isOwner) ∧ ct2d.barCoherency.enabled then some (.request (gpuFetch isWrite).req .gpu)
    else none

def CXLType2State.onEntry (ct2d : CXLType2State) (c : RangeCall) (addr : UInt64) (entry : Option CXLSnoopEntry) :
    Option CXLSnoopEntry :=
  match ct2d.lineOp addr c with
  | none => entry
  | some op => op.apply (addrToCacheline addr) entry

def RangeCall.onCache (line : Option CXLCacheLine) : RangeCall → Option CXLCacheLine
  | .ensureCoherency peer isWrite =>
    if peer.isType2 ∧ peer.isOwner then
      if isWrite then none else line.map fun l => { l with dirty := false }
    else line
  | .coherencyRequest _ _ | .notifyGpuAccess _ => line

theorem coherencyRequest_filter (state : CXLBARCoherencyState) (req : CXLCoherencyReqType) (addr : UInt64)
    (source : CXLCoherencyDomain) :
    (state.coherencyRequest req addr source).1.snoopFilter =
      if state.enabled then update state.snoopFilter (addrToCacheline addr)
        (apply (addrToCacheline addr) (state.entryOf addr) (.request req source))
      else state.snoopFilter := by
  split
  · rename_i enabled
    exact (coherencyRequest_effect enabled req).filter
  · rename_i off
    rw [coherencyRequest, if_neg off]

theorem update_wrInv (line : UInt64) (entry : Option CXLSnoopEntry) :
    apply line (apply line entry (.request .wrInv .gpu)) (.update .modified .gpu) =
      apply line entry (.request .wrInv .gpu) := by
  cases entry <;> rfl

theorem notifyGpuAccess_filter (state : CXLBARCoherencyState) (addr : UInt64) (isWrite : Bool) :
    (state.notifyGpuAccess addr isWrite).snoopFilter =
      if state.enabled ∧ (state.findRegionForAddr addr).isSome then
        update state.snoopFilter (addrToCacheline addr)
          (apply (addrToCacheline addr) (state.entryOf addr) (.request (gpuFetch isWrite).req .gpu))
      else state.snoopFilter := by
  rw [notifyGpuAccess]
  split
  · rename_i there
    cases isWrite with
    | false =>
      change (state.coherencyRequest .rdShared addr .gpu).1.snoopFilter = _
      rw [coherencyRequest_filter, if_pos there.1]
      rfl
    | true =>
      change ((state.coherencyRequest .wrInv addr .gpu).1.snoopUpdate addr .modified .gpu).snoopFilter = _
      have requested := coherencyRequest_filter state .wrInv addr .gpu
      rw [if_pos there.1] at requested
      rw [(snoopUpdate_does _ addr .modified .gpu).sets.filter, entryOf, requested, update_self, update_wrInv,
        update_idem]
      rfl
  · rfl

namespace CXLType2State
variable (ct2d : CXLType2State)

theorem cacheLines_cacheWriteback (addr : UInt64) :
    (ct2d.cacheWriteback addr).cacheLines = update ct2d.cacheLines (addrToCacheline addr)
      ((ct2d.cacheLookup addr).map fun line => { line with dirty := false }) := by
  rw [cacheWriteback]
  cases found : ct2d.cacheLookup addr with
  | none => exact (update_eq_self_iff.mpr found.symm).symm
  | some line =>
    by_cases dirty : line.dirty = true
    · simp only [if_pos dirty, Option.map_some]
      split <;> rfl
    · simp only [if_neg dirty, Option.map_some]
      refine (update_eq_self_iff.mpr ?_).symm
      rw [← cacheLookup, found, ← Bool.eq_false_of_not_eq_true dirty]

theorem rangeCall_filter (c : RangeCall) (addr size : UInt64) :
    (ct2d.rangeCall c addr size).barCoherency.snoopFilter =
      update ct2d.barCoherency.snoopFilter (addrToCacheline addr)
        (ct2d.onEntry c addr (ct2d.barCoherency.entryOf addr)) := by
  have same : update ct2d.barCoherency.snoopFilter (addrToCacheline addr) (ct2d.barCoherency.entryOf addr) =
      ct2d.barCoherency.snoopFilter := update_eq_self _ _
  cases c with
  | coherencyRequest fetch source =>
    refine (coherencyRequest_filter ct2d.barCoherency fetch.req addr source).trans ?_
    rw [onEntry, lineOp]
    split
    · rfl
    · exact same.symm
  | notifyGpuAccess isWrite =>
    refine (notifyGpuAccess_filter ct2d.barCoherency addr isWrite).trans ?_
    rw [onEntry, lineOp]
    split
    · rfl
    · exact same.symm
  | ensureCoherency peer isWrite =>
    rw [rangeCall, ensureCoherency, onEntry, lineOp]
    by_cases owner : peer.isType2 = true ∧ peer.isOwner = true
    · have requested := coherencyRequest_filter ct2d.barCoherency (gpuFetch isWrite).req addr .gpu
      have after : (if isWrite then (ct2d.request .wrInv addr .gpu).cacheInvalidate addr
          else (ct2d.request .rdShared addr .gpu).cacheWriteback addr).barCoherency.snoopFilter =
            (ct2d.barCoherency.coherencyRequest (gpuFetch isWrite).req addr .gpu).1.snoopFilter := by
        cases isWrite with
        | true => rfl
        | false => exact congrArg snoopFilter (bar_cacheWriteback addr)
      rw [if_pos owner, after, requested]
      by_cases enabled : ct2d.barCoherency.enabled = true
      · rw [if_pos enabled, if_pos ⟨owner, enabled⟩]
      · rw [if_neg enabled, if_neg fun both => enabled both.2]
        exact same.symm
    · rw [if_neg owner, if_neg fun both => owner both.1]
      exact same.symm

theorem rangeCall_cacheLines (c : RangeCall) (addr size : UInt64) :
    (ct2d.rangeCall c addr size).cacheLines =
      update ct2d.cacheLines (addrToCacheline addr) (c.onCache (ct2d.cacheLookup addr)) := by
  have same : update ct2d.cacheLines (addrToCacheline addr) (ct2d.cacheLookup addr) = ct2d.cacheLines :=
    update_eq_self _ _
  cases c with
  | coherencyRequest | notifyGpuAccess => exact same.symm
  | ensureCoherency peer isWrite =>
    rw [rangeCall, ensureCoherency, RangeCall.onCache]
    by_cases owner : peer.isType2 = true ∧ peer.isOwner = true
    · rw [if_pos owner, if_pos owner]
      cases isWrite with
      | true => rfl
      | false => exact cacheLines_cacheWriteback (ct2d.request .rdShared addr .gpu) addr
    · rw [if_neg owner, if_neg owner]
      exact same.symm

end CXLType2State

theorem Fetch.apply_eq_self_iff (fetch : Fetch) (source : CXLCoherencyDomain) (line : UInt64)
    (entry : Option CXLSnoopEntry) :
    apply line entry (.request fetch.req source) = entry ↔ fetch.Settled source entry := by
  cases entry with
  | none => cases fetch <;> simp [Fetch.req, apply, create, Settled]
  | some entry =>
    obtain ⟨addr, state, mask, owner, bias, dirty⟩ := entry
    cases fetch with
    | rdShared =>
      by_cases modified : state = .modified
      · simp [Fetch.req, apply, change, Settled, modified]
      · simp [Fetch.req, apply, change, Settled, modified, CXLSnoopEntry.join]
    | rdOwn | wrInv =>
      simp only [Fetch.req, apply, change, CXLSnoopEntry.own, Settled, Option.some.injEq,
        CXLSnoopEntry.mk.injEq, Option.mem_some_iff, exists_eq_left', true_and, and_true]
      simp [eq_comm]

theorem RangeCall.onCache_eq_self_iff (line : Option CXLCacheLine) (peer : CXLType2State.CXLP2PPeer) (isWrite : Bool) :
    (RangeCall.ensureCoherency peer isWrite).onCache line = line ↔
      (peer.isType2 = true → peer.isOwner = true → if isWrite then line = none else ∀ l ∈ line, l.dirty = false) := by
  rw [onCache]
  by_cases owner : peer.isType2 = true ∧ peer.isOwner = true
  · rw [if_pos owner]
    simp only [owner.1, owner.2, true_imp_iff]
    cases isWrite with
    | true => simp [eq_comm]
    | false =>
      cases line with
      | none => simp
      | some l =>
        obtain ⟨state, dirty, data⟩ := l
        cases dirty <;> simp
  · rw [if_neg owner]
    exact iff_of_true rfl fun type2 isOwner => absurd ⟨type2, isOwner⟩ owner

namespace CXLType2State
variable (ct2d : CXLType2State)

theorem onEntry_eq_self_iff {fetch : Fetch} {source : CXLCoherencyDomain} {c : RangeCall} {addr : UInt64} {asks : Prop}
    [Decidable asks] (op : ct2d.lineOp addr c = if asks then some (.request fetch.req source) else none)
    (entry : Option CXLSnoopEntry) : ct2d.onEntry c addr entry = entry ↔ (asks → fetch.Settled source entry) := by
  rw [onEntry, op]
  by_cases asked : asks
  · rw [if_pos asked]
    exact (fetch.apply_eq_self_iff source _ entry).trans ⟨fun settled _ => settled, fun settled => settled asked⟩
  · rw [if_neg asked]
    exact iff_of_true rfl fun impossible => absurd impossible asked

theorem settledAt_iff (c : RangeCall) (line : UInt64) :
    (ct2d.onEntry c line (ct2d.barCoherency.entryOf line) = ct2d.barCoherency.entryOf line ∧
      c.onCache (ct2d.cacheLookup line) = ct2d.cacheLookup line) ↔ ct2d.SettledAt line c := by
  cases c with
  | coherencyRequest fetch source =>
    rw [ct2d.onEntry_eq_self_iff rfl]
    exact and_iff_left rfl
  | notifyGpuAccess isWrite =>
    rw [ct2d.onEntry_eq_self_iff rfl, SettledAt, and_imp]
    exact and_iff_left rfl
  | ensureCoherency peer isWrite =>
    rw [ct2d.onEntry_eq_self_iff rfl, RangeCall.onCache_eq_self_iff, SettledAt, and_imp, and_imp]
    exact ⟨fun both type2 owner => ⟨both.1 type2 owner, both.2 type2 owner⟩,
      fun all => ⟨fun type2 owner => (all type2 owner).1, fun type2 owner => (all type2 owner).2⟩⟩

theorem range_covered_iff (c : RangeCall) (addr size : UInt64) :
    ct2d.Covers c addr size ↔
      ∀ line, Overlaps addr size line → line ≠ addrToCacheline addr → ct2d.SettledAt line c := by
  refine forall₂_congr fun line overlaps => ?_
  by_cases first : line = addrToCacheline addr
  · rw [firstIn, if_pos first]
    exact iff_of_true ⟨rfl, rfl⟩ fun other => absurd first other
  · have onLine := addrToCacheline_of_aligned overlaps.1
    have elsewhere : addrToCacheline line ≠ addrToCacheline addr := onLine.symm ▸ first
    rw [firstIn, if_neg first, ← ct2d.settledAt_iff c line]
    rw [entryOf, entryOf, cacheLookup, cacheLookup, rangeCall_filter, rangeCall_filter, rangeCall_cacheLines,
      rangeCall_cacheLines, update_of_ne elsewhere, update_of_ne elsewhere, update_self,
      update_self]
    exact ⟨fun both _ => ⟨both.1.symm, both.2.symm⟩, fun both => ⟨(both first).1.symm, (both first).2.symm⟩⟩

end CXLType2State

/-- Both lines of the CPU are tracked, so that no call takes the lock twice. -/
def secondRead : CXLType2State :=
  let ct2d := realize { deviceMemSize := 4096, cacheSize := 4096 }
  { ct2d with barCoherency := (ct2d.barCoherency.snoopInsert 0 .shared .cpu).snoopInsert 64 .shared .cpu }

/-- The GPU writes the first two lines, and the CPU still has the second one. -/
theorem not_covers_secondRead :
    (secondRead.rangeCall (.notifyGpuAccess true) 0 128).barCoherency.lock = {} ∧
      ((secondRead.rangeCall (.notifyGpuAccess true) 0 128).barCoherency.entryOf 64).map (·.domainMask) =
        some {.cpu} ∧
      ((secondRead.rangeCall (.notifyGpuAccess true) 64 1).barCoherency.entryOf 64).map (·.domainMask) = some {.gpu} ∧
      ¬ secondRead.Covers (.notifyGpuAccess true) 0 128 := by
  refine ⟨rfl, by decide +kernel, by decide +kernel, fun covers => ?_⟩
  have same := congrArg (Option.map (·.domainMask)) (covers 64 (by decide)).1
  revert same
  decide +kernel

end CxlMemSim.Type2
