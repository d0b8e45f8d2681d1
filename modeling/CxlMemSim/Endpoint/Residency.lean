import CxlMemSim.Endpoint.Rob
import CxlMemSim.Endpoint.Topology
import Mathlib.Algebra.Order.Ring.Rat

/-! `insert` looks an address up in a set that may have more than the occupied ones, and the latencies of branch records
ask a cache of ranges. -/
namespace CxlMemSim.Endpoint
open CXLMemExpander List

namespace CXLMemExpander

def getAccess (e : CXLMemExpander) (timestamp : UInt64) : List (UInt64 × UInt64) :=
  (e.occupation.filter fun o => timestamp - 100000 < o.timestamp).map fun o => (o.timestamp, o.address)

def backInvalidate (e : CXLMemExpander) (addr : UInt64) : CXLMemExpander :=
  { e with occupation := e.occupation.filter fun o => o.address ≠ addr }

/-- The loop of `get_endpoint_rob_latency`: the accesses that it does not skip. -/
def robAccesses : List (UInt64 × UInt64) → CXLMemExpander → List (UInt64 × UInt64) × CXLMemExpander
  | [], e => ([], e)
  | (timestamp, addr) :: rest, e =>
    let (isEndpointAccess, e) := e.isAddressLocal addr
    let (others, e) := robAccesses rest e
    (if isEndpointAccess then others else (timestamp, addr) :: others, e)

def occupied (e : CXLMemExpander) (addr : UInt64) : Bool := e.occupation.any fun o => o.address = addr

end CXLMemExpander

structure Latency where
  read : ℚ
  write : ℚ
  dram : ℚ

def Latency.ofAccess (latency : Latency) (t : ThreadInfo) : ℚ :=
  let count := fun kind => (t.mCount.find? fun entry => entry.1 = kind).map Prod.snd
  let llcMissRatio : ℚ := if 0 < t.insCount then t.llcmCount / t.insCount else 0
  let remoteRatio : ℚ := match count 0, count 1 with
    | some here, some remote => if 0 < here + remote then remote / (here + remote) else 0
    | _, _ => 0
  let base := (latency.read + latency.write) / 2
  let congested := if (robSize : ℚ) * (8 / 10) ≤ t.insCount then base * (1 + llcMissRatio * (1 / 2)) else base
  let far := if (count 1).any fun n => decide (0 < n) then congested * (1 + remoteRatio * (3 / 10)) else congested
  far + latency.dram * (remoteRatio + 1 / 10)

def getEndpointRobLatency (e : CXLMemExpander) (accesses : List (UInt64 × UInt64)) (t : ThreadInfo)
    (latency : Latency) : ℚ × List (UInt64 × UInt64) :=
  let charged := (robAccesses accesses e.updateAddressCache).1
  let total := (charged.map fun _ => latency.ofAccess t).sum
  (if 0 < charged.length then total / charged.length else 0, charged)

/-- The endpoint is charged for its own accesses, as by `calculate_latency`, and not at all if it has none. -/
structure ChargesResident (timing : Timing) (e : CXLMemExpander) (accesses : List (UInt64 × UInt64)) (t : ThreadInfo)
    (latency : Latency) : Prop where
  resident : (getEndpointRobLatency e accesses t latency).2 = accesses.filter fun access => e.occupied access.2
  same : (getEndpointRobLatency e accesses t latency).2 = (e.calculateLatency timing accesses).1
  zero : (∀ access ∈ accesses, ¬ e.occupied access.2) → (getEndpointRobLatency e accesses t latency).1 = 0

namespace CXLMemExpander

theorem robAccesses_of_valid {e : CXLMemExpander} (valid : e.cacheValid = true) (accesses : List (UInt64 × UInt64)) :
    robAccesses accesses e = (accesses.filter fun access => !e.inRange access.2, e) := by
  induction accesses with
  | nil => rfl
  | cons access rest ih =>
    rw [robAccesses, isAddressLocal_of_valid valid]
    dsimp only
    rw [ih, filter_cons]
    cases e.inRange access.2 <;> rfl

theorem calculateLatency_eq (e : CXLMemExpander) (timing : Timing) (elem : List (UInt64 × UInt64)) :
    (e.calculateLatency timing elem).1 = elem.filter fun access => e.inRange access.2 := by
  unfold calculateLatency
  split
  · rename_i none
    rw [getLast?_eq_none_iff.mp none]
    rfl
  · rw [localAccesses_of_valid (cacheValid_updateAddressCache _)]
    simp [inRange]

theorem charged_eq (e : CXLMemExpander) (accesses : List (UInt64 × UInt64)) (t : ThreadInfo) (latency : Latency) :
    (getEndpointRobLatency e accesses t latency).2 = accesses.filter fun access => !e.inRange access.2 := by
  rw [getEndpointRobLatency, robAccesses_of_valid (cacheValid_updateAddressCache e)]
  simp [inRange]

theorem chargesResident_iff (timing : Timing) (e : CXLMemExpander) (accesses : List (UInt64 × UInt64)) (t : ThreadInfo)
    (latency : Latency) : ChargesResident timing e accesses t latency ↔ accesses = [] := by
  constructor
  · intro law
    have same := law.same
    rw [charged_eq, calculateLatency_eq] at same
    refine eq_nil_iff_forall_not_mem.mpr fun access member => ?_
    have both := congrArg (access ∈ ·) same
    cases here : e.inRange access.2 <;> simp [member, here] at both
  · rintro rfl
    exact ⟨rfl, rfl, fun _ => rfl⟩

theorem not_chargesResident :
    let e : CXLMemExpander := { id := 0, occupation := [⟨1, 0x1000, 0⟩] }
    let latency : Latency := ⟨100, 150, 0⟩
    getEndpointRobLatency e [(2, 0x2000)] {} latency = (125, [(2, 0x2000)]) ∧
      ¬ ChargesResident (fun now _ _ => now) e [(2, 0x2000)] {} latency := by
  intro e latency
  have charged : getEndpointRobLatency e [(2, 0x2000)] {} latency = (125, [(2, 0x2000)]) := by decide +kernel
  refine ⟨charged, fun law => ?_⟩
  have resident := law.resident
  rw [charged] at resident
  exact absurd resident (by decide)

inductive Op
  | insert (timestamp tid physAddr : UInt64) (index : Int)
  | deleteEntry (addr length : UInt64)
  | freeStats (kept : Nat → Bool)
  | getAccess (timestamp : UInt64)
  | calculateLatency (elem : List (UInt64 × UInt64))
  | backInvalidate (addr : UInt64)

def step (timing : Timing) (e : CXLMemExpander) : Op → CXLMemExpander
  | .insert timestamp tid physAddr index => (e.insert timing timestamp tid physAddr index).2
  | .deleteEntry addr length => e.deleteEntry addr length
  | .freeStats kept => e.freeStats kept
  | .getAccess _ => e
  | .calculateLatency elem => (e.calculateLatency timing elem).2
  | .backInvalidate addr => e.backInvalidate addr

def addresses (e : CXLMemExpander) : List UInt64 := e.occupation.map OccupationInfo.address

structure Tracks (e : CXLMemExpander) : Prop where
  nodup : e.addresses.Nodup
  cached : ∀ addr ∈ e.addresses, addr ∈ e.addressCache

def processed (e : CXLMemExpander) (timing : Timing) (timestamp : UInt64) : CXLMemExpander :=
  (e.dated (if timestamp < e.lastTimestamp then e.lastTimestamp else timestamp)).processQueuedRequests timing timestamp

/-- The answer to an access that finds room in the queue: 2 just if the address was occupied, or else 1 and it is
added. -/
structure AnswersResidency (timing : Timing) (e : CXLMemExpander) (timestamp tid physAddr : UInt64) : Prop where
  load_iff : (e.insert timing timestamp tid physAddr e.id).1 = 2 ↔ physAddr ∈ e.addresses
  store : physAddr ∉ e.addresses → (e.insert timing timestamp tid physAddr e.id).1 = 1 ∧
    (e.insert timing timestamp tid physAddr e.id).2.occupation = e.occupation ++ [{ timestamp, address := physAddr }]

theorem any_iff (e : CXLMemExpander) (addr : UInt64) :
    (e.occupation.any fun o => o.address = addr) = true ↔ addr ∈ e.addresses := by
  simp [addresses]

theorem insert_own (e : CXLMemExpander) (timing : Timing) (timestamp tid physAddr : UInt64) :
    e.insert timing timestamp tid physAddr e.id = (e.processed timing timestamp).record timestamp tid physAddr :=
  if_pos rfl

theorem unqueued_processed (e : CXLMemExpander) (timing : Timing) (timestamp : UInt64) :
    ∃ lastTimestamp, (e.processed timing timestamp).unqueued = (e.dated lastTimestamp).unqueued :=
  ⟨_, unqueued_processQueuedRequests _ timing timestamp⟩

namespace Tracks
variable {e : CXLMemExpander} (h : e.Tracks) {physAddr : UInt64}
include h

theorem of_unqueued {e' : CXLMemExpander} (same : e'.unqueued = e.unqueued) : e'.Tracks := by
  have kept : e.unqueued.Tracks := ⟨h.nodup, h.cached⟩
  rw [← same] at kept
  exact ⟨kept.nodup, kept.cached⟩

theorem sublist {occupation : List OccupationInfo} (part : (occupation.map OccupationInfo.address).Sublist e.addresses)
    (cacheValid : Bool) : Tracks { e with occupation, cacheValid } where
  nodup := h.nodup.sublist part
  cached := fun addr member => h.cached addr (part.subset member)

theorem processed (timing : Timing) (timestamp : UInt64) : (e.processed timing timestamp).Tracks := by
  obtain ⟨lastTimestamp, same⟩ := unqueued_processed e timing timestamp
  have dated : (e.dated lastTimestamp).Tracks := ⟨h.nodup, h.cached⟩
  exact dated.of_unqueued same

theorem record_of_mem (nonzero : physAddr ≠ 0) (room : e.canAcceptRequest)
    (present : physAddr ∈ e.addresses) (timestamp tid : UInt64) :
    (e.record timestamp tid physAddr).1 = 2 ∧
      (e.record timestamp tid physAddr).2.addresses = e.addresses.erase physAddr ++ [physAddr] ∧
      (e.record timestamp tid physAddr).2.addressCache = e.addressCache := by
  rw [record, if_pos nonzero, if_pos room]
  dsimp only
  rw [if_pos ⟨h.cached physAddr present, (any_iff e physAddr).mpr present⟩]
  refine ⟨rfl, ?_, rfl⟩
  rw [addresses, addresses, map_append, erase_eq_eraseP', eraseP_map]
  rfl

omit h in
theorem record_of_notMem (nonzero : physAddr ≠ 0) (room : e.canAcceptRequest)
    (absent : physAddr ∉ e.addresses) (timestamp tid : UInt64) :
    (e.record timestamp tid physAddr).1 = 1 ∧
      (e.record timestamp tid physAddr).2.occupation = e.occupation ++ [{ timestamp, address := physAddr }] ∧
      (e.record timestamp tid physAddr).2.addressCache = physAddr :: e.addressCache := by
  rw [record, if_pos nonzero, if_pos room]
  dsimp only
  rw [if_neg fun seen => absent ((any_iff e physAddr).mp seen.2)]
  exact ⟨rfl, rfl, rfl⟩

theorem record (timestamp tid physAddr : UInt64) : (e.record timestamp tid physAddr).2.Tracks := by
  by_cases nonzero : physAddr ≠ 0
  · by_cases room : e.canAcceptRequest
    · by_cases present : physAddr ∈ e.addresses
      · obtain ⟨-, addresses, cache⟩ := h.record_of_mem nonzero room present timestamp tid
        have perm := (perm_append_singleton physAddr (e.addresses.erase physAddr)).trans
          (perm_cons_erase present).symm
        refine ⟨addresses ▸ perm.nodup_iff.mpr h.nodup, fun addr member => ?_⟩
        rw [cache]
        exact h.cached addr (perm.mem_iff.mp (addresses ▸ member))
      · obtain ⟨-, occupation, cache⟩ := record_of_notMem nonzero room present timestamp tid
        have addresses : (e.record timestamp tid physAddr).2.addresses = e.addresses ++ [physAddr] := by
          rw [addresses, occupation, map_append]
          rfl
        have perm := perm_append_singleton physAddr e.addresses
        refine ⟨addresses ▸ perm.nodup_iff.mpr (nodup_cons.mpr ⟨present, h.nodup⟩), fun addr member => ?_⟩
        rw [addresses, perm.mem_iff] at member
        rw [cache]
        exact mem_cons.mpr ((mem_cons.mp member).imp_right (h.cached addr))
    · rw [CXLMemExpander.record, if_pos nonzero, if_neg room]
      exact h
  · rw [CXLMemExpander.record, if_neg nonzero]
    exact h

theorem updateAddressCache : e.updateAddressCache.Tracks := by
  unfold CXLMemExpander.updateAddressCache
  split
  · exact h
  · exact ⟨h.nodup, fun _ member => member⟩

theorem step (timing : Timing) (op : Op) : (e.step timing op).Tracks := by
  cases op with
  | insert timestamp tid physAddr index =>
    by_cases own : index = e.id
    · subst own
      rw [CXLMemExpander.step, insert_own]
      exact (h.processed timing timestamp).record timestamp tid physAddr
    · rw [CXLMemExpander.step, CXLMemExpander.insert, if_neg own]
      exact h
  | deleteEntry addr length =>
    rw [CXLMemExpander.step, CXLMemExpander.deleteEntry]
    split
    · refine h.sublist (Eq.subst (motive := (List.Sublist · _)) ?_ (List.Sublist.refl e.addresses)) false
      rw [map_map]
      refine map_congr_left fun o _ => ?_
      rw [Function.comp_apply]
      split <;> rfl
    · exact h
  | freeStats kept =>
    rw [CXLMemExpander.step, CXLMemExpander.freeStats]
    split
    · refine h.sublist (List.Sublist.map _ ?_) false
      have part := (filter_sublist (p := fun entry => kept entry.2) (l := e.occupation.zipIdx)).map Prod.fst
      rwa [zipIdx_map_fst] at part
    · exact h
  | getAccess timestamp => exact h
  | calculateLatency elem =>
    rw [CXLMemExpander.step, CXLMemExpander.calculateLatency]
    split
    · exact h
    · rw [localAccesses_of_valid (cacheValid_updateAddressCache _)]
      exact (h.of_unqueued (unqueued_processQueuedRequests e timing _)).updateAddressCache
  | backInvalidate addr => exact h.sublist (filter_sublist.map _) e.cacheValid

theorem answers (timing : Timing) (timestamp tid : UInt64) (nonzero : physAddr ≠ 0)
    (room : (e.processed timing timestamp).canAcceptRequest) :
    e.AnswersResidency timing timestamp tid physAddr := by
  obtain ⟨lastTimestamp, same⟩ := unqueued_processed e timing timestamp
  have occupation := congrArg occupation same
  have addresses : (e.processed timing timestamp).addresses = e.addresses := congrArg (List.map _) occupation
  by_cases present : physAddr ∈ e.addresses
  · obtain ⟨answer, -⟩ := (h.processed timing timestamp).record_of_mem nonzero room (addresses ▸ present) timestamp tid
    rw [← insert_own] at answer
    exact ⟨iff_of_true answer present, (absurd present ·)⟩
  · obtain ⟨answer, added, -⟩ := record_of_notMem nonzero room (addresses ▸ present) timestamp tid
    rw [← insert_own] at answer added
    refine ⟨iff_of_false (by rw [answer]; decide) present, fun _ => ⟨answer, added.trans ?_⟩⟩
    exact congrArg (· ++ _) occupation

end Tracks

/-- After any history each occupied address is in the record once and in the set that `insert` looks into, and the
answers follow the record. -/
theorem run_tracks (timing : Timing) (id : Int) (ops : List Op) :
    (ops.foldl (step timing) { id }).Tracks ∧
      ∀ timestamp tid physAddr, physAddr ≠ 0 →
        ((ops.foldl (step timing) { id }).processed timing timestamp).canAcceptRequest →
        (ops.foldl (step timing) { id }).AnswersResidency timing timestamp tid physAddr := by
  have tracks := Run.invariant (I := Tracks) (fun _ op h => h.step timing op)
    (⟨nodup_nil, fun _ member => absurd member not_mem_nil⟩ : Tracks { id }) ops
  exact ⟨tracks, fun timestamp tid _ nonzero room => tracks.answers timing timestamp tid nonzero room⟩

end CXLMemExpander

end CxlMemSim.Endpoint
