import CxlMemSim.Endpoint.LruCache
import CxlMemSim.Endpoint.Migration
import CxlMemSim.Endpoint.Residency
import CxlMemSim.Hdm.Decoder
import Mathlib.Algebra.Order.Ring.Nat

/-! A call of `CXLController::insert` stands for the accesses since the last index, spread evenly over the time since
the last call. -/
namespace CxlMemSim.Endpoint

structure CXLCounter where
  «local» : UInt64 := 0
  remote : UInt64 := 0
  hitm : UInt64 := 0
  backinv : UInt64 := 0

/-- The controller with the state `π` of its policies.  `llcmType` is the queue of each thread. -/
structure Host (π : Type) where
  controller : Controller
  policies : π
  cache : Residents := []
  hdmDecoder : Option Hdm.HDMDecoder := none
  deviceMap : UInt32 → Option Ref := fun _ => none
  remoteExpanders : UInt32 → Option Ref := fun _ => none
  counter : CXLCounter := {}
  llcmType : Tid → List Int := fun _ => []
  lastIndex : Int := 0
  requestCounter : Int := 0

structure Policies (π : Type) where
  allocation : Host π → Int × π
  checkPageTableWalk : Host π → (virtAddr physAddr : UInt64) → (isRemote : Bool) → UInt64 × π
  shouldCache : Host π → (addr timestamp : UInt64) → Bool × π
  migrationPolicy : Option MigrationPolicy
  /-- Whether a migration is due. -/
  migration : Host π → Bool × π
  /-- The keys that the policy evicts itself, and the list of an invalidation that is due. -/
  caching : Host π → (List UInt64 × List UInt64) × π

structure Host.Call where
  timestamp : UInt64
  tid : Tid
  physAddr : UInt64
  virtAddr : UInt64
  index : Int

inductive Route
  | hit
  | remoteNode (expander : Option Ref)
  | device (expander : Ref)
  | own
  | numa (index : Int)
deriving DecidableEq

inductive AccessKind
  | hitm
  | «local»
  | remote
deriving DecidableEq

def Route.kind : Route → AccessKind
  | hit => .hitm
  | device _ | own => .local
  | remoteNode _ | numa _ => .remote

def AccessKind.llcmType : AccessKind → Int
  | hitm | «local» => 0
  | remote => 1

def CXLCounter.inc (c : CXLCounter) : AccessKind → CXLCounter
  | .hitm => { c with hitm := c.hitm + 1 }
  | .local => { c with «local» := c.local + 1 }
  | .remote => { c with remote := c.remote + 1 }

def cacheCapacity : Nat := 32 * 1024 * 1024 / 64

namespace Host
variable {π : Type} (P : Policies π) (timing : Timing)

def route (h : Host π) (physAddr : UInt64) : Route × π :=
  match h.cache.value physAddr, h.hdmDecoder with
  | some _, _ => (.hit, h.policies)
  | none, some decoder =>
    let result := decoder.decode physAddr
    if result.isRemote then (.remoteNode (h.remoteExpanders result.targetId), h.policies)
    else ((h.deviceMap result.targetId).elim .own .device, h.policies)
  | none, none =>
    let (numa, policies) := P.allocation h
    (if numa = -1 then .own else .numa numa, policies)

/-- The access where it goes; the entry of the controller's own map has its fields in the source's order. -/
def place (c : Controller) (call : Call) (now ptwLatency : UInt64) : Route → Controller
  | .hit | .remoteNode none => c
  | .remoteNode (some r) | .device r =>
    { c with store := c.store.modify r fun d =>
        (d.insert timing (now + ptwLatency) call.tid call.physAddr d.expander.id).2 }
  | .own => { c with occupation := c.occupation.emplace now ⟨call.physAddr, 1, now + ptwLatency⟩ }
  | .numa index =>
    { c with store := c.tree.insertAll timing (now + ptwLatency) call.tid call.physAddr index false c.store }

def count (h : Host π) (tid : Tid) (kind : AccessKind) : Host π :=
  { h with
    counter := h.counter.inc kind
    llcmType := Function.update h.llcmType tid (h.llcmType tid ++ [kind.llcmType]) }

def fill (call : Call) (now : UInt64) (always : Bool) (h : Host π) : Host π :=
  let (cached, policies) := if always then (true, h.policies) else P.shouldCache h call.physAddr now
  let cache := h.cache.step cacheCapacity (.put call.physAddr call.physAddr now)
  { h with policies, cache := if cached then cache else h.cache }

/-- A local access by the allocation policy does not ask before it fills the cache. -/
def serve (call : Call) (now : UInt64) (h : Host π) (route : Route) : Host π :=
  if route = .hit then { h with cache := h.cache.step cacheCapacity (.get call.physAddr now) }.count call.tid .hitm
  else
    let (ptwLatency, policies) := P.checkPageTableWalk h call.virtAddr call.physAddr (route.kind = .remote)
    fill P call now (route.kind = .local ∧ h.hdmDecoder = none)
      ({ h with policies, controller := place timing h.controller call now ptwLatency route }.count call.tid route.kind)

def access (call : Call) (h : Host π) (now : UInt64) : Host π :=
  serve P timing call now { h with policies := (h.route P call.physAddr).2 } (h.route P call.physAddr).1

def times (h : Host π) (call : Call) : List UInt64 :=
  let accesses := (call.index - h.lastIndex).toNat
  let timeStep := (call.timestamp - h.controller.lastTimestamp) / UInt64.ofNat accesses
  (List.range accesses).map fun i => h.controller.lastTimestamp + UInt64.ofNat (i + 1) * timeStep

/-- An address leaves the cache and the expanders, and each place that it leaves is counted. -/
def backInvalidate (h : Host π) (addr : UInt64) : Host π :=
  let (erased, store) := h.controller.tree.visit
    (fun d => (d.expander.occupation.countP fun o => o.address = addr,
      { d with expander := d.expander.backInvalidate addr })) h.controller.store
  let cached := if addr ∈ h.cache.keys then 1 else 0
  { h with
    cache := h.cache.step cacheCapacity (.remove addr)
    controller := { h.controller with store }
    counter := { h.counter with backinv := h.counter.backinv + UInt64.ofNat (cached + (erased.map Prod.snd).sum) } }

def maintain (h : Host π) : Host π :=
  let (due, policies) := P.migration h
  let controller := if due then h.controller.performMigration P.migrationPolicy else h.controller
  let h := { h with policies, controller }
  let ((evicted, invalidationList), policies) := P.caching h
  let cache := evicted.foldl (fun cache key => Residents.step cacheCapacity cache (.remove key)) h.cache
  invalidationList.foldl backInvalidate { h with policies, cache }

def finish (call : Call) (h : Host π) : Host π :=
  let requestCounter := h.requestCounter + (call.index - h.lastIndex)
  let h := if 1000 ≤ requestCounter then { h.maintain P with requestCounter := 0 } else { h with requestCounter }
  { h with
    lastIndex := if 0 < call.index then call.index else h.lastIndex
    controller := { h.controller with lastTimestamp := call.timestamp } }

def insert (h : Host π) (call : Call) : Host π := finish P call ((h.times call).foldl (access P timing call) h)

def routes (call : Call) : Host π → List UInt64 → List Route
  | _, [] => []
  | h, now :: rest => (h.route P call.physAddr).1 :: routes call (access P timing call h now) rest

structure Tally where
  hitm : UInt64
  «local» : UInt64
  remote : UInt64
  llcmType : Tid → List Int

def tally (h : Host π) : Tally := ⟨h.counter.hitm, h.counter.local, h.counter.remote, h.llcmType⟩

def Tally.add (t : Tally) (tid : Tid) (kinds : List AccessKind) : Tally where
  hitm := t.hitm + UInt64.ofNat (kinds.count .hitm)
  «local» := t.local + UInt64.ofNat (kinds.count .local)
  remote := t.remote + UInt64.ofNat (kinds.count .remote)
  llcmType := Function.update t.llcmType tid (t.llcmType tid ++ kinds.map AccessKind.llcmType)

section
variable {P timing} {call : Call}

end

def entries (h : Host π) : Multiset OccupationInfo := h.controller.occupation.values

def Records (call : Call) (h : Host π) (now : UInt64) : Prop :=
  (h.route P call.physAddr).1 = .own →
    ∃ accessCount, (access P timing call h now).entries = ⟨now, call.physAddr, accessCount⟩ ::ₘ h.entries

/-- Each access of a call does so, and so there are as many entries more as there were such accesses. -/
structure RecordsOwn (h : Host π) (call : Call) : Prop where
  each : Run.EveryStep (access P timing call) (Records P timing call) h (h.times call)
  count : Multiset.card ((h.times call).foldl (access P timing call) h).entries =
    Multiset.card h.entries + (routes P timing call h (h.times call)).count .own

def Coincides (call : Call) (h : Host π) (now : UInt64) : Prop :=
  (h.route P call.physAddr).1 = .own →
    now ∉ h.controller.occupation.entries.map Prod.fst ∧ call.physAddr = 1 ∧ now = 1

section
variable {P timing} {call : Call}

theorem entries_access (h : Host π) (now : UInt64) :
    ∃ count, (access P timing call h now).controller.occupation =
      if (h.route P call.physAddr).1 = .own then h.controller.occupation.emplace now ⟨call.physAddr, 1, count⟩
      else h.controller.occupation := by
  rw [access]
  cases (h.route P call.physAddr).1 with
  | hit => exact ⟨0, rfl⟩
  | remoteNode expander => cases expander <;> exact ⟨0, rfl⟩
  | device expander => exact ⟨0, rfl⟩
  | own => exact ⟨_, rfl⟩
  | numa index => exact ⟨0, rfl⟩

theorem records_iff (h : Host π) (now : UInt64) : Records P timing call h now ↔ Coincides P call h now := by
  refine imp_congr_right fun own => ?_
  obtain ⟨count, entries⟩ := @entries_access π P timing call h now
  rw [if_pos own] at entries
  by_cases free : now ∉ h.controller.occupation.entries.map Prod.fst
  · rw [Host.entries, entries, SortedMap.values_emplace _ free, and_iff_right free]
    constructor
    · rintro ⟨accessCount, same⟩
      obtain ⟨time, address, -⟩ := OccupationInfo.mk.inj ((Multiset.cons_inj_left _).mp same)
      exact ⟨address.symm, time.symm.trans address.symm⟩
    · rintro ⟨address, time⟩
      rw [address, time]
      exact ⟨count, rfl⟩
  · rw [Host.entries, entries, SortedMap.emplace_of_mem _ (not_not.mp free)]
    refine iff_of_false ?_ fun fits => free fits.1
    rintro ⟨accessCount, more⟩
    exact absurd (congrArg Multiset.card more) (by simp [Host.entries])

theorem card_accesses (h : Host π) {nows : List UInt64}
    (each : Run.EveryStep (access P timing call) (Records P timing call) h nows) :
    Multiset.card (nows.foldl (access P timing call) h).entries =
      Multiset.card h.entries + (routes P timing call h nows).count .own := by
  induction nows generalizing h with
  | nil => rfl
  | cons now rest ih =>
    rw [List.foldl_cons, ih _ each.2, routes]
    by_cases own : (h.route P call.physAddr).1 = .own
    · obtain ⟨accessCount, added⟩ := each.1 own
      rw [added, Multiset.card_cons, own, List.count_cons_self, Nat.add_right_comm, Nat.add_assoc]
    · obtain ⟨count, same⟩ := @entries_access π P timing call h now
      rw [if_neg own] at same
      rw [List.count_cons_of_ne own, Host.entries, same]
      rfl

end

theorem recordsOwn_iff (h : Host π) (calls : List Call) :
    Run.EveryStep (insert P timing) (RecordsOwn P timing) h calls ↔
      Run.EveryStep (insert P timing)
        (fun h call => Run.EveryStep (access P timing call) (Coincides P call) h (h.times call)) h calls := by
  refine Run.everyStep_congr fun h call => ?_
  rw [← Run.everyStep_congr records_iff]
  exact ⟨RecordsOwn.each, fun each => ⟨each, card_accesses h each⟩⟩

def allLocal : Policies Unit where
  allocation := fun _ => (-1, ())
  checkPageTableWalk := fun _ _ _ _ => (0, ())
  shouldCache := fun _ _ _ => (true, ())
  migrationPolicy := none
  migration := fun _ => (false, ())
  caching := fun _ => (([], []), ())

def fresh : Host Unit where
  controller := { tree := .mk [] [], store := fun _ => ⟨{ id := 0 }, none⟩, occupation := .empty, lastTimestamp := 0 }
  policies := ()

/-- Two calls at the same time: the first entry has the address in place of the time, and the second is dropped. -/
theorem not_recordsOwn :
    ([⟨10, 1, 0x1000, 0x1000, 1⟩, ⟨10, 1, 0x2000, 0x2000, 2⟩].foldl
        (insert allLocal fun now _ _ => now) fresh).entries = {⟨0x1000, 1, 10⟩} ∧
      ¬ Run.EveryStep (insert allLocal fun now _ _ => now) (RecordsOwn allLocal fun now _ _ => now) fresh
        [⟨10, 1, 0x1000, 0x1000, 1⟩, ⟨10, 1, 0x2000, 0x2000, 2⟩] := by
  refine ⟨by decide +kernel, fun law => ?_⟩
  have each := law.1.each
  have first : fresh.times ⟨10, 1, 0x1000, 0x1000, 1⟩ = [10] := by decide +kernel
  rw [first] at each
  obtain ⟨-, address, -⟩ := (records_iff fresh 10).mp each.1 (by decide +kernel)
  exact absurd address (by decide)

end Host

end CxlMemSim.Endpoint
