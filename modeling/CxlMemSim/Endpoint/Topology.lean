import CxlMemSim.Endpoint.Expander
import CxlMemSim.Lib.Run

/-! One expander may be listed more than once; so the expanders live in a store and the tree has their references. -/
namespace CxlMemSim.Endpoint
open Function CXLMemExpander

abbrev Ref := Nat

structure RemoteRange where
  base : UInt64
  capacity : UInt64

def RemoteRange.Contains (range : RemoteRange) (addr : UInt64) : Prop :=
  ¬ (addr < range.base ∨ range.base + range.capacity ≤ addr)
deriving Decidable

/-- A `CXLMemExpander`, or a `RemoteCXLExpander` when it has a remote range. -/
structure Device where
  expander : CXLMemExpander
  remote : Option RemoteRange := none

namespace CXLMemExpander

def remoteInsert (e : CXLMemExpander) (timestamp physAddr : UInt64) (index : Int) : Nat × CXLMemExpander :=
  if index ≠ e.id then (0, e)
  else
    let e := e.dated (if e.lastTimestamp < timestamp then timestamp else e.lastTimestamp)
    if physAddr = 0 then (1, e)
    else
      let occupied := e.occupation.any fun o => o.address = physAddr
      if physAddr ∈ e.addressCache ∧ occupied then
        (2, { e with
          occupation := e.occupation.eraseP (fun o => o.address = physAddr) ++ [{ timestamp, address := physAddr }] })
      else
        (1, { e with
          occupation := e.occupation ++ [{ timestamp, address := physAddr }]
          addressCache := physAddr :: e.addressCache })

end CXLMemExpander

namespace Device

def insert (timing : Timing) (timestamp tid physAddr : UInt64) (index : Int) (d : Device) : Nat × Device :=
  match d.remote with
  | none =>
    let (answer, expander) := d.expander.insert timing timestamp tid physAddr index
    (answer, { d with expander })
  | some _ =>
    let (answer, expander) := d.expander.remoteInsert timestamp physAddr index
    (answer, { d with expander })

def calculateLatency (timing : Timing) (elem : List (UInt64 × UInt64)) (d : Device) :
    List (UInt64 × UInt64) × Device :=
  match d.remote with
  | none =>
    let (counted, expander) := d.expander.calculateLatency timing elem
    (counted, { d with expander })
  | some range => (elem.filter fun access => range.Contains access.2, d)

def robLatency (accesses : List (UInt64 × UInt64)) (d : Device) : Unit × Device :=
  ((), { d with expander := (localAccesses accesses d.expander.updateAddressCache).2 })

def deleteEntry (addr length : UInt64) (d : Device) : Unit × Device :=
  ((), { d with expander := d.expander.deleteEntry addr length })

def freeStats (kept : Nat → Bool) (d : Device) : Device := { d with expander := d.expander.freeStats kept }

def migrateIn (o : OccupationInfo) (d : Device) : Device :=
  { d with expander := { d.expander with occupation := d.expander.occupation ++ [o] } }

def migrateOut (addr : UInt64) (d : Device) : Device :=
  { d with expander := { d.expander with occupation := d.expander.occupation.eraseP fun o => o.address = addr } }

def Occupied (d : Device) (addr : UInt64) : Prop := addr ∈ d.expander.occupation.map OccupationInfo.address
deriving Decidable

end Device

abbrev Store := Ref → Device

def Store.modify (store : Store) (r : Ref) (f : Device → Device) : Store := update store r (f (store r))

inductive CXLSwitch
  | mk (expanders : List Ref) (switches : List CXLSwitch)

def visitExpanders {α : Type} (op : Device → α × Device) : List Ref → Store → List (Ref × α) × Store
  | [], store => ([], store)
  | r :: rest, store =>
    let (others, final) := visitExpanders op rest (store.modify r fun d => (op d).2)
    ((r, (op (store r)).1) :: others, final)

mutual

def CXLSwitch.visit {α : Type} (op : Device → α × Device) : CXLSwitch → Store → List (Ref × α) × Store
  | .mk expanders switches, store =>
    let (here, store) := visitExpanders op expanders store
    let (below, store) := visitSwitches op switches store
    (here ++ below, store)

def visitSwitches {α : Type} (op : Device → α × Device) : List CXLSwitch → Store → List (Ref × α) × Store
  | [], store => ([], store)
  | sw :: rest, store =>
    let (here, store) := sw.visit op store
    let (others, store) := visitSwitches op rest store
    (here ++ others, store)

end

mutual

def CXLSwitch.refs : CXLSwitch → List Ref
  | .mk expanders switches => expanders ++ switchesRefs switches

def switchesRefs : List CXLSwitch → List Ref
  | [] => []
  | sw :: rest => sw.refs ++ switchesRefs rest

end

def insertExpanders (op : Device → Nat × Device) : List Ref → Store → Nat × Store
  | [], store => (0, store)
  | r :: rest, store =>
    let answer := (op (store r)).1
    let store := store.modify r fun d => (op d).2
    if answer = 1 ∨ answer = 2 then (answer, store) else insertExpanders op rest store

mutual

def CXLSwitch.insert (op : Device → Nat × Device) : CXLSwitch → Store → Nat × Store
  | .mk expanders switches, store =>
    let (answer, store) := insertExpanders op expanders store
    if answer = 1 ∨ answer = 2 then (answer, store) else insertSwitches op switches store

def insertSwitches (op : Device → Nat × Device) : List CXLSwitch → Store → Nat × Store
  | [], store => (0, store)
  | sw :: rest, store =>
    let (answer, store) := sw.insert op store
    if answer = 1 ∨ answer = 2 then (answer, store) else insertSwitches op rest store

end

namespace CXLSwitch

def expanders : CXLSwitch → List Ref
  | .mk expanders _ => expanders

def switches : CXLSwitch → List CXLSwitch
  | .mk _ switches => switches

def calculateLatency (sw : CXLSwitch) (timing : Timing) (elem : List (UInt64 × UInt64)) (store : Store) :
    List (Ref × List (UInt64 × UInt64)) × Store :=
  sw.visit (Device.calculateLatency timing elem) store

def robLatency (sw : CXLSwitch) (accesses : List (UInt64 × UInt64)) (store : Store) : Store :=
  (sw.visit (Device.robLatency accesses) store).2

def deleteEntry (sw : CXLSwitch) (addr length : UInt64) (store : Store) : Store :=
  (sw.visit (Device.deleteEntry addr length) store).2

/-- How an access enters the tree: the switches get an index, the controller's own
expanders the same index or, from the server, each its own id. -/
def insertAll (sw : CXLSwitch) (timing : Timing) (timestamp tid physAddr : UInt64) (index : Int) (ownId : Bool)
    (store : Store) : Store :=
  let store := sw.switches.foldl
    (fun store child => (child.insert (Device.insert timing timestamp tid physAddr index) store).2) store
  let into := fun (d : Device) =>
    (d.insert timing timestamp tid physAddr (if ownId then d.expander.id else index)).2
  sw.expanders.foldl (fun store r => store.modify r into) store

end CXLSwitch

inductive Event
  /-- A READ or WRITE at the server; one that fails after its latency is computed is not recorded. -/
  | request (timestamp tid addr size : UInt64) (recorded : Bool)
  | insertAll (timestamp tid physAddr : UInt64) (index : Int)
  | insertAt (r : Ref) (timestamp tid physAddr : UInt64)
  | branchRecords (accesses : List (UInt64 × UInt64))
  | deleteEntry (addr length : UInt64)
  | freeStats (r : Ref) (kept : Nat → Bool)
  | migrateIn (r : Ref) (o : OccupationInfo)
  | migrateOut (r : Ref) (addr : UInt64)

def accessElem (addr size : UInt64) : List (UInt64 × UInt64) := [(addr, size)]

def Store.step (timing : Timing) (controller : CXLSwitch) (store : Store) : Event → Store
  | .request timestamp tid addr size recorded =>
    let store := (controller.calculateLatency timing (accessElem addr size) store).2
    if recorded then controller.insertAll timing timestamp tid addr 0 true store else store
  | .insertAll timestamp tid physAddr index => controller.insertAll timing timestamp tid physAddr index false store
  | .insertAt r timestamp tid physAddr =>
    store.modify r fun d => (d.insert timing timestamp tid physAddr d.expander.id).2
  | .branchRecords accesses => controller.robLatency accesses store
  | .deleteEntry addr length => controller.deleteEntry addr length store
  | .freeStats r kept => store.modify r (Device.freeStats kept)
  | .migrateIn r o => store.modify r (Device.migrateIn o)
  | .migrateOut r addr => store.modify r (Device.migrateOut addr)

def boot (id : Ref → Int) (remote : Ref → Option RemoteRange) : Store := fun r => ⟨{ id := id r }, remote r⟩

/-- Each expander that has the address contributes to the latency of a request for it. -/
def Attributes (timing : Timing) (controller : CXLSwitch) (store : Store) (addr size : UInt64) : Prop :=
  ∀ r ∈ controller.refs, (store r).Occupied addr →
    ∃ counted, (r, counted) ∈ (controller.calculateLatency timing (accessElem addr size) store).1 ∧ counted ≠ []

namespace CXLMemExpander

def unqueued (e : CXLMemExpander) : CXLMemExpander :=
  { e with requestQueue := [], readCredits := 0, writeCredits := 0, inFlight := [] }

theorem unqueued_releaseCredit (e : CXLMemExpander) (isRead : Bool) :
    (e.releaseCredit isRead).unqueued = e.unqueued := by
  unfold releaseCredit
  split <;> split <;> rfl

theorem unqueued_consumeCredit (e : CXLMemExpander) (isRead : Bool) :
    (e.consumeCredit isRead).unqueued = e.unqueued := by
  cases isRead <;> rfl

theorem unqueued_completeRequests (e : CXLMemExpander) (now : UInt64) :
    (e.completeRequests now).unqueued = e.unqueued := by
  exact Run.invariant (I := fun e' : CXLMemExpander => e'.unqueued = e.unqueued)
    (fun e' (req : CXLRequest) same => (unqueued_releaseCredit e' req.isRead).trans same) rfl _

theorem unqueued_issueRequests (timing : Timing) (now : UInt64) (queue : List CXLRequest) (e : CXLMemExpander) :
    (issueRequests timing now queue e).unqueued = e.unqueued := by
  induction queue generalizing e with
  | nil => rfl
  | cons req rest ih =>
    unfold issueRequests
    split
    · exact (ih _).trans (unqueued_consumeCredit e req.isRead)
    · rfl

section
variable (e : CXLMemExpander)

theorem unqueued_processQueuedRequests (timing : Timing) (now : UInt64) :
    (e.processQueuedRequests timing now).unqueued = e.unqueued := by
  rw [processQueuedRequests, unqueued_issueRequests, unqueued_completeRequests]

@[simp] theorem addressRanges_processQueuedRequests (timing : Timing) (now : UInt64) :
    (e.processQueuedRequests timing now).addressRanges = e.addressRanges := by
  have same := congrArg addressRanges (unqueued_processQueuedRequests e timing now)
  exact same

@[simp] theorem addressRanges_record (timestamp tid physAddr : UInt64) :
    (e.record timestamp tid physAddr).2.addressRanges = e.addressRanges := by
  unfold record
  split
  · split
    · dsimp only
      split <;> rfl
    · rfl
  · rfl

@[simp] theorem addressRanges_insert (timing : Timing) (timestamp tid physAddr : UInt64)
    (index : Int) : (e.insert timing timestamp tid physAddr index).2.addressRanges = e.addressRanges := by
  by_cases own : index = e.id
  · rw [insert, if_pos own, addressRanges_record, addressRanges_processQueuedRequests]
    rfl
  · rw [insert, if_neg own]

@[simp] theorem addressRanges_remoteInsert (timestamp physAddr : UInt64) (index : Int) :
    (e.remoteInsert timestamp physAddr index).2.addressRanges = e.addressRanges := by
  unfold remoteInsert
  by_cases other : index ≠ e.id
  · rw [if_pos other]
  · rw [if_neg other]
    by_cases zero : physAddr = 0
    · rw [if_pos zero]
      rfl
    · rw [if_neg zero]
      dsimp only
      -- by the date, then by whether the address was seen before
      split <;> split <;> rfl

@[simp] theorem addressRanges_updateAddressCache : e.updateAddressCache.addressRanges = e.addressRanges := by
  unfold updateAddressCache
  split <;> rfl

theorem cacheValid_updateAddressCache : e.updateAddressCache.cacheValid = true := by
  unfold updateAddressCache
  split
  · assumption
  · rfl

@[simp] theorem addressRanges_deleteEntry (addr length : UInt64) :
    (e.deleteEntry addr length).addressRanges = e.addressRanges := by
  unfold deleteEntry
  dsimp only
  split <;> rfl

@[simp] theorem addressRanges_freeStats (kept : Nat → Bool) : (e.freeStats kept).addressRanges = e.addressRanges := by
  unfold freeStats
  dsimp only
  split <;> rfl

end

def inRange (e : CXLMemExpander) (addr : UInt64) : Bool :=
  (e.addressRanges.find? fun range => !(decide (range.stop < addr))).any fun range =>
    decide (range.start ≤ addr ∧ addr ≤ range.stop)

section
variable {e : CXLMemExpander}

theorem isAddressLocal_of_valid (valid : e.cacheValid = true) (addr : UInt64) :
    e.isAddressLocal addr = (e.inRange addr, e) := by
  rw [isAddressLocal, updateRangeCache, if_pos valid]
  rfl

theorem localAccesses_of_valid (valid : e.cacheValid = true) (elem : List (UInt64 × UInt64)) :
    localAccesses elem e = (elem.filter fun access => e.inRange access.2, e) := by
  induction elem with
  | nil => rfl
  | cons access rest ih =>
    rw [localAccesses, isAddressLocal_of_valid valid]
    dsimp only
    rw [ih, List.filter_cons]

theorem localAccesses_updateAddressCache (none : e.addressRanges = []) (elem : List (UInt64 × UInt64)) :
    localAccesses elem e.updateAddressCache = ([], e.updateAddressCache) := by
  have nowhere : ∀ addr, e.updateAddressCache.inRange addr = false := by
    intro addr
    rw [inRange, (addressRanges_updateAddressCache e).trans none]
    rfl
  rw [localAccesses_of_valid (cacheValid_updateAddressCache e), List.filter_eq_nil_iff.mpr]
  exact fun access _ => Bool.eq_false_iff.mp (nowhere access.2)

end

theorem calculateLatency_of_unranged {e : CXLMemExpander} (none : e.addressRanges = []) (timing : Timing)
    (elem : List (UInt64 × UInt64)) :
    (e.calculateLatency timing elem).1 = [] ∧ (e.calculateLatency timing elem).2.addressRanges = [] := by
  unfold calculateLatency
  split
  · exact ⟨rfl, none⟩
  · rename_i last _
    have processed := (addressRanges_processQueuedRequests e timing last.1).trans none
    rw [localAccesses_updateAddressCache processed]
    exact ⟨rfl, (addressRanges_updateAddressCache _).trans processed⟩

end CXLMemExpander

/-- No ranges are cached, and the device is of the kind it was constructed as. -/
structure Device.Unranged (remote : Option RemoteRange) (d : Device) : Prop where
  ranges : d.expander.addressRanges = []
  kind : d.remote = remote

namespace Device.Unranged

variable {remote : Option RemoteRange} {d : Device}

variable (h : d.Unranged remote)
include h

theorem insert (timing : Timing) (timestamp tid physAddr : UInt64) (index : Int) :
    (d.insert timing timestamp tid physAddr index).2.Unranged remote := by
  unfold Device.insert
  split
  · exact ⟨(addressRanges_insert d.expander timing timestamp tid physAddr index).trans h.ranges, h.kind⟩
  · exact ⟨(addressRanges_remoteInsert d.expander timestamp physAddr index).trans h.ranges, h.kind⟩

theorem calculateLatency (timing : Timing) (elem : List (UInt64 × UInt64)) :
    (d.calculateLatency timing elem).2.Unranged remote := by
  unfold Device.calculateLatency
  split
  · exact ⟨(calculateLatency_of_unranged h.ranges timing elem).2, h.kind⟩
  · exact h

theorem robLatency (accesses : List (UInt64 × UInt64)) : (d.robLatency accesses).2.Unranged remote := by
  refine ⟨?_, h.kind⟩
  rw [Device.robLatency, localAccesses_updateAddressCache h.ranges]
  exact (addressRanges_updateAddressCache _).trans h.ranges

theorem counted_ne_nil_iff (timing : Timing) (addr size : UInt64) :
    (d.calculateLatency timing (accessElem addr size)).1 ≠ [] ↔ ∃ range ∈ remote, range.Contains size := by
  obtain ⟨ranges, rfl⟩ := h
  unfold Device.calculateLatency
  cases kind : d.remote with
  | none =>
    refine iff_of_false ?_ (by simp)
    rw [not_not]
    exact (calculateLatency_of_unranged ranges timing _).1
  | some range =>
    by_cases inside : range.Contains size
    · simp [accessElem, inside]
    · simp [accessElem, inside]

end Device.Unranged

section Traversal

variable {α : Type} {op : Device → α × Device} {K : Ref → Device → Prop}

theorem Store.modify_keeps {store : Store} {r : Ref} {f : Device → Device} (start : ∀ r, K r (store r))
    (keep : ∀ d, K r d → K r (f d)) (other : Ref) : K other (store.modify r f other) := by
  unfold Store.modify
  by_cases same : other = r
  · subst same
    rw [update_self]
    exact keep _ (start other)
  · rw [update_of_ne same]
    exact start other

structure Visits (op : Device → α × Device) (K : Ref → Device → Prop) (refs : List Ref)
    (result : List (Ref × α) × Store) : Prop where
  store : ∀ r, K r (result.2 r)
  answers : ∀ answer ∈ result.1, ∃ d, K answer.1 d ∧ (op d).1 = answer.2
  order : result.1.map Prod.fst = refs

theorem Visits.append {first second : List Ref} {here below : List (Ref × α)} {middle final : Store}
    (a : Visits op K first (here, middle)) (b : Visits op K second (below, final)) :
    Visits op K (first ++ second) (here ++ below, final) where
  store := b.store
  answers := fun answer member => (List.mem_append.mp member).elim (a.answers answer) (b.answers answer)
  order := by
    rw [List.map_append]
    exact congrArg₂ (· ++ ·) a.order b.order

theorem visitExpanders_visits (keep : ∀ r d, K r d → K r (op d).2) (refs : List Ref) {store : Store}
    (start : ∀ r, K r (store r)) :
    Visits op K refs (visitExpanders op refs store) := by
  induction refs generalizing store with
  | nil => exact ⟨start, fun _ member => absurd member List.not_mem_nil, rfl⟩
  | cons r rest ih =>
    have here : Visits op K [r] ([(r, (op (store r)).1)], store.modify r fun d => (op d).2) := by
      refine ⟨Store.modify_keeps start (keep r), fun answer member => ?_, rfl⟩
      rw [List.mem_singleton.mp member]
      exact ⟨store r, start r, rfl⟩
    exact here.append (ih here.store)

mutual

theorem CXLSwitch.visit_visits (keep : ∀ r d, K r d → K r (op d).2) (sw : CXLSwitch) {store : Store}
    (start : ∀ r, K r (store r)) :
    Visits op K sw.refs (sw.visit op store) := by
  cases sw with
  | mk expanders switches =>
    have here := visitExpanders_visits keep expanders start
    have below := visitSwitches_visits keep switches here.store
    rw [CXLSwitch.visit, CXLSwitch.refs]
    exact here.append below
termination_by sizeOf sw

theorem visitSwitches_visits (keep : ∀ r d, K r d → K r (op d).2) (switches : List CXLSwitch) {store : Store}
    (start : ∀ r, K r (store r)) :
    Visits op K (switchesRefs switches) (visitSwitches op switches store) := by
  cases switches with
  | nil =>
    rw [visitSwitches, switchesRefs]
    exact ⟨start, fun _ member => absurd member List.not_mem_nil, rfl⟩
  | cons sw rest =>
    have here := sw.visit_visits keep start
    have others := visitSwitches_visits keep rest here.store
    rw [visitSwitches, switchesRefs]
    exact here.append others
termination_by sizeOf switches

end

end Traversal

section Insertion

variable {op : Device → Nat × Device} {K : Ref → Device → Prop}

theorem insertExpanders_keeps (keep : ∀ r d, K r d → K r (op d).2) (refs : List Ref) {store : Store}
    (start : ∀ r, K r (store r)) :
    ∀ r, K r ((insertExpanders op refs store).2 r) := by
  induction refs generalizing store with
  | nil => exact start
  | cons r rest ih =>
    have here : ∀ other, K other (store.modify r (fun d => (op d).2) other) := Store.modify_keeps start (keep r)
    unfold insertExpanders
    dsimp only
    split
    · exact here
    · exact ih here

mutual

theorem CXLSwitch.insert_keeps (keep : ∀ r d, K r d → K r (op d).2) (sw : CXLSwitch) {store : Store}
    (start : ∀ r, K r (store r)) :
    ∀ r, K r ((sw.insert op store).2 r) := by
  cases sw with
  | mk expanders switches =>
    have here := insertExpanders_keeps keep expanders start
    rw [CXLSwitch.insert]
    dsimp only
    split
    · exact here
    · exact insertSwitches_keeps keep switches here
termination_by sizeOf sw

theorem insertSwitches_keeps (keep : ∀ r d, K r d → K r (op d).2) (switches : List CXLSwitch) {store : Store}
    (start : ∀ r, K r (store r)) :
    ∀ r, K r ((insertSwitches op switches store).2 r) := by
  cases switches with
  | nil =>
    rw [insertSwitches]
    exact start
  | cons sw rest =>
    have here := sw.insert_keeps keep start
    rw [insertSwitches]
    dsimp only
    split
    · exact here
    · exact insertSwitches_keeps keep rest here
termination_by sizeOf switches

end

end Insertion

def Store.Unranged (remote : Ref → Option RemoteRange) (store : Store) : Prop :=
  ∀ r, (store r).Unranged (remote r)

namespace Store.Unranged

variable {remote : Ref → Option RemoteRange} {store : Store} (h : store.Unranged remote)

include h

theorem insertAll (controller : CXLSwitch) (timing : Timing) (timestamp tid physAddr : UInt64) (index : Int)
    (ownId : Bool) : (controller.insertAll timing timestamp tid physAddr index ownId store).Unranged remote := by
  have switches := Run.invariant (I := Store.Unranged remote)
    (fun _ child start =>
      CXLSwitch.insert_keeps (fun _ _ d => d.insert timing timestamp tid physAddr index) child start)
    h controller.switches
  exact Run.invariant (I := Store.Unranged remote)
    (fun _ r start => Store.modify_keeps start fun _ d => d.insert timing timestamp tid physAddr _)
    switches controller.expanders

theorem step (timing : Timing) (controller : CXLSwitch) (event : Event) :
    (store.step timing controller event).Unranged remote := by
  cases event with
  | request timestamp tid addr size recorded =>
    have computed : ((controller.calculateLatency timing (accessElem addr size) store).2).Unranged remote :=
      (controller.visit_visits (fun _ _ d => d.calculateLatency timing _) h).store
    cases recorded with
    | false => exact computed
    | true => exact computed.insertAll controller timing timestamp tid addr 0 true
  | insertAll timestamp tid physAddr index => exact h.insertAll controller timing timestamp tid physAddr index false
  | insertAt r timestamp tid physAddr =>
    exact Store.modify_keeps h fun _ d => d.insert timing timestamp tid physAddr _
  | branchRecords accesses => exact (controller.visit_visits (fun _ _ d => d.robLatency accesses) h).store
  | deleteEntry addr length =>
    refine (controller.visit_visits (fun _ d kept => ⟨?_, kept.kind⟩) h).store
    exact (addressRanges_deleteEntry d.expander addr length).trans kept.ranges
  | freeStats r kept =>
    refine Store.modify_keeps h fun d unranged => ⟨?_, unranged.kind⟩
    exact (addressRanges_freeStats d.expander kept).trans unranged.ranges
  | migrateIn | migrateOut => exact Store.modify_keeps h fun _ d => ⟨d.ranges, d.kind⟩

theorem contributes_iff (controller : CXLSwitch) (timing : Timing) {r : Ref} (listed : r ∈ controller.refs)
    (addr size : UInt64) :
    (∃ counted, (r, counted) ∈ (controller.calculateLatency timing (accessElem addr size) store).1 ∧ counted ≠ []) ↔
      ∃ range ∈ remote r, range.Contains size := by
  have visits := controller.visit_visits (K := fun r d => d.Unranged (remote r))
    (fun _ _ d => d.calculateLatency timing (accessElem addr size)) h
  constructor
  · rintro ⟨counted, member, contributes⟩
    obtain ⟨d, unranged, rfl⟩ := visits.answers _ member
    exact (unranged.counted_ne_nil_iff timing addr size).mp contributes
  · intro inside
    rw [← visits.order] at listed
    obtain ⟨⟨_, counted⟩, member, rfl⟩ := List.mem_map.mp listed
    obtain ⟨d, unranged, rfl⟩ := visits.answers _ member
    exact ⟨_, member, (unranged.counted_ne_nil_iff timing addr size).mpr inside⟩

end Store.Unranged

theorem boot_unranged (id : Ref → Int) (remote : Ref → Option RemoteRange) : (boot id remote).Unranged remote :=
  fun _ => ⟨rfl, rfl⟩

theorem attributes_iff (timing : Timing) (controller : CXLSwitch) (id : Ref → Int)
    (remote : Ref → Option RemoteRange) (history : List Event) (addr size : UInt64) :
    Attributes timing controller (history.foldl (Store.step timing controller) (boot id remote)) addr size ↔
      ∀ r ∈ controller.refs, (history.foldl (Store.step timing controller) (boot id remote) r).Occupied addr →
        ∃ range ∈ remote r, range.Contains size := by
  have unranged := Run.invariant (I := Store.Unranged remote)
    (fun _ event h => h.step timing controller event) (boot_unranged id remote) history
  exact forall₂_congr fun r listed =>
    imp_congr_right fun _ => unranged.contributes_iff controller timing listed addr size

def defaultTopology : CXLSwitch := .mk [0] []

/-- A line is read twice; the second request finds it in the expander, which does not count it. -/
theorem second_read_not_counted :
    let timing : Timing := fun now _ _ => now + 151
    let store := [Event.request 1 1 0x1000 64 true].foldl (Store.step timing defaultTopology)
      (boot (fun _ => 0) fun _ => none)
    (store 0).Occupied 0x1000 ∧
      (defaultTopology.calculateLatency timing (accessElem 0x1000 64) store).1 = [(0, [])] ∧
      ¬ Attributes timing defaultTopology store 0x1000 64 := by
  intro timing store
  have occupied : (store 0).Occupied 0x1000 := by decide +kernel
  have counted : (defaultTopology.calculateLatency timing (accessElem 0x1000 64) store).1 = [(0, [])] := by
    decide +kernel
  refine ⟨occupied, counted, fun attributes => ?_⟩
  obtain ⟨accesses, member, contributes⟩ := attributes 0 (by decide +kernel) occupied
  rw [counted, List.mem_singleton] at member
  exact contributes (congrArg Prod.snd member)

end CxlMemSim.Endpoint
