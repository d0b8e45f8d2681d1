import CxlMemSim.Dist.Join
import CxlMemSim.Dist.Operation
import CxlMemSim.Hdm.Decoder

/-! Nodes of one size, each with the range that it registers. A node's decoder has its own range and those of the peers
of its `connect_tcp_node` calls. -/
namespace CxlMemSim.Dist
open Function Hdm List UInt64

structure Cluster where
  capacityMb : Nat
  positive : 0 < capacityMb
  transportMode : DistTransportMode
  ids : List UInt32
  valid : ∀ id ∈ ids, id ≠ noTarget
  fits : ∀ id ∈ ids, (id.toNat + 1) * (capacityMb * 2 ^ 20) < 2 ^ 64
  peers : UInt32 → List UInt32
  known : ∀ id, ∀ peer ∈ peers id, peer ∈ ids
  /-- There is no TCP transport to connect with in the SHM mode. -/
  linked : transportMode = .shm → ∀ id, peers id = []

namespace Cluster
variable (c : Cluster)

def capacity : UInt64 := UInt64.ofNat (c.capacityMb * 2 ^ 20)

def memoryBase (id : UInt32) : UInt64 := id.toUInt64 * c.capacity

def InRange (id : UInt32) (addr : UInt64) : Prop :=
  c.memoryBase id ≤ addr ∧ addr < c.memoryBase id + c.capacity
deriving Decidable

def connectTcpNode (d : HDMDecoder) (peer : UInt32) : HDMDecoder :=
  d.addRange (c.memoryBase peer) c.capacity peer true

def decoder (n : UInt32) : HDMDecoder :=
  let mode := if c.transportMode = .tcp then HDMDecoderMode.hybrid else .rangeBased
  (c.peers n).foldl c.connectTcpNode (({ mode } : HDMDecoder).addRange (c.memoryBase n) c.capacity n false)

/-- The request goes to `target` by the message queue, which exists unless the mode is TCP only. -/
def forward (msyncOk : Bool) (target : UInt32) (addr : UInt64) (op : Operation) (mems : UInt32 → Segment) :
    (UInt32 → Segment) × Outcome :=
  if c.transportMode ≠ .tcp ∧ target.toNat < distMaxNodes ∧ target ∈ c.ids then
    let (mem, outcome) := perform msyncOk (mems target) addr op
    (update mems target mem, outcome)
  else (mems, .failed)

def remote (stale : TCPResponse) (msyncOk : Bool) (n target : UInt32) (addr : UInt64) (op : Operation)
    (mems : UInt32 → Segment) : (UInt32 → Segment) × Outcome :=
  if target ∈ c.peers n then
    let (mem, outcome) := viaTcp stale (mems target) addr op
    (update mems target mem, outcome)
  else c.forward msyncOk target addr op mems

/-- An operation issued at node `n`.  An address without a target is local for reads and writes. -/
def issue (stale : TCPResponse) (msyncOk : Bool) (n : UInt32) (addr : UInt64) (op : Operation)
    (mems : UInt32 → Segment) : (UInt32 → Segment) × Outcome :=
  let target := (c.decoder n).getHomeNode addr
  let isLocal : Bool := match op with
    | .read _ | .write _ => target = n ∨ c.InRange n addr ∨ target = noTarget
    | .atomicFaa _ | .atomicCas _ _ => target = n
  if isLocal then
    let (mem, outcome) := perform msyncOk (mems n) addr op
    (update mems n mem, outcome)
  else c.remote stale msyncOk n target addr op mems

def Formatted (mems : UInt32 → Segment) : Prop :=
  ∀ id ∈ c.ids, baseAddr (mems id) = c.memoryBase id ∧ numCachelines (mems id) = (c.capacity - headerSize) / 64

def home (addr : UInt64) : Option UInt32 := c.ids.find? fun id => c.InRange id addr

/-- The operation on the memory of the address's home; without a home it is refused. -/
def atHome (msyncOk : Bool) (addr : UInt64) (op : Operation) (mems : UInt32 → Segment) :
    (UInt32 → Segment) × Outcome :=
  match c.home addr with
  | some h => (update mems h (perform msyncOk (mems h) addr op).1, (perform msyncOk (mems h) addr op).2)
  | none => (mems, .failed)

def SingleHome (n : UInt32) (addr : UInt64) : Prop :=
  ∀ mems, c.Formatted mems → ∀ stale msyncOk op,
    c.issue stale msyncOk n addr op mems = c.atHome msyncOk addr op mems

/-- The header takes the room of the last line of a range that does not start at 0. -/
def Unbacked (id : UInt32) (addr : UInt64) : Prop :=
  id ≠ 0 ∧ c.memoryBase id + (c.capacity - 64) ≤ addr

variable {c : Cluster} {id : UInt32} {addr : UInt64}

def bytes (c : Cluster) : Nat := c.capacityMb * 2 ^ 20

theorem fits_bytes (member : id ∈ c.ids) : id.toNat * c.bytes + c.bytes < 2 ^ 64 := by
  have fits := c.fits id member
  rwa [Nat.succ_mul] at fits

theorem two_pow_le_bytes (c : Cluster) : 2 ^ 20 ≤ c.bytes := Nat.le_mul_of_pos_left _ c.positive

theorem bytes_mod (c : Cluster) : c.bytes % 64 = 0 := by
  rw [bytes, show 2 ^ 20 = 2 ^ 14 * 64 from rfl, ← Nat.mul_assoc, Nat.mul_mod_left]

theorem capacity_toNat (member : id ∈ c.ids) : c.capacity.toNat = c.bytes := by
  have fits := fits_bytes member
  rw [capacity, toNat_ofNat']
  exact Nat.mod_eq_of_lt (by unfold bytes at fits; omega)

theorem memoryBase_toNat (member : id ∈ c.ids) : (c.memoryBase id).toNat = id.toNat * c.bytes := by
  have fits := fits_bytes member
  rw [memoryBase, UInt64.toNat_mul, UInt32.toNat_toUInt64, capacity_toNat member]
  exact Nat.mod_eq_of_lt (by omega)

theorem inRange_iff (member : id ∈ c.ids) :
    c.InRange id addr ↔ id.toNat * c.bytes ≤ addr.toNat ∧ addr.toNat < id.toNat * c.bytes + c.bytes := by
  have fits := fits_bytes member
  rw [InRange, UInt64.le_iff_toNat_le, UInt64.lt_iff_toNat_lt, UInt64.toNat_add, memoryBase_toNat member,
    capacity_toNat member, Nat.mod_eq_of_lt fits]

theorem inRange_unique {id' : UInt32} (member : id ∈ c.ids) (member' : id' ∈ c.ids) (inRange : c.InRange id addr)
    (inRange' : c.InRange id' addr) : id = id' := by
  rw [inRange_iff member] at inRange
  rw [inRange_iff member'] at inRange'
  have positive : 0 < c.bytes := Nat.lt_of_lt_of_le (by decide) c.two_pow_le_bytes
  have quotient : ∀ {k : Nat}, k * c.bytes ≤ addr.toNat ∧ addr.toNat < k * c.bytes + c.bytes →
      addr.toNat / c.bytes = k := by
    intro k between
    exact Nat.div_eq_of_lt_le between.1 (by rw [Nat.succ_mul]; exact between.2)
  exact UInt32.toNat_inj.mp ((quotient inRange).symm.trans (quotient inRange'))

theorem find_inRange {ids : List UInt32} (found : ids.find? (fun id => c.InRange id addr) = some id) :
    id ∈ ids ∧ c.InRange id addr :=
  ⟨mem_of_find?_eq_some found, of_decide_eq_true (find?_some (p := fun id => c.InRange id addr) found)⟩

theorem home_eq_some (member : id ∈ c.ids) (inRange : c.InRange id addr) : c.home addr = some id := by
  cases found : c.home addr with
  | none => exact absurd (decide_eq_true inRange) (find?_eq_none.mp found id member)
  | some h =>
    obtain ⟨at_h, in_h⟩ := find_inRange found
    rw [inRange_unique at_h member in_h inRange]

structure ByRanges (d : HDMDecoder) : Prop where
  mode : d.mode ≠ .interleaved
  unsorted : d.rangesSorted = false
  noTargets : d.interleaveConfig.targetIds = []

theorem byRanges_connect (c : Cluster) (peers : List UInt32) {d : HDMDecoder} (byRanges : ByRanges d) :
    ByRanges (peers.foldl c.connectTcpNode d) := by
  induction peers generalizing d with
  | nil => exact byRanges
  | cons peer peers ih => exact ih ⟨byRanges.mode, rfl, byRanges.noTargets⟩

theorem ranges_connect (c : Cluster) (peers : List UInt32) (d : HDMDecoder) :
    (peers.foldl c.connectTcpNode d).ranges =
      d.ranges ++ peers.map fun peer => ⟨c.memoryBase peer, c.capacity, peer, true⟩ := by
  induction peers generalizing d with
  | nil => exact (append_nil _).symm
  | cons peer peers ih =>
    rw [foldl_cons, ih, map_cons, connectTcpNode, HDMDecoder.addRange, append_assoc, singleton_append]

theorem byRanges_decoder (c : Cluster) (n : UInt32) : ByRanges (c.decoder n) := by
  refine c.byRanges_connect (c.peers n) ⟨?_, rfl, rfl⟩
  simp only [HDMDecoder.addRange]
  split <;> decide

theorem ranges_decoder (c : Cluster) (n : UInt32) :
    (c.decoder n).ranges = ⟨c.memoryBase n, c.capacity, n, false⟩ ::
      (c.peers n).map fun peer => ⟨c.memoryBase peer, c.capacity, peer, true⟩ := c.ranges_connect (c.peers n) _

theorem contains_iff (c : Cluster) (peer : UInt32) (isRemote : Bool) (addr : UInt64) :
    HDMRange.Contains ⟨c.memoryBase peer, c.capacity, peer, isRemote⟩ addr ↔ c.InRange peer addr := Iff.rfl

theorem getHomeNode_decoder (c : Cluster) (n : UInt32) (addr : UInt64) :
    (c.decoder n).getHomeNode addr =
      if c.InRange n addr then n else ((c.peers n).find? fun peer => c.InRange peer addr).getD noTarget := by
  obtain ⟨mode, unsorted, noTargets⟩ := c.byRanges_decoder n
  rw [HDMDecoder.getHomeNode_of_ranges mode unsorted noTargets, ranges_decoder]
  by_cases own : c.InRange n addr
  · have first := decide_eq_true ((c.contains_iff n false addr).mpr own)
    rw [if_pos own, find?_cons_of_pos (p := fun range => HDMRange.Contains range addr) first]
    rfl
  · have notFirst : ¬ decide (HDMRange.Contains ⟨c.memoryBase n, c.capacity, n, false⟩ addr) = true :=
      fun inside => own ((c.contains_iff n false addr).mp (of_decide_eq_true inside))
    rw [if_neg own, find?_cons_of_neg (p := fun range => HDMRange.Contains range addr) notFirst, find?_map,
      Option.map_map]
    exact congrArg (Option.getD · noTarget) Option.map_id'

theorem memoryBase_eq_zero_iff (member : id ∈ c.ids) : c.memoryBase id = 0 ↔ id = 0 := by
  have large := c.two_pow_le_bytes
  rw [← UInt64.toNat_inj, ← UInt32.toNat_inj, memoryBase_toNat member, UInt64.toNat_zero, UInt32.toNat_zero,
    Nat.mul_eq_zero]
  omega

theorem unbacked_iff (member : id ∈ c.ids) (later : id ≠ 0) :
    c.Unbacked id addr ↔ id.toNat * c.bytes + (c.bytes - 64) ≤ addr.toNat := by
  have fits := fits_bytes member
  have large := c.two_pow_le_bytes
  have room : (64 : UInt64) ≤ c.capacity := by
    rw [le_iff_toNat_le, capacity_toNat member]
    exact le_trans (by decide) large
  rw [Unbacked, and_iff_right later, UInt64.le_iff_toNat_le, UInt64.toNat_add, memoryBase_toNat member,
    UInt64.toNat_sub_of_le _ _ room, capacity_toNat member, show (64 : UInt64).toNat = 64 from rfl,
    Nat.mod_eq_of_lt (by omega)]

variable {mems : UInt32 → Segment}

theorem isSome_getCachelineData (member : id ∈ c.ids) (formatted : c.Formatted mems) :
    (getCachelineData (mems id) (addrToCacheline addr)).isSome ↔
      id = 0 ∨ (c.InRange id addr ∧ ¬ c.Unbacked id addr) := by
  obtain ⟨base, lines⟩ := formatted id member
  by_cases first : id = 0
  · rw [getCachelineData, if_pos (base.trans ((memoryBase_eq_zero_iff member).mpr first))]
    exact iff_of_true rfl (.inl first)
  have fits := fits_bytes member
  have large := c.two_pow_le_bytes
  have lined := c.bytes_mod
  have base_lined : id.toNat * c.bytes % 64 = 0 := by rw [Nat.mul_mod, lined, Nat.mul_zero, Nat.zero_mod]
  have at_base := memoryBase_toNat member
  have line := addrToCacheline_toNat addr
  have count : (numCachelines (mems id)).toNat = (c.bytes - 56) / 64 := by
    have header : headerSize ≤ c.capacity := by
      rw [le_iff_toNat_le, capacity_toNat member]
      exact le_trans (by decide) large
    rw [lines, UInt64.toNat_div, UInt64.toNat_sub_of_le _ _ header, capacity_toNat member]
    rfl
  have nonzero : baseAddr (mems id) ≠ 0 := fun h => first ((memoryBase_eq_zero_iff member).mp (base.symm.trans h))
  rw [isSome_getCachelineData_iff nonzero, base, le_iff_toNat_le, lt_iff_toNat_lt, line, at_base,
    count, UInt64.toNat_div, or_iff_right first, inRange_iff member, unbacked_iff member first]
  by_cases below : id.toNat * c.bytes ≤ addr.toNat / 64 * 64
  · have above : c.memoryBase id ≤ addrToCacheline addr := by
      rw [le_iff_toNat_le, line, at_base]
      exact below
    rw [UInt64.toNat_sub_of_le _ _ above, line, at_base, show (64 : UInt64).toNat = 64 from rfl]
    omega
  · exact iff_of_false (fun h => below h.1) (by omega)

theorem perform_outside (member : id ∈ c.ids) (formatted : c.Formatted mems) (later : id ≠ 0)
    (outside : c.InRange id addr → c.Unbacked id addr) (msyncOk : Bool) (op : Operation) :
    perform msyncOk (mems id) addr op = (mems id, .failed) := by
  have nonzero : baseAddr (mems id) ≠ 0 :=
    fun h => later ((memoryBase_eq_zero_iff member).mp ((formatted id member).1.symm.trans h))
  refine perform_refused nonzero (Option.not_isSome_iff_eq_none.mp fun backed => ?_) msyncOk op
  rcases (isSome_getCachelineData member formatted).mp backed with zero | ⟨inRange, isBacked⟩
  · exact later zero
  · exact isBacked (outside inRange)

variable {n peer : UInt32} {stale : TCPResponse} {msyncOk : Bool} {op : Operation}

theorem issue_own (own : c.InRange n addr) :
    c.issue stale msyncOk n addr op mems =
      (update mems n (perform msyncOk (mems n) addr op).1, (perform msyncOk (mems n) addr op).2) := by
  have target : (c.decoder n).getHomeNode addr = n := by rw [getHomeNode_decoder, if_pos own]
  cases op <;> simp [issue, target]

theorem issue_connected (foreign : ¬ c.InRange n addr)
    (found : (c.peers n).find? (fun peer => c.InRange peer addr) = some peer) :
    c.issue stale msyncOk n addr (.atomicFaa 1) mems = (mems, .oldValue 0) := by
  have target : (c.decoder n).getHomeNode addr = peer := by
    rw [getHomeNode_decoder, if_neg foreign, found, Option.getD_some]
  obtain ⟨connected, inRange⟩ := find_inRange found
  have other : peer ≠ n := fun same => foreign (same ▸ inRange)
  simp only [issue, target, other, decide_false, Bool.false_eq_true, if_false, remote, connected, if_true, viaTcp_eq,
    update_eq_self]

theorem issue_unresolved (member : n ∈ c.ids) (foreign : ¬ c.InRange n addr)
    (unreached : ∀ peer ∈ c.peers n, ¬ c.InRange peer addr) :
    c.issue stale msyncOk n addr op mems = match op with
      | .read _ | .write _ =>
        (update mems n (perform msyncOk (mems n) addr op).1, (perform msyncOk (mems n) addr op).2)
      | .atomicFaa _ | .atomicCas _ _ => (mems, .failed) := by
  have nowhere : (c.peers n).find? (fun peer => c.InRange peer addr) = none :=
    find?_eq_none.mpr fun peer connected => by simpa using unreached peer connected
  have target : (c.decoder n).getHomeNode addr = noTarget := by
    rw [getHomeNode_decoder, if_neg foreign, nowhere, Option.getD_none]
  have other : noTarget ≠ n := fun same => c.valid n member same.symm
  have unconnected : noTarget ∉ c.peers n := fun connected => c.valid _ (c.known n _ connected) rfl
  have large : ¬ (noTarget.toNat < distMaxNodes) := by decide
  cases op <;> simp [issue, target, other, remote, forward, unconnected, large]

theorem atHome_of_inRange (member : id ∈ c.ids) (inRange : c.InRange id addr) :
    c.atHome msyncOk addr op mems =
      (update mems id (perform msyncOk (mems id) addr op).1, (perform msyncOk (mems id) addr op).2) := by
  rw [atHome, home_eq_some member inRange]

theorem atHome_of_unbacked (formatted : c.Formatted mems)
    (unbacked : ∀ h ∈ c.ids, c.InRange h addr → c.Unbacked h addr) :
    c.atHome msyncOk addr op mems = (mems, .failed) := by
  cases found : c.home addr with
  | none => rw [atHome, found]
  | some h =>
    obtain ⟨member, inRange⟩ := find_inRange found
    have isUnbacked := unbacked h member inRange
    rw [atHome_of_inRange member inRange, perform_outside member formatted isUnbacked.1 fun _ => isUnbacked,
      update_eq_self]

def fresh (c : Cluster) (id : UInt32) : Segment := freshMapping c.capacity (c.memoryBase id)

theorem formatted_fresh (c : Cluster) : c.Formatted c.fresh := by
  intro id member
  rw [fresh, freshMapping, baseAddr_initializeHeader zero_unformatted, numCachelines_initializeHeader zero_unformatted]
  exact ⟨rfl, rfl⟩

theorem not_singleHome_of_connected (foreign : ¬ c.InRange n addr)
    (found : (c.peers n).find? (fun peer => c.InRange peer addr) = some peer) : ¬ c.SingleHome n addr := by
  intro single
  obtain ⟨connected, inRange⟩ := find_inRange found
  have member := c.known n peer connected
  have same := single c.fresh c.formatted_fresh default true (.atomicFaa 1)
  rw [issue_connected foreign found, atHome_of_inRange member inRange] at same
  obtain ⟨unchanged, outcome⟩ := Prod.mk.inj same
  have memory : c.fresh peer = (perform true (c.fresh peer) addr (.atomicFaa 1)).1 := by
    have at_peer := congrFun unchanged peer
    rwa [update_self] at at_peer
  by_cases backed : (getCachelineData (c.fresh peer) (addrToCacheline addr)).isSome
  · exact (perform_atomicFaa true backed).2 memory.symm
  · rw [isSome_getCachelineData member c.formatted_fresh, not_or] at backed
    have isUnbacked : c.InRange peer addr → c.Unbacked peer addr :=
      fun inRange => not_not.mp fun isBacked => backed.2 ⟨inRange, isBacked⟩
    rw [perform_outside member c.formatted_fresh backed.1 isUnbacked] at outcome
    cases outcome

theorem unbacked_of_singleHome (member : n ∈ c.ids) (foreign : ¬ c.InRange n addr)
    (unreached : ∀ peer ∈ c.peers n, ¬ c.InRange peer addr) (single : c.SingleHome n addr) :
    ∀ h ∈ c.ids, c.InRange h addr → c.Unbacked h addr := by
  intro h at_h inRange
  have same := single c.fresh c.formatted_fresh default true (.atomicFaa 1)
  rw [issue_unresolved member foreign unreached, atHome_of_inRange at_h inRange] at same
  by_contra isBacked
  have backed := (isSome_getCachelineData at_h c.formatted_fresh).mpr (.inr ⟨inRange, isBacked⟩)
  exact (perform_atomicFaa true backed).1 (Prod.mk.inj same).2.symm

theorem ne_zero_of_singleHome (member : n ∈ c.ids) (foreign : ¬ c.InRange n addr)
    (unreached : ∀ peer ∈ c.peers n, ¬ c.InRange peer addr) (single : c.SingleHome n addr) : n ≠ 0 := by
  rintro rfl
  have same := single c.fresh c.formatted_fresh default true (.read 1)
  have unbacked := unbacked_of_singleHome member foreign unreached single
  rw [issue_unresolved member foreign unreached, atHome_of_unbacked c.formatted_fresh unbacked] at same
  have base : baseAddr (c.fresh 0) = 0 :=
    (c.formatted_fresh 0 member).1.trans ((memoryBase_eq_zero_iff member).mpr rfl)
  have accessible : Accessible (c.fresh 0) addr 1 := ⟨by decide, by decide, .inl base⟩
  have outcome := (Prod.mk.inj same).2
  rw [perform, readCacheline_eq, if_pos accessible] at outcome
  cases outcome

/-- A node serves an address from its one home just when that is itself, or when nobody serves it: the
node has a base address other than 0, no peer for the address, and no home backs it. -/
theorem singleHome_iff (c : Cluster) (n : UInt32) (member : n ∈ c.ids) (addr : UInt64) :
    c.SingleHome n addr ↔ c.InRange n addr ∨
      (n ≠ 0 ∧ (∀ peer ∈ c.peers n, ¬ c.InRange peer addr) ∧ ∀ h ∈ c.ids, c.InRange h addr → c.Unbacked h addr) := by
  constructor
  · intro single
    by_cases own : c.InRange n addr
    · exact .inl own
    right
    cases found : (c.peers n).find? fun peer => c.InRange peer addr with
    | some peer => exact absurd single (not_singleHome_of_connected own found)
    | none =>
      have unreached : ∀ peer ∈ c.peers n, ¬ c.InRange peer addr := by
        simpa only [find?_eq_none, decide_eq_true_eq] using found
      exact ⟨ne_zero_of_singleHome member own unreached single, unreached,
        unbacked_of_singleHome member own unreached single⟩
  · rintro (own | ⟨later, unreached, unbacked⟩) mems formatted stale msyncOk op
    · rw [issue_own own, atHome_of_inRange member own]
    · by_cases own : c.InRange n addr
      · rw [issue_own own, atHome_of_inRange member own]
      rw [issue_unresolved member own unreached, atHome_of_unbacked formatted unbacked]
      have refused := perform_outside member formatted later (unbacked n member) msyncOk op
      cases op <;> simp only [refused, update_eq_self]

end Cluster

theorem fits_pair : ∀ id ∈ ([0, 1] : List UInt32), id ≠ noTarget ∧ (id.toNat + 1) * (1 * 2 ^ 20) < 2 ^ 64 := by
  rintro id (_ | ⟨_, _ | ⟨_, ⟨⟩⟩⟩) <;> decide

def twoNodes : Cluster where
  capacityMb := 1
  positive := by decide
  transportMode := .shm
  ids := [0, 1]
  valid := fun id member => (fits_pair id member).1
  fits := fun id member => (fits_pair id member).2
  peers := fun _ => []
  known := fun _ _ connected => absurd connected not_mem_nil
  linked := fun _ _ => rfl

theorem singleHome_iff_node1 : twoNodes.SingleHome 1 0x100040 :=
  (twoNodes.singleHome_iff 1 (by decide) 0x100040).mpr (.inl (by decide))

def twoConnected : Cluster where
  capacityMb := 1
  positive := by decide
  transportMode := .tcp
  ids := [0, 1]
  valid := fun id member => (fits_pair id member).1
  fits := fun id member => (fits_pair id member).2
  peers := fun id => if id = 0 then [1] else if id = 1 then [0] else []
  known := by
    intro id peer connected
    split_ifs at connected
    · exact mem_cons_of_mem _ connected
    · exact mem_of_mem_head? (mem_singleton.mp connected ▸ rfl)
    · exact absurd connected not_mem_nil
  linked := by
    intro shm
    cases shm

/-- Node 0's write to node 1's address lands in its own memory over the queue and nowhere over TCP, and its addition
is refused. -/
theorem write_away_from_home :
    twoNodes.home 0x100040 = some 1 ∧
    (let (mems, outcome) := twoNodes.issue default true 0 0x100040 (.write [7]) twoNodes.fresh
     outcome = .written ∧ (perform true (mems 0) 0x100040 (.read 1)).2 = .data [7] ∧
       (perform true (mems 1) 0x100040 (.read 1)).2 = .data [0]) ∧
    (twoNodes.issue default true 0 0x100040 (.atomicFaa 5) twoNodes.fresh).2 = .failed ∧
    (let (mems, outcome) := twoConnected.issue default true 0 0x100040 (.write [7]) twoConnected.fresh
     outcome = .written ∧ (perform true (mems 1) 0x100040 (.read 1)).2 = .data [0]) ∧
    twoNodes.home 0x200040 = none ∧
    (twoNodes.issue default true 0 0x200040 (.write [7]) twoNodes.fresh).2 = .written := by
  decide +kernel

end CxlMemSim.Dist
