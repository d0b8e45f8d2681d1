import CxlMemSim.Lib.Run
import CxlMemSim.Lib.SlotTable
import CxlMemSim.Type2.P2p

/-! Registration takes the first free slot, and numbers the peers by a counter that all engines share. -/
namespace CxlMemSim.Type2.P2p
open Function Run SlotTable

inductive FabricDevice where
  | type2 (n : Nat)
  | type3 (n : Nat)
deriving DecidableEq

structure PeerSlot where
  pciDev : FabricDevice
  peerId : UInt32

structure PeerTable where
  owner : Nat
  peers : Fin maxPeers → Option PeerSlot := fun _ => none
  numPeers : UInt32 := 0
  ownerPeerId : UInt32 := 0
  nextId : UInt32 := 1
  discovered : Bool := false

inductive PeerStep where
  | register (dev : FabricDevice)
  | unregister (peerId : UInt32)

inductive PeerCall where
  /-- With the devices of the bus in the order of their functions. -/
  | discoverPeers (bus : List FabricDevice)
  | registerPeerType2 (n : Nat)
  | registerPeerType3 (n : Nat)
  | unregisterPeer (peerId : UInt32)

namespace PeerTable
variable (table : PeerTable)

def takeSlot (dev : FabricDevice) : Option PeerTable :=
  (firstFree table.peers).map fun slot =>
    { table with
      peers := update table.peers slot (some ⟨dev, table.nextId⟩)
      nextId := table.nextId + 1
      numPeers := table.numPeers + 1 }

def registerPeerType3 (ct3d : Nat) : PeerTable := (table.takeSlot (.type3 ct3d)).getD table

def registerPeerType2 (ct2d : Nat) : PeerTable :=
  match table.takeSlot (.type2 ct2d) with
  | none => table
  | some taken => if ct2d = table.owner then { taken with ownerPeerId := table.nextId, discovered := true } else taken

def unregisterPeer (peerId : UInt32) : PeerTable :=
  match firstWith (fun peer => peer.peerId = peerId) table.peers with
  | none => table
  | some slot =>
    { table with peers := update table.peers slot none, numPeers := table.numPeers - 1 }

def step (table : PeerTable) : PeerStep → PeerTable
  | .register (.type2 ct2d) => table.registerPeerType2 ct2d
  | .register (.type3 ct3d) => table.registerPeerType3 ct3d
  | .unregister peerId => table.unregisterPeer peerId

end PeerTable

def FabricDevice.isType3 : FabricDevice → Bool
  | .type2 _ => false
  | .type3 _ => true

def PeerCall.steps (owner : Nat) : PeerCall → List PeerStep
  | .discoverPeers bus =>
    .register (.type2 owner) :: (bus.filter fun dev => dev ≠ .type2 owner ∧ dev.isType3).map .register
  | .registerPeerType2 n => [.register (.type2 n)]
  | .registerPeerType3 n => [.register (.type3 n)]
  | .unregisterPeer peerId => [.unregister peerId]

namespace PeerTable

def call (table : PeerTable) (c : PeerCall) : PeerTable := (c.steps table.owner).foldl step table

structure Distinct (table : PeerTable) : Prop where
  ids : DistinctBy PeerSlot.peerId table.peers
  devices : DistinctBy PeerSlot.pciDev table.peers

structure Consistent (table : PeerTable) : Prop where
  count : table.numPeers.toNat = (occupied table.peers).card
  distinct : table.Distinct
  owned : table.discovered = true →
    ∃ i, table.peers i = some ⟨.type2 table.owner, table.ownerPeerId⟩

/-- A registration that finds a slot is of a device without one, under an id that is not in use; and the owner, once
registered, is not unregistered. -/
def Fresh (table : PeerTable) : PeerStep → Prop
  | .register dev => (∃ i, table.peers i = none) →
      ∀ i peer, table.peers i = some peer → peer.pciDev ≠ dev ∧ peer.peerId ≠ table.nextId
  | .unregister peerId => table.discovered = true → peerId ≠ table.ownerPeerId

section Steps
variable {table : PeerTable} {dev : FabricDevice}

theorem register_full (full : firstFree table.peers = none) : table.step (.register dev) = table := by
  cases dev with
  | type2 ct2d => simp only [step, registerPeerType2, takeSlot, full, Option.map_none]
  | type3 ct3d => simp only [step, registerPeerType3, takeSlot, full, Option.map_none, Option.getD_none]

theorem register_slot {slot : Fin maxPeers} (found : firstFree table.peers = some slot) :
    table.step (.register dev) =
      { table with
        peers := update table.peers slot (some ⟨dev, table.nextId⟩)
        nextId := table.nextId + 1
        numPeers := table.numPeers + 1
        ownerPeerId := if dev = .type2 table.owner then table.nextId else table.ownerPeerId
        discovered := decide (dev = .type2 table.owner) || table.discovered } := by
  cases dev with
  | type2 ct2d =>
    simp only [step, registerPeerType2, takeSlot, found, Option.map_some, FabricDevice.type2.injEq]
    split
    · rename_i same
      simp [same]
    · rename_i other
      simp [other]
  | type3 ct3d => simp [step, registerPeerType3, takeSlot, found]

theorem register_distinct_iff :
    (table.step (.register dev)).Distinct ↔ table.Distinct ∧ table.Fresh (.register dev) := by
  cases found : firstFree table.peers with
  | none =>
    rw [register_full found]
    refine (and_iff_left ?_).symm
    rintro ⟨i, free⟩
    exact absurd free (firstFree_eq_none_iff.mp found i)
  | some slot =>
    have free := free_of_firstFree found
    rw [register_slot found]
    constructor
    · rintro ⟨ids, devices⟩
      obtain ⟨ids, freshId⟩ := (distinctBy_put_iff free _).mp ids
      obtain ⟨devices, freshDevice⟩ := (distinctBy_put_iff free _).mp devices
      exact ⟨⟨ids, devices⟩, fun _ i peer there => ⟨freshDevice i peer there, freshId i peer there⟩⟩
    · rintro ⟨distinct, fresh⟩
      have apart := fresh ⟨slot, free⟩
      exact ⟨(distinctBy_put_iff free _).mpr ⟨distinct.ids, fun i peer there => (apart i peer there).2⟩,
        (distinctBy_put_iff free _).mpr ⟨distinct.devices, fun i peer there => (apart i peer there).1⟩⟩

theorem card_occupied_le (peers : Fin maxPeers → Option PeerSlot) : (occupied peers).card ≤ 16 :=
  (Finset.card_le_univ _).trans (Fintype.card_fin maxPeers).le

variable (consistent : table.Consistent)
include consistent

theorem Consistent.register (fresh : table.Fresh (.register dev)) : (table.step (.register dev)).Consistent := by
  have distinct := register_distinct_iff.mpr ⟨consistent.distinct, fresh⟩
  cases found : firstFree table.peers with
  | none =>
    rw [register_full found]
    exact consistent
  | some slot =>
    have free := free_of_firstFree found
    rw [register_slot found] at distinct ⊢
    refine ⟨?_, distinct, ?_⟩
    · have added := card_occupied_put free ⟨dev, table.nextId⟩
      have room := card_occupied_le (update table.peers slot (some ⟨dev, table.nextId⟩))
      have one : (1 : UInt32).toNat = 1 := rfl
      rw [added] at room
      rw [added, UInt32.toNat_add, one, consistent.count, Nat.mod_eq_of_lt (by omega)]
    · intro discovered
      dsimp only at discovered ⊢
      by_cases owner : dev = .type2 table.owner
      · refine ⟨slot, ?_⟩
        rw [update_self, if_pos owner, owner]
      · have before : table.discovered = true := by simpa [owner] using discovered
        obtain ⟨i, there⟩ := consistent.owned before
        refine ⟨i, ?_⟩
        rw [if_neg owner, update_of_ne (by rintro rfl; rw [free] at there; cases there)]
        exact there

theorem Consistent.unregister_iff (peerId : UInt32) :
    (table.step (.unregister peerId)).Consistent ↔ table.Fresh (.unregister peerId) := by
  cases found : firstWith (fun peer => decide (peer.peerId = peerId)) table.peers with
  | none =>
    have same : table.step (.unregister peerId) = table := by simp only [step, unregisterPeer, found]
    rw [same]
    refine iff_of_true consistent fun discovered named => ?_
    obtain ⟨i, there⟩ := consistent.owned discovered
    have missed := firstWith_eq_none_iff.mp found i _ there
    exact absurd named.symm (of_decide_eq_false missed)
  | some slot =>
    obtain ⟨peer, used, fits⟩ := entry_of_firstWith found
    have named : peer.peerId = peerId := of_decide_eq_true fits
    have cleared : table.step (.unregister peerId) =
        { table with peers := update table.peers slot none, numPeers := table.numPeers - 1 } := by
      simp only [step, unregisterPeer, found]
    rw [cleared]
    constructor
    · intro after discovered own
      obtain ⟨i, there⟩ := consistent.owned discovered
      obtain ⟨j, still⟩ := after.owned discovered
      dsimp only at still
      have here : i = slot := consistent.distinct.ids i slot _ _ there used (own.symm.trans named.symm)
      have elsewhere : j ≠ slot := by
        rintro rfl
        rw [update_self] at still
        cases still
      rw [update_of_ne elsewhere] at still
      exact elsewhere ((consistent.distinct.ids j i _ _ still there rfl).trans here)
    · intro fresh
      refine ⟨?_, ⟨consistent.distinct.ids.clear slot, consistent.distinct.devices.clear slot⟩, ?_⟩
      · have removed := card_occupied_clear used
        have one : (1 : UInt32).toNat = 1 := rfl
        rw [← consistent.count] at removed
        dsimp only
        rw [UInt32.toNat_sub_of_le _ _ (by rw [UInt32.le_iff_toNat_le]; omega), one]
        omega
      · intro discovered
        obtain ⟨i, there⟩ := consistent.owned discovered
        refine ⟨i, ?_⟩
        dsimp only
        rw [update_of_ne]
        · exact there
        · rintro rfl
          rw [used] at there
          cases there
          exact fresh discovered named.symm

omit consistent in
theorem distinct_of_registers {devs : List FabricDevice}
    (distinct : ((devs.map PeerStep.register).foldl step table).Distinct) : table.Distinct := by
  induction devs generalizing table with
  | nil => exact distinct
  | cons dev devs ih => exact (register_distinct_iff.mp (ih distinct)).1

theorem Consistent.registers_iff (devs : List FabricDevice) :
    ((devs.map PeerStep.register).foldl step table).Consistent ↔
      EveryStep step Fresh table (devs.map PeerStep.register) := by
  induction devs generalizing table with
  | nil => exact iff_of_true consistent trivial
  | cons dev devs ih =>
    rw [List.map_cons, List.foldl_cons, everyStep_cons]
    constructor
    · intro after
      have fresh := (register_distinct_iff.mp (distinct_of_registers after.distinct)).2
      exact ⟨fresh, (ih (consistent.register fresh)).mp after⟩
    · rintro ⟨fresh, rest⟩
      exact (ih (consistent.register fresh)).mpr rest

theorem Consistent.call_iff (c : PeerCall) :
    (table.call c).Consistent ↔ EveryStep step Fresh table (c.steps table.owner) := by
  cases c with
  | discoverPeers bus => exact consistent.registers_iff (.type2 table.owner :: _)
  | registerPeerType2 n => exact consistent.registers_iff [.type2 n]
  | registerPeerType3 n => exact consistent.registers_iff [.type3 n]
  | unregisterPeer peerId => exact (consistent.unregister_iff peerId).trans (and_iff_left trivial).symm

end Steps

theorem init_consistent (owner : Nat) (nextId : UInt32) : Consistent { owner, nextId } where
  count := by
    have none : occupied (fun _ : Fin maxPeers => (none : Option PeerSlot)) = ∅ := by simp [occupied]
    dsimp only
    rw [none]
    rfl
  distinct := ⟨fun _ _ _ _ there => absurd there (by simp), fun _ _ _ _ there => absurd there (by simp)⟩
  owned discovered := absurd discovered (by simp)

theorem peers_consistent_iff (owner : Nat) (nextId : UInt32) (calls : List PeerCall) :
    (∀ before, before <+: calls → (before.foldl call { owner, nextId }).Consistent) ↔
      EveryStep call (fun table c => EveryStep step Fresh table (c.steps table.owner)) { owner, nextId } calls :=
  forall_prefix_iff (fun _ c consistent => consistent.call_iff c) (init_consistent owner nextId) calls

theorem not_consistent_discoveredTwice :
    ¬([.discoverPeers [], .discoverPeers []].foldl call { owner := 0 }).Consistent := by
  intro consistent
  have same := consistent.distinct.devices ⟨0, by decide⟩ ⟨1, by decide⟩ ⟨.type2 0, 1⟩ ⟨.type2 0, 2⟩ rfl rfl rfl
  exact absurd same (by decide)

end PeerTable
end CxlMemSim.Type2.P2p
