import Mathlib.Data.Fintype.Card
import CxlMemSim.Dist.Join

/-! Registering and leaving, by any servers on one shared header. -/
namespace CxlMemSim.Dist
open Run DistShmHeader Finset

variable {μ : Type}

namespace DistShmHeader
variable (h : DistShmHeader μ)

def deregisterNode (nodeId : UInt32) : Option (DistShmHeader μ) :=
  if valid : nodeId.toNat < distMaxNodes then
    some { h with
      nodes := Function.update h.nodes ⟨nodeId.toNat, valid⟩
        { h.nodes ⟨nodeId.toNat, valid⟩ with state := .offline, lastHeartbeat := 0 }
      numNodes := h.numNodes - 1 }
  else none

def getActiveNodes : List Node := (List.finRange distMaxNodes).filter fun n => h.isNodeActive n

def broadcastMessage (src : Node) (msg : μ) : DistShmHeader μ :=
  h.getActiveNodes.foldl (fun h n => if n ≠ src then (h.enqueueMessage src (nodeId n) msg).getD h else h) h

end DistShmHeader

structure Member where
  info : DistNodeInfo
  valid : info.nodeId.toNat < distMaxNodes
  transportMode : DistTransportMode := .shm
  attached : Bool := true
  running : Bool := true

def Member.node (m : Member) : Node := ⟨m.info.nodeId.toNat, m.valid⟩

/-- A shared header and all servers; `linked` says if the header's name still leads to it. -/
structure Members (ι μ : Type) where
  header : DistShmHeader μ
  linked : Bool := true
  servers : ι → Member

inductive MemberOp (ι μ : Type) where
  | registerNode (server : ι) (info : DistNodeInfo) (now : UInt64)
  | deregisterNode (server : ι) (nodeId : UInt32)
  | removeRemoteNode (server : ι) (nodeId : UInt32)
  | joinCluster (server : ι) (now : UInt64) (msg : μ)
  | leaveCluster (server : ι) (msg : μ)
  | stop (server : ι)

/-- The header after `join_cluster` has reset it, registered its server and sent the NODE_REGISTER message. -/
def Member.rejoin [Inhabited μ] (m : Member) (now : UInt64) (msg : μ) : DistShmHeader μ :=
  let h : DistShmHeader μ := .blank m.info.nodeId
  let h := (h.registerNode m.info now).getD h
  (h.enqueueMessage m.node 0 msg).getD h

namespace Members
variable {ι : Type} [DecidableEq ι] (st : Members ι μ)

def update (k : ι) (m : Member) : Members ι μ := { st with servers := Function.update st.servers k m }

def onHeader (k : ι) (change : DistShmHeader μ → Option (DistShmHeader μ)) : Members ι μ :=
  if (st.servers k).attached then { st with header := (change st.header).getD st.header } else st

/-- The name is gone if the manager that goes had this header mapped. -/
def joinCluster [Inhabited μ] (k : ι) (now : UInt64) (msg : μ) : Members ι μ :=
  let m := st.servers k
  if m.transportMode = .tcp then st
  else
    let st := { st with linked := st.linked && !m.attached }
    if st.linked then { st with header := m.rejoin now msg }.update k { m with attached := true }
    else st.update k { m with attached := false }

def leaveCluster (k : ι) (msg : μ) : Members ι μ :=
  let m := st.servers k
  st.onHeader k fun h => (h.broadcastMessage m.node msg).deregisterNode m.info.nodeId

def stop (k : ι) : Members ι μ :=
  let m := st.servers k
  if m.running then (st.update k { m with running := false }).onHeader k fun h => h.deregisterNode m.info.nodeId
  else st

end Members

def Members.step {ι : Type} [DecidableEq ι] [Inhabited μ] (st : Members ι μ) : MemberOp ι μ → Members ι μ
  | .registerNode k info now => st.onHeader k fun h => h.registerNode info now
  | .deregisterNode k nodeId | .removeRemoteNode k nodeId => st.onHeader k fun h => h.deregisterNode nodeId
  | .joinCluster k now msg => st.joinCluster k now msg
  | .leaveCluster k msg => st.leaveCluster k msg
  | .stop k => st.stop k

namespace DistShmHeader

def isActive (h : DistShmHeader μ) (nodeId : UInt32) : Prop :=
  ∃ valid : nodeId.toNat < distMaxNodes, h.isNodeActive ⟨nodeId.toNat, valid⟩ = true

def Counts (h : DistShmHeader μ) : Prop := h.numNodes.toNat = h.getActiveNodes.length

def active (h : DistShmHeader μ) : Finset Node := Finset.univ.filter fun n => h.isNodeActive n = true

variable {h after : DistShmHeader μ} {nodeId : UInt32}

theorem length_getActiveNodes (h : DistShmHeader μ) : h.getActiveNodes.length = h.active.card := by
  have nodup : h.getActiveNodes.Nodup := (List.nodup_finRange distMaxNodes).filter _
  rw [← List.toFinset_card_of_nodup nodup]
  congr 1
  ext n
  simp [getActiveNodes, active]

theorem card_active_le (h : DistShmHeader μ) : h.active.card ≤ 16 := by
  have all := card_le_univ h.active
  rwa [Fintype.card_fin] at all

theorem mem_active {n : Node} : n ∈ h.active ↔ h.isNodeActive n = true := by simp [active]

theorem isActive_iff (valid : nodeId.toNat < distMaxNodes) :
    h.isActive nodeId ↔ (⟨nodeId.toNat, valid⟩ : Node) ∈ h.active := by
  rw [mem_active]
  exact ⟨fun ⟨_, active⟩ => active, fun active => ⟨valid, active⟩⟩

theorem active_registerNode {info : DistNodeInfo} {now : UInt64} (valid : info.nodeId.toNat < distMaxNodes)
    (registered : h.registerNode info now = some after) :
    after.active = insert ⟨info.nodeId.toNat, valid⟩ h.active := by
  rw [registerNode, dif_pos valid] at registered
  cases registered
  ext n
  rw [mem_insert, mem_active, mem_active]
  by_cases same : n = ⟨info.nodeId.toNat, valid⟩
  · simp [isNodeActive, same]
  · simp [isNodeActive, same]

theorem active_deregisterNode (valid : nodeId.toNat < distMaxNodes)
    (deregistered : h.deregisterNode nodeId = some after) :
    after.active = h.active.erase ⟨nodeId.toNat, valid⟩ := by
  rw [deregisterNode, dif_pos valid] at deregistered
  cases deregistered
  ext n
  rw [mem_erase, mem_active, mem_active]
  by_cases same : n = ⟨nodeId.toNat, valid⟩
  · simp [isNodeActive, same]
  · simp [isNodeActive, same]

theorem counts_iff : h.Counts ↔ h.numNodes.toNat = h.active.card := by rw [Counts, length_getActiveNodes]

theorem counts_registerNode (counts : h.Counts) (info : DistNodeInfo) (now : UInt64) :
    ((h.registerNode info now).getD h).Counts ↔ ¬ h.isActive info.nodeId := by
  have bound := card_active_le h
  rw [counts_iff] at counts
  by_cases valid : info.nodeId.toNat < distMaxNodes
  · obtain ⟨after, registered, number⟩ : ∃ after, h.registerNode info now = some after ∧
        after.numNodes = h.numNodes + 1 := ⟨_, dif_pos valid, rfl⟩
    have count : after.numNodes.toNat = h.active.card + 1 := by
      rw [number, UInt32.toNat_add, counts]
      exact Nat.mod_eq_of_lt (show h.active.card + 1 < 2 ^ 32 by omega)
    rw [registered, Option.getD_some, counts_iff, active_registerNode valid registered, count, isActive_iff valid]
    by_cases member : (⟨info.nodeId.toNat, valid⟩ : Node) ∈ h.active
    · rw [insert_eq_of_mem member]
      exact iff_of_false (by omega) fun other => other member
    · rw [card_insert_of_notMem member]
      exact iff_of_true rfl member
  · have refused : h.registerNode info now = none := dif_neg valid
    rw [refused, Option.getD_none, counts_iff]
    exact iff_of_true counts fun ⟨inside, _⟩ => valid inside

theorem counts_deregisterNode (counts : h.Counts) (nodeId : UInt32) :
    ((h.deregisterNode nodeId).getD h).Counts ↔ (nodeId.toNat < distMaxNodes → h.isActive nodeId) := by
  have bound := card_active_le h
  rw [counts_iff] at counts
  by_cases valid : nodeId.toNat < distMaxNodes
  · obtain ⟨after, deregistered, number⟩ : ∃ after, h.deregisterNode nodeId = some after ∧
        after.numNodes = h.numNodes - 1 := ⟨_, dif_pos valid, rfl⟩
    have count : after.numNodes.toNat = (2 ^ 32 - 1 + h.active.card) % 2 ^ 32 := by
      rw [number, UInt32.toNat_sub, counts]
      rfl
    rw [deregistered, Option.getD_some, counts_iff, active_deregisterNode valid deregistered, count, isActive_iff valid]
    by_cases member : (⟨nodeId.toNat, valid⟩ : Node) ∈ h.active
    · have some_active := card_pos.mpr ⟨_, member⟩
      rw [card_erase_of_mem member]
      exact iff_of_true (by omega) fun _ => member
    · rw [erase_eq_of_notMem member]
      exact iff_of_false (by omega) fun active => member (active valid)
  · have refused : h.deregisterNode nodeId = none := dif_neg valid
    rw [refused, Option.getD_none, counts_iff]
    exact iff_of_true counts fun inside => absurd inside valid

def SameNodes (h h' : DistShmHeader μ) : Prop := h'.nodes = h.nodes ∧ h'.numNodes = h.numNodes

theorem SameNodes.isNodeActive (same : SameNodes h after) (n : Node) : after.isNodeActive n = h.isNodeActive n := by
  rw [DistShmHeader.isNodeActive, DistShmHeader.isNodeActive, same.1]

theorem SameNodes.counts (same : SameNodes h after) : after.Counts ↔ h.Counts := by
  have active : after.getActiveNodes = h.getActiveNodes :=
    List.filter_congr fun n _ => same.isNodeActive n
  rw [Counts, Counts, same.2, active]

theorem SameNodes.isActive (same : SameNodes h after) (nodeId : UInt32) : after.isActive nodeId ↔ h.isActive nodeId :=
  exists_congr fun valid => by rw [same.isNodeActive]

theorem sameNodes_enqueue (h : DistShmHeader μ) (src : Node) (dst : UInt32) (msg : μ) :
    SameNodes h ((h.enqueueMessage src dst msg).getD h) := by
  cases sent : h.enqueueMessage src dst msg with
  | none => exact ⟨rfl, rfl⟩
  | some after =>
    rw [enqueueMessage] at sent
    split at sent
    · obtain ⟨queue, -, rfl⟩ := Option.map_eq_some_iff.mp sent
      exact ⟨rfl, rfl⟩
    · cases sent

theorem sameNodes_broadcast (h : DistShmHeader μ) (src : Node) (msg : μ) :
    SameNodes h (h.broadcastMessage src msg) := by
  refine Run.invariant (I := fun after => SameNodes h after) (fun before n same => ?_) ⟨rfl, rfl⟩ h.getActiveNodes
  split
  · obtain ⟨nodes, number⟩ := sameNodes_enqueue before src (nodeId n) msg
    exact ⟨nodes.trans same.1, number.trans same.2⟩
  · exact same

end DistShmHeader

/-- A registration is of a node that is not active, and a deregistration of one that is. -/
def MemberOp.Proper {ι : Type} (st : Members ι μ) : MemberOp ι μ → Prop
  | .registerNode k info _ => (st.servers k).attached = true → ¬ st.header.isActive info.nodeId
  | .deregisterNode k nodeId | .removeRemoteNode k nodeId =>
    (st.servers k).attached = true → nodeId.toNat < distMaxNodes → st.header.isActive nodeId
  | .joinCluster _ _ _ => True
  | .leaveCluster k _ => (st.servers k).attached = true → st.header.isActive (st.servers k).info.nodeId
  | .stop k => (st.servers k).running = true → (st.servers k).attached = true →
      st.header.isActive (st.servers k).info.nodeId

theorem DistShmHeader.counts_blank [Inhabited μ] (nodeId : UInt32) : (blank nodeId : DistShmHeader μ).Counts := by
  have empty : (blank nodeId : DistShmHeader μ).active = ∅ := filter_eq_empty_iff.mpr fun _ _ => nofun
  rw [counts_iff, empty]
  rfl

theorem counts_rejoin [Inhabited μ] (m : Member) (now : UInt64) (msg : μ) : (m.rejoin now msg).Counts := by
  have none_active : ¬ (blank m.info.nodeId : DistShmHeader μ).isActive m.info.nodeId := by
    rintro ⟨_, active⟩
    cases active
  exact (sameNodes_enqueue _ _ _ _).counts.mpr
    ((counts_registerNode (counts_blank _) m.info now).mpr none_active)

namespace Members
variable {ι : Type}

theorem counts_onHeader (st : Members ι μ) (counts : st.header.Counts) (k : ι)
    {change : DistShmHeader μ → Option (DistShmHeader μ)} {proper : Prop}
    (decides : ((change st.header).getD st.header).Counts ↔ proper) :
    (st.onHeader k change).header.Counts ↔ ((st.servers k).attached = true → proper) := by
  unfold onHeader
  split
  · rename_i attached
    exact decides.trans ⟨fun p _ => p, fun p => p attached⟩
  · rename_i detached
    exact iff_of_true counts fun attached => absurd attached detached

theorem counts_deregister_own {h before : DistShmHeader μ} (counts : before.Counts) (m : Member) :
    ((before.deregisterNode m.info.nodeId).getD h).Counts ↔ before.isActive m.info.nodeId := by
  obtain ⟨after, deregistered⟩ : ∃ after, before.deregisterNode m.info.nodeId = some after := ⟨_, dif_pos m.valid⟩
  have decides := counts_deregisterNode counts m.info.nodeId
  rw [deregistered, Option.getD_some] at decides ⊢
  exact decides.trans ⟨fun active => active m.valid, fun active _ => active⟩

variable [DecidableEq ι]

theorem counts_step [Inhabited μ] (st : Members ι μ) (op : MemberOp ι μ) (counts : st.header.Counts) :
    (st.step op).header.Counts ↔ op.Proper st := by
  cases op with
  | registerNode k info now => exact counts_onHeader st counts k (counts_registerNode counts info now)
  | deregisterNode k nodeId | removeRemoteNode k nodeId =>
    exact counts_onHeader st counts k (counts_deregisterNode counts nodeId)
  | joinCluster k now msg =>
    refine iff_of_true ?_ trivial
    simp only [step, joinCluster]
    split
    · exact counts
    · split
      · exact counts_rejoin _ now msg
      · exact counts
  | leaveCluster k msg =>
    have same := sameNodes_broadcast st.header (st.servers k).node msg
    refine counts_onHeader st counts k ((counts_deregister_own (same.counts.mpr counts) _).trans ?_)
    exact same.isActive _
  | stop k =>
    by_cases running : (st.servers k).running = true
    · simp only [step, stop, if_pos running]
      refine (counts_onHeader (st.update k _) counts k (counts_deregister_own counts (st.servers k))).trans ?_
      simp only [update, Function.update_self, MemberOp.Proper, running, forall_const]
    · simp only [step, stop, if_neg running]
      exact iff_of_true counts fun runs => absurd runs running

end Members

theorem num_nodes_iff {ι : Type} [DecidableEq ι] [Inhabited μ] (coordinator : UInt32) (servers : ι → Member)
    (ops : List (MemberOp ι μ)) :
    (∀ before, before <+: ops → (before.foldl Members.step ⟨.blank coordinator, true, servers⟩).header.Counts) ↔
      EveryStep Members.step (fun st op => op.Proper st) ⟨.blank coordinator, true, servers⟩ ops :=
  forall_prefix_iff (I := fun st : Members ι μ => st.header.Counts) Members.counts_step
    (counts_blank coordinator) ops

theorem valid_node (n : Node) : (nodeId n).toNat < distMaxNodes := by
  rw [System.nodeId_toNat]
  exact n.isLt

def allAttached : Members Node Nat where
  header := .blank 0
  servers n := { info := ⟨nodeId n, "node", 0, 0x100000⟩, valid := valid_node n }

/-- Node 1 registers twice; it leaves and then stops; a node that is not registered is removed. -/
theorem num_nodes_off :
    let register : MemberOp Node Nat := .registerNode 1 ⟨1, "node1", 0, 0x100000⟩ 1
    let twice := [register, register].foldl Members.step allAttached
    let left := [register, .leaveCluster 1 0, .stop 1].foldl Members.step allAttached
    let removed := allAttached.step (.removeRemoteNode 0 7)
    twice.header.numNodes = 2 ∧ twice.header.getActiveNodes = [1] ∧
      left.header.numNodes = 0xFFFFFFFF ∧ left.header.getActiveNodes = [] ∧
      removed.header.numNodes = 0xFFFFFFFF ∧ removed.header.getActiveNodes = [] := by
  decide +kernel

end CxlMemSim.Dist
