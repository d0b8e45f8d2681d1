import CxlMemSim.Lib.RingBuffer
import Mathlib.Data.Fintype.Basic

/-! The shared header of `DistributedMessageManager`: a status for each node and a ring of messages for each ordered
pair of nodes. -/
namespace CxlMemSim.Dist
open Function RingBuffer

def distMaxNodes : Nat := 16

instance : NeZero distMaxNodes := ⟨by decide⟩

abbrev Node := Fin distMaxNodes

inductive DistMsgType where
  | none
  | nodeRegister | nodeDeregister | nodeHeartbeat | nodeAck
  | readReq | readResp | writeReq | writeResp
  | atomicFaaReq | atomicFaaResp | atomicCasReq | atomicCasResp | fenceReq | fenceResp
  | invalidate | invalidateAck | downgrade | downgradeAck | writeback | writebackAck
  | dirUpdate | dirQuery | dirResponse
  | bulkReadReq | bulkReadResp | bulkWriteReq | bulkWriteResp
  | lsaReadReq | lsaReadResp | lsaWriteReq | lsaWriteResp
deriving DecidableEq

inductive NodeState where
  | unknown | initializing | ready | busy | draining | offline
deriving DecidableEq

structure DistNodeStatus where
  nodeId : UInt32 := 0
  state : NodeState := .unknown
  lastHeartbeat : UInt64 := 0
  memoryBase : UInt64 := 0
  memorySize : UInt64 := 0
  activeConnections : UInt32 := 0
  flags : UInt32 := 0
  hostname : String := ""
deriving DecidableEq

abbrev DistNodeQueue (μ : Type) := Queue 4096 μ

structure DistShmHeader (μ : Type) where
  magic : UInt64
  version : UInt32
  numNodes : UInt32
  coordinatorNode : UInt32
  globalEpoch : UInt32
  systemReady : UInt32
  shutdownRequested : UInt32
  nodes : Node → DistNodeStatus
  queues : Node × Node → DistNodeQueue μ

variable {μ : Type}

def DistShmHeader.blank [Inhabited μ] (localNodeId : UInt32) : DistShmHeader μ where
  magic := 0x4458544D454D5348
  version := 1
  numNodes := 0
  coordinatorNode := localNodeId
  globalEpoch := 0
  systemReady := 0
  shutdownRequested := 0
  nodes _ := {}
  queues _ := ⟨0, 0, fun _ => default⟩

namespace DistShmHeader
variable (h : DistShmHeader μ)

def isNodeActive (n : Node) : Bool := (h.nodes n).state = .ready ∨ (h.nodes n).state = .busy

def enqueueMessage (src : Node) (dstNode : UInt32) (msg : μ) : Option (DistShmHeader μ) :=
  if valid : dstNode.toNat < distMaxNodes then
    ((h.queues (src, ⟨dstNode.toNat, valid⟩)).push msg).map fun queue =>
      { h with queues := update h.queues (src, ⟨dstNode.toNat, valid⟩) queue }
  else none

def dequeueMessage (srcNode dst : Node) : Option (μ × DistShmHeader μ) :=
  (h.queues (srcNode, dst)).pop.map fun (msg, queue) =>
    (msg, { h with queues := update h.queues (srcNode, dst) queue })

def queued (src dst : Node) : List μ := (h.queues (src, dst)).contents

end DistShmHeader

def setupMessageHandlers : DistMsgType → Option DistMsgType
  | .readReq => some .readResp
  | .writeReq => some .writeResp
  | .lsaReadReq => some .lsaReadResp
  | .lsaWriteReq => some .lsaWriteResp
  | .atomicFaaReq => some .atomicFaaResp
  | .atomicCasReq => some .atomicCasResp
  | .invalidate => some .invalidateAck
  | .downgrade => some .downgradeAck
  | .nodeRegister => some .nodeAck
  | .nodeHeartbeat => some .none
  | .dirQuery => some .dirResponse
  | _ => none

theorem setupMessageHandlers_response {t r : DistMsgType} (registered : setupMessageHandlers t = some r) :
    setupMessageHandlers r = none := by
  cases t <;> cases registered <;> rfl

namespace DistShmHeader
variable {h after : DistShmHeader μ}

theorem queued_enqueueMessage {src : Node} {dstNode : UInt32} {msg : μ}
    (sent : h.enqueueMessage src dstNode msg = some after) (a b : Node) :
    after.queued a b = if a = src ∧ b.val = dstNode.toNat then h.queued a b ++ [msg] else h.queued a b := by
  rw [enqueueMessage] at sent
  split at sent
  · rename_i valid
    obtain ⟨queue, pushed, rfl⟩ := Option.map_eq_some_iff.mp sent
    simp only [queued, update_apply, Prod.mk.injEq, Fin.ext_iff]
    split
    · rename_i same
      obtain ⟨rfl, rfl⟩ : a = src ∧ b = ⟨dstNode.toNat, valid⟩ := ⟨Fin.ext same.1, Fin.ext same.2⟩
      exact Queue.contents_push pushed
    · rfl
  · cases sent

theorem queued_dequeueMessage {srcNode dst : Node} {msg : μ}
    (received : h.dequeueMessage srcNode dst = some (msg, after)) :
    h.queued srcNode dst = msg :: after.queued srcNode dst ∧
      ∀ a b, (a, b) ≠ (srcNode, dst) → after.queued a b = h.queued a b := by
  obtain ⟨⟨x, queue⟩, popped, same⟩ := Option.map_eq_some_iff.mp received
  cases same
  refine ⟨?_, fun a b other => ?_⟩
  · simp only [queued, update_self]
    exact Queue.contents_pop popped
  · simp only [queued, update_of_ne other]

theorem queued_blank [Inhabited μ] (localNodeId : UInt32) (a b : Node) :
    (blank localNodeId : DistShmHeader μ).queued a b = [] := Queue.contents_of_empty rfl

end DistShmHeader
end CxlMemSim.Dist
