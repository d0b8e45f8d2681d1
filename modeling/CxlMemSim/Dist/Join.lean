import CxlMemSim.Dist.Rpc

/-! How a manager maps the shared header: in `initialize` under its own name, and in `join_cluster` under the
coordinator's. -/
namespace CxlMemSim.Dist
open Function DistShmHeader

variable {μ : Type}

abbrev Shm (μ : Type) := String → Option (DistShmHeader μ)

structure DistNodeInfo where
  nodeId : UInt32
  hostname : String
  memoryBase : UInt64
  memorySize : UInt64

structure DistributedMessageManager where
  shmName : String
  localNodeId : UInt32
  isCoordinator : Bool := false
  handlers : DistMsgType → Option DistMsgType := fun _ => none
  nextMsgId : UInt32 := 1

inductive DistTransportMode where
  | shm | tcp | hybrid
deriving DecidableEq

structure DistributedMemoryServer where
  info : DistNodeInfo
  shmName : String
  transportMode : DistTransportMode
  msgManager : Option DistributedMessageManager := none

def DistShmHeader.registerNode (h : DistShmHeader μ) (info : DistNodeInfo) (now : UInt64) :
    Option (DistShmHeader μ) :=
  if valid : info.nodeId.toNat < distMaxNodes then
    some { h with
      nodes := update h.nodes ⟨info.nodeId.toNat, valid⟩
        { nodeId := info.nodeId
          state := .ready
          lastHeartbeat := now
          memoryBase := info.memoryBase
          memorySize := info.memorySize
          activeConnections := 0
          flags := 0
          hostname := info.hostname }
      numNodes := h.numNodes + 1 }
  else none

namespace DistributedMessageManager
variable (m : DistributedMessageManager)

/-- The header is reset and the manager made coordinator whether the object is new or not. -/
def initializeManager [Inhabited μ] (createNew : Bool) (shm : Shm μ) : Option (DistributedMessageManager × Shm μ) :=
  if createNew ∨ (shm m.shmName).isSome then
    some ({ m with isCoordinator := true }, update shm m.shmName (some (.blank m.localNodeId)))
  else none

def cleanup (shm : Shm μ) : Shm μ := if m.isCoordinator then update shm m.shmName none else shm

def registerNode (info : DistNodeInfo) (now : UInt64) (shm : Shm μ) : Option (Shm μ) :=
  ((shm m.shmName).bind fun h => h.registerNode info now).map fun h => update shm m.shmName (some h)

end DistributedMessageManager

namespace DistributedMemoryServer
variable (server : DistributedMemoryServer)

def initializeServer [Inhabited μ] (now : UInt64) (shm : Shm μ) : DistributedMemoryServer × Shm μ × Bool :=
  if server.transportMode = .tcp then (server, shm, true)
  else
    match ({ shmName := server.shmName, localNodeId := server.info.nodeId } :
        DistributedMessageManager).initializeManager (server.info.nodeId = 0) shm with
    | none => (server, shm, false)
    | some (m, shm) =>
      match m.registerNode server.info now shm with
      | none => ({ server with msgManager := some m }, shm, false)
      | some shm => ({ server with msgManager := some { m with handlers := setupMessageHandlers } }, shm, true)

/-- The old manager goes when the new one takes its place, before the object is opened. -/
def joinCluster [Inhabited μ] (registerMsg : UInt32 → DistNodeInfo → μ) (coordinatorShm : String) (now : UInt64)
    (shm : Shm μ) : DistributedMemoryServer × Shm μ × Bool :=
  if server.transportMode = .tcp then (server, shm, true)
  else
    let m : DistributedMessageManager := { shmName := coordinatorShm, localNodeId := server.info.nodeId }
    let shm := (server.msgManager.map fun old => old.cleanup shm).getD shm
    match m.initializeManager false shm with
    | none => ({ server with msgManager := some m }, shm, false)
    | some (m, shm) =>
      match m.registerNode server.info now shm with
      | none => ({ server with msgManager := some m }, shm, false)
      | some shm =>
        let sent := (shm coordinatorShm).map fun h =>
          (h.enqueueMessage (Fin.ofNat distMaxNodes server.info.nodeId.toNat) 0
            (registerMsg m.nextMsgId server.info)).getD h
        ({ server with msgManager := some { m with nextMsgId := m.nextMsgId + 1 } },
          update shm coordinatorShm sent, true)

end DistributedMemoryServer

inductive Attach where
  | initializing
  | joinCluster (coordinatorShm : String)
deriving DecidableEq

def Attach.name (server : DistributedMemoryServer) : Attach → String
  | .initializing => server.shmName
  | .joinCluster coordinatorShm => coordinatorShm

def Attach.run [Inhabited μ] (registerMsg : UInt32 → DistNodeInfo → μ) (server : DistributedMemoryServer)
    (now : UInt64) (shm : Shm μ) : Attach → DistributedMemoryServer × Shm μ × Bool
  | .initializing => server.initializeServer now shm
  | .joinCluster coordinatorShm => server.joinCluster registerMsg coordinatorShm now shm

/-- What the others see of a header stays when node `k` attaches, which adds `own` to the count. -/
structure Preserved (k : Node) (own : UInt32) (before after : DistShmHeader μ) : Prop where
  registrations : ∀ i ≠ k, after.nodes i = before.nodes i
  numNodes : after.numNodes = before.numNodes + own
  coordinator : after.coordinatorNode = before.coordinatorNode
  queued : ∀ a b, before.queued a b <+: after.queued a b

def DistributedMemoryServer.Dispatches (server : DistributedMemoryServer) : Prop :=
  ∃ m, server.msgManager = some m ∧
    ∀ t ∈ [DistMsgType.readReq, .writeReq, .atomicFaaReq, .atomicCasReq], (m.handlers t).isSome

/-- A header in which nothing is left but, at most, the status of node `k`. -/
structure Emptied (k : Node) (own : UInt32) (h : DistShmHeader μ) : Prop where
  registrations : ∀ i ≠ k, h.nodes i = {}
  numNodes : h.numNodes = own
  coordinator : h.coordinatorNode = nodeId k
  queued : ∀ a b, h.queued a b = []

/-- Nobody else is registered and nothing is queued, and node `k` is the coordinator already. -/
abbrev Unused (k : Node) (h : DistShmHeader μ) : Prop := Emptied k 0 h

theorem Emptied.preserved_iff {k : Node} {own : UInt32} {before after : DistShmHeader μ}
    (emptied : Emptied k own after) : Preserved k own before after ↔ Unused k before := by
  constructor
  · intro preserved
    refine ⟨fun i other => ?_, ?_, ?_, fun a b => ?_⟩
    · rw [← preserved.registrations i other, emptied.registrations i other]
    · have count := preserved.numNodes
      rw [emptied.numNodes] at count
      exact (UInt32.add_left_inj own).mp (count.symm.trans (UInt32.zero_add own).symm)
    · rw [← preserved.coordinator, emptied.coordinator]
    · exact List.prefix_nil.mp (emptied.queued a b ▸ preserved.queued a b)
  · intro unused
    refine ⟨fun i other => ?_, ?_, ?_, fun a b => ?_⟩
    · rw [emptied.registrations i other, unused.registrations i other]
    · rw [emptied.numNodes, unused.numNodes, UInt32.zero_add]
    · rw [emptied.coordinator, unused.coordinator]
    · rw [unused.queued a b]
      exact List.nil_prefix

variable [Inhabited μ] {k : Node} {info : DistNodeInfo}

theorem emptied_blank (k : Node) : Emptied k 0 (.blank (nodeId k) : DistShmHeader μ) :=
  ⟨fun _ _ => rfl, rfl, rfl, queued_blank _⟩

theorem emptied_registerNode (own : info.nodeId = nodeId k) (now : UInt64) :
    ∃ after : DistShmHeader μ, (blank info.nodeId).registerNode info now = some after ∧
      Emptied k 1 after := by
  have at_k : info.nodeId.toNat = k.val := by rw [own, System.nodeId_toNat]
  have valid : info.nodeId.toNat < distMaxNodes := at_k ▸ k.isLt
  refine ⟨_, dif_pos valid, fun i other => ?_, rfl, own, queued_blank info.nodeId⟩
  exact update_of_ne (fun same => other (Fin.ext ((congrArg Fin.val same).trans at_k))) _ _

section
variable {before : DistShmHeader μ} {shm : Shm μ} {server : DistributedMemoryServer} {m : DistributedMessageManager}

theorem initializeManager_open (there : shm m.shmName = some before) :
    m.initializeManager false shm = some ({ m with isCoordinator := true },
      update shm m.shmName (some (.blank m.localNodeId))) := by
  rw [DistributedMessageManager.initializeManager, there]
  exact if_pos (.inr rfl)

theorem registerNode_blank {now : UInt64} {after : DistShmHeader μ}
    (registered : (blank info.nodeId).registerNode info now = some after) (name : String)
    (named : m.shmName = name) :
    m.registerNode info now (update shm name (some (.blank info.nodeId))) =
      some (update shm name (some after)) := by
  rw [DistributedMessageManager.registerNode, named, update_self, Option.bind_some, registered,
    Option.map_some, update_idem]

theorem initializeServer_open (own : server.info.nodeId = nodeId k)
    (mode : server.transportMode ≠ .tcp) (further : k ≠ 0) (there : shm server.shmName = some before) (now : UInt64) :
    ∃ after m, Emptied k 1 after ∧ m.handlers = setupMessageHandlers ∧ server.initializeServer now shm =
      ({ server with msgManager := some m }, update shm server.shmName (some after), true) := by
  obtain ⟨after, registered, emptied⟩ : ∃ after : DistShmHeader μ, _ := emptied_registerNode own now
  have later : ¬ server.info.nodeId = 0 := fun zero => further (System.nodeId_injective (own.symm.trans zero))
  refine ⟨after, ⟨server.shmName, server.info.nodeId, true, setupMessageHandlers, 1⟩, emptied, rfl, ?_⟩
  simp only [DistributedMemoryServer.initializeServer, if_neg mode, decide_eq_false later,
    initializeManager_open (m := { shmName := server.shmName, localNodeId := server.info.nodeId }) there,
    registerNode_blank registered server.shmName]

theorem handlers_initializeManager {m' : DistributedMessageManager} {shm shm' : Shm μ} {createNew : Bool}
    (opened : m.initializeManager createNew shm = some (m', shm')) : m'.handlers = m.handlers := by
  rw [DistributedMessageManager.initializeManager] at opened
  split at opened
  · obtain ⟨rfl, -⟩ := Prod.mk.inj (Option.some.inj opened)
    rfl
  · cases opened

theorem handlers_joinCluster (mode : server.transportMode ≠ .tcp)
    (registerMsg : UInt32 → DistNodeInfo → μ) (coordinatorShm : String) (now : UInt64) (shm : Shm μ) :
    ∃ m, (server.joinCluster registerMsg coordinatorShm now shm).1.msgManager = some m ∧
      m.handlers = fun _ => none := by
  simp only [DistributedMemoryServer.joinCluster, if_neg mode]
  split
  · exact ⟨_, rfl, rfl⟩
  · rename_i opened
    have none := handlers_initializeManager opened
    split
    · exact ⟨_, rfl, none⟩
    · exact ⟨_, rfl, none⟩

theorem not_dispatches_joinCluster (mode : server.transportMode ≠ .tcp)
    (registerMsg : UInt32 → DistNodeInfo → μ) (coordinatorShm : String) (now : UInt64) (shm : Shm μ) :
    ¬ (server.joinCluster registerMsg coordinatorShm now shm).1.Dispatches := by
  rintro ⟨m, here, registered⟩
  obtain ⟨m', here', none⟩ := handlers_joinCluster mode registerMsg coordinatorShm now shm
  obtain rfl := Option.some.inj (here.symm.trans here')
  have read := registered .readReq List.mem_cons_self
  rw [none] at read
  cases read

end

/-- An attaching manager leaves the header as it is just if the header is unused; a server that attaches
does so, and serves requests afterwards, just if moreover it does not come by `join_cluster`. -/
theorem attach_preserves_iff (registerMsg : UInt32 → DistNodeInfo → μ) (server : DistributedMemoryServer)
    (own : server.info.nodeId = nodeId k) (mode : server.transportMode ≠ .tcp) (path : Attach)
    (further : path = .initializing → k ≠ 0) (now : UInt64) (shm : Shm μ) (before : DistShmHeader μ)
    (there : shm (path.name server) = some before) :
    (∃ m shm' after, ({ shmName := path.name server, localNodeId := server.info.nodeId } :
        DistributedMessageManager).initializeManager false shm = some (m, shm') ∧
      shm' (path.name server) = some after ∧ (Preserved k 0 before after ↔ Unused k before)) ∧
    (((∃ after, (path.run registerMsg server now shm).2.1 (path.name server) = some after ∧
        Preserved k 1 before after) ∧
      (path.run registerMsg server now shm).1.Dispatches) ↔ path = .initializing ∧ Unused k before) := by
  refine ⟨⟨_, _, _, initializeManager_open there, update_self .., ?_⟩, ?_⟩
  · rw [own]
    exact (emptied_blank k).preserved_iff
  · cases path with
    | initializing =>
      obtain ⟨after, m, emptied, handlers, result⟩ := initializeServer_open own mode (further rfl) there now
      have reached : (Attach.run registerMsg server now shm .initializing).2.1
          (Attach.name server .initializing) = some after := by
        simp only [Attach.run, Attach.name, result, update_self]
      constructor
      · rintro ⟨⟨after', here, preserved⟩, -⟩
        obtain rfl := Option.some.inj (reached.symm.trans here)
        exact ⟨rfl, emptied.preserved_iff.mp preserved⟩
      · rintro ⟨-, unused⟩
        refine ⟨⟨after, reached, emptied.preserved_iff.mpr unused⟩, m, ?_, ?_⟩
        · simp only [Attach.run, result]
        · rw [handlers]
          decide
    | joinCluster coordinatorShm =>
      constructor
      · rintro ⟨-, dispatches⟩
        exact (not_dispatches_joinCluster mode registerMsg coordinatorShm now shm dispatches).elim
      · rintro ⟨other, -⟩
        cases other

def node2 : DistributedMemoryServer :=
  { info := ⟨2, "node2", 0x200000, 0x100000⟩, shmName := "cxl", transportMode := .shm }

theorem attach_preserves_iff_node2 :
    (∃ after, (Attach.run (fun id _ => id) node2 7 (fun _ => some (.blank 2)) .initializing).2.1 "cxl" = some after ∧
      Preserved 2 1 (.blank 2) after) ∧
    (Attach.run (fun id _ => id) node2 7 (fun _ => some (.blank 2)) .initializing).1.Dispatches :=
  (attach_preserves_iff (k := 2) (fun id _ => id) node2 rfl (by decide) .initializing (fun _ => by decide) 7
    (fun _ => some (.blank 2)) (.blank 2) rfl).2.mpr
    ⟨rfl, fun _ _ => rfl, rfl, rfl, queued_blank 2⟩

def running : DistShmHeader Nat :=
  (((blank 0).registerNode ⟨0, "node0", 0, 0x100000⟩ 1).bind fun h =>
    h.enqueueMessage 0 1 42).getD (.blank 0)

def started : DistributedMemoryServer × Shm Nat × Bool := node2.initializeServer 7 fun _ => some running

def joined : DistributedMemoryServer × Shm Nat × Bool := started.1.joinCluster (fun _ _ => 0) "other" 8 started.2.1

/-- Where node 2 attaches, node 0's registration and its message are gone; after `join_cluster` it has no handlers
either. -/
theorem cluster_reset_by_joiner :
    (running.nodes 0).state = .ready ∧ running.numNodes = 1 ∧ running.coordinatorNode = 0 ∧
    running.queued 0 1 = [42] ∧ started.2.2 = true ∧ joined.2.2 = true ∧
    (∃ after, started.2.1 "cxl" = some after ∧ (after.nodes 0).state = .unknown ∧ after.numNodes = 1 ∧
      after.coordinatorNode = 2 ∧ after.queued 0 1 = []) ∧
    (∃ after, joined.2.1 "other" = some after ∧ (after.nodes 0).state = .unknown ∧ after.numNodes = 1 ∧
      after.coordinatorNode = 2 ∧ after.queued 0 1 = []) ∧ ¬ joined.1.Dispatches := by
  refine ⟨by decide +kernel, by decide +kernel, by decide +kernel, by decide +kernel, by decide +kernel,
    by decide +kernel, ⟨_, rfl, by decide +kernel, by decide +kernel, by decide +kernel, by decide +kernel⟩,
    ⟨_, rfl, by decide +kernel, by decide +kernel, by decide +kernel, by decide +kernel⟩, ?_⟩
  exact not_dispatches_joinCluster (by decide +kernel) (fun _ _ => 0) "other" 8 started.2.1

end CxlMemSim.Dist
