import CxlMemSim.Coherency.Directory
import CxlMemSim.Mhsld.Device

/-! With all heads active, `MHSLDDevice` and `CoherencyEngine` treat a line alike: both follow the line protocol of the
library. -/
namespace CxlMemSim.Mhsld
open Coherency Function Moesi Run CoherencyEngine

def MHSLDDevice.access (d : MHSLDDevice) (kind : Access) (req : CoherencyRequest) : MHSLDDevice :=
  match kind with
  | .read => d.readWithCoherency req.requestingNode req.addr req.timestamp
  | .write => d.writeWithCoherency req.requestingNode req.addr req.timestamp
  | .atomic => d.atomicWithCoherency req.requestingNode req.addr req.timestamp

abbrev Record := Line UInt32 × UInt32 × Bool

def deviceRecord (d : MHSLDDevice) (a : UInt64) : Option Record := (d.directory a).map fun e => (e.line, e.stamp)

def engineRecord (engine : CoherencyEngine) (a : UInt64) : Option Record :=
  (engine.directory a).map fun e => (e.line, e.stamp)

def Record.initial : Record := ({ owner := noNode }, 0, false)

def Record.access (kind : Access) (node : UInt32) (before : Record) : Record :=
  if kind = .read then (before.1.read node, before.2)
  else (before.1.apply noNode (.write node), before.2.1 + 1, true)

theorem engineRecord_getD (engine : CoherencyEngine) (addr : UInt64) :
    (engineRecord engine (clAddr addr)).getD .initial =
      ((engine.getOrCreateEntry addr).line, (engine.getOrCreateEntry addr).stamp) := by
  unfold engineRecord getOrCreateEntry
  cases engine.directory (clAddr addr) <;> rfl

theorem deviceRecord_getD (d : MHSLDDevice) (addr : UInt64) :
    (deviceRecord d (clAddr addr)).getD .initial =
      ((d.getOrCreateEntry addr).line, (d.getOrCreateEntry addr).stamp) := by
  unfold deviceRecord MHSLDDevice.getOrCreateEntry
  cases d.directory (clAddr addr) <;> rfl

theorem map_update {α β : Type} (f : α → β) (directory : UInt64 → Option α) (b : UInt64) (e : α) :
    (fun a => (update directory b (some e) a).map f) =
      update (fun a => (directory a).map f) b (some (f e)) := by
  funext a
  rw [update_apply, update_apply]
  split <;> rfl

variable {req : CoherencyRequest} {engine : CoherencyEngine} {d : MHSLDDevice}

theorem engineRecord_access (kind : Access) (coherent : Coherent noNode (engine.getOrCreateEntry req.addr).line) :
    engineRecord (engine.access kind req).1 = update (engineRecord engine) (clAddr req.addr)
      (some (.access kind req.requestingNode ((engineRecord engine (clAddr req.addr)).getD .initial))) := by
  rw [engineRecord_getD]
  unfold engineRecord access
  cases kind with
  | read =>
    simp only [directory_processRead]
    rw [map_update, DirectoryEntry.line_read coherent, DirectoryEntry.stamp_read]
    rfl
  | write | atomic =>
    simp only [processAtomic, directory_processWrite]
    rw [map_update, DirectoryEntry.line_write coherent, DirectoryEntry.stamp_write]
    rfl

theorem deviceRecord_access (kind : Access)
    (accepts : d.Accepts req.requestingNode) (coherent : Coherent noNode (d.getOrCreateEntry req.addr).line) :
    deviceRecord (d.access kind req) = update (deviceRecord d) (clAddr req.addr)
      (some (.access kind req.requestingNode ((deviceRecord d (clAddr req.addr)).getD .initial))) := by
  rw [deviceRecord_getD]
  unfold deviceRecord MHSLDDevice.access
  cases kind with
  | read =>
    simp only [MHSLDDevice.directory_readWithCoherency accepts]
    rw [map_update, MHSLDCachelineInfo.line_read, MHSLDCachelineInfo.stamp_read]
    rfl
  | write | atomic =>
    simp only [MHSLDDevice.atomicWithCoherency, MHSLDDevice.directory_writeWithCoherency accepts]
    rw [map_update, MHSLDCachelineInfo.line_write coherent, MHSLDCachelineInfo.stamp_write]
    rfl

theorem isActive_access (d : MHSLDDevice) (kind : Access) (req : CoherencyRequest) :
    (d.access kind req).isActive = d.isActive := by
  cases kind with
  | read => exact d.isActive_readWithCoherency _ _ _
  | write | atomic => exact d.isActive_writeWithCoherency _ _ _

structure Agree (engine : CoherencyEngine) (d : MHSLDDevice) : Prop where
  coherent : ∀ a, Coherent noNode (engine.lineAt a)
  active : ∀ h < maxHeads, d.isActive h
  same : engineRecord engine = deviceRecord d

theorem agree_access (h : Agree engine d) (kind : Access) (head : req.requestingNode < maxHeads) :
    Agree (engine.access kind req).1 (d.access kind req) := by
  have at_line : Coherent noNode (engine.getOrCreateEntry req.addr).line := by
    rw [engine.line_getOrCreateEntry]
    exact h.coherent (clAddr req.addr)
  have same_entry : ((engine.getOrCreateEntry req.addr).line, (engine.getOrCreateEntry req.addr).stamp) =
      ((d.getOrCreateEntry req.addr).line, (d.getOrCreateEntry req.addr).stamp) := by
    rw [← engineRecord_getD, ← deviceRecord_getD, h.same]
  have same_line : (engine.getOrCreateEntry req.addr).line = (d.getOrCreateEntry req.addr).line :=
    congrArg Prod.fst same_entry
  refine ⟨fun a => ?_, fun i valid => ?_, ?_⟩
  · have event := engine.lineAt_step (h.coherent a) (.access kind req)
    rw [CoherencyEngine.step] at event
    rw [event]
    exact (h.coherent a).apply ((lastCopy_iff engine (.access kind req)).mp trivial a)
  · rw [isActive_access]
    exact h.active i valid
  · rw [engineRecord_access kind at_line,
      deviceRecord_access kind ⟨head, h.active _ head⟩ (same_line ▸ at_line), h.same]

/-- After every access the two directories have entries for the same lines, with the same state,
owner, sharers, version and dirty flag. -/
theorem directories_agree (engine : CoherencyEngine) (d : MHSLDDevice)
    (fresh_engine : ∀ a, engine.directory a = none) (fresh_device : ∀ a, d.directory a = none)
    (active : ∀ h < maxHeads, (d.heads h).active) (ops : List (Access × CoherencyRequest))
    (heads : ∀ op ∈ ops, op.2.requestingNode < maxHeads) (a : UInt64) :
    ((ops.foldl (fun engine op => (engine.access op.1 op.2).1) engine).directory a).map
        (fun e => (e.state, e.ownerNode, e.sharerNodes, e.version, e.hasDirtyData)) =
      ((ops.foldl (fun d op => d.access op.1 op.2) d).directory a).map
        (fun e => (e.ownerState, e.ownerHead, e.sharers, e.version, e.hasDirtyData)) := by
  have start : Agree engine d := by
    refine ⟨fun a => ?_, active, ?_⟩
    · rw [engine.lineAt_of_absent (fresh_engine a)]
      exact .empty noNode
    · funext a
      rw [engineRecord, deviceRecord, fresh_engine, fresh_device]
      rfl
  have agree : Agree (ops.foldl (fun engine op => (engine.access op.1 op.2).1) engine)
      (ops.foldl (fun d op => d.access op.1 op.2) d) := by
    clear fresh_engine fresh_device active
    induction ops generalizing engine d with
    | nil => exact start
    | cons op ops ih =>
      exact ih _ _ (fun later member => heads later (List.mem_cons_of_mem op member))
        (agree_access start op.1 (heads op List.mem_cons_self))
  have same := congrArg (Option.map fun r : Record => (r.1.state, r.1.owner, r.1.sharers, r.2.1, r.2.2))
    (congrFun agree.same a)
  rw [engineRecord, deviceRecord, Option.map_map, Option.map_map] at same
  exact same

def allActive : MHSLDDevice :=
  { totalCapacity := 0x100000, heads := fun h => { active := decide (h < maxHeads), allocatedCapacity := 0x10000 } }

def threeHeads : List (Access × CoherencyRequest) :=
  [(.read, { addr := 0x40, requestingNode := 1 }), (.read, { addr := 0x7F, requestingNode := 15 }),
   (.atomic, { addr := 0x44, requestingNode := 3 }), (.read, { addr := 0x40, requestingNode := 1 })]

theorem directories_agree_threeHeads :
    ((threeHeads.foldl (fun d op => d.access op.1 op.2) allActive).directory 0x40).map
        (fun e => (e.ownerState, e.ownerHead, e.sharers, e.version, e.hasDirtyData)) =
      some (.owned, 3, {1}, 1, true) := by
  have agree := directories_agree { localNodeId := 0 } allActive (fun _ => rfl) (fun _ => rfl)
    (fun _ valid => decide_eq_true valid) threeHeads (by decide) 0x40
  exact agree.symm.trans (by decide +kernel)

end CxlMemSim.Mhsld
