import CxlMemSim.Lib.Moesi
import CxlMemSim.Lib.Run

/-! The directory of `CoherencyEngine`, its transitions and the counters, without the latencies, on which nothing
depends. -/
namespace CxlMemSim.Coherency
open Function Moesi Run Line

abbrev MHSLDCacheState := Moesi.State

def noNode : UInt32 := 0xFFFFFFFF

def clAddr (addr : UInt64) : UInt64 := addr &&& ~~~63

structure DirectoryEntry where
  cachelineAddr : UInt64
  state : MHSLDCacheState := .invalid
  ownerNode : UInt32 := noNode
  ownerHead : UInt32 := noNode
  sharerNodes : Finset UInt32 := ∅
  version : UInt32 := 0
  lastAccessTime : UInt64 := 0
  hasDirtyData : Bool := false
deriving DecidableEq

structure CoherencyRequest where
  addr : UInt64
  requestingNode : UInt32
  requestingHead : UInt32 := 0
  timestamp : UInt64 := 0

structure CoherencyResponse where
  newState : MHSLDCacheState
  dataSourceNode : UInt32
  success : Bool := true

structure Tally where
  coherencyMessages : UInt64 := 0
  invalidations : UInt64 := 0
  downgrades : UInt64 := 0
  writebacks : UInt64 := 0

namespace DirectoryEntry

def invalidateSharers (e : DirectoryEntry) (exceptNode : UInt32) : DirectoryEntry × Tally :=
  let count := UInt64.ofNat (e.sharerNodes.erase exceptNode).card
  ({ e with sharerNodes := ∅ }, { invalidations := count, coherencyMessages := count })

def downgradeOwner (e : DirectoryEntry) (requestingNode : UInt32) : DirectoryEntry × Tally :=
  if e.ownerNode = noNode ∨ e.ownerNode = requestingNode then (e, {})
  else
    let e := match e.state with
      | .modified => { e with state := .owned, hasDirtyData := true }
      | .exclusive =>
        { e with
          sharerNodes := insert e.ownerNode e.sharerNodes
          state := .shared
          ownerNode := noNode
          ownerHead := noNode }
      | _ => e
    (e, { downgrades := 1, coherencyMessages := 1 })

def fetchFromOwner (e : DirectoryEntry) : Tally :=
  if e.ownerNode = noNode then {} else { coherencyMessages := 1 }

def read (localNode : UInt32) (req : CoherencyRequest) (e : DirectoryEntry) :
    DirectoryEntry × CoherencyResponse × Tally :=
  let node := req.requestingNode
  let e := { e with lastAccessTime := req.timestamp }
  if e.ownerNode = node ∧ (e.state = .exclusive ∨ e.state = .modified ∨ e.state = .owned) then
    (e, ⟨e.state, localNode, true⟩, {})
  else if node ∈ e.sharerNodes then (e, ⟨.shared, localNode, true⟩, {})
  else match e.state with
    | .invalid =>
      ({ e with
          sharerNodes := insert node e.sharerNodes
          state := .shared
          ownerNode := node
          ownerHead := req.requestingHead }, ⟨.shared, localNode, true⟩, {})
    | .shared => ({ e with sharerNodes := insert node e.sharerNodes }, ⟨.shared, localNode, true⟩, {})
    | .exclusive =>
      let (e, source, tally) :=
        if e.ownerNode = node then (e, localNode, {})
        else
          let (e, tally) := e.downgradeOwner node
          (e, e.ownerNode, tally)
      ({ e with sharerNodes := insert node e.sharerNodes, state := .shared }, ⟨.shared, source, true⟩, tally)
    | .modified =>
      let (e, source, tally) :=
        if e.ownerNode = node then (e, localNode, {})
        else ({ e with state := .owned }, e.ownerNode, e.fetchFromOwner)
      ({ e with sharerNodes := insert node e.sharerNodes }, ⟨.shared, source, true⟩, tally)
    | .owned =>
      let (source, tally) : UInt32 × Tally :=
        if e.ownerNode = node then (localNode, {}) else (e.ownerNode, { coherencyMessages := 1 })
      ({ e with sharerNodes := insert node e.sharerNodes }, ⟨.shared, source, true⟩, tally)

def acquire (localNode node : UInt32) (e : DirectoryEntry) : UInt32 × Tally :=
  match e.state with
  | .invalid => (localNode, {})
  | .shared => (localNode, (e.invalidateSharers node).2)
  | .exclusive => (localNode, if e.ownerNode = node then {} else { invalidations := 1, coherencyMessages := 1 })
  | .modified =>
    if e.ownerNode = node then (localNode, {})
    else (e.ownerNode, { writebacks := 1, coherencyMessages := 1 })
  | .owned =>
    if e.ownerNode = node then (localNode, (e.invalidateSharers node).2)
    else (e.ownerNode, { (e.invalidateSharers node).2 with writebacks := 1 })

def write (localNode : UInt32) (req : CoherencyRequest) (e : DirectoryEntry) :
    DirectoryEntry × CoherencyResponse × Tally :=
  let node := req.requestingNode
  let e := { e with lastAccessTime := req.timestamp, version := e.version + 1 }
  if e.ownerNode = node ∧ (e.state = .exclusive ∨ e.state = .modified) then
    ({ e with state := .modified, hasDirtyData := true }, ⟨.modified, localNode, true⟩, {})
  else if e.ownerNode = node ∧ e.state = .owned then
    let (e, tally) := e.invalidateSharers node
    ({ e with state := .modified, hasDirtyData := true }, ⟨.modified, localNode, true⟩, tally)
  else
    let (source, tally) := e.acquire localNode node
    ({ e with
        ownerNode := node
        ownerHead := req.requestingHead
        state := .modified
        sharerNodes := ∅
        hasDirtyData := true }, ⟨.modified, source, true⟩, tally)

def remoteInvalidate (localNode : UInt32) (e : DirectoryEntry) : DirectoryEntry × Tally :=
  let e := { e with sharerNodes := e.sharerNodes.erase localNode }
  if e.ownerNode = localNode then
    ({ e with
        hasDirtyData := e.hasDirtyData || decide (e.state = .modified)
        ownerNode := noNode
        ownerHead := noNode
        state := .invalid },
      { invalidations := 1, writebacks := if e.state = .modified then 1 else 0 })
  else (e, { invalidations := 1 })

def remoteDowngrade (localNode : UInt32) (e : DirectoryEntry) : DirectoryEntry × Tally :=
  let e :=
    if e.ownerNode = localNode then
      match e.state with
      | .modified => { e with state := .owned }
      | .exclusive => { e with state := .shared, sharerNodes := insert localNode e.sharerNodes }
      | _ => e
    else e
  (e, { downgrades := 1 })

def remoteWriteback (fromNode : UInt32) (e : DirectoryEntry) : DirectoryEntry × Tally :=
  let e :=
    if e.ownerNode = fromNode then
      { e with
        hasDirtyData := false
        ownerNode := noNode
        ownerHead := noNode
        state := .invalid
        sharerNodes := e.sharerNodes.erase fromNode }
    else e
  (e, { writebacks := 1 })

def line (e : DirectoryEntry) : Line UInt32 := ⟨e.state, e.ownerNode, e.sharerNodes⟩

def stamp (e : DirectoryEntry) : UInt32 × Bool := (e.version, e.hasDirtyData)

end DirectoryEntry

structure CoherencyEngine where
  localNodeId : UInt32
  directory : UInt64 → Option DirectoryEntry := fun _ => none
  totalCoherencyMessages : UInt64 := 0
  totalInvalidations : UInt64 := 0
  totalDowngrades : UInt64 := 0
  totalWritebacks : UInt64 := 0
  totalRemoteOps : UInt64 := 0
  totalOps : UInt64 := 0

inductive Access where
  | read
  | write
  | atomic
deriving DecidableEq

namespace CoherencyEngine
variable (engine : CoherencyEngine)

def getOrCreateEntry (addr : UInt64) : DirectoryEntry :=
  (engine.directory (clAddr addr)).getD { cachelineAddr := clAddr addr }

def store (a : UInt64) (e : DirectoryEntry) (tally : Tally) : CoherencyEngine :=
  { engine with
    directory := update engine.directory a (some e)
    totalCoherencyMessages := engine.totalCoherencyMessages + tally.coherencyMessages
    totalInvalidations := engine.totalInvalidations + tally.invalidations
    totalDowngrades := engine.totalDowngrades + tally.downgrades
    totalWritebacks := engine.totalWritebacks + tally.writebacks }

def finish (req : CoherencyRequest) : CoherencyEngine :=
  { engine with
    totalRemoteOps := engine.totalRemoteOps + if req.requestingNode = engine.localNodeId then 0 else 1
    totalOps := engine.totalOps + 1 }

def processRead (req : CoherencyRequest) : CoherencyEngine × CoherencyResponse :=
  let (e, response, tally) := (engine.getOrCreateEntry req.addr).read engine.localNodeId req
  ((engine.store (clAddr req.addr) e tally).finish req, response)

def processWrite (req : CoherencyRequest) : CoherencyEngine × CoherencyResponse :=
  let (e, response, tally) := (engine.getOrCreateEntry req.addr).write engine.localNodeId req
  ((engine.store (clAddr req.addr) e tally).finish req, response)

/-- An atomic operation differs from a write in its latency only. -/
def processAtomic (req : CoherencyRequest) : CoherencyEngine × CoherencyResponse := engine.processWrite req

def onEntry (addr : UInt64) (handle : DirectoryEntry → DirectoryEntry × Tally) : CoherencyEngine :=
  match engine.directory (clAddr addr) with
  | none => engine
  | some e => engine.store (clAddr addr) (handle e).1 (handle e).2

def handleRemoteInvalidate (addr : UInt64) (_fromNode : UInt32) : CoherencyEngine :=
  engine.onEntry addr fun e => e.remoteInvalidate engine.localNodeId

def handleRemoteDowngrade (addr : UInt64) (_fromNode : UInt32) : CoherencyEngine :=
  engine.onEntry addr fun e => e.remoteDowngrade engine.localNodeId

def handleRemoteWriteback (addr : UInt64) (fromNode : UInt32) : CoherencyEngine :=
  engine.onEntry addr fun e => e.remoteWriteback fromNode

def access (kind : Access) (req : CoherencyRequest) : CoherencyEngine × CoherencyResponse :=
  match kind with
  | .read => engine.processRead req
  | .write => engine.processWrite req
  | .atomic => engine.processAtomic req

def lineAt (a : UInt64) : Line UInt32 := ((engine.directory a).map DirectoryEntry.line).getD { owner := noNode }

def stampAt (a : UInt64) : UInt32 × Bool := ((engine.directory a).map DirectoryEntry.stamp).getD (0, false)

end CoherencyEngine

inductive Call where
  | access (kind : Access) (req : CoherencyRequest)
  | handleRemoteInvalidate (addr : UInt64) (fromNode : UInt32)
  | handleRemoteDowngrade (addr : UInt64) (fromNode : UInt32)
  | handleRemoteWriteback (addr : UInt64) (fromNode : UInt32)

namespace CoherencyEngine

def step (engine : CoherencyEngine) : Call → CoherencyEngine
  | .access kind req => (engine.access kind req).1
  | .handleRemoteInvalidate addr fromNode => engine.handleRemoteInvalidate addr fromNode
  | .handleRemoteDowngrade addr fromNode => engine.handleRemoteDowngrade addr fromNode
  | .handleRemoteWriteback addr fromNode => engine.handleRemoteWriteback addr fromNode

def run (engine : CoherencyEngine) (calls : List Call) : CoherencyEngine := calls.foldl step engine

end CoherencyEngine

def Call.event (engine : CoherencyEngine) (a : UInt64) : Call → Event UInt32
  | .access kind req =>
    if clAddr req.addr = a then
      if kind = .read then .read req.requestingNode else .write req.requestingNode
    else .keep
  | .handleRemoteInvalidate addr _ => if clAddr addr = a then .leave engine.localNodeId else .keep
  | .handleRemoteDowngrade addr _ =>
    if clAddr addr = a ∧ (engine.lineAt a).owner = engine.localNodeId then .yield else .keep
  | .handleRemoteWriteback addr fromNode =>
    if clAddr addr = a ∧ (engine.lineAt a).owner = fromNode then .leave fromNode else .keep

namespace DirectoryEntry
variable {e : DirectoryEntry}

theorem line_read (coherent : Coherent noNode e.line) (localNode : UInt32) (req : CoherencyRequest) :
    (e.read localNode req).1.line = e.line.read req.requestingNode := by
  have never := coherent.not_exclusive
  obtain ⟨addr, state, owner, head, sharers, version, time, dirty⟩ := e
  simp only [line] at never ⊢
  by_cases hit : owner = req.requestingNode ∧ (state = .exclusive ∨ state = .modified ∨ state = .owned)
  · simp only [read, Line.read, if_pos hit]
  · by_cases sharer : req.requestingNode ∈ sharers
    · simp only [read, Line.read, if_neg hit, if_pos sharer]
    · simp only [read, Line.read, if_neg hit, if_neg sharer]
      cases state with
      | invalid | shared | owned => rfl
      | exclusive => exact (never rfl).elim
      | modified =>
        have other : owner ≠ req.requestingNode := fun same => hit ⟨same, .inr (.inl rfl)⟩
        simp only [if_neg other]

theorem line_write (coherent : Coherent noNode e.line) (localNode : UInt32) (req : CoherencyRequest) :
    (e.write localNode req).1.line = e.line.apply noNode (.write req.requestingNode) := by
  have none_shares := coherent.modified
  have never := coherent.not_exclusive
  obtain ⟨addr, state, owner, head, sharers, version, time, dirty⟩ := e
  by_cases hit : owner = req.requestingNode ∧ (state = .exclusive ∨ state = .modified)
  · simp only [write, apply, line, if_pos hit]
    obtain ⟨rfl, exclusive | modified⟩ := hit
    · exact (never exclusive).elim
    · obtain rfl : sharers = ∅ := none_shares modified
      rfl
  · by_cases owns : owner = req.requestingNode ∧ state = .owned
    · simp only [write, apply, line, if_neg hit, if_pos owns, invalidateSharers]
      rw [owns.1]
    · simp only [write, apply, line, if_neg hit, if_neg owns]

theorem stamp_read (localNode : UInt32) (req : CoherencyRequest) : (e.read localNode req).1.stamp = e.stamp := by
  simp only [read]
  split
  · rfl
  · split
    · rfl
    · obtain ⟨addr, state, owner, head, sharers, version, time, dirty⟩ := e
      cases state with
      | invalid | shared | owned => rfl
      | exclusive =>
        simp only [downgradeOwner]
        split
        · rfl
        · split <;> rfl
      | modified =>
        simp only
        split <;> rfl

theorem stamp_write (localNode : UInt32) (req : CoherencyRequest) :
    (e.write localNode req).1.stamp = (e.version + 1, true) := by
  simp only [write]
  split
  · rfl
  · split <;> rfl

theorem line_remoteInvalidate (localNode : UInt32) :
    (e.remoteInvalidate localNode).1.line = e.line.apply noNode (.leave localNode) := by
  simp only [line]
  by_cases own : e.ownerNode = localNode
  · simp only [remoteInvalidate, apply, leave, if_pos own]
  · simp only [remoteInvalidate, apply, leave, if_neg own]

theorem line_remoteDowngrade (coherent : Coherent noNode e.line) (localNode : UInt32) :
    (e.remoteDowngrade localNode).1.line =
      e.line.apply noNode (if e.ownerNode = localNode then .yield else .keep) := by
  have never := coherent.not_exclusive
  obtain ⟨addr, state, owner, head, sharers, version, time, dirty⟩ := e
  by_cases own : owner = localNode
  · simp only [remoteDowngrade, line, if_pos own]
    cases state with
    | exclusive => exact (never rfl).elim
    | invalid | shared | modified | owned => rfl
  · simp only [remoteDowngrade, line, if_neg own, apply]

theorem line_remoteWriteback (fromNode : UInt32) :
    (e.remoteWriteback fromNode).1.line =
      e.line.apply noNode (if e.ownerNode = fromNode then .leave fromNode else .keep) := by
  simp only [line]
  by_cases own : e.ownerNode = fromNode
  · simp only [remoteWriteback, apply, leave, if_pos own]
  · simp only [remoteWriteback, apply, if_neg own]

end DirectoryEntry

variable {a : UInt64} {e : DirectoryEntry}

namespace CoherencyEngine
variable {engine : CoherencyEngine} {handle : DirectoryEntry → DirectoryEntry × Tally} {req : CoherencyRequest}

theorem line_getOrCreateEntry (addr : UInt64) : (engine.getOrCreateEntry addr).line = engine.lineAt (clAddr addr) := by
  unfold getOrCreateEntry lineAt
  cases engine.directory (clAddr addr) <;> rfl

theorem directory_processRead (req : CoherencyRequest) :
    (engine.processRead req).1.directory = update engine.directory (clAddr req.addr)
      (some ((engine.getOrCreateEntry req.addr).read engine.localNodeId req).1) := rfl

theorem directory_processWrite (req : CoherencyRequest) :
    (engine.processWrite req).1.directory = update engine.directory (clAddr req.addr)
      (some ((engine.getOrCreateEntry req.addr).write engine.localNodeId req).1) := rfl

theorem lineAt_of_update {after : CoherencyEngine} {b : UInt64}
    (updated : after.directory = update engine.directory b (some e)) (a : UInt64) :
    after.lineAt a = if b = a then e.line else engine.lineAt a := by
  unfold lineAt
  rw [updated]
  by_cases same : b = a
  · subst same
    simp
  · simp [same, update_of_ne (Ne.symm same)]

theorem lineAt_of_directory (found : engine.directory a = some e) : engine.lineAt a = e.line := by
  simp only [lineAt, found, Option.map_some, Option.getD_some]

theorem lineAt_of_absent (absent : engine.directory a = none) : engine.lineAt a = { owner := noNode } := by
  simp only [lineAt, absent, Option.map_none, Option.getD_none]

theorem lineAt_onEntry_other {addr a : UInt64}
    (other : clAddr addr ≠ a) : (engine.onEntry addr handle).lineAt a = engine.lineAt a := by
  unfold onEntry
  split
  · rfl
  · rw [lineAt_of_update rfl, if_neg other]

theorem lineAt_onEntry_self {addr : UInt64} {event : Event UInt32}
    (absent : ({ owner := noNode } : Line UInt32).apply noNode event = { owner := noNode })
    (present : ∀ e, engine.directory (clAddr addr) = some e → (handle e).1.line = e.line.apply noNode event) :
    (engine.onEntry addr handle).lineAt (clAddr addr) = (engine.lineAt (clAddr addr)).apply noNode event := by
  unfold onEntry
  split
  · rename_i missing
    rw [lineAt_of_absent missing, absent]
  · rename_i e found
    rw [lineAt_of_update rfl, if_pos rfl, lineAt_of_directory found, present e found]

theorem leave_empty (n : UInt32) : ({ owner := noNode } : Line UInt32).leave noNode n = { owner := noNode } := by
  unfold leave
  split <;> rfl

theorem lineAt_processRead (coherent : Coherent noNode (engine.lineAt (clAddr req.addr))) :
    (engine.processRead req).1.lineAt (clAddr req.addr) =
      (engine.lineAt (clAddr req.addr)).apply noNode (.read req.requestingNode) := by
  rw [← line_getOrCreateEntry] at coherent
  rw [lineAt_of_update (directory_processRead req), if_pos rfl, DirectoryEntry.line_read coherent,
    line_getOrCreateEntry]
  rfl

theorem lineAt_processWrite (coherent : Coherent noNode (engine.lineAt (clAddr req.addr))) :
    (engine.processWrite req).1.lineAt (clAddr req.addr) =
      (engine.lineAt (clAddr req.addr)).apply noNode (.write req.requestingNode) := by
  rw [← line_getOrCreateEntry] at coherent
  rw [lineAt_of_update (directory_processWrite req), if_pos rfl, DirectoryEntry.line_write coherent,
    line_getOrCreateEntry]

theorem lineAt_access_other {kind : Access} (other : clAddr req.addr ≠ a) :
    (engine.access kind req).1.lineAt a = engine.lineAt a := by
  cases kind with
  | read => exact (lineAt_of_update (directory_processRead req) a).trans (if_neg other)
  | write | atomic => exact (lineAt_of_update (directory_processWrite req) a).trans (if_neg other)

theorem lineAt_step (coherent : Coherent noNode (engine.lineAt a)) (c : Call) :
    (engine.step c).lineAt a = (engine.lineAt a).apply noNode (c.event engine a) := by
  cases c with
  | access kind req =>
    by_cases same : clAddr req.addr = a
    · subst same
      rw [Call.event, if_pos rfl]
      cases kind with
      | read => exact lineAt_processRead coherent
      | write | atomic => exact lineAt_processWrite coherent
    · rw [Call.event, if_neg same]
      exact lineAt_access_other same
  | handleRemoteInvalidate addr fromNode =>
    by_cases same : clAddr addr = a
    · subst same
      rw [Call.event, if_pos rfl]
      exact lineAt_onEntry_self (leave_empty _) fun e _ => e.line_remoteInvalidate _
    · rw [Call.event, if_neg same]
      exact lineAt_onEntry_other same
  | handleRemoteDowngrade addr fromNode =>
    by_cases same : clAddr addr = a
    · subst same
      refine lineAt_onEntry_self ?_ fun e found => ?_
      · rw [Call.event]
        split <;> rfl
      · rw [lineAt_of_directory found] at coherent
        rw [DirectoryEntry.line_remoteDowngrade coherent, Call.event, lineAt_of_directory found]
        simp only [DirectoryEntry.line, true_and]
    · rw [Call.event, if_neg fun h => same h.1]
      exact lineAt_onEntry_other same
  | handleRemoteWriteback addr fromNode =>
    by_cases same : clAddr addr = a
    · subst same
      refine lineAt_onEntry_self ?_ fun e found => ?_
      · rw [Call.event]
        split
        · exact leave_empty _
        · rfl
      · rw [DirectoryEntry.line_remoteWriteback, Call.event, lineAt_of_directory found]
        simp only [DirectoryEntry.line, true_and]
    · rw [Call.event, if_neg fun h => same h.1]
      exact lineAt_onEntry_other same

end CoherencyEngine
end CxlMemSim.Coherency
