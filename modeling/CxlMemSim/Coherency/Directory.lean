import CxlMemSim.Coherency.Engine

/-! Which shapes an entry of the directory can have when only accesses happen, and when other nodes' messages take
copies away. -/
namespace CxlMemSim.Coherency
open Function Moesi Run CoherencyEngine

namespace CoherencyEngine

theorem stampAt_of_update {engine after : CoherencyEngine} {b : UInt64} {e : DirectoryEntry}
    (updated : after.directory = update engine.directory b (some e)) (a : UInt64) :
    after.stampAt a = if b = a then e.stamp else engine.stampAt a := by
  unfold stampAt
  rw [updated]
  by_cases same : b = a
  · subst same
    simp
  · simp [same, update_of_ne (Ne.symm same)]

theorem stamp_getOrCreateEntry (engine : CoherencyEngine) (addr : UInt64) :
    (engine.getOrCreateEntry addr).stamp = engine.stampAt (clAddr addr) := by
  unfold getOrCreateEntry stampAt
  cases engine.directory (clAddr addr) <;> rfl

theorem stampAt_access (engine : CoherencyEngine) (kind : Access) (req : CoherencyRequest) (a : UInt64) :
    (engine.access kind req).1.stampAt a =
      if clAddr req.addr = a ∧ kind ≠ .read then ((engine.stampAt a).1 + 1, true) else engine.stampAt a := by
  have written : (engine.processWrite req).1.stampAt a =
      if clAddr req.addr = a then ((engine.stampAt a).1 + 1, true) else engine.stampAt a := by
    rw [stampAt_of_update (directory_processWrite req), DirectoryEntry.stamp_write]
    split
    · rename_i same
      subst same
      rw [← stamp_getOrCreateEntry]
      rfl
    · rfl
  cases kind with
  | read =>
    have kept : (engine.processRead req).1.stampAt a = engine.stampAt a := by
      rw [stampAt_of_update (directory_processRead req), DirectoryEntry.stamp_read, stamp_getOrCreateEntry]
      split
      · rename_i same
        rw [same]
      · rfl
    simpa [access] using kept
  | write | atomic => simpa [access, processAtomic] using written

end CoherencyEngine

def Call.IsAccess : Call → Prop
  | .access _ req => req.requestingNode ≠ noNode
  | _ => False

instance (c : Call) : Decidable c.IsAccess := by
  cases c <;> unfold Call.IsAccess <;> infer_instance

structure Tracked (engine : CoherencyEngine) (a : UInt64) : Prop where
  coherent : Coherent noNode (engine.lineAt a)
  flagged : Flagged (engine.lineAt a) (engine.stampAt a).2
  nodes : noNode ∉ (engine.lineAt a).holders

theorem tracked_initial (localNode : UInt32) (a : UInt64) : Tracked { localNodeId := localNode } a :=
  ⟨.empty noNode, ⟨fun _ => rfl, nofun, nofun⟩, Finset.notMem_empty _⟩

theorem access_cases (engine : CoherencyEngine) (kind : Access) (req : CoherencyRequest) (a : UInt64) :
    let event := Call.event engine a (.access kind req)
    let after := (engine.access kind req).1
    (event = .keep ∧ after.stampAt a = engine.stampAt a) ∨
      (event = .read req.requestingNode ∧ after.stampAt a = engine.stampAt a) ∨
      (event = .write req.requestingNode ∧ (after.stampAt a).2 = true) := by
  simp only [Call.event, stampAt_access]
  by_cases same : clAddr req.addr = a
  · by_cases reads : kind = .read
    · simp [same, reads]
    · simp [same, reads]
  · simp [same]

variable {engine : CoherencyEngine} {req : CoherencyRequest} {calls : List Call}

theorem tracked_step {a : UInt64} (h : Tracked engine a) {c : Call} (access : c.IsAccess) :
    Tracked (engine.step c) a := by
  cases c with
  | access kind req =>
    have lines := engine.lineAt_step h.coherent (.access kind req)
    rcases access_cases engine kind req a with ⟨event, stamp⟩ | ⟨event, stamp⟩ | ⟨event, stamp⟩
    · rw [event] at lines
      exact ⟨lines ▸ h.coherent, by rw [lines]; exact stamp ▸ h.flagged, lines ▸ h.nodes⟩
    · rw [event] at lines
      refine ⟨lines ▸ h.coherent.read _, ?_, ?_⟩
      · rw [lines]
        exact stamp ▸ h.flagged.read h.coherent _
      · rw [lines, Line.apply, holders_read h.coherent, Finset.mem_insert, not_or]
        exact ⟨Ne.symm access, h.nodes⟩
    · rw [event] at lines
      refine ⟨lines ▸ .write _, ?_, ?_⟩
      · rw [lines]
        exact stamp ▸ .write _
      · rw [lines]
        simpa [Line.apply, Line.holders] using Ne.symm access
  | handleRemoteInvalidate | handleRemoteDowngrade | handleRemoteWriteback => exact access.elim

theorem tracked_run (localNode : UInt32) (accesses : ∀ c ∈ calls, c.IsAccess) (a : UInt64) :
    Tracked (run { localNodeId := localNode } calls) a :=
  invariant_of_everyStep (I := fun engine => Tracked engine a) (fun _ _ h access => tracked_step h access)
    (tracked_initial localNode a) (everyStep_of_forall fun c member _ => accesses c member)

theorem Tracked.of_entry {a : UInt64} {e : DirectoryEntry} (h : Tracked engine a)
    (found : engine.directory a = some e) :
    Coherent noNode e.line ∧ Flagged e.line e.hasDirtyData ∧ (e.state ≠ .invalid → e.ownerNode ≠ noNode) := by
  have line : engine.lineAt a = e.line := engine.lineAt_of_directory found
  have stamp : (engine.stampAt a).2 = e.hasDirtyData := by
    simp only [stampAt, found, Option.map_some, Option.getD_some, DirectoryEntry.stamp]
  refine ⟨line ▸ h.coherent, line ▸ stamp ▸ h.flagged, fun valid nobody => h.nodes ?_⟩
  rw [line, holders_of_valid valid, ← nobody]
  exact Finset.mem_insert_self _ _

theorem directory_access (engine : CoherencyEngine) (kind : Access) (req : CoherencyRequest) :
    ∃ e, (engine.access kind req).1.directory (clAddr req.addr) = some e := by
  cases kind with
  | read | write | atomic => exact ⟨_, update_self _ _ _⟩

/-- Every entry has one of four shapes, and an access leaves its node with a copy, a write or an
atomic operation with the only one. -/
theorem directory_entry_shapes (localNode : UInt32) (calls : List Call) (accesses : ∀ c ∈ calls, c.IsAccess) :
    let engine := run { localNodeId := localNode } calls
    (∀ a e, engine.directory a = some e → e.state ≠ .exclusive ∧
      (e.state = .invalid → e.ownerNode = noNode ∧ e.sharerNodes = ∅) ∧
      (e.state = .shared → e.ownerNode ≠ noNode ∧ e.sharerNodes.Nonempty ∧ e.ownerNode ∈ e.sharerNodes ∧
        e.hasDirtyData = false) ∧
      (e.state = .modified → e.ownerNode ≠ noNode ∧ e.sharerNodes = ∅ ∧ e.hasDirtyData = true) ∧
      (e.state = .owned → e.ownerNode ≠ noNode ∧ e.ownerNode ∉ e.sharerNodes ∧ e.sharerNodes.Nonempty ∧
        e.hasDirtyData = true)) ∧
    ∀ kind req, req.requestingNode ≠ noNode →
      ∃ e, (engine.access kind req).1.directory (clAddr req.addr) = some e ∧
        (kind = .read → e.ownerNode = req.requestingNode ∨ req.requestingNode ∈ e.sharerNodes) ∧
        (kind ≠ .read → e.ownerNode = req.requestingNode ∧ e.sharerNodes = ∅) := by
  intro engine
  have tracked := tracked_run localNode accesses
  constructor
  · intro a e found
    obtain ⟨coherent, flagged, owner⟩ := (tracked a).of_entry found
    refine ⟨coherent.not_exclusive, coherent.invalid, fun shared => ?_, fun modified => ?_, fun owned => ?_⟩
    · have inside : e.ownerNode ∈ e.sharerNodes := coherent.shared shared
      exact ⟨owner (by simp [shared]), ⟨_, inside⟩, inside, flagged.clean (.inr shared)⟩
    · exact ⟨owner (by simp [modified]), coherent.modified modified, flagged.modified modified⟩
    · obtain ⟨dirty, sharers⟩ := flagged.owned owned
      exact ⟨owner (by simp [owned]), coherent.owned owned, sharers, dirty⟩
  · intro kind req _
    obtain ⟨e, found⟩ := directory_access engine kind req
    have coherent := (tracked (clAddr req.addr)).coherent
    have line := engine.lineAt_step coherent (.access kind req)
    rw [step, lineAt_of_directory found, Call.event, if_pos rfl] at line
    refine ⟨e, found, fun reads => ?_, fun writes => ?_⟩
    · rw [if_pos reads, Line.apply] at line
      have held : req.requestingNode ∈ e.line.holders := by
        rw [line, holders_read coherent]
        exact Finset.mem_insert_self _ _
      exact owner_or_sharer held
    · rw [if_neg writes, Line.apply] at line
      exact ⟨congrArg Line.owner line, congrArg Line.sharers line⟩

def readsAndAWrite : List Call :=
  [.access .read { addr := 0x40, requestingNode := 1 }, .access .read { addr := 0x7F, requestingNode := 2 },
   .access .write { addr := 0x44, requestingNode := 3 }, .access .read { addr := 0x40, requestingNode := 1 }]

theorem directory_entry_shapes_readsAndAWrite : let e : DirectoryEntry :=
      { cachelineAddr := 0x40, state := .owned, ownerNode := 3, ownerHead := 0, sharerNodes := {1}, version := 1,
        hasDirtyData := true }
    (run { localNodeId := 0 } readsAndAWrite).directory 0x40 = some e ∧
      e.ownerNode ≠ noNode ∧ e.ownerNode ∉ e.sharerNodes ∧ e.sharerNodes.Nonempty ∧ e.hasDirtyData = true := by
  intro e
  have found : (run { localNodeId := 0 } readsAndAWrite).directory 0x40 = some e := by
    decide +kernel
  have shapes := (directory_entry_shapes 0 readsAndAWrite (by decide)).1 0x40 e found
  exact ⟨found, shapes.2.2.2.2 rfl⟩

def LastCopy (engine : CoherencyEngine) : Call → Prop
  | .handleRemoteInvalidate addr _ => ∀ e ∈ engine.directory (clAddr addr),
      e.ownerNode = engine.localNodeId → e.sharerNodes ⊆ {engine.localNodeId}
  | .handleRemoteWriteback addr fromNode => ∀ e ∈ engine.directory (clAddr addr),
      e.ownerNode = fromNode → e.sharerNodes ⊆ {fromNode}
  | _ => True

instance (engine : CoherencyEngine) (c : Call) : Decidable (LastCopy engine c) := by
  cases c <;> unfold LastCopy <;> infer_instance

theorem lastToLeave_leave_iff (engine : CoherencyEngine) (a : UInt64) (n : UInt32) :
    LastToLeave (engine.lineAt a) (.leave n) ↔ ∀ e ∈ engine.directory a, e.ownerNode = n → e.sharerNodes ⊆ {n} := by
  cases found : engine.directory a with
  | none => simp [LastToLeave, engine.lineAt_of_absent found]
  | some e => simp [LastToLeave, engine.lineAt_of_directory found, DirectoryEntry.line]

theorem lastCopy_iff (engine : CoherencyEngine) (c : Call) :
    LastCopy engine c ↔ ∀ a, LastToLeave (engine.lineAt a) (c.event engine a) := by
  cases c with
  | access kind req =>
    refine ⟨fun _ a => ?_, fun _ => trivial⟩
    rcases access_cases engine kind req a with ⟨event, -⟩ | ⟨event, -⟩ | ⟨event, -⟩ <;> rw [event] <;> trivial
  | handleRemoteInvalidate addr fromNode =>
    refine (lastToLeave_leave_iff engine (clAddr addr) engine.localNodeId).symm.trans ⟨fun h a => ?_, fun h => ?_⟩
    · by_cases same : clAddr addr = a
      · rw [Call.event, if_pos same]
        exact same ▸ h
      · rw [Call.event, if_neg same]
        trivial
    · simpa only [Call.event, if_pos] using h (clAddr addr)
  | handleRemoteDowngrade addr fromNode =>
    refine ⟨fun _ a => ?_, fun _ => trivial⟩
    rw [Call.event]
    split <;> trivial
  | handleRemoteWriteback addr fromNode =>
    refine (lastToLeave_leave_iff engine (clAddr addr) fromNode).symm.trans ⟨fun h a => ?_, fun h own => ?_⟩
    · by_cases leaves : clAddr addr = a ∧ (engine.lineAt a).owner = fromNode
      · rw [Call.event, if_pos leaves]
        exact leaves.1 ▸ h
      · rw [Call.event, if_neg leaves]
        trivial
    · have at_line := h (clAddr addr)
      rw [Call.event, if_pos ⟨rfl, own⟩] at at_line
      exact at_line own

def InvalidEmpty (engine : CoherencyEngine) : Prop :=
  ∀ a e, engine.directory a = some e → e.state = .invalid → e.ownerNode = noNode ∧ e.sharerNodes = ∅

theorem invalidEmpty_iff (engine : CoherencyEngine) : InvalidEmpty engine ↔
    ∀ a, (engine.lineAt a).state = .invalid → (engine.lineAt a).owner = noNode ∧ (engine.lineAt a).sharers = ∅ := by
  constructor
  · intro h a
    cases found : engine.directory a with
    | none => simp [engine.lineAt_of_absent found]
    | some e =>
      rw [engine.lineAt_of_directory found]
      exact h a e found
  · intro h a e found
    have line := h a
    rw [engine.lineAt_of_directory found] at line
    exact line

theorem coherent_run (localNode : UInt32)
    (last : EveryStep step LastCopy { localNodeId := localNode } calls) (a : UInt64) :
    Coherent noNode ((run { localNodeId := localNode } calls).lineAt a) := by
  refine invariant_of_everyStep (I := fun engine => Coherent noNode (engine.lineAt a)) ?_ (.empty noNode) last
  intro engine c coherent last
  rw [engine.lineAt_step coherent]
  exact coherent.apply ((lastCopy_iff engine c).mp last a)

theorem DirectoryEntry.tally_write {e : DirectoryEntry} (coherent : Coherent noNode e.line) (localNode : UInt32)
    (req : CoherencyRequest) :
    (e.write localNode req).2.2.invalidations = UInt64.ofNat (e.sharerNodes.erase req.requestingNode).card ∧
    (e.write localNode req).2.2.writebacks = if DirtyElsewhere e.line req.requestingNode then 1 else 0 := by
  have none_shares := coherent.modified
  have invalid := coherent.invalid
  have never := coherent.not_exclusive
  obtain ⟨addr, state, owner, head, sharers, version, time, dirty⟩ := e
  cases state with
  | invalid =>
    obtain ⟨-, rfl⟩ : _ ∧ sharers = ∅ := invalid rfl
    simp [write, acquire, DirtyElsewhere, line]
  | shared => simp [write, acquire, invalidateSharers, DirtyElsewhere, line]
  | exclusive => exact (never rfl).elim
  | modified =>
    obtain rfl : sharers = ∅ := none_shares rfl
    by_cases own : owner = req.requestingNode
    · simp [write, DirtyElsewhere, line, own]
    · simp [write, acquire, DirtyElsewhere, line, own]
  | owned =>
    by_cases own : owner = req.requestingNode
    · simp [write, invalidateSharers, DirtyElsewhere, line, own]
    · simp [write, acquire, invalidateSharers, DirtyElsewhere, line, own]

theorem totals_processWrite (coherent : Coherent noNode (engine.lineAt (clAddr req.addr))) :
    (engine.processWrite req).1.totalInvalidations = engine.totalInvalidations +
      UInt64.ofNat ((engine.lineAt (clAddr req.addr)).sharers.erase req.requestingNode).card ∧
    (engine.processWrite req).1.totalWritebacks = engine.totalWritebacks +
      if DirtyElsewhere (engine.lineAt (clAddr req.addr)) req.requestingNode then 1 else 0 := by
  rw [← engine.line_getOrCreateEntry] at coherent ⊢
  obtain ⟨invalidations, writebacks⟩ := DirectoryEntry.tally_write coherent engine.localNodeId req
  exact ⟨congrArg (engine.totalInvalidations + ·) invalidations, congrArg (engine.totalWritebacks + ·) writebacks⟩

theorem ofNat_card_others {l : Line UInt32} (coherent : Coherent noNode l) (n : UInt32) :
    UInt64.ofNat (l.holders.erase n).card =
      UInt64.ofNat (l.sharers.erase n).card + if DirtyElsewhere l n then 1 else 0 := by
  rw [card_others coherent, UInt64.ofNat_add]
  split <;> rfl

theorem write_counts_others (coherent : Coherent noNode (engine.lineAt (clAddr req.addr))) :
    let l := engine.lineAt (clAddr req.addr)
    let others := UInt64.ofNat (l.holders.erase req.requestingNode).card
    let after := (engine.processWrite req).1
    (after.totalInvalidations = engine.totalInvalidations + others ↔ ¬ DirtyElsewhere l req.requestingNode) ∧
    after.totalInvalidations + after.totalWritebacks =
      engine.totalInvalidations + engine.totalWritebacks + others := by
  obtain ⟨invalidations, writebacks⟩ := totals_processWrite coherent
  simp only [invalidations, writebacks, ofNat_card_others coherent]
  constructor
  · by_cases dirty : DirtyElsewhere (engine.lineAt (clAddr req.addr)) req.requestingNode
    · simp [dirty]
    · simp [dirty]
  · grind

/-- Invalid entries stay empty exactly as long as no message takes the owner's copy before the
others are gone.  Then a write counts one invalidation for each other copy, unless one of them is a
dirty one, which counts as a writeback. -/
theorem invalid_entry_empty (localNode : UInt32) (calls : List Call)
    (last : EveryStep CoherencyEngine.step LastCopy { localNodeId := localNode } calls) :
    let engine := run { localNodeId := localNode } calls
    InvalidEmpty engine ∧
    (∀ c, InvalidEmpty (engine.step c) ↔ LastCopy engine c) ∧
    ∀ req,
      let l := engine.lineAt (clAddr req.addr)
      let others := UInt64.ofNat (l.holders.erase req.requestingNode).card
      let after := (engine.processWrite req).1
      (after.totalInvalidations = engine.totalInvalidations + others ↔ ¬ DirtyElsewhere l req.requestingNode) ∧
      after.totalInvalidations + after.totalWritebacks =
        engine.totalInvalidations + engine.totalWritebacks + others := by
  intro engine
  have coherent := coherent_run localNode last
  refine ⟨(invalidEmpty_iff engine).mpr fun a => (coherent a).invalid, fun c => ?_, fun req => ?_⟩
  · rw [invalidEmpty_iff, lastCopy_iff]
    refine forall_congr' fun a => ?_
    rw [engine.lineAt_step (coherent a)]
    exact invalid_clean_iff_last (coherent a) _
  · exact write_counts_others (coherent (clAddr req.addr))

def evictedThenShared : List Call :=
  [.access .write { addr := 0, requestingNode := 0 }, .handleRemoteDowngrade 0 1, .handleRemoteInvalidate 0 1,
   .access .read { addr := 0, requestingNode := 1 }, .access .read { addr := 32, requestingNode := 2 },
   .handleRemoteWriteback 0 2, .handleRemoteInvalidate 0 2]

theorem invalid_entry_empty_evictedThenShared :
    let engine := run { localNodeId := 0 } evictedThenShared
    InvalidEmpty engine ∧
      (engine.processWrite { addr := 8, requestingNode := 3 }).1.totalInvalidations =
        engine.totalInvalidations + 2 := by
  intro engine
  obtain ⟨empty, -, counts⟩ := invalid_entry_empty 0 evictedThenShared (by decide +kernel)
  have counted := (counts { addr := 8, requestingNode := 3 }).1.mpr (by decide +kernel)
  have two : ((engine.lineAt 0).holders.erase 3).card = 2 := by decide +kernel
  refine ⟨empty, counted.trans ?_⟩
  rw [show clAddr 8 = 0 from by decide, show (((run { localNodeId := 0 } evictedThenShared).lineAt
    0).holders.erase 3).card = 2 from two]
  rfl

/-- Node 1 still has the copy it got from node 0 when node 0's is invalidated.  The write of node 2
does not count it. -/
theorem sharer_left_behind :
    let engine := run { localNodeId := 0 }
      [.access .write { addr := 0, requestingNode := 0 }, .access .read { addr := 0, requestingNode := 1 },
       .handleRemoteInvalidate 0 3]
    ¬ InvalidEmpty engine ∧ 1 ∈ (engine.lineAt 0).sharers ∧
      (engine.processWrite { addr := 0, requestingNode := 2 }).1.totalInvalidations = engine.totalInvalidations := by
  intro engine
  have left : (engine.lineAt 0).state = .invalid ∧ 1 ∈ (engine.lineAt 0).sharers := by decide +kernel
  refine ⟨fun empty => ?_, left.2, by decide +kernel⟩
  have none_shares := ((invalidEmpty_iff engine).mp empty 0 left.1).2
  rw [none_shares] at left
  exact Finset.notMem_empty 1 left.2

end CxlMemSim.Coherency
