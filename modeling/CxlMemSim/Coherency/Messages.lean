import CxlMemSim.Coherency.Engine
import Mathlib.Algebra.Ring.Nat

/-! How many coherency messages a write counts, against the copies that it ends. -/
namespace CxlMemSim.Coherency
open Function Moesi Run DirectoryEntry Finset

namespace DirectoryEntry

def copies (e : DirectoryEntry) : Finset UInt32 :=
  if e.state = .modified ∨ e.state = .owned then insert e.ownerNode e.sharerNodes else e.sharerNodes

structure Sound (e : DirectoryEntry) : Prop where
  not_exclusive : e.state ≠ .exclusive
  modified : e.state = .modified → e.sharerNodes = ∅
  owned : e.state = .owned → e.ownerNode ∉ e.sharerNodes

variable {e : DirectoryEntry}

theorem sound_of_clean (clean : e.state = .invalid ∨ e.state = .shared) : e.Sound := by
  rcases clean with invalid | shared
  · constructor <;> simp [invalid]
  · constructor <;> simp [shared]

theorem sound_of_modified (modified : e.state = .modified) (alone : e.sharerNodes = ∅) : e.Sound where
  not_exclusive := by simp [modified]
  modified _ := alone
  owned := by simp [modified]

theorem sound_of_owned (owned : e.state = .owned) (outside : e.ownerNode ∉ e.sharerNodes) : e.Sound where
  not_exclusive := by simp [owned]
  modified := by simp [owned]
  owned _ := outside

theorem Sound.fresh (cachelineAddr : UInt64) : Sound { cachelineAddr } := sound_of_clean (.inl rfl)

section
variable (sound : e.Sound)
include sound

theorem Sound.read (localNode : UInt32) (req : CoherencyRequest) : (e.read localNode req).1.Sound := by
  obtain ⟨addr, state, owner, head, sharers, version, time, dirty⟩ := e
  by_cases hit : owner = req.requestingNode ∧ (state = .exclusive ∨ state = .modified ∨ state = .owned)
  · simp only [read, if_pos hit]
    exact ⟨sound.not_exclusive, sound.modified, sound.owned⟩
  · by_cases sharer : req.requestingNode ∈ sharers
    · simp only [read, if_neg hit, if_pos sharer]
      exact ⟨sound.not_exclusive, sound.modified, sound.owned⟩
    · simp only [read, if_neg hit, if_neg sharer]
      cases state with
      | invalid | shared => exact sound_of_clean (.inr rfl)
      | exclusive => exact (sound.not_exclusive rfl).elim
      | modified =>
        have other : owner ≠ req.requestingNode := fun same => hit ⟨same, .inr (.inl rfl)⟩
        have none_shares : sharers = ∅ := sound.modified rfl
        simp only [if_neg other]
        refine sound_of_owned rfl ?_
        simp [none_shares, other]
      | owned =>
        have other : owner ≠ req.requestingNode := fun same => hit ⟨same, .inr (.inr rfl)⟩
        have outside : owner ∉ sharers := sound.owned rfl
        refine sound_of_owned rfl ?_
        simp [other, outside]

theorem Sound.write (localNode : UInt32) (req : CoherencyRequest) : (e.write localNode req).1.Sound := by
  obtain ⟨addr, state, owner, head, sharers, version, time, dirty⟩ := e
  by_cases hit : owner = req.requestingNode ∧ (state = .exclusive ∨ state = .modified)
  · simp only [write, if_pos hit]
    refine sound_of_modified rfl ?_
    rcases hit.2 with exclusive | modified
    · exact (sound.not_exclusive exclusive).elim
    · exact sound.modified modified
  · by_cases owns : owner = req.requestingNode ∧ state = .owned
    · simp only [write, if_neg hit, if_pos owns]
      exact sound_of_modified rfl rfl
    · simp only [write, if_neg hit, if_neg owns]
      exact sound_of_modified rfl rfl

theorem Sound.remoteInvalidate (localNode : UInt32) : (e.remoteInvalidate localNode).1.Sound := by
  unfold DirectoryEntry.remoteInvalidate
  dsimp only
  split
  · exact sound_of_clean (.inl rfl)
  · refine ⟨sound.not_exclusive, fun modified => ?_, fun owned inside => ?_⟩
    · rw [sound.modified modified, erase_empty]
    · exact sound.owned owned (mem_of_mem_erase inside)

theorem Sound.remoteDowngrade (localNode : UInt32) : (e.remoteDowngrade localNode).1.Sound := by
  obtain ⟨addr, state, owner, head, sharers, version, time, dirty⟩ := e
  by_cases own : owner = localNode
  · simp only [remoteDowngrade, if_pos own]
    cases state with
    | exclusive => exact (sound.not_exclusive rfl).elim
    | modified =>
      have none_shares : sharers = ∅ := sound.modified rfl
      refine sound_of_owned rfl ?_
      simp [none_shares]
    | invalid | shared | owned => exact sound
  · simp only [remoteDowngrade, if_neg own]
    exact sound

theorem Sound.remoteWriteback (fromNode : UInt32) : (e.remoteWriteback fromNode).1.Sound := by
  unfold DirectoryEntry.remoteWriteback
  dsimp only
  split
  · exact sound_of_clean (.inl rfl)
  · exact sound

end

/-- The entry, when `node` writes, is not owned elsewhere, and not an invalid one with others' copies left in it. -/
def Counted (e : DirectoryEntry) (node : UInt32) : Prop :=
  ¬ (e.state = .owned ∧ e.ownerNode ≠ node) ∧ (e.state = .invalid → e.sharerNodes.erase node = ∅)

theorem Sound.messages_write (sound : e.Sound) (localNode : UInt32) (req : CoherencyRequest) :
    ∃ counted missed, (e.write localNode req).2.2.coherencyMessages = UInt64.ofNat counted ∧
      (e.copies.erase req.requestingNode).card = counted + missed ∧
      (missed = 0 ↔ e.Counted req.requestingNode) := by
  obtain ⟨addr, state, owner, head, sharers, version, time, dirty⟩ := e
  cases state with
  | invalid =>
    refine ⟨0, (sharers.erase req.requestingNode).card, ?_, ?_, ?_⟩
    · simp [DirectoryEntry.write, acquire]
    · simp [copies]
    · simp [Counted]
  | shared =>
    refine ⟨(sharers.erase req.requestingNode).card, 0, ?_, ?_, ?_⟩
    · simp [DirectoryEntry.write, acquire, invalidateSharers]
    · simp [copies]
    · simp [Counted]
  | exclusive => exact (sound.not_exclusive rfl).elim
  | modified =>
    obtain rfl : sharers = ∅ := sound.modified rfl
    by_cases own : owner = req.requestingNode
    · refine ⟨0, 0, ?_, ?_, ?_⟩
      · simp [DirectoryEntry.write, own]
      · simp [copies, own]
      · simp [Counted]
    · refine ⟨1, 0, ?_, ?_, ?_⟩
      · simp [DirectoryEntry.write, acquire, own]
      · simp [copies, Ne.symm own]
      · simp [Counted]
  | owned =>
    have outside : owner ∉ sharers := sound.owned rfl
    by_cases own : owner = req.requestingNode
    · refine ⟨(sharers.erase req.requestingNode).card, 0, ?_, ?_, ?_⟩
      · simp [DirectoryEntry.write, invalidateSharers, own]
      · simp [copies, own]
      · simp [Counted, own]
    · have apart : owner ∉ sharers.erase req.requestingNode := fun inside =>
        outside (mem_of_mem_erase inside)
      refine ⟨(sharers.erase req.requestingNode).card, 1, ?_, ?_, ?_⟩
      · simp [DirectoryEntry.write, acquire, invalidateSharers, own]
      · simp [copies, erase_insert_of_ne own, card_insert_of_notMem apart]
      · simp [Counted, own]

end DirectoryEntry

def Sound (engine : CoherencyEngine) : Prop := ∀ a e, engine.directory a = some e → e.Sound

namespace CoherencyEngine
variable {engine : CoherencyEngine}

theorem sound_getOrCreateEntry (sound : Sound engine) (addr : UInt64) : (engine.getOrCreateEntry addr).Sound := by
  unfold getOrCreateEntry
  cases found : engine.directory (clAddr addr) with
  | none => exact .fresh _
  | some e => exact sound _ _ found

theorem sound_of_update {after : CoherencyEngine} (sound : Sound engine) {b : UInt64} {e : DirectoryEntry}
    (updated : after.directory = update engine.directory b (some e)) (kept : e.Sound) : Sound after := by
  intro a e' found
  rw [updated] at found
  by_cases same : a = b
  · rw [same, update_self] at found
    exact Option.some.inj found ▸ kept
  · rw [update_of_ne same] at found
    exact sound a e' found

theorem sound_onEntry (sound : Sound engine) {addr : UInt64} {handle : DirectoryEntry → DirectoryEntry × Tally}
    (keeps : ∀ e, e.Sound → (handle e).1.Sound) : Sound (engine.onEntry addr handle) := by
  unfold onEntry
  split
  · exact sound
  · rename_i e found
    exact sound_of_update sound rfl (keeps e (sound _ _ found))

theorem sound_step (sound : Sound engine) (c : Call) : Sound (engine.step c) := by
  cases c with
  | access kind req =>
    have entry := sound_getOrCreateEntry sound req.addr
    cases kind with
    | read => exact sound_of_update sound (directory_processRead req) (entry.read _ req)
    | write | atomic => exact sound_of_update sound (directory_processWrite req) (entry.write _ req)
  | handleRemoteInvalidate addr fromNode => exact sound_onEntry sound fun _ kept => kept.remoteInvalidate _
  | handleRemoteDowngrade addr fromNode => exact sound_onEntry sound fun _ kept => kept.remoteDowngrade _
  | handleRemoteWriteback addr fromNode => exact sound_onEntry sound fun _ kept => kept.remoteWriteback _

theorem sound_run (localNode : UInt32) (calls : List Call) : Sound (run { localNodeId := localNode } calls) :=
  Run.invariant (I := Sound) (fun _ c sound => sound_step sound c)
    (fun _ _ absent => (Option.some_ne_none _ absent.symm).elim) calls

end CoherencyEngine

theorem card_le_nodes (s : Finset UInt32) : s.card ≤ 2 ^ 32 := by
  have fewer := card_le_card_of_injOn (t := Finset.range (2 ^ 32)) UInt32.toNat
    (fun n _ => mem_coe.mpr (mem_range.mpr n.toNat_lt)) (s := s)
    (fun _ _ _ _ => UInt32.toNat_inj.mp)
  rwa [card_range] at fewer

theorem write_messages_iff (localNode : UInt32) (calls : List Call) (req : CoherencyRequest) :
    let engine := CoherencyEngine.run { localNodeId := localNode } calls
    let e := engine.getOrCreateEntry req.addr
    (engine.processWrite req).1.totalCoherencyMessages =
        engine.totalCoherencyMessages + UInt64.ofNat (e.copies.erase req.requestingNode).card ↔
      e.Counted req.requestingNode := by
  intro engine e
  have sound : e.Sound := CoherencyEngine.sound_getOrCreateEntry (CoherencyEngine.sound_run localNode calls) req.addr
  obtain ⟨counted, missed, messages, split, counts⟩ := sound.messages_write engine.localNodeId req
  have few := card_le_nodes (e.copies.erase req.requestingNode)
  have total : (engine.processWrite req).1.totalCoherencyMessages =
      engine.totalCoherencyMessages + (e.write engine.localNodeId req).2.2.coherencyMessages := rfl
  rw [total, messages, UInt64.add_right_inj]
  refine Iff.trans ?_ counts
  have fits : counted + missed < UInt64.size := by
    rw [← split]
    exact few.trans_lt (by decide)
  rw [← UInt64.toNat_inj, split, UInt64.toNat_ofNat_of_lt' fits, UInt64.toNat_ofNat_of_lt' (by omega)]
  omega

/-- Node 1 owns the line and node 2 shares it.  When node 3 writes, one message is counted for two copies. -/
theorem owner_not_counted :
    let engine := CoherencyEngine.run { localNodeId := 0 }
      [.access .write { addr := 0, requestingNode := 1 }, .access .read { addr := 0, requestingNode := 2 }]
    (engine.getOrCreateEntry 0).copies.erase 3 = {1, 2} ∧
      (engine.processWrite { addr := 0, requestingNode := 3 }).1.totalCoherencyMessages =
        engine.totalCoherencyMessages + 1 := by
  intro engine
  exact ⟨by decide +kernel, by decide +kernel⟩

end CxlMemSim.Coherency
