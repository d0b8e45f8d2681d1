import CxlMemSim.Mhsld.Device

/-! `back_invalidations` of a head goes up with each write that takes the head's copy away, as long as no owner gives up
a line that others still share. -/
namespace CxlMemSim.Mhsld
open Coherency Function Moesi Run Finset

def OwnerLeavesLast (d : MHSLDDevice) (c : Call) : Prop :=
  ∀ a, clAddr a = a → LastToLeave (d.lineAt a) (c.event d a)

structure Recorded (d : MHSLDDevice) (a : UInt64) : Prop where
  coherent : Coherent noNode (d.lineAt a)
  holders : ∀ h ∈ (d.lineAt a).holders, d.Accepts h

theorem recorded_fresh (capacity a : UInt64) : Recorded { totalCapacity := capacity } a :=
  ⟨.empty noNode, fun _ held => (notMem_empty _ held).elim⟩

theorem mem_of_mem_leave {p : Prop} [Decidable p] {n h : UInt32} {held : Finset UInt32}
    (still : h ∈ (if p then Event.leave n else .keep).copies held) : h ∈ held := by
  split at still
  · exact mem_of_mem_erase still
  · exact still

variable {c : Call} {a addr : UInt64} {s : Option MHSLDDevice} {d after : MHSLDDevice} {headId r : UInt32}

theorem accepts_of_copies (returns : d.exec c = some after)
    (holders : ∀ h ∈ (d.lineAt a).holders, d.Accepts h) {h : UInt32}
    (held : h ∈ (c.event d a).copies (d.lineAt a).holders) : after.Accepts h := by
  have active : after.isActive h = c.activity d.isActive h := congrFun (d.isActive_exec returns) h
  have kept : d.Accepts h → c.activity d.isActive h = d.isActive h → after.Accepts h := by
    intro accepts same
    refine ⟨accepts.1, ?_⟩
    exact (active.trans same).trans accepts.2
  cases c with
  | activateHead headId capacityAlloc =>
    have accepts := holders h held
    refine ⟨accepts.1, active.trans ?_⟩
    simp only [Call.activity]
    split
    · rw [update_apply]
      split
      · rfl
      · exact accepts.2
    · exact accepts.2
  | deactivateHead headId =>
    simp only [Call.event] at held
    by_cases valid : headId < maxHeads
    · rw [if_pos valid] at held
      obtain ⟨other, before⟩ := mem_erase.mp held
      refine kept (holders h before) ?_
      simp only [Call.activity, if_pos valid, update_of_ne other]
    · rw [if_neg valid] at held
      refine kept (holders h held) ?_
      simp only [Call.activity, if_neg valid]
  | allocatePool headId size => exact kept (holders h held) rfl
  | releasePool | writeback => exact kept (holders h (mem_of_mem_leave held)) rfl
  | readWithCoherency headId addr timestamp =>
    simp only [Call.event] at held
    split at held
    · rename_i reads
      rcases mem_insert.mp held with rfl | before
      · exact kept reads.1 rfl
      · exact kept (holders h before) rfl
    · exact kept (holders h held) rfl
  | writeWithCoherency headId addr timestamp | atomicWithCoherency headId addr timestamp =>
    simp only [Call.event] at held
    split at held
    · rename_i writes
      obtain rfl := mem_singleton.mp held
      exact kept writes.1 rfl
    · exact kept (holders h held) rfl

theorem recorded_exec (returns : d.exec c = some after)
    (line : clAddr a = a) (h : Recorded d a) (last : OwnerLeavesLast d c) : Recorded after a := by
  have at_line := d.lineAt_exec line h.coherent returns
  refine ⟨at_line ▸ h.coherent.apply (last a line), fun i held => ?_⟩
  rw [at_line, holders_apply h.coherent (last a line)] at held
  exact accepts_of_copies returns h.holders held

namespace MHSLDCachelineInfo

variable {active : UInt32 → Bool} {e : MHSLDCachelineInfo}

theorem backInvalidations_invalidateSharers (holders : ∀ h ∈ e.sharers, active h) (other : r ≠ headId) :
    (e.invalidateSharers active headId).2.backInvalidations r = if r ∈ e.sharers then 1 else 0 := by
  have invalidated : r ∈ e.sharers.filter (fun sharer => sharer ≠ headId ∧ active sharer) ↔ r ∈ e.sharers := by
    rw [mem_filter]
    exact ⟨And.left, fun shares => ⟨shares, other, holders r shares⟩⟩
  simp only [invalidateSharers, invalidated]

theorem backInvalidations_write (coherent : Coherent noNode e.line)
    (holders : ∀ h ∈ e.line.holders, active h) (other : r ≠ headId)
    (timestamp : UInt64) :
    (e.write active headId timestamp).2.backInvalidations r = if r ∈ e.line.holders then 1 else 0 := by
  let stamped : MHSLDCachelineInfo :=
    { e with accessCount := e.accessCount + 1, lastAccessTime := timestamp, version := e.version + 1 }
  have sharers : (stamped.invalidateSharers active headId).2.backInvalidations r = if r ∈ e.sharers then 1 else 0 := by
    refine backInvalidations_invalidateSharers (fun h shares => holders h ?_) other
    unfold Line.holders
    split
    · exact shares
    · exact mem_insert_of_mem shares
  cases state : e.ownerState with
  | invalid =>
    rw [holders_of_invalid coherent state]
    simp [write, acquire, state]
  | shared =>
    have copies : e.line.holders = e.sharers := by
      rw [holders_of_valid (by simp [line, state])]
      exact insert_eq_of_mem (coherent.shared state)
    rw [copies, ← sharers]
    simp [write, acquire, state, stamped]
  | exclusive => exact (coherent.not_exclusive state).elim
  | modified =>
    have copies : e.line.holders = insert e.ownerHead e.sharers := holders_of_valid (by simp [line, state])
    have none_share : e.sharers = ∅ := coherent.modified state
    rw [copies, none_share]
    by_cases own : e.ownerHead = headId
    · simp [write, state, own, other]
    · simp [write, acquire, state, own, invalidateSharers, none_share]
  | owned =>
    have copies : e.line.holders = insert e.ownerHead e.sharers := holders_of_valid (by simp [line, state])
    have outside : e.ownerHead ∉ e.sharers := coherent.owned state
    rw [copies]
    by_cases own : e.ownerHead = headId
    · simp [write, state, own, mem_insert, other, ← sharers, stamped]
    · have taken : (e.write active headId timestamp).2.backInvalidations r =
          (stamped.invalidateSharers active headId).2.backInvalidations r + if r = e.ownerHead then 1 else 0 := by
        simp [write, acquire, state, own, stamped]
      rw [taken, sharers]
      by_cases owner : r = e.ownerHead
      · simp [owner, outside]
      · simp [owner]

end MHSLDCachelineInfo

theorem backInvalidations_writeWithCoherency (h : Recorded d (clAddr addr))
    (accepts : d.Accepts headId) (other : r ≠ headId) (held : r ∈ (d.lineAt (clAddr addr)).holders)
    (timestamp : UInt64) :
    ((d.writeWithCoherency headId addr timestamp).heads r).backInvalidations = (d.heads r).backInvalidations + 1 := by
  have line := d.line_getOrCreateEntry addr
  have active : ∀ i ∈ (d.getOrCreateEntry addr).line.holders, d.isActive i := by
    intro i member
    rw [line] at member
    exact (h.holders i member).2
  have counted := MHSLDCachelineInfo.backInvalidations_write (line ▸ h.coherent) active other timestamp
  rw [line, if_pos held] at counted
  simp only [MHSLDDevice.writeWithCoherency, if_pos accepts, MHSLDDevice.store, MHSLDDevice.setHead,
    update_of_ne other, counted]

theorem recorded_step (line : clAddr a = a)
    (h : ∀ d ∈ s, Recorded d a) (last : Before OwnerLeavesLast s c) : ∀ d ∈ step s c, Recorded d a := by
  intro after member
  obtain ⟨d, here, returns⟩ := Option.bind_eq_some_iff.mp member
  exact recorded_exec returns line (h d here) (last d here)

theorem held_step (line : clAddr a = a)
    (h : ∀ d ∈ s, Recorded d a ∧ r ∈ (d.lineAt a).holders) (last : Before OwnerLeavesLast s c)
    (spared : Before (fun d c => (c.event d a).Spares r) s c) :
    ∀ d ∈ step s c, Recorded d a ∧ r ∈ (d.lineAt a).holders := by
  intro after member
  refine ⟨recorded_step line (fun d here => (h d here).1) last after member, ?_⟩
  obtain ⟨d, here, returns⟩ := Option.bind_eq_some_iff.mp member
  obtain ⟨recorded, held⟩ := h d here
  rw [d.lineAt_exec line recorded.coherent returns]
  exact (spared d here).holds recorded.coherent (last d here a line) held

/-- Once a head has read a line, and as long as nothing ends that copy, a write of another head
counts at the reader. -/
theorem write_back_invalidates (capacity : UInt64) (before after : List Call) (r : UInt32) (addr timestamp : UInt64)
    (last : EveryStep step (Before OwnerLeavesLast) (some { totalCapacity := capacity })
      (before ++ .readWithCoherency r addr timestamp :: after))
    (d₀ : MHSLDDevice) (reading : run { totalCapacity := capacity } before = some d₀) (reads : d₀.Accepts r)
    (spared : EveryStep step (Before fun d c => (c.event d (clAddr addr)).Spares r)
      (some (d₀.readWithCoherency r addr timestamp)) after)
    (d : MHSLDDevice) (writing : after.foldl step (some (d₀.readWithCoherency r addr timestamp)) = some d)
    (h : UInt32) (other : r ≠ h) (writes : d.Accepts h) (addr' timestamp' : UInt64)
    (same_line : clAddr addr' = clAddr addr) :
    ((d.writeWithCoherency h addr' timestamp').heads r).backInvalidations = (d.heads r).backInvalidations + 1 ∧
    ((d.atomicWithCoherency h addr' timestamp').heads r).backInvalidations = (d.heads r).backInvalidations + 1 := by
  have line : clAddr (clAddr addr) = clAddr addr := clAddr_clAddr addr
  have recorded₀ : Recorded d₀ (clAddr addr) := by
    have all := invariant_of_everyStep (I := fun s => ∀ d ∈ s, Recorded d (clAddr addr))
      (fun s c => recorded_step line) (by
        intro d here
        cases here
        exact recorded_fresh capacity _) last.of_append
    exact all d₀ reading
  have rest := last.of_append_right
  rw [show before.foldl step (some { totalCapacity := capacity }) = some d₀ from reading] at rest
  have held₁ : ∀ d₁ ∈ step (some d₀) (.readWithCoherency r addr timestamp),
      Recorded d₁ (clAddr addr) ∧ r ∈ (d₁.lineAt (clAddr addr)).holders := by
    intro d₁ here
    refine ⟨recorded_step line (fun d here => ?_) rest.1 d₁ here, ?_⟩
    · cases here
      exact recorded₀
    · cases here
      rw [d₀.lineAt_readWithCoherency, if_pos ⟨reads, rfl⟩, Line.apply, holders_read recorded₀.coherent]
      exact mem_insert_self _ _
  have held : Recorded d (clAddr addr) ∧ r ∈ (d.lineAt (clAddr addr)).holders :=
    invariant_of_everyStep (I := fun s => ∀ d ∈ s, Recorded d (clAddr addr) ∧ r ∈ (d.lineAt (clAddr addr)).holders)
      (fun s c kept both => held_step line kept both.1 both.2) held₁ (rest.2.and spared) d writing
  rw [← same_line] at held
  have counted := backInvalidations_writeWithCoherency held.1 writes other held.2 timestamp'
  exact ⟨counted, counted⟩

def Call.Stays : Call → Bool
  | .deactivateHead _ | .releasePool _ _ _ | .writeback _ _ => false
  | _ => true

theorem ownerLeavesLast_of_stays (d : MHSLDDevice) (stays : c.Stays) : OwnerLeavesLast d c := by
  intro a _
  cases c with
  | activateHead | allocatePool => trivial
  | readWithCoherency | writeWithCoherency | atomicWithCoherency =>
    simp only [Call.event]
    split <;> trivial
  | deactivateHead | releasePool | writeback => cases stays

theorem ownerLeavesLast_writeback
    (alone : (d.lineAt (clAddr addr)).sharers ⊆ {headId}) : OwnerLeavesLast d (.writeback addr headId) := by
  intro a _
  simp only [Call.event]
  split
  · rename_i leaves
    exact fun _ => leaves.1 ▸ alone
  · trivial

def writtenBack : List Call :=
  [.activateHead 0 0x100, .activateHead 1 0x100, .activateHead 2 0x100, .writeWithCoherency 2 0x40 0,
   .writeback 0x40 2]

def moreReads : List Call := [.readWithCoherency 0 0x44 3, .activateHead 1 0x200, .readWithCoherency 2 0x80 4]

theorem write_back_invalidates_writtenBack :
    ∃ d₀ d, run { totalCapacity := 0x1000 } writtenBack = some d₀ ∧
      moreReads.foldl step (some (d₀.readWithCoherency 1 0x40 2)) = some d ∧
      ((d.writeWithCoherency 2 0x48 5).heads 1).backInvalidations = (d.heads 1).backInvalidations + 1 := by
  have stay : ∀ {c : Call} (s : Option MHSLDDevice), c.Stays → Before OwnerLeavesLast s c := by
    intro c s stays d _
    exact ownerLeavesLast_of_stays d stays
  refine ⟨_, _, rfl, rfl, (write_back_invalidates 0x1000 writtenBack moreReads 1 0x40 2 ?_ _ rfl (by decide +kernel)
    ?_ _ rfl 2 (by decide) (by decide +kernel) 0x48 5 (by decide)).1⟩
  · refine ⟨stay _ rfl, stay _ rfl, stay _ rfl, stay _ rfl, ?_, stay _ rfl, stay _ rfl, stay _ rfl, stay _ rfl,
      trivial⟩
    intro d here
    cases here
    exact ownerLeavesLast_writeback (by decide +kernel)
  · refine ⟨?_, ?_, ?_, trivial⟩
    all_goals
      intro d here
      cases here
      decide +kernel

/-- Head 1 still has its copy when head 0, recorded as the owner, is deactivated.  The write of head
2 does not count it. -/
theorem reader_not_invalidated :
    ∃ d, run { totalCapacity := 0x1000 }
        [.activateHead 0 0x100, .activateHead 1 0x100, .activateHead 2 0x100, .readWithCoherency 0 0x40 1,
         .readWithCoherency 1 0x40 2, .deactivateHead 0] = some d ∧
      d.Accepts 1 ∧ d.Accepts 2 ∧ 1 ∈ (d.lineAt 0x40).sharers ∧
      ((d.writeWithCoherency 2 0x40 3).heads 1).backInvalidations = (d.heads 1).backInvalidations := by
  refine ⟨_, rfl, ?_⟩
  decide +kernel

end CxlMemSim.Mhsld
