import CxlMemSim.Server.Coherency

/-! `handle_request` makes the coherency transition, and on a READ the replay, before it asks the manager for the bytes.
-/
namespace CxlMemSim
open ByteMemory Run

structure Untouched (s s' : ServerState) : Prop where
  data : ∀ p : UInt64, p.toNat < (numCachelines s.mem).toNat * 64 → s'.mem p = s.mem p
  holding : ∀ k, (s'.metadata k).holding = (s.metadata k).holding
  invalidations : s'.coherencyInvalidations = s.coherencyInvalidations
  downgrades : s'.coherencyDowngrades = s.coherencyDowngrades
  backInvalidations : s'.backInvalidations = s.backInvalidations

/-- The failures that happen to have nothing to change: a rejected address, a READ by a sharer
without a replay, and a WRITE by the owner. -/
def NothingToChange (s : ServerState) (c : Call) : Prop :=
  ¬ isValidAddress s.mem c.req.addr ∨
  (c.req.opType = .read ∧ (s.metadata c.line).state = .shared ∧ c.threadId ∈ (s.metadata c.line).sharers ∧
    (getCachelineData s.mem c.line = none ∨ NothingNewer s c.line)) ∨
  (c.req.opType = .write ∧ (s.metadata c.line).state = .modified ∧ (s.metadata c.line).owner = c.threadId)

theorem addrToCacheline_line (c : Call) : addrToCacheline c.line = c.line := by
  rw [Call.line, addrToCacheline_eq_iff, addrToCacheline_toNat]
  omega

variable {s : ServerState} {cachelineAddr : UInt64}

theorem applyBackInvalidations_refused
    (refused : ∀ n, ¬ Accessible s.mem cachelineAddr n) (entries : List BackInvalidationEntry)
    (msync : Nat → Bool) (had : Bool) : applyBackInvalidations cachelineAddr entries msync s had = (s, had) := by
  induction entries generalizing msync with
  | nil => rfl
  | cons entry rest ih =>
    simp only [applyBackInvalidations, writeCacheline_of_not_accessible _ (refused _)]
    split
    · exact ih _
    · exact ih _

theorem applyBackInvalidations_counts {msync : Nat → Bool}
    (synced : ∀ k, msync k = true) (accepted : ∀ n, n ≠ 0 → n ≤ 64 → Accessible s.mem cachelineAddr n)
    {entries : List BackInvalidationEntry}
    (sizes : ∀ e ∈ entries, e.dirtyData.length ≠ 0 ∧ e.dirtyData.length ≤ 64)
    (newer : ∃ e ∈ entries, (s.metadata cachelineAddr).lastAccessTime < e.timestamp) (had : Bool) :
    s.backInvalidations < (applyBackInvalidations cachelineAddr entries msync s had).1.backInvalidations := by
  induction entries with
  | nil => simp at newer
  | cons entry rest ih =>
    by_cases first : (s.metadata cachelineAddr).lastAccessTime < entry.timestamp
    · obtain ⟨nonempty, short⟩ := sizes entry List.mem_cons_self
      have written : writeCacheline s.mem cachelineAddr entry.dirtyData (msync 0) =
          ((writeCacheline s.mem cachelineAddr entry.dirtyData (msync 0)).1, true) :=
        Prod.ext rfl ((writeCacheline_of_accessible _ (accepted _ nonempty short)).trans (synced 0))
      obtain ⟨s', unfolded, -, -, counted⟩ := applyBackInvalidations_newer rest had first written
      have grows := (applyBackInvalidations_replayed cachelineAddr rest (fun k => msync (k + 1)) s' true).counted
      rw [unfolded]
      omega
    · rw [applyBackInvalidations, if_neg first]
      apply ih fun e member => sizes e (List.mem_cons_of_mem _ member)
      obtain ⟨e, member, later⟩ := newer
      rcases List.mem_cons.mp member with rfl | member
      · exact (first later).elim
      · exact ⟨e, member, later⟩

variable {c : Call} {info : CachelineMetadata} {threadId : Int}

theorem checked_of_quiet (quiet : getCachelineData s.mem c.line = none ∨ NothingNewer s c.line) :
    c.checked s =
      { s with backInvalidationQueue := Function.update s.backInvalidationQueue c.line [] } := by
  rcases quiet with unmapped | quiet
  · have refused : ∀ n, ¬ Accessible s.mem c.line n := by
      rintro n ⟨-, -, base | ⟨mapped, -⟩⟩
      · simp [getCachelineData, base] at unmapped
      · rw [addrToCacheline_line, unmapped] at mapped
        cases mapped
    simp only [Call.checked, checkAndApplyBackInvalidations, applyBackInvalidations_refused refused]
  · exact checkAndApply_of_nothingNewer _ quiet

theorem quiet_of_checked (sizes : QueuedSizes s) (synced : ∀ k, c.msync k = true)
    (same : (c.checked s).backInvalidations = s.backInvalidations) :
    getCachelineData s.mem c.line = none ∨ NothingNewer s c.line := by
  by_contra loud
  simp only [not_or, NothingNewer, not_forall, UInt64.not_le] at loud
  obtain ⟨mapped, e, member, newer⟩ := loud
  have aligned : c.line.toNat % 64 = 0 := by
    rw [Call.line, addrToCacheline_toNat]
    omega
  have accepted : ∀ n, n ≠ 0 → n ≤ 64 → Accessible s.mem c.line n := by
    intro n nonempty short
    refine ⟨nonempty, short, Or.inr ⟨?_, by omega⟩⟩
    rw [addrToCacheline_line]
    exact Option.isSome_iff_ne_none.mpr mapped
  have grows := applyBackInvalidations_counts synced accepted (sizes c.line) ⟨e, member, newer⟩ false
  have : (c.checked s).backInvalidations =
    (applyBackInvalidations c.line (s.backInvalidationQueue c.line) c.msync s false).1.backInvalidations := rfl
  omega

theorem handleReadCoherency_holding_iff : (handleReadCoherency threadId info).1.holding = info.holding ↔
      info.state = .shared ∧ threadId ∈ info.sharers := by
  cases h : info.state <;> simp [handleReadCoherency, CachelineMetadata.holding, h]

theorem handleWriteCoherency_holding_iff (coherent : Coherent info.holding) :
    (handleWriteCoherency threadId info).1.holding = info.holding ↔
      info.state = .modified ∧ info.owner = threadId := by
  rw [handleWriteCoherency_holding coherent]
  constructor
  · intro same
    simp only [CachelineMetadata.holding, Prod.mk.injEq] at same
    exact ⟨same.1.symm, same.2.1.symm⟩
  · rintro ⟨state, owner⟩
    have sharers := (coherent.modified state).2
    simp only [CachelineMetadata.holding] at sharers ⊢
    rw [state, owner, sharers]

theorem step_read_counters (op : c.req.opType = .read) (valid : isValidAddress s.mem c.req.addr = true) :
    (step s c).coherencyDowngrades =
        s.coherencyDowngrades + (handleReadCoherency c.threadId (s.metadata c.line)).2 ∧
      (step s c).backInvalidations = (c.checked s).backInvalidations := by
  obtain ⟨dirty, after⟩ := checkAndApply_metadata s (addrToCacheline c.req.addr) c.msync
  have kept : (checkAndApplyBackInvalidations s (addrToCacheline c.req.addr) c.msync).1.coherencyDowngrades =
      s.coherencyDowngrades := (applyBackInvalidations_replayed _ _ c.msync s false).downgrades
  simp only [step, handleRequest, op, if_pos valid, handleRead, ServerState.setMetadata, after,
    Function.update_self, handleReadCoherency_dirty, kept, Call.line, Call.checked]
  split <;> exact ⟨rfl, rfl⟩

theorem step_write_counters (op : c.req.opType = .write) :
    (step s c).coherencyDowngrades = s.coherencyDowngrades ∧
      (step s c).backInvalidations = s.backInvalidations := by
  simp only [step, handleRequest, op, handleWrite, register_iterate, ServerState.setMetadata]
  split
  · split <;> exact ⟨rfl, rfl⟩
  · exact ⟨rfl, rfl⟩

theorem holding_kept_iff (s : ServerState) (c : Call) :
    (∀ k, ((step s c).metadata k).holding = (s.metadata k).holding) ↔
      (c.ownAfter s).holding = (s.metadata c.line).holding := by
  constructor
  · intro kept
    rw [← step_holding_own]
    exact kept c.line
  · intro own k
    rw [step_holding]
    split
    · rename_i here
      rw [here, own]
    · rfl

theorem untouched_refl (s : ServerState) : Untouched s s := ⟨fun _ _ => rfl, fun _ => rfl, rfl, rfl, rfl⟩

theorem read_untouched_iff (sizes : QueuedSizes s) (synced : ∀ k, c.msync k = true) (op : c.req.opType = .read)
    (valid : isValidAddress s.mem c.req.addr = true) :
    Untouched s (step s c) ↔
      (s.metadata c.line).state = .shared ∧ c.threadId ∈ (s.metadata c.line).sharers ∧
        (getCachelineData s.mem c.line = none ∨ NothingNewer s c.line) := by
  have own : c.ownAfter s = (handleReadCoherency c.threadId (s.metadata c.line)).1 := by
    simp only [Call.ownAfter, op, if_pos valid]
  obtain ⟨downgrades, replays⟩ := step_read_counters op valid
  constructor
  · intro h
    have kept := (holding_kept_iff s c).mp h.holding
    rw [own, handleReadCoherency_holding_iff] at kept
    exact ⟨kept.1, kept.2, quiet_of_checked sizes synced (replays.symm.trans h.backInvalidations)⟩
  · rintro ⟨shared, sharer, quiet⟩
    have checked := checked_of_quiet quiet
    refine ⟨?_, ?_, ?_, ?_, ?_⟩
    · intro p _
      rw [step_read_mem op valid, checked]
    · rw [holding_kept_iff, own, handleReadCoherency_holding_iff]
      exact ⟨shared, sharer⟩
    · simp [step_invalidations, op]
    · simp [downgrades, handleReadCoherency, shared]
    · rw [replays, checked]

theorem write_untouched_iff (coherent : AllCoherent s) (synced : ∀ k, c.msync k = true) (op : c.req.opType = .write)
    (valid : isValidAddress s.mem c.req.addr = true) (failed : (respond s c).status ≠ 0) :
    Untouched s (step s c) ↔
      (s.metadata c.line).state = .modified ∧ (s.metadata c.line).owner = c.threadId := by
  have own : c.ownAfter s = (handleWriteCoherency c.threadId (s.metadata c.line)).1 := by
    simp only [Call.ownAfter, op, if_pos valid]
  have refused : ¬ Accessible s.mem c.req.addr c.payload.length := by
    intro accepted
    rw [respond_write op valid, writeCacheline_of_accessible _ accepted, synced 0] at failed
    exact failed rfl
  obtain ⟨downgrades, replays⟩ := step_write_counters (s := s) op
  constructor
  · intro h
    have kept := (holding_kept_iff s c).mp h.holding
    rwa [own, handleWriteCoherency_holding_iff (coherent c.line)] at kept
  · rintro ⟨modified, owner⟩
    refine ⟨?_, ?_, ?_, downgrades, replays⟩
    · intro p _
      rw [step_write_mem op valid, writeCacheline_of_not_accessible _ refused]
    · rw [holding_kept_iff, own, handleWriteCoherency_holding_iff (coherent c.line)]
      exact ⟨modified, owner⟩
    · rw [step_invalidations]
      simp [handleWriteCoherency, modified, owner]

theorem respond_atomic_status (s : ServerState)
    (kind : c.req.opType = .atomicFaa ∨ c.req.opType = .atomicCas) : (respond s c).status = 0 := by
  rcases kind with op | op <;> simp only [respond, handleRequest, handleAtomicRequest, op]
  split <;> rfl

theorem failure_untouched_iff {s : ServerState} (reachable : Reachable s) {c : Call} (synced : ∀ k, c.msync k = true)
    (kind : c.req.opType = .read ∨ c.req.opType = .write ∨ c.req.opType = .atomicFaa ∨ c.req.opType = .atomicCas)
    (failed : (respond s c).status ≠ 0) : Untouched s (step s c) ↔ NothingToChange s c := by
  by_cases valid : isValidAddress s.mem c.req.addr = true
  · rcases kind with read | write | atomic
    · rw [read_untouched_iff reachable.queuedSizes synced read valid]
      simp [NothingToChange, read, valid]
    · rw [write_untouched_iff reachable.allCoherent synced write valid failed]
      simp [NothingToChange, write, valid]
    · exact (failed (respond_atomic_status s atomic)).elim
  · refine iff_of_true ?_ (.inl valid)
    rcases kind with read | write | atomic
    · rw [step_of_invalid (.inl read) valid]
      exact untouched_refl s
    · rw [step_of_invalid (.inr write) valid]
      exact untouched_refl s
    · exact (failed (respond_atomic_status s atomic)).elim

def readAt (addr : UInt64) : Call :=
  { threadId := 0, req := { opType := .read, addr, size := 8, timestamp := 1 } }

theorem failure_untouched_rejected :
    Untouched (.initial (freshMapping 0x100000 0x1000)) (step (.initial (freshMapping 0x100000 0x1000)) (readAt 0)) :=
  (failure_untouched_iff (.start _) (fun _ => rfl) (.inl rfl) (by decide +kernel)).mpr (.inl (by decide +kernel))

/-- A READ across the end of its line is refused, and its thread is a sharer of the line all the same. -/
theorem failure_touched_crossing :
    let s : ServerState := .initial (freshMapping 0x100000 0x1000)
    Reachable s ∧ (respond s (readAt 0x103C)).status ≠ 0 ∧
      ((step s (readAt 0x103C)).metadata 0x1000).sharers = {0} ∧ ¬ Untouched s (step s (readAt 0x103C)) := by
  intro s
  have sharers : ((step s (readAt 0x103C)).metadata 0x1000).sharers = {0} := by decide +kernel
  refine ⟨.start _, by decide +kernel, sharers, ?_⟩
  intro h
  have same := congrArg (fun holding => holding.2.2) (h.holding 0x1000)
  exact absurd (sharers.symm.trans same) (by decide)

end CxlMemSim
