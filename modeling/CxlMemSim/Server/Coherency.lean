import CxlMemSim.Lib.Run
import CxlMemSim.Server.Effects

/-! Who may hold a line in which state, what the invalidation counter says about it, and how far the records of
addresses protect the storage. -/
namespace CxlMemSim
open Run CachelineMetadata

structure Coherent (h : CoherencyState × Int × Finset Int) : Prop where
  invalid : h.1 = .invalid → h.2.1 = -1 ∧ h.2.2 = ∅
  shared : h.1 = .shared → h.2.1 = -1 ∧ h.2.2.Nonempty
  modified : h.1 = .modified → 0 ≤ h.2.1 ∧ h.2.2 = ∅
  never_exclusive : h.1 ≠ .exclusive

theorem Coherent.of_modified {owner : Int} (h : 0 ≤ owner) : Coherent (.modified, owner, ∅) :=
  ⟨nofun, nofun, fun _ => ⟨h, rfl⟩, nofun⟩

variable {threadId : Int} {info : CachelineMetadata}

theorem handleReadCoherency_coherent
    (h : Coherent info.holding) : Coherent (handleReadCoherency threadId info).1.holding := by
  obtain ⟨state, sharers, owner, _, _, _⟩ := info
  cases state with
  | invalid => exact ⟨nofun, fun _ => ⟨(h.invalid rfl).1, Finset.insert_nonempty _ _⟩, nofun, nofun⟩
  | shared => exact ⟨nofun, fun _ => ⟨(h.shared rfl).1, Finset.insert_nonempty _ _⟩, nofun, nofun⟩
  | exclusive => exact (h.never_exclusive rfl).elim
  | modified => exact ⟨nofun, fun _ => ⟨rfl, Finset.insert_nonempty _ _⟩, nofun, nofun⟩

theorem handleWriteCoherency_holding
    (h : Coherent info.holding) : (handleWriteCoherency threadId info).1.holding = (.modified, threadId, ∅) := by
  obtain ⟨state, sharers, owner, _, _, _⟩ := info
  cases state with
  | invalid =>
    obtain ⟨-, rfl⟩ : _ ∧ sharers = ∅ := h.invalid rfl
    rfl
  | shared => rfl
  | exclusive => exact (h.never_exclusive rfl).elim
  | modified =>
    obtain ⟨-, rfl⟩ : _ ∧ sharers = ∅ := h.modified rfl
    simp only [handleWriteCoherency]
    split <;> rfl

variable {s : ServerState} {c : Call}

theorem ownAfter_coherent (nonneg : 0 ≤ c.threadId)
    (h : Coherent (s.metadata c.line).holding) : Coherent (c.ownAfter s).holding := by
  rcases c.ownAfter_cases s with kept | read | written | atomic
  · rw [kept]; exact h
  · rw [read]; exact handleReadCoherency_coherent h
  · rw [written, handleWriteCoherency_holding h]; exact .of_modified nonneg
  · rw [atomic]; exact .of_modified nonneg

def AllCoherent (s : ServerState) : Prop := ∀ k, Coherent (s.metadata k).holding

theorem initial_allCoherent (mem : Segment) : AllCoherent (.initial mem) := fun _ =>
  ⟨fun _ => ⟨rfl, rfl⟩, nofun, nofun, nofun⟩

theorem step_allCoherent (nonneg : 0 ≤ c.threadId) (h : AllCoherent s) : AllCoherent (step s c) := by
  intro k
  rw [step_holding]
  split
  · exact ownAfter_coherent nonneg (h c.line)
  · exact h k

theorem Reachable.allCoherent (h : Reachable s) : AllCoherent s := by
  induction h with
  | start mem => exact initial_allCoherent mem
  | next c _ nonneg ih => exact step_allCoherent nonneg ih

theorem reachable_run (mem : Segment) {calls : List Call} (ids : ∀ c ∈ calls, 0 ≤ c.threadId) :
    Reachable (run (.initial mem) calls) :=
  invariant_of_everyStep (P := fun _ c => 0 ≤ c.threadId) (fun _ c h nonneg => h.next c nonneg)
    (.start mem) (everyStep_of_forall fun c member _ => ids c member)

/-- After any sequence of requests of any kind, failed ones included, each line's metadata
is in one of three shapes. -/
theorem metadata_shape (mem : Segment) (calls : List Call) (ids : ∀ c ∈ calls, 0 ≤ c.threadId) (k : UInt64) :
    let info := (run (.initial mem) calls).metadata k
    (info.state = .invalid → info.owner = -1 ∧ info.sharers = ∅) ∧
    (info.state = .shared → info.owner = -1 ∧ info.sharers.Nonempty) ∧
    (info.state = .modified → 0 ≤ info.owner ∧ info.sharers = ∅) ∧
    info.state ≠ .exclusive := by
  intro info
  have h : Coherent info.holding := (reachable_run mem ids).allCoherent k
  exact ⟨h.invalid, h.shared, h.modified, h.never_exclusive⟩

def twoReaders : List Call :=
  [{ threadId := 0, req := { opType := .read, addr := 0, size := 8, timestamp := 1 } },
   { threadId := 1, req := { opType := .read, addr := 8, size := 8, timestamp := 2 } }]

def thirdWrites : Call :=
  { threadId := 2, req := { opType := .write, addr := 4, size := 8, timestamp := 3 } }

def thirdAdds : Call :=
  { threadId := 2, req := { opType := .atomicFaa, addr := 8, size := 8, timestamp := 3, value := 1 } }

theorem metadata_shape_thirdWrites :
    let info := (run (.initial (freshMapping 0x100000 0)) (twoReaders ++ [thirdWrites])).metadata 0
    info.state = .modified ∧ 0 ≤ info.owner ∧ info.sharers = ∅ := by
  have written : ((run (.initial (freshMapping 0x100000 0)) (twoReaders ++ [thirdWrites])).metadata 0).state =
      .modified := by decide +kernel
  exact ⟨written, (metadata_shape (freshMapping 0x100000 0) (twoReaders ++ [thirdWrites]) (by decide) 0).2.2.1 written⟩

def CachelineMetadata.holders (info : CachelineMetadata) : Finset Int :=
  if info.owner = -1 then info.sharers else insert info.owner info.sharers

theorem holders_congr {info info' : CachelineMetadata} (h : info.holding = info'.holding) :
    info.holders = info'.holders := by
  simp only [holding, Prod.mk.injEq] at h
  obtain ⟨-, owner, sharers⟩ := h
  rw [holders, holders, owner, sharers]

theorem handleWriteCoherency_count (h : Coherent info.holding) :
    (handleWriteCoherency threadId info).2 = (info.holders.erase threadId).card := by
  obtain ⟨state, sharers, owner, _, _, _⟩ := info
  cases state with
  | invalid =>
    obtain ⟨rfl, rfl⟩ : owner = -1 ∧ sharers = ∅ := h.invalid rfl
    simp [handleWriteCoherency, holders]
  | shared =>
    obtain ⟨rfl, -⟩ : owner = -1 ∧ _ := h.shared rfl
    simp [handleWriteCoherency, holders, invalidateSharers]
  | exclusive => exact (h.never_exclusive rfl).elim
  | modified =>
    obtain ⟨nonneg, rfl⟩ : 0 ≤ owner ∧ sharers = ∅ := h.modified rfl
    have some_owner : owner ≠ -1 := by omega
    by_cases own : owner = threadId
    · subst own
      simp [handleWriteCoherency, holders, some_owner]
    · have kept : ({owner} : Finset Int).erase threadId = {owner} := by simpa using Ne.symm own
      simp [handleWriteCoherency, holders, invalidateSharers, some_owner, own, kept]

/-- The counter follows the loss of copies on plain writes only. -/
theorem invalidations_growth_iff {s : ServerState} (reachable : Reachable s) (c : Call) :
    (step s c).coherencyInvalidations =
        s.coherencyInvalidations + ((s.metadata c.line).holders.erase c.threadId).card ↔
      (c.req.opType = .write ∧ isValidAddress s.mem c.req.addr) ∨
        (s.metadata c.line).holders.erase c.threadId = ∅ := by
  rw [step_invalidations]
  by_cases counted : c.req.opType = .write ∧ isValidAddress s.mem c.req.addr = true
  · rw [if_pos counted, handleWriteCoherency_count (reachable.allCoherent c.line)]
    simp only [counted, and_self, true_or]
  · rw [if_neg counted, ← Finset.card_eq_zero]
    simp only [counted, false_or]
    omega

theorem invalidations_growth_thirdWrites :
    let s := run (.initial (freshMapping 0x100000 0)) twoReaders
    (step s thirdWrites).coherencyInvalidations =
      s.coherencyInvalidations + ((s.metadata thirdWrites.line).holders.erase 2).card := by
  intro s
  have reachable : Reachable s := reachable_run _ (by decide)
  exact (invalidations_growth_iff reachable thirdWrites).mpr (.inl ⟨rfl, by decide +kernel⟩)

theorem invalidations_missed_by_thirdAdds :
    let s := run (.initial (freshMapping 0x100000 0)) twoReaders
    Reachable s ∧ thirdAdds.req.opType = .atomicFaa ∧
      ((s.metadata thirdAdds.line).holders.erase 2).card = 2 ∧
      (step s thirdAdds).coherencyInvalidations = s.coherencyInvalidations := by
  intro s
  exact ⟨reachable_run _ (by decide), rfl, by decide +kernel, by decide +kernel⟩

def Call.writes (s : ServerState) (c : Call) : Prop :=
  c.req.opType = .write ∨ c.req.opType = .atomicFaa ∨ c.req.opType = .atomicCas ∧ c.swaps s

def Call.reads (c : Call) : Prop :=
  c.req.opType = .read ∨ c.req.opType = .atomicFaa ∨ c.req.opType = .atomicCas

def Call.onlyCompares (s : ServerState) (c : Call) : Prop := c.req.opType = .atomicCas ∧ ¬ c.swaps s

/-- The backing lines that the bytes of the request lie in.  An atomic addresses the data area
directly, and only lines of the data area count. -/
def Call.touches (s : ServerState) (c : Call) (index : UInt64) : Prop :=
  match c.req.opType with
  | .read | .write => ∃ i < c.size, cachelineToIndex s.mem (addrToCacheline (walk c.req.addr i)) = index
  | .atomicFaa | .atomicCas =>
    ∃ i < 8, walk (atomicPtr c.req.addr) i / 64 = index ∧ index < numCachelines s.mem
  | .fence | .lsaRead | .lsaWrite => False

/-- The record names no other thread that the request excludes: no holder at all against a
writer, no MODIFIED owner against a reader. -/
def Call.Unopposed (s : ServerState) (c : Call) (info : CachelineMetadata) : Prop :=
  (c.writes s → info.holders ⊆ {c.threadId}) ∧
  (c.reads → info.state = .modified → info.owner = c.threadId)

/-- After the request, no address that maps to a line it touched has an opposing record. -/
def SingleWriterAfter (s : ServerState) (c : Call) : Prop :=
  ∀ a, c.touches s (cachelineToIndex s.mem (addrToCacheline a)) →
    c.Unopposed s ((step s c).metadata (addrToCacheline a))

/-- Before the request, no address on another line that maps to a line it touches has an opposing
record; where the request only compares, its own line counts as well. -/
def NoForeignRecord (s : ServerState) (c : Call) : Prop :=
  ∀ a, c.touches s (cachelineToIndex s.mem (addrToCacheline a)) →
    addrToCacheline a ≠ c.line ∨ c.onlyCompares s →
    c.Unopposed s (s.metadata (addrToCacheline a))

theorem unopposed_congr {info info' : CachelineMetadata}
    (h : info.holding = info'.holding) : c.Unopposed s info ↔ c.Unopposed s info' := by
  have holders := holders_congr h
  simp only [holding, Prod.mk.injEq] at h
  obtain ⟨state, owner, -⟩ := h
  rw [Call.Unopposed, Call.Unopposed, holders, state, owner]

theorem unopposed_of_owned
    (nonneg : 0 ≤ c.threadId) (h : info.holding = (.modified, c.threadId, ∅)) : c.Unopposed s info := by
  simp only [holding, Prod.mk.injEq] at h
  obtain ⟨-, owner, sharers⟩ := h
  have some_owner : info.owner ≠ -1 := by omega
  refine ⟨?_, fun _ _ => owner⟩
  intro _
  rw [holders, if_neg some_owner, owner, sharers]
  exact Finset.Subset.refl _

theorem handleReadCoherency_state : (handleReadCoherency threadId info).1.state = .shared := by
  cases h : info.state <;> simp [handleReadCoherency, h]

theorem ownAfter_unopposed (base : baseAddr s.mem = 0)
    (nonneg : 0 ≤ c.threadId) (coherent : Coherent (s.metadata c.line).holding)
    (active : ¬ c.onlyCompares s) : c.Unopposed s (c.ownAfter s) := by
  have valid : isValidAddress s.mem c.req.addr = true := by simp [isValidAddress, base]
  cases op : c.req.opType with
  | read =>
    constructor
    · intro writes
      simp [Call.writes, op] at writes
    · intro _ modified
      simp only [Call.ownAfter, op, if_pos valid, handleReadCoherency_state] at modified
      cases modified
  | write =>
    apply unopposed_of_owned nonneg
    simp only [Call.ownAfter, op, if_pos valid]
    exact handleWriteCoherency_holding coherent
  | atomicFaa =>
    apply unopposed_of_owned nonneg
    simp only [Call.ownAfter, op]
    rfl
  | atomicCas =>
    have swaps : c.swaps s := by
      by_contra no
      exact active ⟨op, no⟩
    apply unopposed_of_owned nonneg
    simp only [Call.ownAfter, op, if_pos swaps]
    rfl
  | fence | lsaRead | lsaWrite => simp [Call.Unopposed, Call.writes, Call.reads, op]

theorem ownAfter_of_onlyCompares (h : c.onlyCompares s) : c.ownAfter s = s.metadata c.line := by
  simp only [Call.ownAfter, h.1, if_neg h.2]

theorem singleWriterAfter_iff (base : baseAddr s.mem = 0)
    (nonneg : 0 ≤ c.threadId) (coherent : AllCoherent s) : SingleWriterAfter s c ↔ NoForeignRecord s c := by
  refine forall_congr' fun a => forall_congr' fun _ => ?_
  by_cases own : addrToCacheline a = c.line
  · have after := step_holding s c (addrToCacheline a)
    rw [if_pos own] at after
    rw [unopposed_congr after, own]
    by_cases compares : c.onlyCompares s
    · simp only [ownAfter_of_onlyCompares compares, compares, or_true, forall_const]
    · simp only [ownAfter_unopposed base nonneg (coherent c.line) compares, compares, ne_eq, not_true,
        or_self, false_implies]
  · have after := step_holding s c (addrToCacheline a)
    rw [if_neg own] at after
    simp only [unopposed_congr after, ne_eq, own, not_false_iff, true_or, forall_const]

theorem singleWriter_run_iff (mem : Segment) (calls : List Call) (ids : ∀ c ∈ calls, 0 ≤ c.threadId)
    (base : EveryStep step (fun s _ => baseAddr s.mem = 0) (.initial mem) calls) :
    EveryStep step SingleWriterAfter (.initial mem) calls ↔
      EveryStep step NoForeignRecord (.initial mem) calls := by
  have each : EveryStep step (fun s c => baseAddr s.mem = 0 ∧ 0 ≤ c.threadId) (.initial mem) calls :=
    base.and (everyStep_of_forall fun c member _ => ids c member)
  exact EveryStep.iff_of_invariant (I := AllCoherent) (fun _ _ h good => step_allCoherent good.2 h)
    (fun _ _ h good => singleWriterAfter_iff good.1 good.2 h) (initial_allCoherent mem) each

theorem initial_unopposed {mem : Segment} {k : UInt64}
    (h : info.holding = ((ServerState.initial mem).metadata k).holding) : c.Unopposed s info := by
  rw [unopposed_congr h]
  exact ⟨fun _ => Finset.empty_subset _, fun _ => nofun⟩

def handedOver : List Call :=
  [{ threadId := 0, req := { opType := .write, addr := 0, size := 8, timestamp := 1 } },
   { threadId := 1, req := { opType := .read, addr := 4, size := 8, timestamp := 2 } }]

theorem singleWriter_run_handedOver :
    EveryStep step SingleWriterAfter (.initial (freshMapping 0x100000 0)) handedOver := by
  rw [singleWriter_run_iff (freshMapping 0x100000 0) handedOver (by decide) (by decide +kernel)]
  refine ⟨fun a _ _ => initial_unopposed rfl, ?_, trivial⟩
  intro a _ other
  -- the second request is on the line of the first, so every other line is as it was at the start
  have elsewhere : addrToCacheline a ≠ addrToCacheline 0 := by
    rcases other with other | compares
    · exact other
    · cases compares.1
  apply initial_unopposed
  rw [step_holding]
  exact if_neg elsewhere

def straddled : List Call :=
  [{ threadId := 0, req := { opType := .read, addr := 64, size := 8, timestamp := 1 } },
   { threadId := 1, req := { opType := .write, addr := 60, size := 8, timestamp := 2 } }]

/-- Thread 0 is still recorded as a sharer of line 1 after thread 1 wrote to it. -/
theorem singleWriter_run_straddled :
    EveryStep step (fun s _ => baseAddr s.mem = 0) (.initial (freshMapping 0x100000 0)) straddled ∧
      ¬ EveryStep step SingleWriterAfter (.initial (freshMapping 0x100000 0)) straddled := by
  refine ⟨by decide +kernel, ?_⟩
  rintro ⟨-, second, -⟩
  have alone := (second 64 ⟨4, by decide, by decide +kernel⟩).1 (.inl rfl)
  revert alone
  decide +kernel

end CxlMemSim
