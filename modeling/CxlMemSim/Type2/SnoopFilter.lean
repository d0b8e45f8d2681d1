import CxlMemSim.Shm.Access
import CxlMemSim.Type2.BarCoherency

/-! What is done to one entry, without the lock, the statistics and the answers, and that the functions for one line do
it. -/
namespace CxlMemSim.Type2
open Function StrideLoop CXLCoherencyReqType CXLSnoopEntry

inductive FilterCall where
  | coherencyRequest (req : CXLCoherencyReqType) (addr : UInt64) (source : CXLCoherencyDomain)
  | snoopInsert (addr : UInt64) (stateVal : CXLCoherencyState) (domain : CXLCoherencyDomain)
  | snoopUpdate (addr : UInt64) (newState : CXLCoherencyState) (domain : CXLCoherencyDomain)
  | snoopRemove (addr : UInt64)
  | cacheFlush (addr size : UInt64)
  | setBias (addr size : UInt64) (biasMode : BiasMode)
  | biasFlip (addr size : UInt64) (newBias : BiasMode)

def CXLBARCoherencyState.call (state : CXLBARCoherencyState) : FilterCall → Option CXLBARCoherencyState
  | .coherencyRequest req addr source => some (state.coherencyRequest req addr source).1
  | .snoopInsert addr stateVal domain => some (state.snoopInsert addr stateVal domain)
  | .snoopUpdate addr newState domain => some (state.snoopUpdate addr newState domain)
  | .snoopRemove addr => some (state.snoopRemove addr)
  | .cacheFlush addr size => state.cacheFlush addr size
  | .setBias addr size biasMode => state.setBias addr size biasMode
  | .biasFlip addr size newBias => state.biasFlip addr size newBias

inductive LineOp where
  | request (req : CXLCoherencyReqType) (source : CXLCoherencyDomain)
  | insert (state : CXLCoherencyState) (domain : CXLCoherencyDomain)
  | update (state : CXLCoherencyState) (domain : CXLCoherencyDomain)
  | remove
  | flush
  | bias (mode : BiasMode)

namespace CXLSnoopEntry
variable (entry : CXLSnoopEntry)

def own (state : CXLCoherencyState) (domain : CXLCoherencyDomain) : CXLSnoopEntry :=
  { entry with state, domainMask := {domain}, ownerDomain := domain }

def join (domain : CXLCoherencyDomain) : CXLSnoopEntry := { entry with domainMask := insert domain entry.domainMask }

def leave (domain : CXLCoherencyDomain) : CXLSnoopEntry := { entry with domainMask := entry.domainMask.erase domain }

end CXLSnoopEntry

def LineOp.create (line : UInt64) : LineOp → Option CXLSnoopEntry
  | .request .rdShared source => some (own { addr := line } .shared source)
  | .request .rdOwn source => some (own { addr := line } .exclusive source)
  | .request .wrInv source => some (own { addr := line, dirty := true } .modified source)
  | .insert state domain => some (own { addr := line } state domain)
  | .bias mode => some { addr := line, biasMode := mode }
  | .request .rdAny _ | .request .wrCur _ | .request .clrDevCache _ | .request .cleanEvict _
  | .request .dirtyEvict _ | .update _ _ | .remove | .flush => none

def LineOp.change (entry : CXLSnoopEntry) : LineOp → Option CXLSnoopEntry
  | .request .rdShared source => some
      (if entry.state = .modified then { entry.join source with state := .shared, dirty := false }
      else entry.join source)
  | .request .rdOwn source => some (entry.own .exclusive source)
  | .request .wrInv source => some { entry.own .modified source with dirty := true }
  | .request .clrDevCache _ => some
      (if .gpu ∈ entry.domainMask then
        { entry.leave .gpu with state := if entry.domainMask.erase .gpu = ∅ then .invalid else .shared }
      else entry)
  | .request .cleanEvict source => if entry.domainMask.erase source = ∅ then none else some (entry.leave source)
  | .request .dirtyEvict source =>
    if entry.ownerDomain = source then
      if entry.domainMask.erase source = ∅ then none
      else some { entry.leave source with state := .shared, dirty := false }
    else some entry
  | .request .rdAny _ | .request .wrCur _ => some entry
  | .insert state domain => some
      (if state = .exclusive ∨ state = .modified then { entry.join domain with state, ownerDomain := domain }
      else { entry.join domain with state })
  | .update .exclusive domain => some (entry.own .exclusive domain)
  | .update .modified domain => some (entry.own .modified domain)
  | .update .shared domain => some { entry.join domain with state := .shared }
  | .update .invalid domain => some { entry.leave domain with state := .invalid }
  | .remove => none
  | .flush => some (if entry.dirty then { entry with state := .shared, dirty := false } else entry)
  | .bias mode => some { entry with biasMode := mode }

def LineOp.apply (line : UInt64) (entry : Option CXLSnoopEntry) (op : LineOp) : Option CXLSnoopEntry :=
  match entry with
  | none => op.create line
  | some entry => op.change entry

/-- Whether a request takes the lock again while it has it: to insert a line or to remove it. -/
def CXLCoherencyReqType.takesAgain (entry : Option CXLSnoopEntry) (source : CXLCoherencyDomain) :
    CXLCoherencyReqType → Bool
  | .rdShared | .rdOwn | .wrInv => entry.isNone
  | .cleanEvict => entry.any fun entry => entry.domainMask.erase source = ∅
  | .dirtyEvict => entry.any fun entry => entry.ownerDomain = source ∧ entry.domainMask.erase source = ∅
  | .rdAny | .wrCur | .clrDevCache => false

def LineOp.writesBack (entry : CXLSnoopEntry) : LineOp → Bool
  | .request .rdShared _ => entry.state = .modified
  | .request .rdOwn source =>
    ¬ (entry.biasMode = .device ∧ source = .gpu) ∧ entry.ownerDomain ≠ source ∧ entry.state = .modified
  | .request .wrInv source => entry.ownerDomain ≠ source ∧ entry.state = .modified
  | .request .clrDevCache _ => .gpu ∈ entry.domainMask ∧ entry.state = .modified ∧ entry.ownerDomain = .gpu
  | .request .dirtyEvict source => entry.ownerDomain = source
  | .flush => entry.dirty
  | .request .rdAny _ | .request .wrCur _ | .request .cleanEvict _ | .insert _ _ | .update _ _ | .remove | .bias _ =>
    false

def sizeAfter (size : UInt32) : Option CXLSnoopEntry → Option CXLSnoopEntry → UInt32
  | none, some _ => size + 1
  | some _, none => size - 1
  | none, none | some _, some _ => size

def evictionsAfter (evictions : UInt64) : Option CXLSnoopEntry → Option CXLSnoopEntry → UInt64
  | some _, none => evictions + 1
  | none, none | none, some _ | some _, some _ => evictions

variable {addr : UInt64} {entry : Option CXLSnoopEntry} {op : LineOp} {again : Bool}

namespace CXLBARCoherencyState
variable {state state' : CXLBARCoherencyState}

structure Sets (state state' : CXLBARCoherencyState) (addr : UInt64) (entry : Option CXLSnoopEntry) (again : Bool) :
    Prop where
  filter : state'.snoopFilter = update state.snoopFilter (addrToCacheline addr) entry
  lock : state'.lock = ⟨false, state.lock.relocked || again⟩
  enabled : state'.enabled = state.enabled
  regions : state'.regions = state.regions

structure Counts (state state' : CXLBARCoherencyState) (before after : Option CXLSnoopEntry) (writesBack : Bool) :
    Prop where
  size : state'.snoopFilterSize = sizeAfter state.snoopFilterSize before after
  evictions : state'.stats.evictions = evictionsAfter state.stats.evictions before after
  writebacks : state'.stats.writebacks = if writesBack then state.stats.writebacks + 1 else state.stats.writebacks

variable (state)

def entryOf (addr : UInt64) : Option CXLSnoopEntry := state.snoopFilter (addrToCacheline addr)

structure Does (state state' : CXLBARCoherencyState) (addr : UInt64) (op : LineOp) (again : Bool) : Prop where
  sets : state.Sets state' addr (op.apply (addrToCacheline addr) (state.entryOf addr)) again
  counts : state.Counts state' (state.entryOf addr) (op.apply (addrToCacheline addr) (state.entryOf addr))
    ((state.entryOf addr).any fun entry => op.writesBack entry)

variable {state} {writesBack : Bool}

theorem Does.of_none (absent : state.entryOf addr = none)
    (created : state.Sets state' addr (op.create (addrToCacheline addr)) again ∧
      state.Counts state' none (op.create (addrToCacheline addr)) false) : state.Does state' addr op again := by
  constructor <;> rw [absent]
  · exact created.1
  · exact created.2

theorem Does.of_some {entry : CXLSnoopEntry} (found : state.entryOf addr = some entry)
    (changed : state.Sets state' addr (op.change entry) again ∧
      state.Counts state' (some entry) (op.change entry) (op.writesBack entry)) : state.Does state' addr op again := by
  constructor <;> rw [found]
  · exact changed.1
  · exact changed.2

theorem snoopInsert_does (state : CXLBARCoherencyState) (addr : UInt64) (stateVal : CXLCoherencyState)
    (domain : CXLCoherencyDomain) :
    state.Does (state.snoopInsert addr stateVal domain) addr (.insert stateVal domain) state.lock.held := by
  rw [snoopInsert]
  cases found : state.snoopFilter (addrToCacheline addr) with
  | none =>
    simp only [acquire, found]
    exact .of_none found ⟨⟨rfl, rfl, rfl, rfl⟩, rfl, rfl, rfl⟩
  | some entry =>
    simp only [acquire, found]
    refine .of_some found ⟨⟨?_, rfl, rfl, rfl⟩, rfl, rfl, rfl⟩
    simp only [release, setEntry, LineOp.change, join]
    split <;> rfl

theorem snoopUpdate_does (state : CXLBARCoherencyState) (addr : UInt64) (newState : CXLCoherencyState)
    (domain : CXLCoherencyDomain) :
    state.Does (state.snoopUpdate addr newState domain) addr (.update newState domain) state.lock.held := by
  rw [snoopUpdate]
  cases found : state.snoopFilter (addrToCacheline addr) with
  | none =>
    simp only [acquire, found]
    exact .of_none found ⟨⟨(update_eq_self_iff.mpr found.symm).symm, rfl, rfl, rfl⟩, rfl, rfl, rfl⟩
  | some entry =>
    simp only [acquire, found]
    refine .of_some found ?_
    cases newState <;> split_ifs <;> exact ⟨⟨rfl, rfl, rfl, rfl⟩, rfl, rfl, rfl⟩

theorem snoopRemove_does (state : CXLBARCoherencyState) (addr : UInt64) :
    state.Does (state.snoopRemove addr) addr .remove state.lock.held := by
  rw [snoopRemove]
  cases found : state.snoopFilter (addrToCacheline addr) with
  | none =>
    simp only [acquire, found]
    exact .of_none found ⟨⟨(update_eq_self_iff.mpr found.symm).symm, rfl, rfl, rfl⟩, rfl, rfl, rfl⟩
  | some entry =>
    simp only [acquire, found]
    exact .of_some found ⟨⟨rfl, rfl, rfl, rfl⟩, rfl, rfl, rfl⟩

theorem Sets.release (sets : state.Sets state' addr entry again) : state.Sets state'.release addr entry again :=
  ⟨sets.filter, by rw [CXLBARCoherencyState.release, sets.lock], sets.enabled, sets.regions⟩

theorem Sets.inPlace (filter : state'.snoopFilter = update state.snoopFilter (addrToCacheline addr) entry)
    (lock : state'.lock = state.lock := by rfl) (enabled : state'.enabled = state.enabled := by rfl)
    (regions : state'.regions = state.regions := by rfl) : state.Sets state'.release addr entry false :=
  ⟨filter, by rw [CXLBARCoherencyState.release, lock, Bool.or_false], enabled, regions⟩

theorem Sets.unchanged (same : state.entryOf addr = entry) : state.Sets state.release addr entry false :=
  .inPlace (update_eq_self_iff.mpr same.symm).symm

theorem released {before after : Option CXLSnoopEntry}
    (done : state.Sets state' addr entry again ∧ state.Counts state' before after writesBack) :
    state.Sets state'.release addr entry again ∧ state.Counts state'.release before after writesBack :=
  ⟨done.1.release, done.2.size, done.2.evictions, done.2.writebacks⟩

variable (held : state.lock.held = true) (addr : UInt64) (source : CXLCoherencyDomain)
include held

theorem snoopInsert_absent (absent : state.entryOf addr = none) (stateVal : CXLCoherencyState) :
    state.Sets (state.snoopInsert addr stateVal source) addr
        (some (own { addr := addrToCacheline addr } stateVal source)) true ∧
      ∀ entry, state.Counts (state.snoopInsert addr stateVal source) none (some entry) false := by
  obtain ⟨sets, counts⟩ := state.snoopInsert_does addr stateVal source
  rw [absent, held] at sets
  rw [absent] at counts
  exact ⟨sets, fun _ => ⟨counts.size, counts.evictions, counts.writebacks⟩⟩

theorem snoopRemove_changed {changed entry : CXLSnoopEntry}
    (filter : state'.snoopFilter = update state.snoopFilter (addrToCacheline addr) (some changed))
    (lock : state'.lock = state.lock) (enabled : state'.enabled = state.enabled)
    (regions : state'.regions = state.regions) (counted : state.Counts state' (some entry) (some entry) writesBack) :
    state.Sets (state'.snoopRemove addr) addr none true ∧
      state.Counts (state'.snoopRemove addr) (some entry) none writesBack := by
  have found : state'.entryOf addr = some changed := by rw [entryOf, filter, update_self]
  obtain ⟨sets, counts⟩ := state'.snoopRemove_does addr
  rw [found] at sets counts
  refine ⟨⟨?_, ?_, sets.enabled.trans enabled, sets.regions.trans regions⟩, ?_, ?_,
    counts.writebacks.trans counted.writebacks⟩
  · rw [sets.filter, filter]
    exact update_idem ..
  · rw [sets.lock, lock, held]
  · rw [counts.size, counted.size]
    rfl
  · rw [counts.evictions, counted.evictions]
    rfl

theorem requestRdShared_does : state.Does (state.requestRdShared addr source).release addr (.request .rdShared source)
    (takesAgain (state.entryOf addr) source .rdShared) := by
  rw [requestRdShared, ← entryOf]
  cases found : state.entryOf addr with
  | none =>
    obtain ⟨sets, counts⟩ := snoopInsert_absent held addr source found .shared
    exact .of_none found (released ⟨sets, counts _⟩)
  | some entry =>
    refine .of_some found ?_
    simp only [LineOp.change, LineOp.writesBack, takesAgain, Option.isNone_some]
    by_cases modified : entry.state = .modified
    · simp only [if_pos modified, decide_eq_true modified]
      split_ifs <;> exact ⟨.inPlace rfl, rfl, rfl, rfl⟩
    · simp only [if_neg modified, decide_eq_false modified]
      split_ifs <;> exact ⟨.inPlace rfl, rfl, rfl, rfl⟩

theorem requestRdOwn_does : state.Does (state.requestRdOwn addr source).release addr (.request .rdOwn source)
    (takesAgain (state.entryOf addr) source .rdOwn) := by
  rw [requestRdOwn, ← entryOf]
  cases found : state.entryOf addr with
  | none =>
    obtain ⟨sets, counts⟩ := snoopInsert_absent held addr source found .exclusive
    exact .of_none found (released ⟨sets, counts _⟩)
  | some entry =>
    refine .of_some found ?_
    simp only [LineOp.change, takesAgain, Option.isNone_some]
    by_cases fast : entry.biasMode = .device ∧ source = .gpu
    · have quiet : LineOp.writesBack entry (.request .rdOwn source) = false := by simp [LineOp.writesBack, fast]
      simp only [if_pos fast, quiet]
      split <;> exact ⟨.inPlace rfl, rfl, rfl, rfl⟩
    · by_cases other : entry.ownerDomain ≠ source
      · have counted : LineOp.writesBack entry (.request .rdOwn source) = decide (entry.state = .modified) := by
          simp [LineOp.writesBack, fast, other]
        simp only [if_neg fast, if_pos other, counted]
        by_cases modified : entry.state = .modified
        · simp only [if_pos modified, decide_eq_true modified]
          split <;> exact ⟨.inPlace rfl, rfl, rfl, rfl⟩
        · simp only [if_neg modified, decide_eq_false modified]
          split <;> exact ⟨.inPlace rfl, rfl, rfl, rfl⟩
      · have quiet : LineOp.writesBack entry (.request .rdOwn source) = false := by
          simp [LineOp.writesBack, not_not.mp other]
        simp only [if_neg fast, if_neg other, quiet]
        split <;> exact ⟨.inPlace rfl, rfl, rfl, rfl⟩

theorem requestWrInv_does : state.Does (state.requestWrInv addr source).release addr (.request .wrInv source)
    (takesAgain (state.entryOf addr) source .wrInv) := by
  rw [requestWrInv, ← entryOf]
  cases found : state.entryOf addr with
  | none =>
    obtain ⟨⟨filter, lock, enabled, regions⟩, counts⟩ := snoopInsert_absent held addr source found .modified
    have there : (state.snoopInsert addr .modified source).snoopFilter (addrToCacheline addr) =
        some (own { addr := addrToCacheline addr } .modified source) := by
      rw [filter, update_self]
    simp only [there]
    obtain ⟨size, evictions, writebacks⟩ := counts { addr }
    refine .of_none found (released ⟨⟨?_, lock, enabled, regions⟩, size, evictions, writebacks⟩)
    rw [setEntry, filter]
    exact update_idem ..
  | some entry =>
    refine .of_some found ?_
    simp only [LineOp.change, takesAgain, Option.isNone_some]
    by_cases other : entry.ownerDomain ≠ source
    · by_cases modified : entry.state = .modified
      · have counted : LineOp.writesBack entry (.request .wrInv source) = true := by
          simp [LineOp.writesBack, other, modified]
        have valid : entry.ownerDomain ≠ source ∧ entry.state ≠ .invalid := ⟨other, by rw [modified]; decide⟩
        simp only [if_pos valid, if_pos modified, counted]
        exact ⟨.inPlace rfl, rfl, rfl, rfl⟩
      · have quiet : LineOp.writesBack entry (.request .wrInv source) = false := by
          simp [LineOp.writesBack, modified]
        simp only [if_neg modified, quiet]
        split <;> exact ⟨.inPlace rfl, rfl, rfl, rfl⟩
    · have quiet : LineOp.writesBack entry (.request .wrInv source) = false := by
        simp [LineOp.writesBack, not_not.mp other]
      simp only [if_neg fun both : _ ∧ _ => other both.1, quiet]
      exact ⟨.inPlace rfl, rfl, rfl, rfl⟩

omit held in
theorem requestClrDevCache_does :
    state.Does (state.requestClrDevCache addr).release addr (.request .clrDevCache source) false := by
  rw [requestClrDevCache, ← entryOf]
  cases found : state.entryOf addr with
  | none => exact .of_none found ⟨.unchanged found, rfl, rfl, rfl⟩
  | some entry =>
    refine .of_some found ?_
    simp only [LineOp.change]
    by_cases gpu : .gpu ∈ entry.domainMask
    · have counted : LineOp.writesBack entry (.request .clrDevCache source) =
          decide (entry.state = .modified ∧ entry.ownerDomain = .gpu) := by simp [LineOp.writesBack, gpu]
      simp only [if_pos gpu, counted]
      by_cases owned : entry.state = .modified ∧ entry.ownerDomain = .gpu
      · simp only [if_pos owned, decide_eq_true owned]
        exact ⟨.inPlace rfl, rfl, rfl, rfl⟩
      · simp only [if_neg owned, decide_eq_false owned]
        exact ⟨.inPlace rfl, rfl, rfl, rfl⟩
    · have quiet : LineOp.writesBack entry (.request .clrDevCache source) = false := by simp [LineOp.writesBack, gpu]
      simp only [if_neg gpu, quiet]
      exact ⟨.unchanged found, rfl, rfl, rfl⟩

theorem requestCleanEvict_does :
    state.Does (state.requestCleanEvict addr source).release addr (.request .cleanEvict source)
      (takesAgain (state.entryOf addr) source .cleanEvict) := by
  rw [requestCleanEvict, ← entryOf]
  cases found : state.entryOf addr with
  | none => exact .of_none found ⟨.unchanged found, rfl, rfl, rfl⟩
  | some entry =>
    refine .of_some found ?_
    simp only [LineOp.change, LineOp.writesBack, takesAgain, Option.any_some]
    by_cases last : entry.domainMask.erase source = ∅
    · simp only [if_pos last, decide_eq_true last]
      exact released (snoopRemove_changed held addr rfl rfl rfl rfl ⟨rfl, rfl, rfl⟩)
    · simp only [if_neg last, decide_eq_false last]
      exact ⟨.inPlace rfl, rfl, rfl, rfl⟩

theorem requestDirtyEvict_does :
    state.Does (state.requestDirtyEvict addr source).release addr (.request .dirtyEvict source)
      (takesAgain (state.entryOf addr) source .dirtyEvict) := by
  rw [requestDirtyEvict, ← entryOf]
  cases found : state.entryOf addr with
  | none => exact .of_none found ⟨.unchanged found, rfl, rfl, rfl⟩
  | some entry =>
    refine .of_some found ?_
    simp only [LineOp.change, LineOp.writesBack, takesAgain, Option.any_some]
    by_cases owner : entry.ownerDomain = source
    · by_cases last : entry.domainMask.erase source = ∅
      · simp only [if_pos owner, if_pos last, decide_eq_true (And.intro owner last), decide_eq_true owner]
        exact released (snoopRemove_changed held addr rfl rfl rfl rfl ⟨rfl, rfl, rfl⟩)
      · simp only [if_pos owner, if_neg last, decide_eq_false fun both : _ ∧ _ => last both.2, decide_eq_true owner]
        exact ⟨.inPlace rfl, rfl, rfl, rfl⟩
    · simp only [if_neg owner, decide_eq_false fun both : _ ∧ _ => owner both.1, decide_eq_false owner]
      exact ⟨.unchanged found, rfl, rfl, rfl⟩

omit held

def requested (state : CXLBARCoherencyState) : CXLBARCoherencyState :=
  { state.acquire with stats := { state.stats with coherencyRequests := state.stats.coherencyRequests + 1 } }

theorem ignored_does {req : CXLCoherencyReqType} (ignored : req = .rdAny ∨ req = .wrCur) :
    state.Does state.release addr (.request req source) false := by
  cases found : state.entryOf addr with
  | none => obtain rfl | rfl := ignored <;> exact .of_none found ⟨.unchanged found, rfl, rfl, rfl⟩
  | some entry => obtain rfl | rfl := ignored <;> exact .of_some found ⟨.unchanged found, rfl, rfl, rfl⟩

theorem coherencyRequest_does (enabled : state.enabled = true) (req : CXLCoherencyReqType) :
    state.requested.Does (state.coherencyRequest req addr source).1 addr (.request req source)
      (req.takesAgain (state.entryOf addr) source) := by
  rw [coherencyRequest, if_pos enabled]
  cases req with
  | rdShared => exact requestRdShared_does rfl addr source
  | rdOwn => exact requestRdOwn_does rfl addr source
  | wrInv => exact requestWrInv_does rfl addr source
  | clrDevCache => exact requestClrDevCache_does addr source
  | cleanEvict => exact requestCleanEvict_does rfl addr source
  | dirtyEvict => exact requestDirtyEvict_does rfl addr source
  | rdAny => exact ignored_does addr source (.inl rfl)
  | wrCur => exact ignored_does addr source (.inr rfl)

theorem coherencyRequest_sets (free : state.lock.held = false) (req : CXLCoherencyReqType) :
    state.Sets (state.coherencyRequest req addr source).1 addr
      (if state.enabled then LineOp.apply (addrToCacheline addr) (state.entryOf addr) (.request req source)
      else state.entryOf addr)
      (state.enabled && req.takesAgain (state.entryOf addr) source) := by
  by_cases enabled : state.enabled = true
  · obtain ⟨⟨filter, lock, same, regions⟩, -⟩ := coherencyRequest_does addr source enabled req
    rw [enabled, if_pos rfl, Bool.true_and]
    refine ⟨filter, ?_, same, regions⟩
    rw [lock, requested, acquire, free, Bool.or_false]
  · have off : state.enabled = false := Bool.eq_false_of_not_eq_true enabled
    rw [coherencyRequest, if_neg enabled, if_neg enabled, off, Bool.false_and]
    refine ⟨(update_eq_self_iff.mpr rfl).symm, ?_, rfl, rfl⟩
    rw [Bool.or_false, ← free]

theorem relock_free (free : state.lock.held = false) : state.acquire.release.lock = state.lock := by
  rw [release, acquire, free, Bool.or_false, ← free]

end CXLBARCoherencyState
end CxlMemSim.Type2
