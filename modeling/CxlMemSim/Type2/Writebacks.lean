import CxlMemSim.Type2.FilterSteps

/-! The filter counts the writebacks, and some of the ways in which a line stops being modified count none. -/
namespace CxlMemSim.Type2
open Run CXLBARCoherencyState LineOp

def GivesUp (before after : Option CXLSnoopEntry) : Prop :=
  ∃ entry ∈ before, entry.state = .modified ∧
    ∀ e ∈ after, ¬ (e.state = .modified ∧ e.ownerDomain = entry.ownerDomain)

/-- A removal by `snoop_remove` itself is no coherency operation. -/
def CXLBARCoherencyState.CountsWriteback (state : CXLBARCoherencyState) (i : FilterStep) : Prop :=
  (∀ addr, i ≠ .remove addr) → ∀ key, GivesUp (state.snoopFilter key) ((state.step i).snoopFilter key) →
    (state.step i).stats.writebacks = state.stats.writebacks + 1

def LineOp.Accounted (entry : CXLSnoopEntry) : LineOp → Prop
  | .request .rdOwn source => entry.ownerDomain ≠ source ∧ ¬ (entry.biasMode = .device ∧ source = .gpu)
  | .request .clrDevCache _ => .gpu ∈ entry.domainMask → entry.ownerDomain = .gpu
  | .request .cleanEvict source => ¬ entry.domainMask ⊆ {source}
  | .insert state domain | .update state domain => state = .modified ∧ domain = entry.ownerDomain
  | .request .rdShared _ | .request .rdAny _ | .request .wrInv _ | .request .wrCur _ | .request .dirtyEvict _
  | .remove | .flush | .bias _ => True

def CXLBARCoherencyState.Accounts (state : CXLBARCoherencyState) (i : FilterStep) : Prop :=
  ∀ turn ∈ i.turn state.enabled, ∀ entry ∈ state.snoopFilter turn.1, entry.state = .modified → turn.2.Accounted entry

theorem not_givesUp_self (entry : Option CXLSnoopEntry) : ¬ GivesUp entry entry := by
  rintro ⟨e, found, modified, gone⟩
  exact gone e found ⟨modified, rfl⟩

variable {op : LineOp}

section
variable {entry : CXLSnoopEntry} (modified : entry.state = .modified)
include modified

theorem givesUp_none : GivesUp (some entry) none := by simp [GivesUp, modified]

theorem givesUp_some (after : CXLSnoopEntry) :
    GivesUp (some entry) (some after) ↔ ¬ (after.state = .modified ∧ after.ownerDomain = entry.ownerDomain) := by
  simp [GivesUp, modified]

theorem request_accounted_iff (req : CXLCoherencyReqType) (source : CXLCoherencyDomain) :
    (GivesUp (some entry) (change entry (.request req source)) →
      writesBack entry (.request req source) = true) ↔ LineOp.Accounted entry (.request req source) := by
  cases req with
  | rdShared => simp [writesBack, LineOp.Accounted, modified]
  | rdOwn =>
    rw [change, givesUp_some modified]
    simp only [CXLSnoopEntry.own, writesBack, LineOp.Accounted, modified, decide_eq_true_eq, reduceCtorEq]
    tauto
  | wrInv =>
    rw [change, givesUp_some modified]
    simp only [CXLSnoopEntry.own, writesBack, LineOp.Accounted, modified, decide_eq_true_eq]
    simp [eq_comm]
  | clrDevCache =>
    rw [change, givesUp_some modified]
    by_cases gpu : .gpu ∈ entry.domainMask
    · simp only [writesBack, LineOp.Accounted, gpu, modified, if_true]
      split_ifs <;> simp
    · simp [LineOp.Accounted, gpu, modified]
  | cleanEvict =>
    have whole : entry.domainMask.erase source = ∅ ↔ entry.domainMask ⊆ {source} := by
      rw [Finset.erase_eq_empty_iff, Finset.subset_singleton_iff]
    by_cases last : entry.domainMask ⊆ {source}
    · rw [change, if_pos (whole.mpr last)]
      simp only [writesBack, LineOp.Accounted, givesUp_none modified, last]
      decide
    · rw [change, if_neg (mt whole.mp last), givesUp_some modified]
      simp only [LineOp.Accounted, CXLSnoopEntry.leave, modified, last, and_self, not_true, not_false_eq_true,
        false_imp_iff]
  | dirtyEvict =>
    by_cases owner : entry.ownerDomain = source
    · simp [writesBack, LineOp.Accounted, owner]
    · simp [change, LineOp.Accounted, owner, not_givesUp_self]
  | rdAny | wrCur => simp [change, LineOp.Accounted, not_givesUp_self]

theorem change_accounted_iff (kept : op ≠ .remove) :
    (GivesUp (some entry) (op.change entry) → op.writesBack entry = true) ↔ op.Accounted entry := by
  cases op with
  | request req source => exact request_accounted_iff modified req source
  | insert state domain =>
    rw [change, givesUp_some modified]
    cases state <;> simp [writesBack, LineOp.Accounted]
  | update state domain =>
    cases state <;> rw [change, givesUp_some modified] <;>
      simp [writesBack, LineOp.Accounted, CXLSnoopEntry.own]
  | remove => exact absurd rfl kept
  | flush =>
    by_cases dirty : entry.dirty = true
    · simp [writesBack, LineOp.Accounted, dirty]
    · simp [change, LineOp.Accounted, dirty, not_givesUp_self]
  | bias mode =>
    rw [change, givesUp_some modified]
    simp [LineOp.Accounted, modified]

end

namespace CXLBARCoherencyState
variable {state state' : CXLBARCoherencyState} {line : UInt64} {i : FilterStep}

theorem Effect.givesUp_iff (effect : state.Effect state' line op) (key : UInt64) :
    GivesUp (state.snoopFilter key) (state'.snoopFilter key) ↔
      key = line ∧ GivesUp (state.snoopFilter line) (op.apply line (state.snoopFilter line)) := by
  rw [effect.filter]
  by_cases here : key = line
  · subst here
    rw [Function.update_self]
    exact ⟨fun gives => ⟨rfl, gives⟩, fun gives => gives.2⟩
  · rw [Function.update_of_ne here]
    exact iff_of_false (not_givesUp_self _) fun gives => here gives.1

theorem Effect.counted_iff (effect : state.Effect state' line op) :
    state'.stats.writebacks = state.stats.writebacks + 1 ↔
      ∃ entry ∈ state.snoopFilter line, op.writesBack entry = true := by
  have differ : state.stats.writebacks ≠ state.stats.writebacks + 1 := by
    intro same
    have := congrArg UInt64.toNat same
    rw [UInt64.toNat_add] at this
    have := state.stats.writebacks.toNat_lt
    have one : (1 : UInt64).toNat = 1 := rfl
    omega
  rw [effect.writebacks]
  cases found : state.snoopFilter line with
  | none => simp [differ]
  | some entry => cases counts : op.writesBack entry <;> simp [counts, differ]

theorem turn_remove {enabled : Bool}
    (turn : i.turn enabled = some (line, op)) : op = .remove ↔ ∃ addr, i = .remove addr := by
  cases i with
  | request req addr source =>
    rw [FilterStep.turn] at turn
    split at turn <;> cases turn
    simp
  | lock | unlock | countFlip => cases turn
  | insert | update | remove | flushLine | biasLine =>
    cases turn
    simp

theorem countsWriteback_iff (aligned : i.Aligned) : state.CountsWriteback i ↔ state.Accounts i := by
  cases turn : i.turn state.enabled with
  | none =>
    have idle := step_idle turn
    refine iff_of_true (fun _ key gives => ?_) (by simp [Accounts, turn])
    rw [idle.filter] at gives
    exact absurd gives (not_givesUp_self _)
  | some lineOp =>
    obtain ⟨line, op⟩ := lineOp
    have effect := step_effect aligned turn
    have accounts : state.Accounts i ↔
        ∀ entry ∈ state.snoopFilter line, entry.state = .modified → op.Accounted entry := by
      simp [Accounts, turn]
    rw [accounts]
    by_cases removes : op = .remove
    · refine iff_of_true (fun kept => ?_) fun entry _ _ => removes ▸ trivial
      obtain ⟨addr, same⟩ := (turn_remove turn).mp removes
      exact absurd same (kept addr)
    · have kept : ∀ addr, i ≠ .remove addr := fun addr same => removes ((turn_remove turn).mpr ⟨addr, same⟩)
      simp only [CountsWriteback, kept, effect.givesUp_iff, effect.counted_iff, ne_eq, not_false_eq_true,
        implies_true, true_imp_iff, and_imp, forall_eq]
      cases found : state.snoopFilter line with
      | none => simp [GivesUp]
      | some entry =>
        by_cases modified : entry.state = .modified
        · simp [apply, modified, ← change_accounted_iff modified removes]
        · simp [GivesUp, modified]

end CXLBARCoherencyState

theorem writebacks_counted_iff (initial : CXLBARCoherencyState) (calls : List FilterCall) :
    filterRun initial calls = some ((runSteps initial.enabled calls).foldl CXLBARCoherencyState.step initial) ∧
      (EveryStep CXLBARCoherencyState.step CountsWriteback initial (runSteps initial.enabled calls) ↔
        EveryStep CXLBARCoherencyState.step Accounts initial (runSteps initial.enabled calls)) := by
  refine ⟨filterRun_eq_steps initial calls, ?_⟩
  exact EveryStep.iff_of_invariant (I := fun _ => True) (R := fun _ i => i.Aligned) (fun _ _ _ _ => trivial)
    (fun _ _ _ aligned => countsWriteback_iff aligned) trivial
    (everyStep_of_forall fun i member _ => runSteps_aligned member)

def ownedAgain : List FilterCall := [.coherencyRequest .wrInv 0 .cpu, .coherencyRequest .rdOwn 0 .cpu]

theorem not_countsWriteback_ownedAgain :
    ∃ before ∈ filterRun {} (ownedAgain.take 1), ∃ after ∈ filterRun {} ownedAgain,
      GivesUp (before.entryOf 0) (after.entryOf 0) ∧ after.stats.writebacks = before.stats.writebacks ∧
        ¬ before.CountsWriteback (.request .rdOwn 0 .cpu) := by
  refine ⟨_, rfl, _, rfl, ⟨_, rfl, by decide +kernel, ?_⟩, by decide +kernel, ?_⟩
  · rintro e ⟨⟩
    decide +kernel
  · intro counts
    have counted := counts (fun _ => by simp) 0 ⟨_, rfl, by decide +kernel, by rintro e ⟨⟩; decide +kernel⟩
    revert counted
    decide +kernel

end CxlMemSim.Type2
