import Mathlib.Data.Set.Card
import CxlMemSim.Type2.FilterSteps

/-! `snoop_filter_size` counts the entries in 32 bits and `evictions` the removed ones in 64. -/
namespace CxlMemSim.Type2
open CXLBARCoherencyState Function Run StrideLoop UInt64

instance uint64_finite : Finite UInt64 := Finite.of_injective UInt64.toFin fun _ _ => UInt64.toFin_inj.mp

def CXLBARCoherencyState.entries (state : CXLBARCoherencyState) : Set UInt64 := {key | (state.snoopFilter key).isSome}

structure Tally where
  state : CXLBARCoherencyState
  created : Nat := 0

namespace Tally

noncomputable def step (tally : Tally) (i : FilterStep) : Tally where
  state := tally.state.step i
  created := tally.created + ((tally.state.step i).entries \ tally.state.entries).ncard

structure Exact (tally : Tally) : Prop where
  size : tally.state.snoopFilterSize.toNat = tally.state.entries.ncard
  keys : ∀ key, ∀ entry ∈ tally.state.snoopFilter key, entry.addr = key ∧ key.toNat % 64 = 0
  evictions : tally.state.stats.evictions.toNat + tally.state.snoopFilterSize.toNat = tally.created

end Tally

namespace LineOp

def Creates : LineOp → Prop
  | .request .rdShared _ | .request .rdOwn _ | .request .wrInv _ | .insert _ _ | .bias _ => True
  | .request .rdAny _ | .request .wrCur _ | .request .clrDevCache _ | .request .cleanEvict _
  | .request .dirtyEvict _ | .update _ _ | .remove | .flush => False

def Removes (entry : CXLSnoopEntry) : LineOp → Prop
  | .request .cleanEvict source => entry.domainMask ⊆ {source}
  | .request .dirtyEvict source => entry.ownerDomain = source ∧ entry.domainMask ⊆ {source}
  | .remove => True
  | .request .rdShared _ | .request .rdOwn _ | .request .rdAny _ | .request .wrInv _ | .request .wrCur _
  | .request .clrDevCache _ | .insert _ _ | .update _ _ | .flush | .bias _ => False

theorem create_isSome_iff (line : UInt64) (op : LineOp) : (op.create line).isSome ↔ op.Creates := by
  cases op with
  | request req source => cases req <;> simp [create, Creates]
  | insert | update | remove | flush | bias => simp [create, Creates]

theorem change_isNone_iff (entry : CXLSnoopEntry) (op : LineOp) : (op.change entry).isNone ↔ op.Removes entry := by
  have whole : ∀ source, entry.domainMask.erase source = ∅ ↔ entry.domainMask ⊆ {source} := by
    intro source
    rw [Finset.erase_eq_empty_iff, Finset.subset_singleton_iff]
  cases op with
  | request req source =>
    cases req with
    | cleanEvict => simp only [change, Removes, ← whole]; split <;> simp_all
    | dirtyEvict => simp only [change, Removes, ← whole]; split_ifs <;> simp_all
    | rdShared | rdOwn | rdAny | wrInv | wrCur | clrDevCache => simp [change, Removes]
  | update state domain => cases state <;> simp [change, Removes]
  | insert | remove | flush | bias => simp [change, Removes]

variable {op : LineOp}

theorem create_addr {line : UInt64} : ∀ e ∈ op.create line, e.addr = line := by
  cases op with
  | request req source => cases req <;> simp [create, CXLSnoopEntry.own]
  | insert | update | remove | flush | bias => simp [create, CXLSnoopEntry.own]

variable {entry : CXLSnoopEntry}

theorem change_addr : ∀ e ∈ op.change entry, e.addr = entry.addr := by
  intro e changed
  cases op with
  | request req source =>
    cases req with
    | rdOwn | wrInv | rdAny | wrCur => cases changed; rfl
    | rdShared | clrDevCache | cleanEvict | dirtyEvict =>
      simp only [change] at changed
      split_ifs at changed <;> cases changed <;> rfl
  | update state domain => cases state <;> cases changed <;> rfl
  | insert | flush =>
    simp only [change] at changed
    split_ifs at changed <;> cases changed <;> rfl
  | bias mode => cases changed; rfl
  | remove => cases changed

end LineOp

namespace Tally

def Creating (tally : Tally) (i : FilterStep) : Prop :=
  ∃ turn ∈ i.turn tally.state.enabled, tally.state.snoopFilter turn.1 = none ∧ turn.2.Creates

def Removing (tally : Tally) (i : FilterStep) : Prop :=
  ∃ turn ∈ i.turn tally.state.enabled, ∃ entry ∈ tally.state.snoopFilter turn.1, turn.2.Removes entry

def Room (tally : Tally) (i : FilterStep) : Prop :=
  (tally.Creating i → tally.state.entries.ncard + 1 < 2 ^ 32) ∧
    (tally.Removing i → tally.state.stats.evictions.toNat + 1 < 2 ^ 64)

end Tally

theorem turn_aligned {enabled : Bool} {i : FilterStep} {line : UInt64}
    (turn : i.turn enabled = some (line, op)) : line.toNat % 64 = 0 := by
  have aligned : ∀ addr, (addrToCacheline addr).toNat % 64 = 0 := by
    intro addr
    rw [addrToCacheline_toNat]
    exact Nat.mul_mod_left _ _
  cases i with
  | request req addr source =>
    rw [FilterStep.turn] at turn
    split at turn <;> cases turn
    exact aligned addr
  | insert addr | update addr | remove addr | flushLine addr | biasLine _ addr => cases turn; exact aligned addr
  | lock | unlock | countFlip => cases turn

namespace CXLBARCoherencyState
variable {state state' : CXLBARCoherencyState} {line : UInt64} {op : LineOp}

theorem Effect.entries (effect : state.Effect state' line op) :
    state'.entries = if (op.apply line (state.snoopFilter line)).isSome then insert line state.entries
      else state.entries \ {line} := by
  ext key
  rw [CXLBARCoherencyState.entries, Set.mem_ofPred_eq, effect.filter]
  by_cases here : key = line
  · subst here
    rw [update_self]
    split <;> simp_all
  · rw [update_of_ne here]
    split <;> simp [here, CXLBARCoherencyState.entries]

theorem Effect.keys (effect : state.Effect state' line op) (aligned : line.toNat % 64 = 0)
    (keys : ∀ key, ∀ entry ∈ state.snoopFilter key, entry.addr = key ∧ key.toNat % 64 = 0) :
    ∀ key, ∀ entry ∈ state'.snoopFilter key, entry.addr = key ∧ key.toNat % 64 = 0 := by
  intro key entry found
  rw [effect.filter, update_apply] at found
  split at found
  · rename_i here
    subst here
    refine ⟨?_, aligned⟩
    cases before : state.snoopFilter key with
    | none =>
      rw [before] at found
      exact LineOp.create_addr entry found
    | some old =>
      rw [before] at found
      exact (LineOp.change_addr entry found).trans (keys key old before).1
  · exact keys key entry found

end CXLBARCoherencyState

namespace Tally

structure Moves (tally tally' : Tally) (created removed : Nat) : Prop where
  entries : tally'.state.entries.ncard + removed = tally.state.entries.ncard + created
  size : tally'.state.snoopFilterSize = tally.state.snoopFilterSize + UInt32.ofNat created - UInt32.ofNat removed
  evictions : tally'.state.stats.evictions = tally.state.stats.evictions + UInt64.ofNat removed
  total : tally'.created = tally.created + created
  keys : (∀ key, ∀ entry ∈ tally.state.snoopFilter key, entry.addr = key ∧ key.toNat % 64 = 0) →
    ∀ key, ∀ entry ∈ tally'.state.snoopFilter key, entry.addr = key ∧ key.toNat % 64 = 0

variable {tally : Tally} {i : FilterStep}

theorem moves_same (entries : (tally.state.step i).entries = tally.state.entries)
    (size : (tally.state.step i).snoopFilterSize = tally.state.snoopFilterSize)
    (evictions : (tally.state.step i).stats.evictions = tally.state.stats.evictions)
    (keys : (∀ key, ∀ entry ∈ tally.state.snoopFilter key, entry.addr = key ∧ key.toNat % 64 = 0) →
      ∀ key, ∀ entry ∈ (tally.state.step i).snoopFilter key, entry.addr = key ∧ key.toNat % 64 = 0) :
    tally.Moves (tally.step i) 0 0 := by
  refine ⟨?_, ?_, ?_, ?_, keys⟩
  · rw [step, entries]
  · rw [step, size]
    simp
  · rw [step, evictions]
    simp
  · rw [step, entries, sdiff_self, Set.bot_eq_empty, Set.ncard_empty]

section
variable {line : UInt64} {op : LineOp} (effect : tally.state.Effect (tally.state.step i) line op)
  (aligned : line.toNat % 64 = 0)
include effect aligned

theorem moves_create (absent : tally.state.snoopFilter line = none) (creates : op.Creates) :
    tally.Moves (tally.step i) 1 0 := by
  obtain ⟨entry, after⟩ := Option.isSome_iff_exists.mp ((LineOp.create_isSome_iff line op).mpr creates)
  have after' : op.apply line (tally.state.snoopFilter line) = some entry := by
    rw [absent]
    exact after
  have outside : line ∉ tally.state.entries := by simp [entries, absent]
  have entries : (tally.state.step i).entries = insert line tally.state.entries := by
    rw [effect.entries, after']
    rfl
  refine ⟨?_, ?_, ?_, ?_, effect.keys aligned⟩
  · rw [step, entries, Set.ncard_insert_of_notMem outside]
  · rw [step, effect.size, after', absent]
    simp [sizeAfter]
  · rw [step, effect.evictions, after', absent]
    simp [evictionsAfter]
  · rw [step, entries, Set.insert_sdiff_of_notMem _ outside, sdiff_self]
    simp

theorem moves_remove (found : tally.state.snoopFilter line = some entry)
    (removes : op.Removes entry) : tally.Moves (tally.step i) 0 1 := by
  have after := Option.isNone_iff_eq_none.mp ((LineOp.change_isNone_iff entry op).mpr removes)
  have after' : op.apply line (tally.state.snoopFilter line) = none := by
    rw [found]
    exact after
  have inside : line ∈ tally.state.entries := by simp [entries, found]
  have entries : (tally.state.step i).entries = tally.state.entries \ {line} := by
    rw [effect.entries, after']
    rfl
  refine ⟨?_, ?_, ?_, ?_, effect.keys aligned⟩
  · rw [step, entries, Set.ncard_sdiff_singleton_add_one inside, Nat.add_zero]
  · rw [step, effect.size, after', found]
    simp [sizeAfter]
  · rw [step, effect.evictions, after', found]
    simp [evictionsAfter]
  · rw [step, entries, sdiff_eq_bot_iff.mpr Set.sdiff_subset, Set.bot_eq_empty, Set.ncard_empty]

theorem moves_stay
    (kept : (op.apply line (tally.state.snoopFilter line)).isSome = (tally.state.snoopFilter line).isSome) :
    tally.Moves (tally.step i) 0 0 := by
  have entries := effect.entries
  have size := effect.size
  have evictions := effect.evictions
  cases before : tally.state.snoopFilter line with
  | none =>
    have outside : line ∉ tally.state.entries := by simp [CXLBARCoherencyState.entries, before]
    rw [before] at kept entries size evictions
    have after := Option.not_isSome_iff_eq_none.mp (Bool.eq_false_iff.mp kept)
    rw [after] at entries size evictions
    exact moves_same (entries.trans (Set.sdiff_singleton_eq_self outside)) size evictions (effect.keys aligned)
  | some entry =>
    have inside : line ∈ tally.state.entries := by simp [CXLBARCoherencyState.entries, before]
    rw [before] at kept entries size evictions
    obtain ⟨entry', after⟩ := Option.isSome_iff_exists.mp kept
    rw [after] at entries size evictions
    exact moves_same (entries.trans (Set.insert_eq_of_mem inside)) size evictions (effect.keys aligned)

end

theorem step_moves (aligned : i.Aligned) :
    (tally.Creating i ∧ ¬ tally.Removing i ∧ tally.Moves (tally.step i) 1 0) ∨
      (¬ tally.Creating i ∧ tally.Removing i ∧ tally.Moves (tally.step i) 0 1) ∨
      (¬ tally.Creating i ∧ ¬ tally.Removing i ∧ tally.Moves (tally.step i) 0 0) := by
  cases turn : i.turn tally.state.enabled with
  | none =>
    obtain ⟨filter, size, evictions, -, -⟩ := step_idle turn
    refine .inr (.inr ⟨by simp [Creating, turn], by simp [Removing, turn], moves_same ?_ size evictions ?_⟩)
    · rw [entries, filter]
      rfl
    · rw [filter]
      exact id
  | some lineOp =>
    obtain ⟨line, op⟩ := lineOp
    have effect := step_effect aligned turn
    have onLine := turn_aligned turn
    have creating : tally.Creating i ↔ tally.state.snoopFilter line = none ∧ op.Creates := by simp [Creating, turn]
    have removing : tally.Removing i ↔ ∃ entry ∈ tally.state.snoopFilter line, op.Removes entry := by
      simp [Removing, turn]
    rw [creating, removing]
    cases before : tally.state.snoopFilter line with
    | none =>
      by_cases creates : op.Creates
      · exact .inl ⟨⟨rfl, creates⟩, by simp, moves_create effect onLine before creates⟩
      · refine .inr (.inr ⟨fun both => creates both.2, by simp, moves_stay effect onLine ?_⟩)
        rw [before]
        exact Bool.eq_false_iff.mpr (mt (LineOp.create_isSome_iff line op).mp creates)
    | some entry =>
      by_cases removes : op.Removes entry
      · exact .inr (.inl ⟨by simp, ⟨entry, rfl, removes⟩, moves_remove effect onLine before removes⟩)
      · refine .inr (.inr ⟨by simp, by simpa using removes, moves_stay effect onLine ?_⟩)
        rw [before]
        change (op.change entry).isSome = true
        cases after : op.change entry with
        | none => exact absurd ((LineOp.change_isNone_iff entry op).mp (by rw [after]; rfl)) removes
        | some entry' => rfl

structure Tallied (tally : Tally) : Prop where
  size : tally.state.snoopFilterSize = UInt32.ofNat tally.state.entries.ncard
  keys : ∀ key, ∀ entry ∈ tally.state.snoopFilter key, entry.addr = key ∧ key.toNat % 64 = 0
  evictions : ∃ removed, removed + tally.state.entries.ncard = tally.created ∧
    tally.state.stats.evictions = UInt64.ofNat removed

theorem Tallied.moves {tally' : Tally} {created removed : Nat} (tallied : tally.Tallied)
    (moves : tally.Moves tally' created removed) : tally'.Tallied := by
  obtain ⟨before, balance, evictions⟩ := tallied.evictions
  have entries := moves.entries
  refine ⟨?_, moves.keys tallied.keys, before + removed, ?_, ?_⟩
  · rw [moves.size, tallied.size, ← UInt32.ofNat_add, UInt32.sub_eq_iff_eq_add, ← UInt32.ofNat_add, entries]
  · rw [moves.total]
    omega
  · rw [moves.evictions, evictions, ofNat_add]

theorem Tallied.step (tallied : tally.Tallied) (aligned : i.Aligned) : (tally.step i).Tallied := by
  obtain ⟨-, -, moves⟩ | ⟨-, -, moves⟩ | ⟨-, -, moves⟩ := tally.step_moves aligned
  · exact tallied.moves moves
  · exact tallied.moves moves
  · exact tallied.moves moves

theorem Tallied.exact_iff (tallied : tally.Tallied) :
    tally.Exact ↔ tally.state.entries.ncard < 2 ^ 32 ∧ tally.created - tally.state.entries.ncard < 2 ^ 64 := by
  obtain ⟨removed, balance, evictions⟩ := tallied.evictions
  have size : tally.state.snoopFilterSize.toNat = tally.state.entries.ncard % 2 ^ 32 := by
    rw [tallied.size, UInt32.toNat_ofNat']
  have evictions' : tally.state.stats.evictions.toNat = removed % 2 ^ 64 := by rw [evictions, toNat_ofNat']
  constructor
  · intro exact
    have sized := exact.size
    have balanced := exact.evictions
    omega
  · rintro ⟨few, fewer⟩
    exact ⟨by omega, tallied.keys, by omega⟩

theorem Exact.tallied (exact : tally.Exact) : tally.Tallied where
  size := by rw [← exact.size, UInt32.ofNat_toNat]
  keys := exact.keys
  evictions := ⟨tally.state.stats.evictions.toNat, by rw [← exact.size, exact.evictions], UInt64.ofNat_toNat.symm⟩

theorem exact_step_iff (exact : tally.Exact) (aligned : i.Aligned) : (tally.step i).Exact ↔ tally.Room i := by
  have size := exact.size
  have balance := exact.evictions
  have small := tally.state.snoopFilterSize.toNat_lt
  have fewer := tally.state.stats.evictions.toNat_lt
  rw [(exact.tallied.step aligned).exact_iff, Room]
  obtain ⟨creating, removing, moves⟩ | ⟨creating, removing, moves⟩ | ⟨creating, removing, moves⟩ :=
    tally.step_moves aligned
  · have entries := moves.entries
    have total := moves.total
    simp only [creating, removing, true_imp_iff, false_imp_iff, and_true]
    omega
  · have entries := moves.entries
    have total := moves.total
    simp only [creating, removing, true_imp_iff, false_imp_iff, true_and]
    omega
  · have entries := moves.entries
    have total := moves.total
    refine iff_of_true ⟨by omega, by omega⟩ ⟨fun impossible => absurd impossible creating, fun impossible => ?_⟩
    exact absurd impossible removing

theorem state_foldl (steps : List FilterStep) (tally : Tally) :
    (steps.foldl Tally.step tally).state = steps.foldl CXLBARCoherencyState.step tally.state := by
  induction steps generalizing tally with
  | nil => rfl
  | cons i steps ih => exact ih (tally.step i)

theorem Tallied.foldl {steps : List FilterStep} (aligned : ∀ i ∈ steps, i.Aligned) {tally : Tally}
    (tallied : tally.Tallied) : (steps.foldl Tally.step tally).Tallied := by
  induction steps generalizing tally with
  | nil => exact tallied
  | cons i steps ih =>
    obtain ⟨here, rest⟩ := List.forall_mem_cons.mp aligned
    exact ih rest (tallied.step here)

theorem exact_init (enabled : Bool) (regions : List CXLBARCoherencyRegion) : Exact ⟨{ enabled, regions }, 0⟩ := by
  have empty : entries { enabled, regions } = ∅ := by
    ext key
    simp [entries]
  refine ⟨?_, fun key entry none => ?_, rfl⟩
  · rw [empty, Set.ncard_empty]
    rfl
  · cases none

end Tally

theorem filter_size_mod (enabled : Bool) (regions : List CXLBARCoherencyRegion) (calls : List FilterCall) :
    ∃ state ∈ filterRun { enabled, regions } calls, state.snoopFilterSize = UInt32.ofNat state.entries.ncard := by
  have aligned : ∀ i ∈ runSteps enabled calls, i.Aligned := fun i member => runSteps_aligned member
  have size := ((Tally.exact_init enabled regions).tallied.foldl aligned).size
  rw [Tally.state_foldl] at size
  exact ⟨_, filterRun_eq_steps _ calls, size⟩

theorem filter_size_iff (enabled : Bool) (regions : List CXLBARCoherencyRegion) (calls : List FilterCall) :
    filterRun { enabled, regions } calls =
        some ((runSteps enabled calls).foldl CXLBARCoherencyState.step { enabled, regions }) ∧
      ((∀ before, before <+: runSteps enabled calls → (before.foldl Tally.step ⟨{ enabled, regions }, 0⟩).Exact) ↔
        EveryStep Tally.step Tally.Room ⟨{ enabled, regions }, 0⟩ (runSteps enabled calls)) := by
  refine ⟨filterRun_eq_steps _ calls, forall_prefix_iff_of_mem (Tally.exact_init enabled regions) ?_⟩
  intro tally i member exact
  exact Tally.exact_step_iff exact (runSteps_aligned member)

theorem ncard_inLines : Set.ncard {key | InLines 0 (2 ^ 38) key} = 2 ^ 32 := by
  have lines : {key | InLines 0 (2 ^ 38) key} =
      (fun n : Nat => UInt64.ofNat (64 * n)) '' (Finset.range (2 ^ 32) : Set Nat) := by
    ext key
    have power : ((2 : UInt64) ^ 38).toNat = 2 ^ 38 := by decide
    have zero : (0 : UInt64).toNat = 0 := rfl
    rw [Set.mem_ofPred_eq, inLines_iff, power, zero]
    constructor
    · rintro ⟨-, high, aligned⟩
      refine ⟨key.toNat / 64, by simp; omega, ?_⟩
      apply UInt64.toNat_inj.mp
      have small := key.toNat_lt
      rw [toNat_ofNat_of_lt' (by rw [UInt64.size]; omega)]
      omega
    · rintro ⟨n, below, rfl⟩
      simp at below
      rw [toNat_ofNat_of_lt' (by rw [UInt64.size]; omega)]
      omega
  rw [lines, Set.InjOn.ncard_image, Set.ncard_coe_finset, Finset.card_range]
  intro a inside b inside' same
  simp at inside inside'
  have same' := congrArg UInt64.toNat same
  dsimp only at same'
  rw [toNat_ofNat_of_lt' (by rw [UInt64.size]; omega), toNat_ofNat_of_lt' (by rw [UInt64.size]; omega)] at same'
  omega

/-- The bias of 256 GiB is set: the filter has 2^32 entries, and counts none. -/
theorem filter_size_wrapped : ∃ state ∈ filterRun {} [.setBias 0 (2 ^ 38) .device],
    state.entries.ncard = 2 ^ 32 ∧ state.snoopFilterSize = 0 := by
  obtain ⟨state, run, size⟩ := filter_size_mod true [] [.setBias 0 (2 ^ 38) .device]
  have steps := filterRun_eq_steps {} [.setBias 0 (2 ^ 38) .device]
  rw [runSteps, List.flatMap_singleton, FilterCall.steps] at steps
  have entries : state.entries = {key | InLines 0 (2 ^ 38) key} := by
    ext key
    rw [Option.some.inj (run.symm.trans steps), entries, Set.mem_ofPred_eq, Set.mem_ofPred_eq, biasSteps_filter]
    split <;> simp_all [LineOp.apply, LineOp.create]
  rw [entries, ncard_inLines] at size
  exact ⟨state, run, by rw [entries, ncard_inLines], size⟩

end CxlMemSim.Type2
