import CxlMemSim.Type2.FilterSteps

/-! State, owner, domains and dirty flag of an entry are kept in step by some calls only. -/
namespace CxlMemSim.Type2
open Run StrideLoop LineOp CXLSnoopEntry Finset

@[mk_iff] structure CXLSnoopEntry.Consistent (entry : CXLSnoopEntry) : Prop where
  sole : entry.state = .exclusive ∨ entry.state = .modified → entry.domainMask = {entry.ownerDomain}
  held : entry.state = .shared → entry.domainMask.Nonempty
  dropped : entry.state = .invalid → entry.domainMask = ∅
  dirty : entry.dirty = true → entry.state = .modified

def CXLBARCoherencyState.Consistent (state : CXLBARCoherencyState) : Prop :=
  ∀ key, ∀ entry ∈ state.snoopFilter key, entry.Consistent

def LineOp.KeepsNew : LineOp → Prop
  | .insert state _ => state ≠ .invalid
  | _ => True

def LineOp.Keeps (entry : CXLSnoopEntry) : LineOp → Prop
  | .request .rdShared source => entry.state ≠ .invalid ∧ (entry.state = .exclusive → source = entry.ownerDomain)
  | .request .rdOwn _ => entry.dirty = false
  | .request .clrDevCache _ => .gpu ∈ entry.domainMask → entry.dirty = false
  | .insert state domain => state ≠ .invalid ∧
      (state = .exclusive ∨ state = .modified → entry.domainMask ⊆ {domain}) ∧ (entry.dirty = true → state = .modified)
  | .update state domain =>
    (state = .invalid → entry.domainMask ⊆ {domain}) ∧ (entry.dirty = true → state = .modified)
  | .request .rdAny _ | .request .wrInv _ | .request .wrCur _ | .request .cleanEvict _ | .request .dirtyEvict _
  | .remove | .flush | .bias _ => True

def LineOp.KeepsAt (entry : Option CXLSnoopEntry) (op : LineOp) : Prop :=
  (entry = none → op.KeepsNew) ∧ ∀ e ∈ entry, op.Keeps e

theorem create_consistent_iff (line : UInt64) (op : LineOp) :
    (∀ entry ∈ op.create line, entry.Consistent) ↔ op.KeepsNew := by
  cases op with
  | request req source =>
    cases req <;> simp [create, LineOp.KeepsNew, own, consistent_iff]
  | insert state domain =>
    cases state <;> simp [create, LineOp.KeepsNew, own, consistent_iff]
  | update | remove | flush | bias => simp [create, LineOp.KeepsNew, consistent_iff]

theorem insert_eq_singleton {mask : Finset CXLCoherencyDomain} {domain : CXLCoherencyDomain} :
    insert domain mask = {domain} ↔ mask ⊆ {domain} := by
  constructor
  · intro sole
    rw [← sole]
    exact subset_insert domain mask
  · intro inside
    exact (insert_subset (mem_singleton_self domain) inside).antisymm
      (singleton_subset_iff.mpr (mem_insert_self domain mask))

namespace CXLSnoopEntry.Consistent
variable {entry : CXLSnoopEntry} (consistent : entry.Consistent)
include consistent

theorem join_iff (source : CXLCoherencyDomain) :
    (∀ e ∈ change entry (.request .rdShared source), e.Consistent) ↔
      entry.state ≠ .invalid ∧ (entry.state = .exclusive → source = entry.ownerDomain) := by
  obtain ⟨sole, held, dropped, dirty⟩ := consistent
  simp only [change, Option.mem_some_iff, forall_eq', consistent_iff, join]
  cases state : entry.state <;> simp_all

theorem clear_iff (source : CXLCoherencyDomain) :
    (∀ e ∈ change entry (.request .clrDevCache source), e.Consistent) ↔
      (.gpu ∈ entry.domainMask → entry.dirty = false) := by
  simp only [change, Option.mem_some_iff, forall_eq']
  by_cases gpu : .gpu ∈ entry.domainMask
  · by_cases last : entry.domainMask.erase .gpu = ∅
    · simp [gpu, last, leave, consistent_iff]
    · simp [gpu, last, leave, consistent_iff, nonempty_iff_ne_empty]
  · simp [gpu, consistent]

theorem cleanEvict (source : CXLCoherencyDomain) : ∀ e ∈ change entry (.request .cleanEvict source), e.Consistent := by
  rw [change]
  split
  · intro e none
    cases none
  · rename_i more
    simp only [Option.mem_some_iff, forall_eq', leave]
    refine ⟨fun owned => ?_, fun _ => nonempty_iff_ne_empty.mpr more, fun invalid => ?_, consistent.dirty⟩
    · have mask := consistent.sole owned
      by_cases same : source ∈ entry.domainMask
      · rw [mask, mem_singleton] at same
        rw [mask, same, erase_singleton] at more
        exact absurd rfl more
      · rw [erase_eq_of_notMem same, mask]
    · rw [consistent.dropped invalid, erase_empty]

theorem dirtyEvict (source : CXLCoherencyDomain) : ∀ e ∈ change entry (.request .dirtyEvict source), e.Consistent := by
  rw [change]
  split_ifs with owner last
  · intro e none
    cases none
  · simp [consistent_iff, leave, nonempty_iff_ne_empty, last]
  · simp [consistent]

theorem flush : ∀ e ∈ change entry .flush, e.Consistent ∧ e.dirty = false := by
  simp only [change, Option.mem_some_iff, forall_eq']
  split_ifs with dirty
  · have modified := consistent.dirty dirty
    simp [consistent_iff, consistent.sole (.inr modified)]
  · exact ⟨consistent, Bool.eq_false_of_not_eq_true dirty⟩

theorem change_iff (op : LineOp) : (∀ e ∈ op.change entry, e.Consistent) ↔ op.Keeps entry := by
  cases op with
  | request req source =>
    cases req with
    | rdShared => exact consistent.join_iff source
    | rdOwn | wrInv => simp [change, LineOp.Keeps, consistent_iff, own]
    | clrDevCache => exact consistent.clear_iff source
    | cleanEvict => exact iff_of_true (consistent.cleanEvict source) trivial
    | dirtyEvict => exact iff_of_true (consistent.dirtyEvict source) trivial
    | rdAny | wrCur => simp [change, LineOp.Keeps, consistent]
  | insert state domain => cases state <;> simp [change, LineOp.Keeps, consistent_iff, join, insert_eq_singleton]
  | update state domain =>
    cases state <;> simp [change, LineOp.Keeps, consistent_iff, join, own, leave, erase_eq_empty_iff,
      subset_singleton_iff]
  | remove => simp [change, LineOp.Keeps]
  | flush => exact iff_of_true (fun e flushed => (consistent.flush e flushed).1) trivial
  | bias mode =>
    refine iff_of_true ?_ trivial
    simp only [change, Option.mem_some_iff, forall_eq']
    exact ⟨consistent.sole, consistent.held, consistent.dropped, consistent.dirty⟩

end CXLSnoopEntry.Consistent

variable {entry : Option CXLSnoopEntry} {line : UInt64}

theorem apply_consistent_iff (consistent : ∀ e ∈ entry, e.Consistent) (op : LineOp) :
    (∀ e ∈ op.apply line entry, e.Consistent) ↔ op.KeepsAt entry := by
  cases entry with
  | none =>
    refine (create_consistent_iff line op).trans ⟨fun keeps => ⟨fun _ => keeps, fun e none => ?_⟩,
      fun keeps => keeps.1 rfl⟩
    cases none
  | some entry =>
    refine ((consistent entry rfl).change_iff op).trans ⟨fun keeps => ⟨fun none => ?_, fun e same => ?_⟩,
      fun keeps => keeps.2 entry rfl⟩
    · cases none
    · exact Option.some.inj same ▸ keeps

theorem bias_consistent_iff (line : UInt64) (entry : Option CXLSnoopEntry) (mode : BiasMode) :
    (∀ e ∈ apply line entry (.bias mode), e.Consistent) ↔ ∀ e ∈ entry, e.Consistent := by
  cases entry with
  | none => simp [apply, create, consistent_iff]
  | some entry => simp [apply, change, consistent_iff]

namespace CXLBARCoherencyState
variable {state state' : CXLBARCoherencyState} {c : FilterCall}

def Keeps (state : CXLBARCoherencyState) : FilterCall → Prop
  | .coherencyRequest req addr source =>
    state.enabled = true → (request req source).KeepsAt (state.entryOf addr)
  | .snoopInsert addr stateVal domain => (insert stateVal domain).KeepsAt (state.entryOf addr)
  | .snoopUpdate addr newState domain => (update newState domain).KeepsAt (state.entryOf addr)
  | .biasFlip addr size .host =>
    state.enabled = true → ∀ key, InLines addr size key →
      ∀ entry ∈ state.snoopFilter key, .gpu ∈ entry.domainMask → entry.dirty = false
  | .snoopRemove _ | .cacheFlush _ _ | .setBias _ _ _ | .biasFlip _ _ .device => True

theorem Outcome.consistent_iff (outcome : state.Outcome state' c) (consistent : state.Consistent) :
    state'.Consistent ↔ ∀ key, c.Covers key →
      ∀ entry ∈ (c.ops state.enabled).foldl (apply key) (state.snoopFilter key), entry.Consistent := by
  refine forall_congr' fun key => ?_
  rw [outcome.filter]
  by_cases covered : c.Covers key
  · rw [if_pos covered]
    exact ⟨fun all _ => all, fun all => all covered⟩
  · rw [if_neg covered]
    exact iff_of_true (consistent key) fun covers => absurd covers covered

theorem flip_device_consistent (consistent : ∀ e ∈ entry, e.Consistent) :
    ∀ e ∈ [flush, .request .clrDevCache .cpu, .bias .device].foldl (apply line) entry, e.Consistent := by
  have flushed : ∀ e ∈ apply line entry .flush, e.Consistent ∧ e.dirty = false := by
    cases entry with
    | none => intro e none; cases none
    | some entry => exact (consistent entry rfl).flush
  refine (bias_consistent_iff line _ .device).mpr ?_
  refine (apply_consistent_iff (fun e member => (flushed e member).1) _).mpr ⟨fun _ => trivial, fun e member _ => ?_⟩
  exact (flushed e member).2

theorem Outcome.keeps_iff (outcome : state.Outcome state' c) (consistent : state.Consistent) :
    state'.Consistent ↔ state.Keeps c := by
  rw [outcome.consistent_iff consistent]
  cases c with
  | coherencyRequest req addr source =>
    simp only [FilterCall.Covers, forall_eq, Keeps, FilterCall.ops]
    cases state.enabled with
    | false => exact iff_of_true (consistent _) fun off => absurd off Bool.false_ne_true
    | true => exact (apply_consistent_iff (consistent _) _).trans ⟨fun keeps _ => keeps, fun keeps => keeps rfl⟩
  | snoopInsert | snoopUpdate =>
    simp only [FilterCall.Covers, forall_eq, Keeps]
    exact apply_consistent_iff (consistent _) _
  | snoopRemove addr =>
    simp only [FilterCall.Covers, forall_eq, Keeps]
    exact (apply_consistent_iff (consistent _) .remove).trans
      (iff_of_true ⟨fun _ => trivial, fun _ _ => trivial⟩ trivial)
  | cacheFlush addr size =>
    refine iff_of_true (fun key _ => ?_) trivial
    rw [FilterCall.ops]
    cases state.enabled with
    | false => exact consistent key
    | true => exact (apply_consistent_iff (consistent key) .flush).mpr ⟨fun _ => trivial, fun _ _ => trivial⟩
  | setBias addr size biasMode =>
    exact iff_of_true (fun key _ => (bias_consistent_iff key _ biasMode).mpr (consistent key)) trivial
  | biasFlip addr size newBias =>
    cases newBias with
    | device =>
      refine iff_of_true (fun key _ => ?_) trivial
      rw [FilterCall.ops]
      cases state.enabled with
      | false => exact (bias_consistent_iff key _ .device).mpr (consistent key)
      | true => exact flip_device_consistent (consistent key)
    | host =>
      simp only [FilterCall.Covers, Keeps, FilterCall.ops]
      cases state.enabled with
      | false =>
        refine iff_of_true (fun key _ => ?_) fun off => absurd off Bool.false_ne_true
        exact (bias_consistent_iff key _ .host).mpr (consistent key)
      | true =>
        simp only [true_imp_iff]
        refine forall₂_congr fun key _ => (bias_consistent_iff key _ .host).trans ?_
        refine (apply_consistent_iff (consistent key) _).trans ⟨fun keeps => keeps.2,
          fun keeps => ⟨fun _ => trivial, keeps⟩⟩

end CXLBARCoherencyState

theorem filterRun_free (initial : CXLBARCoherencyState) (free : initial.lock.held = false) (calls : List FilterCall) :
    ∃ state, filterRun initial calls = some state ∧ state.lock.held = false := by
  refine invariant (I := fun s => ∃ state, s = some state ∧ state.lock.held = false) ?_ ⟨initial, rfl, free⟩ calls
  rintro s c ⟨state, rfl, free⟩
  obtain ⟨state', returns, outcome⟩ := CXLBARCoherencyState.call_outcome free c
  exact ⟨state', returns, by rw [outcome.lock]⟩

theorem filterStep_consistent_iff (state : Option CXLBARCoherencyState) (c : FilterCall)
    (holds : ∃ s, state = some s ∧ s.lock.held = false ∧ s.Consistent) :
    (∃ s, filterStep state c = some s ∧ s.lock.held = false ∧ s.Consistent) ↔
      Before CXLBARCoherencyState.Keeps state c := by
  obtain ⟨s, rfl, free, consistent⟩ := holds
  obtain ⟨s', returns, outcome⟩ := CXLBARCoherencyState.call_outcome free c
  have keeps := outcome.keeps_iff consistent
  rw [filterStep, Option.bind_some, returns]
  constructor
  · rintro ⟨after, same, -, consistent'⟩ before found
    cases same
    exact Option.some.inj found ▸ keeps.mp consistent'
  · intro before
    exact ⟨s', rfl, by rw [outcome.lock], keeps.mpr (before s rfl)⟩

theorem filter_consistent_iff (enabled : Bool) (regions : List CXLBARCoherencyRegion) (calls : List FilterCall) :
    (∀ before, before <+: calls → ∃ state ∈ filterRun { enabled, regions } before, state.Consistent) ↔
      EveryStep filterStep (Before CXLBARCoherencyState.Keeps) (some { enabled, regions }) calls := by
  have start : ∃ s : CXLBARCoherencyState, some { enabled, regions } = some s ∧ s.lock.held = false ∧ s.Consistent :=
    ⟨_, rfl, rfl, fun key entry none => by cases none⟩
  rw [← forall_prefix_iff filterStep_consistent_iff start]
  refine forall₂_congr fun before _ => ?_
  have free := filterRun_free { enabled, regions } rfl before
  constructor
  · rintro ⟨state, returns, consistent⟩
    obtain ⟨state', found, unlocked⟩ := free
    obtain rfl := Option.some.inj (returns.symm.trans found)
    exact ⟨state, returns, unlocked, consistent⟩
  · rintro ⟨state, returns, -, consistent⟩
    exact ⟨state, returns, consistent⟩

def sharedExclusive : List FilterCall :=
  [.coherencyRequest .rdOwn 0 .cpu, .coherencyRequest .rdShared 0 .gpu,
    .coherencyRequest .wrInv 64 .cpu, .coherencyRequest .rdOwn 64 .gpu]

theorem filter_inconsistent_sharedExclusive :
    ∃ state ∈ filterRun {} sharedExclusive,
      (∃ entry ∈ state.entryOf 0, entry.state = .exclusive ∧ entry.domainMask = {.cpu, .gpu}) ∧
        (∃ entry ∈ state.entryOf 64, entry.state = .exclusive ∧ entry.dirty = true) ∧ ¬ state.Consistent := by
  refine ⟨_, rfl, ⟨_, rfl, by decide +kernel, by decide +kernel⟩, ⟨_, rfl, by decide +kernel, by decide +kernel⟩, ?_⟩
  intro consistent
  have sole := (consistent 0 _ rfl).sole (by decide +kernel)
  revert sole
  decide +kernel

end CxlMemSim.Type2
