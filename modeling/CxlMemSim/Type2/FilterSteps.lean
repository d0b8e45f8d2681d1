import CxlMemSim.Lib.Run
import CxlMemSim.Type2.SnoopFilter

/-! A call of the snoop filter for a range goes through its lines one after another, a flip of the bias up to three
times. -/
namespace CxlMemSim.Type2
open CXLBARCoherencyState Function Run StrideLoop FilterCall LineOp List

namespace CXLBARCoherencyState

def InLines (addr size key : UInt64) : Prop :=
  addrToCacheline addr ≤ key ∧ key < addrToCacheline (addr + size + 63) ∧ key.toNat % 64 = 0
deriving Decidable

theorem addrToCacheline_of_aligned {a : UInt64} (aligned : a.toNat % 64 = 0) : addrToCacheline a = a := by
  apply UInt64.toNat_inj.mp
  rw [addrToCacheline_toNat]
  omega

theorem strideLoop_lines_isSome {σ : Type*} (addr size : UInt64) (body : σ → UInt64 → σ) (s : σ) :
    (strideLoop 64 (addrToCacheline (addr + size + 63)) body (2 ^ 58) (addrToCacheline addr) s).isSome := by
  have stop := addrToCacheline_toNat (addr + size + 63)
  have below := (addrToCacheline (addr + size + 63)).toNat_lt
  refine (strideLoop_isSome_iff (by decide) (by decide) _ _).mpr ?_
  rw [show (64 : UInt64).toNat = 64 from rfl, stop]
  rw [stop] at below
  omega

end CXLBARCoherencyState

def rangeLines (addr size : UInt64) : List UInt64 :=
  (visits 64 (addrToCacheline (addr + size + 63)) (2 ^ 58) (addrToCacheline addr)).getD []

theorem visits_rangeLines (addr size : UInt64) :
    visits 64 (addrToCacheline (addr + size + 63)) (2 ^ 58) (addrToCacheline addr) = some (rangeLines addr size) := by
  have ends := strideLoop_lines_isSome addr size (fun (_ : Unit) _ => ()) ()
  rw [strideLoop_eq_foldl, Option.isSome_map] at ends
  obtain ⟨lines, visited⟩ := Option.isSome_iff_exists.mp ends
  rw [rangeLines, visited, Option.getD_some]

variable {addr size key : UInt64}

theorem mem_rangeLines : key ∈ rangeLines addr size ↔ InLines addr size key := by
  have start : (addrToCacheline addr).toNat % (64 : UInt64).toNat = 0 := by
    rw [addrToCacheline_toNat]
    exact Nat.mul_mod_left _ _
  have members := (visits_spec (by decide) (visits_rangeLines addr size)).2 key
  rw [start] at members
  exact members

theorem rangeLines_nodup (addr size : UInt64) : (rangeLines addr size).Nodup :=
  (visits_spec (by decide) (visits_rangeLines addr size)).1.imp UInt64.ne_of_lt

theorem addrToCacheline_of_mem (member : key ∈ rangeLines addr size) : addrToCacheline key = key :=
  addrToCacheline_of_aligned (mem_rangeLines.mp member).2.2

def Overlaps (addr size line : UInt64) : Prop :=
  line.toNat % 64 = 0 ∧ ∃ byte, addr.toNat ≤ byte ∧ byte < addr.toNat + size.toNat ∧
    line.toNat ≤ byte ∧ byte < line.toNat + 64

theorem overlaps_iff {line : UInt64} :
    Overlaps addr size line ↔ line.toNat % 64 = 0 ∧ 0 < size.toNat ∧ line.toNat < addr.toNat + size.toNat ∧
      addr.toNat < line.toNat + 64 := by
  refine and_congr_right fun _ => ⟨?_, ?_⟩
  · rintro ⟨byte, low, high, inside, below⟩
    omega
  · rintro ⟨some, high, low⟩
    exact ⟨max addr.toNat line.toNat, by omega, by omega, by omega, by omega⟩

instance (addr size line : UInt64) : Decidable (Overlaps addr size line) := decidable_of_iff' _ overlaps_iff

theorem addrToCacheline_end_toNat (addr size : UInt64) :
    (addrToCacheline (addr + size + 63)).toNat = (addr.toNat + size.toNat + 63) % 2 ^ 64 / 64 * 64 := by
  have sixtyThree : (63 : UInt64).toNat = 63 := rfl
  rw [addrToCacheline_toNat, UInt64.toNat_add, UInt64.toNat_add, sixtyThree, Nat.mod_add_mod]

theorem inLines_iff :
    InLines addr size key ↔ addr.toNat < key.toNat + 64 ∧
      key.toNat + 64 ≤ (addr.toNat + size.toNat + 63) % 2 ^ 64 / 64 * 64 ∧ key.toNat % 64 = 0 := by
  rw [InLines, UInt64.le_iff_toNat_le, UInt64.lt_iff_toNat_lt, addrToCacheline_end_toNat, addrToCacheline_toNat]
  omega

theorem inLines_iff_overlaps (some : 0 < size.toNat) (fits : addr.toNat + size.toNat + 63 < 2 ^ 64) (key : UInt64) :
    InLines addr size key ↔ Overlaps addr size key := by
  rw [inLines_iff, overlaps_iff, Nat.mod_eq_of_lt fits]
  omega

namespace CXLBARCoherencyState

theorem forLines_eq (state : CXLBARCoherencyState) (addr size : UInt64)
    (body : CXLBARCoherencyState → UInt64 → CXLBARCoherencyState) :
    state.forLines addr size body = some ((rangeLines addr size).foldl body state) := by
  rw [forLines, strideLoop_eq_foldl, visits_rangeLines, Option.map_some]

end CXLBARCoherencyState

inductive FilterStep where
  | request (req : CXLCoherencyReqType) (addr : UInt64) (source : CXLCoherencyDomain)
  | insert (addr : UInt64) (stateVal : CXLCoherencyState) (domain : CXLCoherencyDomain)
  | update (addr : UInt64) (newState : CXLCoherencyState) (domain : CXLCoherencyDomain)
  | remove (addr : UInt64)
  | flushLine (a : UInt64)
  | biasLine (mode : BiasMode) (a : UInt64)
  | lock
  | unlock
  | countFlip

def CXLBARCoherencyState.step (state : CXLBARCoherencyState) : FilterStep → CXLBARCoherencyState
  | .request req addr source => (state.coherencyRequest req addr source).1
  | .insert addr stateVal domain => state.snoopInsert addr stateVal domain
  | .update addr newState domain => state.snoopUpdate addr newState domain
  | .remove addr => state.snoopRemove addr
  | .flushLine a => state.flushLine a
  | .biasLine mode a => CXLBARCoherencyState.biasLine mode state a
  | .lock => state.acquire
  | .unlock => state.release
  | .countFlip =>
    { state.acquire with stats := { state.stats with biasFlips := state.stats.biasFlips + 1 } }.release

namespace FilterCall

def flushSteps (enabled : Bool) (addr size : UInt64) : List FilterStep :=
  if enabled then .lock :: ((rangeLines addr size).map .flushLine ++ [.unlock]) else []

def biasSteps (addr size : UInt64) (mode : BiasMode) : List FilterStep :=
  .lock :: ((rangeLines addr size).map (.biasLine mode) ++ [.unlock])

def clearSteps (addr size : UInt64) (source : CXLCoherencyDomain) : List FilterStep :=
  (rangeLines addr size).map fun a => .request .clrDevCache a source

def steps (enabled : Bool) : FilterCall → List FilterStep
  | .coherencyRequest req addr source => [.request req addr source]
  | .snoopInsert addr stateVal domain => [.insert addr stateVal domain]
  | .snoopUpdate addr newState domain => [.update addr newState domain]
  | .snoopRemove addr => [.remove addr]
  | .cacheFlush addr size => flushSteps enabled addr size
  | .setBias addr size mode => biasSteps addr size mode
  | .biasFlip addr size .device =>
    flushSteps enabled addr size ++ clearSteps addr size .cpu ++ biasSteps addr size .device ++ [.countFlip]
  | .biasFlip addr size .host => clearSteps addr size .gpu ++ biasSteps addr size .host ++ [.countFlip]

end FilterCall

namespace CXLBARCoherencyState
variable (state : CXLBARCoherencyState)

theorem cacheFlush_eq_steps (addr size : UInt64) :
    state.cacheFlush addr size = some ((flushSteps state.enabled addr size).foldl step state) := by
  rw [cacheFlush, flushSteps]
  split
  · rw [forLines_eq, Option.map_some, foldl_cons, foldl_append, foldl_map]
    rfl
  · rfl

theorem setBias_eq_steps (addr size : UInt64) (mode : BiasMode) :
    state.setBias addr size mode = some ((biasSteps addr size mode).foldl step state) := by
  rw [setBias, biasSteps, forLines_eq, Option.map_some, foldl_cons, foldl_append, foldl_map]
  rfl

theorem clearLines_eq_steps (addr size : UInt64) (source : CXLCoherencyDomain) :
    state.forLines addr size (clearLine source) = some ((clearSteps addr size source).foldl step state) := by
  rw [clearSteps, forLines_eq, foldl_map]
  rfl

theorem call_eq_steps (c : FilterCall) : state.call c = some ((c.steps state.enabled).foldl step state) := by
  cases c with
  | coherencyRequest | snoopInsert | snoopUpdate | snoopRemove => rfl
  | cacheFlush addr size => exact state.cacheFlush_eq_steps addr size
  | setBias addr size mode => exact state.setBias_eq_steps addr size mode
  | biasFlip addr size newBias =>
    cases newBias with
    | device =>
      simp only [call, biasFlip, cacheFlush_eq_steps, clearLines_eq_steps, setBias_eq_steps, Option.bind_eq_bind,
        Option.bind_some, steps, foldl_append]
      rfl
    | host =>
      simp only [call, biasFlip, clearLines_eq_steps, setBias_eq_steps, Option.bind_eq_bind, Option.bind_some,
        steps, foldl_append]
      rfl

end CXLBARCoherencyState

def FilterStep.turn (enabled : Bool) : FilterStep → Option (UInt64 × LineOp)
  | .request req addr source => if enabled then some (addrToCacheline addr, .request req source) else none
  | .insert addr stateVal domain => some (addrToCacheline addr, .insert stateVal domain)
  | .update addr newState domain => some (addrToCacheline addr, .update newState domain)
  | .remove addr => some (addrToCacheline addr, .remove)
  | .flushLine a => some (addrToCacheline a, .flush)
  | .biasLine mode a => some (addrToCacheline a, .bias mode)
  | .lock | .unlock | .countFlip => none

variable {line : UInt64} {op : LineOp} {i : FilterStep} {enabled : Bool}

namespace CXLBARCoherencyState
variable {state state' : CXLBARCoherencyState}

structure Effect (state state' : CXLBARCoherencyState) (line : UInt64) (op : LineOp) : Prop extends
    Counts state state' (state.snoopFilter line) (op.apply line (state.snoopFilter line))
      ((state.snoopFilter line).any fun entry => op.writesBack entry) where
  filter : state'.snoopFilter = update state.snoopFilter line (op.apply line (state.snoopFilter line))
  enabled : state'.enabled = state.enabled

theorem Does.effect {again : Bool} (does : state.Does state' addr op again) :
    state.Effect state' (addrToCacheline addr) op :=
  ⟨does.counts, does.sets.filter, does.sets.enabled⟩

theorem coherencyRequest_effect {source : CXLCoherencyDomain} (enabled : state.enabled = true)
    (req : CXLCoherencyReqType) :
    state.Effect (state.coherencyRequest req addr source).1 (addrToCacheline addr) (.request req source) := by
  obtain ⟨⟨size, evictions, writebacks⟩, filter, same⟩ := (coherencyRequest_does addr source enabled req).effect
  exact ⟨⟨size, evictions, writebacks⟩, filter, same⟩

theorem flushLine_effect (a : UInt64) : state.Effect (state.flushLine a) (addrToCacheline a) .flush := by
  rw [flushLine]
  cases found : state.snoopFilter (addrToCacheline a) with
  | none =>
    refine ⟨?_, ?_, rfl⟩ <;> rw [found]
    · exact ⟨rfl, rfl, rfl⟩
    · exact (update_eq_self_iff.mpr found.symm).symm
  | some entry =>
    refine ⟨?_, ?_, ?_⟩ <;> simp only [found, apply, change, writesBack, Option.any_some]
    · cases entry.dirty <;> exact ⟨rfl, rfl, rfl⟩
    · cases entry.dirty with
      | true => rfl
      | false => exact (update_eq_self_iff.mpr found.symm).symm
    · cases entry.dirty <;> rfl

theorem biasLine_effect {a : UInt64} (aligned : a.toNat % 64 = 0) (mode : BiasMode) :
    state.Effect (biasLine mode state a) (addrToCacheline a) (.bias mode) := by
  rw [biasLine]
  cases found : state.snoopFilter (addrToCacheline a) with
  | none =>
    refine ⟨?_, ?_, rfl⟩ <;> rw [found]
    · exact ⟨rfl, rfl, rfl⟩
    · simp only [setEntry, apply, create, addrToCacheline_of_aligned aligned]
  | some entry =>
    refine ⟨?_, ?_, rfl⟩ <;> rw [found]
    · exact ⟨rfl, rfl, rfl⟩
    · rfl

end CXLBARCoherencyState

def FilterStep.Aligned : FilterStep → Prop
  | .flushLine a | .biasLine _ a => a.toNat % 64 = 0
  | .request _ _ _ | .insert _ _ _ | .update _ _ _ | .remove _ | .lock | .unlock | .countFlip => True

theorem FilterCall.steps_aligned {c : FilterCall} (member : i ∈ c.steps enabled) : i.Aligned := by
  have inRange : ∀ {addr size a : UInt64}, a ∈ rangeLines addr size → a.toNat % 64 = 0 :=
    fun member => (mem_rangeLines.mp member).2.2
  have flush : ∀ {addr size : UInt64}, i ∈ flushSteps enabled addr size → i.Aligned := by
    intro addr size member
    rw [flushSteps] at member
    split at member
    · simp only [mem_cons, mem_append, mem_map, not_mem_nil, or_false] at member
      obtain rfl | ⟨a, inside, rfl⟩ | rfl := member
      · trivial
      · exact inRange inside
      · trivial
    · cases member
  have bias : ∀ {addr size : UInt64} {mode : BiasMode}, i ∈ biasSteps addr size mode → i.Aligned := by
    intro addr size mode member
    simp only [biasSteps, mem_cons, mem_append, mem_map, not_mem_nil, or_false] at member
    obtain rfl | ⟨a, inside, rfl⟩ | rfl := member
    · trivial
    · exact inRange inside
    · trivial
  have clear : ∀ {addr size : UInt64} {source : CXLCoherencyDomain}, i ∈ clearSteps addr size source → i.Aligned := by
    intro addr size source member
    obtain ⟨a, -, rfl⟩ := mem_map.mp member
    trivial
  cases c with
  | coherencyRequest | snoopInsert | snoopUpdate | snoopRemove =>
    obtain rfl := mem_singleton.mp member
    trivial
  | cacheFlush addr size => exact flush member
  | setBias addr size mode => exact bias member
  | biasFlip addr size newBias =>
    cases newBias with
    | device =>
      simp only [steps, mem_append, mem_singleton] at member
      obtain ((member | member) | member) | rfl := member
      · exact flush member
      · exact clear member
      · exact bias member
      · trivial
    | host =>
      simp only [steps, mem_append, mem_singleton] at member
      obtain (member | member) | rfl := member
      · exact clear member
      · exact bias member
      · trivial

namespace CXLBARCoherencyState
variable {state : CXLBARCoherencyState}

theorem step_effect (aligned : i.Aligned)
    (turn : i.turn state.enabled = some (line, op)) : state.Effect (state.step i) line op := by
  cases i with
  | request req addr source =>
    rw [FilterStep.turn] at turn
    split at turn
    · rename_i enabled
      cases turn
      exact coherencyRequest_effect enabled req
    · cases turn
  | insert addr stateVal domain =>
    cases turn
    exact (state.snoopInsert_does addr stateVal domain).effect
  | update addr newState domain =>
    cases turn
    exact (state.snoopUpdate_does addr newState domain).effect
  | remove addr =>
    cases turn
    exact (state.snoopRemove_does addr).effect
  | flushLine a =>
    cases turn
    exact flushLine_effect a
  | biasLine mode a =>
    cases turn
    exact biasLine_effect aligned mode
  | lock | unlock | countFlip => cases turn

structure Idle (state state' : CXLBARCoherencyState) : Prop where
  filter : state'.snoopFilter = state.snoopFilter
  size : state'.snoopFilterSize = state.snoopFilterSize
  evictions : state'.stats.evictions = state.stats.evictions
  writebacks : state'.stats.writebacks = state.stats.writebacks
  enabled : state'.enabled = state.enabled

theorem step_idle (turn : i.turn state.enabled = none) : state.Idle (state.step i) := by
  cases i with
  | request req addr source =>
    rw [FilterStep.turn] at turn
    split at turn
    · cases turn
    · rename_i off
      rw [step, coherencyRequest, if_neg off]
      exact ⟨rfl, rfl, rfl, rfl, rfl⟩
  | insert | update | remove | flushLine | biasLine => cases turn
  | lock | unlock | countFlip => exact ⟨rfl, rfl, rfl, rfl, rfl⟩

theorem step_enabled (aligned : i.Aligned) : (state.step i).enabled = state.enabled := by
  cases turn : i.turn state.enabled with
  | none => exact (step_idle turn).enabled
  | some lineOp =>
    obtain ⟨line, op⟩ := lineOp
    exact (step_effect aligned turn).enabled

theorem foldl_steps_enabled {steps : List FilterStep} (aligned : ∀ i ∈ steps, i.Aligned) :
    (steps.foldl step state).enabled = state.enabled := by
  induction steps generalizing state with
  | nil => rfl
  | cons i steps ih =>
    obtain ⟨here, rest⟩ := forall_mem_cons.mp aligned
    exact (ih rest).trans (step_enabled here)

theorem step_filter (aligned : i.Aligned) (op : Option LineOp)
    (turn : i.turn state.enabled = op.map fun op => (line, op)) :
    (state.step i).snoopFilter = update state.snoopFilter line
      (op.elim (state.snoopFilter line) (apply line (state.snoopFilter line))) := by
  cases op with
  | none => exact (step_idle turn).filter.trans (update_eq_self line _).symm
  | some op => exact (step_effect aligned turn).filter

theorem foldl_lines_filter (toStep : UInt64 → FilterStep) (op : Option LineOp)
    (turn : ∀ a, (toStep a).turn state.enabled = op.map fun op => (addrToCacheline a, op))
    (aligned : ∀ a, a.toNat % 64 = 0 → (toStep a).Aligned) (addr size key : UInt64) :
    (((rangeLines addr size).map toStep).foldl step state).snoopFilter key =
      if InLines addr size key then op.elim (state.snoopFilter key) (apply key (state.snoopFilter key))
      else state.snoopFilter key := by
  have inLine : ∀ a ∈ rangeLines addr size, (toStep a).Aligned :=
    fun a member => aligned a (mem_rangeLines.mp member).2.2
  have changes : ∀ s : CXLBARCoherencyState, ∀ a ∈ rangeLines addr size, s.enabled = state.enabled →
      (s.step (toStep a)).snoopFilter =
        update s.snoopFilter a (op.elim (s.snoopFilter a) (apply a (s.snoopFilter a))) := by
    intro s a member same
    rw [step_filter (inLine a member) op (same ▸ turn a), addrToCacheline_of_mem member]
  rw [foldl_map, foldl_pointwise (I := fun s => s.enabled = state.enabled)
    (f := fun key entry => op.elim entry (apply key entry)) snoopFilter
    (fun s a member same => (step_enabled (inLine a member)).trans same) (rangeLines_nodup addr size) changes rfl key]
  exact if_congr mem_rangeLines rfl rfl

variable (state) (addr size : UInt64)

theorem flushSteps_filter (key : UInt64) :
    ((flushSteps state.enabled addr size).foldl step state).snoopFilter key =
      if InLines addr size key then
        if state.enabled then apply key (state.snoopFilter key) .flush else state.snoopFilter key
      else state.snoopFilter key := by
  rw [flushSteps]
  cases state.enabled with
  | false => simp
  | true =>
    rw [if_pos rfl, foldl_cons, foldl_append]
    exact foldl_lines_filter .flushLine (some .flush) (fun a => rfl) (fun a aligned => aligned) addr size key

theorem flushSteps_enabled : ((flushSteps state.enabled addr size).foldl step state).enabled = state.enabled := by
  refine foldl_steps_enabled fun i member => ?_
  exact FilterCall.steps_aligned (show i ∈ (FilterCall.cacheFlush addr size).steps state.enabled from member)

theorem clearSteps_filter (source : CXLCoherencyDomain) (key : UInt64) :
    ((clearSteps addr size source).foldl step state).snoopFilter key =
      if InLines addr size key then
        if state.enabled then apply key (state.snoopFilter key) (.request .clrDevCache source)
        else state.snoopFilter key
      else state.snoopFilter key := by
  refine (foldl_lines_filter (fun a => .request .clrDevCache a source)
    (if state.enabled then some (.request .clrDevCache source) else none) (fun a => ?_) (fun a _ => trivial) addr size
    key).trans ?_
  · rw [FilterStep.turn]
    split <;> rfl
  · cases state.enabled <;> rfl

theorem biasSteps_filter (mode : BiasMode) (key : UInt64) :
    ((biasSteps addr size mode).foldl step state).snoopFilter key =
      if InLines addr size key then apply key (state.snoopFilter key) (.bias mode)
      else state.snoopFilter key := by
  rw [biasSteps, foldl_cons, foldl_append]
  exact foldl_lines_filter (.biasLine mode) (some (.bias mode)) (fun a => rfl) (fun a aligned => aligned) addr size key

end CXLBARCoherencyState

namespace FilterCall

def Covers (key : UInt64) : FilterCall → Prop
  | .coherencyRequest _ addr _ | .snoopInsert addr _ _ | .snoopUpdate addr _ _ | .snoopRemove addr =>
    key = addrToCacheline addr
  | .cacheFlush addr size | .setBias addr size _ | .biasFlip addr size _ =>
    CXLBARCoherencyState.InLines addr size key

instance (key : UInt64) : (c : FilterCall) → Decidable (c.Covers key)
  | .coherencyRequest .. | .snoopInsert .. | .snoopUpdate .. | .snoopRemove .. => inferInstanceAs (Decidable (_ = _))
  | .cacheFlush .. | .setBias .. | .biasFlip .. => inferInstanceAs (Decidable (_ ∧ _ ∧ _))

def ops (enabled : Bool) : FilterCall → List LineOp
  | .coherencyRequest req _ source => if enabled then [.request req source] else []
  | .snoopInsert _ stateVal domain => [.insert stateVal domain]
  | .snoopUpdate _ newState domain => [.update newState domain]
  | .snoopRemove _ => [.remove]
  | .cacheFlush _ _ => if enabled then [.flush] else []
  | .setBias _ _ mode => [.bias mode]
  | .biasFlip _ _ .device => if enabled then [.flush, .request .clrDevCache .cpu, .bias .device] else [.bias .device]
  | .biasFlip _ _ .host => if enabled then [.request .clrDevCache .gpu, .bias .host] else [.bias .host]

def takesAgain (state : CXLBARCoherencyState) : FilterCall → Bool
  | .coherencyRequest req addr source => state.enabled && req.takesAgain (state.entryOf addr) source
  | _ => false

end FilterCall

namespace CXLBARCoherencyState
variable {state state' : CXLBARCoherencyState} {toStep : UInt64 → FilterStep}

structure Outcome (state state' : CXLBARCoherencyState) (c : FilterCall) : Prop where
  filter : ∀ key, state'.snoopFilter key =
    if c.Covers key then (c.ops state.enabled).foldl (apply key) (state.snoopFilter key)
    else state.snoopFilter key
  lock : state'.lock = ⟨false, state.lock.relocked || c.takesAgain state⟩
  enabled : state'.enabled = state.enabled
  regions : state'.regions = state.regions

theorem line_filter (i : FilterStep) (aligned : i.Aligned) (op : Option LineOp)
    (turn : i.turn state.enabled = op.map fun op => (line, op)) (key : UInt64) :
    (state.step i).snoopFilter key =
      if key = line then op.elim (state.snoopFilter key) (apply key (state.snoopFilter key))
      else state.snoopFilter key := by
  rw [step_filter aligned op turn, update_apply]
  split
  · rename_i here
    rw [here]
  · rfl

theorem call_filter (c : FilterCall) (key : UInt64) :
    ((c.steps state.enabled).foldl step state).snoopFilter key =
      if c.Covers key then (c.ops state.enabled).foldl (apply key) (state.snoopFilter key)
      else state.snoopFilter key := by
  cases c with
  | coherencyRequest req addr source =>
    have turn : (FilterStep.request req addr source).turn state.enabled =
        (if state.enabled then some (.request req source) else none).map fun op => (addrToCacheline addr, op) := by
      rw [FilterStep.turn]
      split <;> rfl
    refine (line_filter (.request req addr source) trivial _ turn key).trans ?_
    rw [ops]
    cases state.enabled <;> rfl
  | snoopInsert addr stateVal domain =>
    exact line_filter (.insert addr stateVal domain) trivial (some (.insert stateVal domain)) rfl key
  | snoopUpdate addr newState domain =>
    exact line_filter (.update addr newState domain) trivial (some (.update newState domain)) rfl key
  | snoopRemove addr => exact line_filter (.remove addr) trivial (some .remove) rfl key
  | cacheFlush addr size =>
    refine (flushSteps_filter state addr size key).trans ?_
    rw [ops]
    cases state.enabled <;> rfl
  | setBias addr size mode => exact biasSteps_filter state addr size mode key
  | biasFlip addr size newBias =>
    have counted : ∀ s : CXLBARCoherencyState, ([.countFlip].foldl step s).snoopFilter = s.snoopFilter := fun _ => rfl
    change _ = if InLines addr size key then _ else _
    cases newBias with
    | device =>
      rw [steps, foldl_append, foldl_append, foldl_append, counted, biasSteps_filter,
        clearSteps_filter, flushSteps_enabled, flushSteps_filter, ops]
      cases state.enabled <;> split <;> rfl
    | host =>
      rw [steps, foldl_append, foldl_append, counted, biasSteps_filter, clearSteps_filter, ops]
      cases state.enabled <;> split <;> rfl

structure Still (state state' : CXLBARCoherencyState) : Prop where
  lock : state'.lock = state.lock
  regions : state'.regions = state.regions

theorem Still.trans {state'' : CXLBARCoherencyState} (first : state.Still state') (second : state'.Still state'') :
    state.Still state'' :=
  ⟨second.lock.trans first.lock, second.regions.trans first.regions⟩

theorem Still.free (still : state.Still state') (free : state.lock.held = false) : state'.lock.held = false :=
  still.lock ▸ free

theorem Does.still (does : state.Does state' addr op state.lock.held) (free : state.lock.held = false) :
    state.Still state' := by
  refine ⟨?_, does.sets.regions⟩
  rw [does.sets.lock, free, Bool.or_false, ← free]

theorem foldl_still
    (still : ∀ (s : CXLBARCoherencyState) a, s.lock = state.lock → s.Still (s.step (toStep a))) (lines : List UInt64) :
    state.Still ((lines.map toStep).foldl step state) := by
  rw [foldl_map]
  refine invariant (I := state.Still) (fun s a before => ?_) ⟨rfl, rfl⟩ lines
  exact before.trans (still s a before.lock)

variable (free : state.lock.held = false) (addr size : UInt64)
include free

theorem locked_still (still : ∀ s a, Still s (s.step (toStep a))) (lines : List UInt64) :
    state.Still ((.lock :: (lines.map toStep ++ [.unlock])).foldl step state) := by
  rw [foldl_cons, foldl_append]
  have inner : state.acquire.Still ((lines.map toStep).foldl step state.acquire) :=
    foldl_still (fun s a _ => still s a) lines
  refine ⟨?_, inner.regions⟩
  change (release _).lock = _
  rw [release, step, inner.lock]
  exact relock_free free

theorem flushSteps_still (enabled : Bool) : state.Still ((flushSteps enabled addr size).foldl step state) := by
  rw [flushSteps]
  split
  · refine locked_still free (fun s a => ?_) _
    rw [step, flushLine]
    split
    · exact ⟨rfl, rfl⟩
    · split <;> exact ⟨rfl, rfl⟩
  · exact ⟨rfl, rfl⟩

theorem biasSteps_still (mode : BiasMode) : state.Still ((biasSteps addr size mode).foldl step state) := by
  refine locked_still free (fun s a => ?_) _
  rw [step, biasLine]
  split <;> exact ⟨rfl, rfl⟩

theorem clearSteps_still (source : CXLCoherencyDomain) :
    state.Still ((clearSteps addr size source).foldl step state) := by
  refine foldl_still (fun s a same => ?_) _
  have unlocked : s.lock.held = false := same ▸ free
  obtain ⟨-, lock, -, regions⟩ := coherencyRequest_sets a source unlocked .clrDevCache
  refine ⟨?_, regions⟩
  rw [step, lock, CXLCoherencyReqType.takesAgain, Bool.and_false, Bool.or_false, ← unlocked]

theorem countFlip_still : state.Still (state.step .countFlip) :=
  ⟨relock_free free, rfl⟩

theorem biasFlip_still (enabled : Bool) (newBias : BiasMode) :
    state.Still (((FilterCall.biasFlip addr size newBias).steps enabled).foldl step state) := by
  cases newBias with
  | device =>
    rw [FilterCall.steps, foldl_append, foldl_append, foldl_append]
    have flushed := flushSteps_still free addr size enabled
    have cleared := flushed.trans (clearSteps_still (flushed.free free) addr size .cpu)
    have biased := cleared.trans (biasSteps_still (cleared.free free) addr size .device)
    exact biased.trans (countFlip_still (biased.free free))
  | host =>
    rw [FilterCall.steps, foldl_append, foldl_append]
    have cleared := clearSteps_still free addr size .gpu
    have biased := cleared.trans (biasSteps_still (cleared.free free) addr size .host)
    exact biased.trans (countFlip_still (biased.free free))

theorem Still.lock_eq (still : state.Still state') :
    state'.lock = ⟨false, state.lock.relocked || false⟩ ∧ state'.regions = state.regions := by
  refine ⟨?_, still.regions⟩
  rw [still.lock, Bool.or_false, ← free]

theorem call_lock (c : FilterCall) :
    ((c.steps state.enabled).foldl step state).lock = ⟨false, state.lock.relocked || c.takesAgain state⟩ ∧
      ((c.steps state.enabled).foldl step state).regions = state.regions := by
  cases c with
  | coherencyRequest req addr source =>
    have sets := coherencyRequest_sets addr source free req
    exact ⟨sets.lock, sets.regions⟩
  | snoopInsert addr stateVal domain => exact ((state.snoopInsert_does addr stateVal domain).still free).lock_eq free
  | snoopUpdate addr newState domain => exact ((state.snoopUpdate_does addr newState domain).still free).lock_eq free
  | snoopRemove addr => exact ((state.snoopRemove_does addr).still free).lock_eq free
  | cacheFlush addr size => exact (flushSteps_still free addr size state.enabled).lock_eq free
  | setBias addr size mode => exact (biasSteps_still free addr size mode).lock_eq free
  | biasFlip addr size newBias => exact (biasFlip_still free addr size state.enabled newBias).lock_eq free

theorem call_outcome (c : FilterCall) : ∃ state', state.call c = some state' ∧ state.Outcome state' c :=
  ⟨_, state.call_eq_steps c, call_filter c, (call_lock free c).1, foldl_steps_enabled fun _ => steps_aligned,
    (call_lock free c).2⟩

end CXLBARCoherencyState

def filterStep (state : Option CXLBARCoherencyState) (c : FilterCall) : Option CXLBARCoherencyState :=
  state.bind (·.call c)

def filterRun (initial : CXLBARCoherencyState) (calls : List FilterCall) : Option CXLBARCoherencyState :=
  calls.foldl filterStep (some initial)

def runSteps (enabled : Bool) (calls : List FilterCall) : List FilterStep := calls.flatMap (steps enabled)

theorem runSteps_aligned {calls : List FilterCall} (member : i ∈ runSteps enabled calls) : i.Aligned := by
  obtain ⟨c, -, inCall⟩ := mem_flatMap.mp member
  exact steps_aligned inCall

theorem filterRun_eq_steps (initial : CXLBARCoherencyState) (calls : List FilterCall) :
    filterRun initial calls = some ((runSteps initial.enabled calls).foldl CXLBARCoherencyState.step initial) := by
  induction calls generalizing initial with
  | nil => rfl
  | cons c calls ih =>
    have same : ((c.steps initial.enabled).foldl CXLBARCoherencyState.step initial).enabled = initial.enabled :=
      foldl_steps_enabled fun i => steps_aligned
    rw [filterRun, foldl_cons, filterStep, Option.bind_some, call_eq_steps]
    refine (ih _).trans ?_
    rw [same, runSteps, runSteps, flatMap_cons, foldl_append]

end CxlMemSim.Type2
