import CxlMemSim.Type2.FilterSteps

/-! A flip should take the lines of a range from the domain that has been their home and give them to the other one. -/
namespace CxlMemSim.Type2
open StrideLoop CXLBARCoherencyState LineOp

def domainsOf (entry : Option CXLSnoopEntry) : Finset CXLCoherencyDomain := (entry.map (·.domainMask)).getD ∅

def biasOf (entry : Option CXLSnoopEntry) : BiasMode := (entry.map (·.biasMode)).getD .host

def CXLBARCoherencyState.getBias (state : CXLBARCoherencyState) (addr : UInt64) : BiasMode :=
  biasOf (state.entryOf addr)

def BiasMode.former : BiasMode → CXLCoherencyDomain
  | .device => .cpu
  | .host => .gpu

structure Flipped (before after : CXLBARCoherencyState) (addr size : UInt64) (newBias : BiasMode) : Prop where
  taken : ∀ line, Overlaps addr size line → newBias.former ∉ domainsOf (after.entryOf line)
  biased : ∀ line, Overlaps addr size line → after.getBias line = newBias
  others : ∀ line, ¬ Overlaps addr size line → after.snoopFilter line = before.snoopFilter line

def Undisturbed (enabled : Bool) (newBias : BiasMode) (entry : Option CXLSnoopEntry) : Prop :=
  ∃ e ∈ entry, e.biasMode = newBias ∧
    (enabled = true → .gpu ∉ e.domainMask ∧ (newBias = .device → e.dirty = false))

/-- An empty range has its first line visited where it starts inside of one; the end of a range in the last
line of the address space cannot be rounded up, and no line is visited. -/
def CXLBARCoherencyState.Flippable (state : CXLBARCoherencyState) (addr size : UInt64) (newBias : BiasMode) : Prop :=
  if size = 0 then
    addr.toNat % 64 = 0 ∨ 2 ^ 64 ≤ addr.toNat + 63 ∨ Undisturbed state.enabled newBias (state.entryOf addr)
  else if addr.toNat + size.toNat + 63 < 2 ^ 64 then
    (newBias = .host ∧ state.enabled = true) ∨
      ∀ line, Overlaps addr size line → newBias.former ∉ domainsOf (state.entryOf line)
  else ∀ line, Overlaps addr size line →
    newBias.former ∉ domainsOf (state.entryOf line) ∧ state.getBias line = newBias

section
variable (enabled : Bool) (newBias : BiasMode) (key : UInt64) (entry : Option CXLSnoopEntry)

def flipLine : Option CXLSnoopEntry :=
  ((FilterCall.biasFlip 0 0 newBias).ops enabled).foldl (apply key) entry

theorem biasOf_bias : biasOf (apply key entry (.bias newBias)) = newBias := by
  cases entry <;> rfl

theorem domainsOf_bias : domainsOf (apply key entry (.bias newBias)) = domainsOf entry := by
  cases entry <;> rfl

theorem domainsOf_flush : domainsOf (apply key entry .flush) = domainsOf entry := by
  cases entry with
  | none => rfl
  | some entry =>
    simp only [apply, change]
    split <;> rfl

theorem domainsOf_clear (source : CXLCoherencyDomain) :
    domainsOf (apply key entry (.request .clrDevCache source)) = (domainsOf entry).erase .gpu := by
  cases entry with
  | none => rfl
  | some entry =>
    simp only [apply, change]
    split
    · rfl
    · rename_i absent
      exact (Finset.erase_eq_of_notMem absent).symm

theorem biasOf_flipLine : biasOf (flipLine enabled newBias key entry) = newBias := by
  cases newBias <;> cases enabled <;> exact biasOf_bias _ key _

theorem domainsOf_flipLine :
    domainsOf (flipLine enabled newBias key entry) =
      if enabled then (domainsOf entry).erase .gpu else domainsOf entry := by
  cases enabled with
  | false => cases newBias <;> exact domainsOf_bias _ key entry
  | true =>
    cases newBias with
    | device => exact (domainsOf_bias _ key _).trans ((domainsOf_clear key _ _).trans (by rw [domainsOf_flush]; rfl))
    | host => exact (domainsOf_bias _ key _).trans (domainsOf_clear key _ _)

theorem former_flipLine : newBias.former ∉ domainsOf (flipLine enabled newBias key entry) ↔
    (newBias = .host ∧ enabled = true) ∨ newBias.former ∉ domainsOf entry := by
  rw [domainsOf_flipLine]
  cases newBias <;> cases enabled <;> simp [BiasMode.former]

theorem clean_flipLine : ∀ e ∈ flipLine true .device key entry, e.dirty = false := by
  intro e member
  cases entry with
  | none =>
    cases member
    rfl
  | some entry =>
    simp only [flipLine, FilterCall.ops, if_true, List.foldl_cons, List.foldl_nil, apply, change,
      Option.mem_some_iff] at member
    subst member
    split_ifs with dirty <;> simp_all [CXLSnoopEntry.leave]

theorem flipLine_eq_self_iff : flipLine enabled newBias key entry = entry ↔ Undisturbed enabled newBias entry := by
  cases entry with
  | none =>
    refine iff_of_false (fun same => ?_) (by simp [Undisturbed])
    cases newBias <;> cases enabled <;> cases same
  | some entry =>
    constructor
    · intro same
      have biased := biasOf_flipLine enabled newBias key (some entry)
      have domains := domainsOf_flipLine enabled newBias key (some entry)
      have clean := clean_flipLine key (some entry)
      rw [same] at biased domains
      refine ⟨entry, rfl, biased, ?_⟩
      rintro rfl
      refine ⟨Finset.erase_eq_self.mp domains.symm, ?_⟩
      · rintro rfl
        exact clean entry same
    · rintro ⟨e, found, biased, quiet⟩
      cases found
      have bias : apply key (some entry) (.bias newBias) = some entry := by
        rw [apply, change, ← biased]
      cases enabled with
      | false => cases newBias <;> exact bias
      | true =>
        obtain ⟨absent, clean⟩ := quiet rfl
        have clear : ∀ source, apply key (some entry) (.request .clrDevCache source) = some entry := by
          intro source
          rw [apply, change, if_neg absent]
        cases newBias with
        | host =>
          simp only [flipLine, FilterCall.ops, if_true, List.foldl_cons, List.foldl_nil, clear, bias]
        | device =>
          have flush : apply key (some entry) .flush = some entry := by
            rw [apply, change, clean rfl, if_neg Bool.false_ne_true]
          simp only [flipLine, FilterCall.ops, if_true, List.foldl_cons, List.foldl_nil, flush, clear, bias]

end

section
variable (state : CXLBARCoherencyState) (addr size : UInt64)

theorem biasFlip_lines (newBias : BiasMode) :
    ∃ after, state.biasFlip addr size newBias = some after ∧ ∀ key, after.snoopFilter key =
      if InLines addr size key then flipLine state.enabled newBias key (state.snoopFilter key)
      else state.snoopFilter key := by
  refine ⟨_, state.call_eq_steps (.biasFlip addr size newBias), fun key => ?_⟩
  rw [call_filter]
  cases newBias <;> rfl

end

variable {newBias : BiasMode}

theorem flipped_iff_of_visited {state after : CXLBARCoherencyState} {addr size : UInt64}
    (some : 0 < size.toNat) (fits : addr.toNat + size.toNat + 63 < 2 ^ 64)
    (flipped : ∀ key, after.snoopFilter key =
      if InLines addr size key then flipLine state.enabled newBias key (state.snoopFilter key)
      else state.snoopFilter key) :
    Flipped state after addr size newBias ↔ (newBias = .host ∧ state.enabled = true) ∨
      ∀ line, Overlaps addr size line → newBias.former ∉ domainsOf (state.entryOf line) := by
  simp only [inLines_iff_overlaps some fits] at flipped
  have entry : ∀ line, Overlaps addr size line →
      after.entryOf line = flipLine state.enabled newBias line (state.entryOf line) := by
    intro line overlaps
    rw [entryOf, entryOf, addrToCacheline_of_aligned overlaps.1, flipped, if_pos overlaps]
  constructor
  · intro done
    by_cases host : newBias = .host ∧ state.enabled = true
    · exact .inl host
    · refine .inr fun line overlaps => ?_
      have taken := done.taken line overlaps
      rw [entry line overlaps, former_flipLine] at taken
      exact taken.resolve_left host
  · intro given
    refine ⟨fun line overlaps => ?_, fun line overlaps => ?_, fun line apart => ?_⟩
    · rw [entry line overlaps, former_flipLine]
      exact given.imp_right fun all => all line overlaps
    · rw [getBias, entry line overlaps, biasOf_flipLine]
    · rw [flipped, if_neg apart]

theorem flipped_iff_of_unvisited {state after : CXLBARCoherencyState} {addr size : UInt64}
    (same : after.snoopFilter = state.snoopFilter) :
    Flipped state after addr size newBias ↔ ∀ line, Overlaps addr size line →
      newBias.former ∉ domainsOf (state.entryOf line) ∧ state.getBias line = newBias := by
  have entry : after.entryOf = state.entryOf := by
    funext line
    rw [entryOf, entryOf, same]
  constructor
  · intro done line overlaps
    have taken := done.taken line overlaps
    have biased := done.biased line overlaps
    rw [getBias, entry] at biased
    exact ⟨entry ▸ taken, biased⟩
  · intro given
    refine ⟨fun line overlaps => ?_, fun line overlaps => ?_, fun line _ => by rw [same]⟩
    · rw [entry]
      exact (given line overlaps).1
    · rw [getBias, entry]
      exact (given line overlaps).2

theorem inLines_empty_iff (addr key : UInt64) :
    InLines addr 0 key ↔ addr.toNat % 64 ≠ 0 ∧ addr.toNat + 63 < 2 ^ 64 ∧ key = addrToCacheline addr := by
  have small := addr.toNat_lt
  have zero : (0 : UInt64).toNat = 0 := rfl
  rw [inLines_iff, ← UInt64.toNat_inj, addrToCacheline_toNat, zero]
  omega

theorem flipped_iff_of_empty {state after : CXLBARCoherencyState} {addr : UInt64}
    (flipped : ∀ key, after.snoopFilter key =
      if InLines addr 0 key then flipLine state.enabled newBias key (state.snoopFilter key)
      else state.snoopFilter key) :
    Flipped state after addr 0 newBias ↔ addr.toNat % 64 = 0 ∨ 2 ^ 64 ≤ addr.toNat + 63 ∨
      Undisturbed state.enabled newBias (state.entryOf addr) := by
  have none : ∀ line, ¬ Overlaps addr 0 line := fun line overlaps => Nat.lt_irrefl 0 (overlaps_iff.mp overlaps).2.1
  have same : Flipped state after addr 0 newBias ↔ ∀ key, InLines addr 0 key →
      flipLine state.enabled newBias key (state.snoopFilter key) = state.snoopFilter key := by
    constructor
    · intro done key inside
      have kept := done.others key (none key)
      rw [flipped, if_pos inside] at kept
      exact kept
    · intro given
      refine ⟨fun line overlaps => absurd overlaps (none line), fun line overlaps => absurd overlaps (none line),
        fun line _ => ?_⟩
      rw [flipped]
      split
      · exact given line ‹_›
      · rfl
  simp only [same, flipLine_eq_self_iff, inLines_empty_iff]
  constructor
  · intro kept
    by_cases aligned : addr.toNat % 64 = 0
    · exact .inl aligned
    · by_cases last : 2 ^ 64 ≤ addr.toNat + 63
      · exact .inr (.inl last)
      · exact .inr (.inr (kept _ ⟨aligned, Nat.lt_of_not_le last, rfl⟩))
  · rintro (aligned | last | kept) key ⟨inside, below, rfl⟩
    · exact absurd aligned inside
    · exact absurd last (Nat.not_le_of_lt below)
    · exact kept

theorem bias_flipped_iff (state : CXLBARCoherencyState) (addr size : UInt64) (newBias : BiasMode)
    (inSpace : addr.toNat + size.toNat ≤ 2 ^ 64) :
    ∃ after, state.biasFlip addr size newBias = some after ∧
      (Flipped state after addr size newBias ↔ state.Flippable addr size newBias) := by
  obtain ⟨after, returns, flipped⟩ := biasFlip_lines state addr size newBias
  refine ⟨after, returns, ?_⟩
  rw [Flippable]
  split
  · rename_i empty
    subst empty
    exact flipped_iff_of_empty flipped
  · rename_i some
    have positive : 0 < size.toNat := Nat.pos_of_ne_zero fun zero => some (UInt64.toNat_inj.mp zero)
    split
    · rename_i fits
      exact flipped_iff_of_visited positive fits flipped
    · rename_i past
      refine flipped_iff_of_unvisited (funext fun key => ?_)
      rw [flipped, if_neg]
      rw [inLines_iff]
      omega

def gpuLine : CXLBARCoherencyState where
  snoopFilter := Function.update (fun _ => none) 0 (some { addr := 0, domainMask := {.gpu} })

theorem bias_flipped_gpu_line :
    ∃ after, gpuLine.biasFlip 0 64 .host = some after ∧ Flipped gpuLine after 0 64 .host := by
  obtain ⟨after, returns, done⟩ := bias_flipped_iff gpuLine 0 64 .host (by decide)
  refine ⟨after, returns, done.mpr ?_⟩
  rw [Flippable, if_neg (by decide), if_pos (by decide)]
  exact .inl ⟨rfl, rfl⟩

/-- The CPU's line is tracked, so that no call takes the lock twice. -/
def cpuLine : CXLBARCoherencyState := snoopInsert {} 0 .shared .cpu

theorem not_flipped_cpu_line :
    ∃ after ∈ cpuLine.biasFlip 0 64 .device, after.lock = {} ∧ after.getBias 0 = .device ∧
      .cpu ∈ domainsOf (after.entryOf 0) ∧ ¬ Flipped cpuLine after 0 64 .device := by
  refine ⟨_, rfl, rfl, by decide +kernel, by decide +kernel, fun flipped => ?_⟩
  have taken := flipped.taken 0 (by decide)
  revert taken
  decide +kernel

end CxlMemSim.Type2
