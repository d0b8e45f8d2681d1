import CxlMemSim.Type2.Coherent
import CxlMemSim.Type2.FilterSteps

/-! The guest gives an address and a size of 64 bits each. The cache commands go in steps of 64 from the address up to
the wrapped end; the bias commands round both ends. -/
namespace CxlMemSim.Type2
open StrideLoop CXLBARCoherencyState

inductive RangeCommand where
  | cacheFlush
  | cacheInvalidate
  | cacheWriteback
  | setBias (biasMode : BiasMode)
  | biasFlip (newBias : BiasMode)

namespace RangeCommand

def call (addr size : UInt64) : RangeCommand → Call
  | .cacheFlush => .cacheFlush addr size
  | .cacheInvalidate => .cacheInvalidate addr size
  | .cacheWriteback => .cacheWriteback addr size
  | .setBias biasMode => .setBias addr size biasMode
  | .biasFlip newBias => .biasFlip addr size newBias

def active (ct2d : CXLType2State) : RangeCommand → Bool
  | .cacheFlush => ct2d.coherencyEnabled && ct2d.connected
  | .cacheInvalidate | .cacheWriteback => ct2d.coherencyEnabled
  | .setBias _ | .biasFlip _ => true

/-- The addresses that the loops of the command call their bodies with; `none` for a loop that does not end. -/
def visited (ct2d : CXLType2State) (addr size : UInt64) (c : RangeCommand) : Option (List UInt64) :=
  if c.active ct2d then
    match c with
    | .cacheFlush | .cacheInvalidate | .cacheWriteback => visits 64 (addr + size) (2 ^ 58) addr
    | .setBias _ | .biasFlip _ =>
      visits 64 (addrToCacheline (addr + size + 63)) (2 ^ 58) (addrToCacheline addr)
  else some []

def loopOver (ct2d : CXLType2State) (addrs : List UInt64) : RangeCommand → CXLType2State
  | .cacheFlush | .cacheInvalidate => addrs.foldl CXLType2State.cacheInvalidate ct2d
  | .cacheWriteback => addrs.foldl CXLType2State.cacheWriteback ct2d
  | .setBias biasMode =>
    { ct2d with barCoherency := (addrs.foldl (biasLine biasMode) ct2d.barCoherency.acquire).release }
  | .biasFlip .device =>
    let coh := ct2d.barCoherency
    let coh := if coh.enabled then (addrs.foldl flushLine coh.acquire).release else coh
    let coh := addrs.foldl (clearLine .cpu) coh
    let coh := (addrs.foldl (biasLine .device) coh.acquire).release
    { ct2d with barCoherency := coh.step .countFlip }
  | .biasFlip .host =>
    let coh := addrs.foldl (clearLine .gpu) ct2d.barCoherency
    let coh := (addrs.foldl (biasLine .host) coh.acquire).release
    { ct2d with barCoherency := coh.step .countFlip }

/-- The command ends, and its loops visit the lines that have a byte of the range. -/
def VisitsRange (ct2d : CXLType2State) (addr size : UInt64) (c : RangeCommand) : Prop :=
  ∃ addrs ∈ c.visited ct2d addr size, ∀ line, line ∈ addrs.map addrToCacheline ↔ Overlaps addr size line

/-- A cache command needs its last step in the last line of the range, and that the next one is still an address;
a bias command an end that can be rounded up. -/
def Fits (ct2d : CXLType2State) (addr size : UInt64) (c : RangeCommand) : Prop :=
  match c with
  | .cacheFlush | .cacheInvalidate | .cacheWriteback =>
    size = 0 ∨ c.active ct2d = true ∧ addr.toNat + size.toNat + 64 ≤ 2 ^ 64 + addr.toNat % 64 ∧
      (size.toNat - 1) % 64 + addr.toNat % 64 < 64
  | .setBias _ | .biasFlip _ =>
    if size = 0 then addr.toNat % 64 = 0 ∨ 2 ^ 64 ≤ addr.toNat + 63 else addr.toNat + size.toNat + 63 < 2 ^ 64

theorem guarded_forLines (ct2d : CXLType2State) (on : Bool) (addr size : UInt64)
    (body : CXLType2State → UInt64 → CXLType2State) :
    (if on then ct2d.forLines addr size body else some ct2d) =
      (if on then visits 64 (addr + size) (2 ^ 58) addr else some []).map fun addrs => addrs.foldl body ct2d := by
  cases on
  · rfl
  · exact strideLoop_eq_foldl (2 ^ 58) addr ct2d

theorem exec_eq_over (ct2d : CXLType2State) (addr size : UInt64) (c : RangeCommand) :
    ct2d.exec (c.call addr size) = (c.visited ct2d addr size).map fun addrs => c.loopOver ct2d addrs := by
  cases c with
  | cacheFlush =>
    have guarded := guarded_forLines ct2d (ct2d.coherencyEnabled && ct2d.connected) addr size
      CXLType2State.cacheInvalidate
    simp only [Bool.and_eq_true] at guarded
    simp only [visited, active, Bool.and_eq_true]
    exact guarded
  | cacheInvalidate | cacheWriteback => exact guarded_forLines ct2d _ addr size _
  | setBias biasMode =>
    have lines : visited ct2d addr size (.setBias biasMode) = some (rangeLines addr size) :=
      visits_rangeLines addr size
    rw [lines]
    change (ct2d.barCoherency.setBias addr size biasMode).map _ = _
    rw [CXLBARCoherencyState.setBias, forLines_eq]
    rfl
  | biasFlip newBias =>
    have lines : visited ct2d addr size (.biasFlip newBias) = some (rangeLines addr size) :=
      visits_rangeLines addr size
    rw [lines]
    change (ct2d.barCoherency.biasFlip addr size newBias).map _ = _
    cases newBias with
    | device =>
      simp only [CXLBARCoherencyState.biasFlip, CXLBARCoherencyState.cacheFlush, CXLBARCoherencyState.setBias,
        forLines_eq, loopOver, Option.map_some]
      cases ct2d.barCoherency.enabled <;> rfl
    | host =>
      simp only [CXLBARCoherencyState.biasFlip, CXLBARCoherencyState.setBias, forLines_eq, loopOver]
      rfl

theorem mem_cacheVisits {addr size : UInt64} {addrs : List UInt64}
    (visited : visits 64 (addr + size) (2 ^ 58) addr = some addrs) (line : UInt64) :
    line ∈ addrs.map addrToCacheline ↔ line.toNat % 64 = 0 ∧ addr.toNat ≤ line.toNat + addr.toNat % 64 ∧
      line.toNat + addr.toNat % 64 < (addr.toNat + size.toNat) % 2 ^ 64 := by
  have members := (visits_spec (by decide) visited).2
  have sixtyFour : (64 : UInt64).toNat = 64 := rfl
  rw [List.mem_map]
  constructor
  · rintro ⟨a, member, rfl⟩
    obtain ⟨low, high, same⟩ := (members a).mp member
    rw [UInt64.le_iff_toNat_le] at low
    rw [UInt64.lt_iff_toNat_lt, UInt64.toNat_add] at high
    rw [sixtyFour] at same
    rw [addrToCacheline_toNat]
    omega
  · rintro ⟨aligned, low, high⟩
    have small := line.toNat_lt
    have address : (UInt64.ofNat (line.toNat + addr.toNat % 64)).toNat = line.toNat + addr.toNat % 64 :=
      UInt64.toNat_ofNat_of_lt' (by rw [UInt64.size]; omega)
    refine ⟨UInt64.ofNat (line.toNat + addr.toNat % 64), (members _).mpr ⟨?_, ?_, ?_⟩, ?_⟩
    · rw [UInt64.le_iff_toNat_le, address]
      exact low
    · rw [UInt64.lt_iff_toNat_lt, address, UInt64.toNat_add]
      exact high
    · rw [address, sixtyFour]
      omega
    · apply UInt64.toNat_inj.mp
      rw [addrToCacheline_toNat, address]
      omega

theorem visits_isSome_iff_end (addr size : UInt64) : (visits 64 (addr + size) (2 ^ 58) addr).isSome ↔
    (addr.toNat + size.toNat) % 2 ^ 64 + 64 ≤ 2 ^ 64 + addr.toNat % 64 := by
  rw [visits_isSome_iff (by decide) (by decide), UInt64.toNat_add]
  rfl

theorem cacheVisits_overlap_iff {addr size : UInt64} (some : 0 < size.toNat) :
    (∃ addrs ∈ visits 64 (addr + size) (2 ^ 58) addr,
      ∀ line, line ∈ addrs.map addrToCacheline ↔ Overlaps addr size line) ↔
    addr.toNat + size.toNat + 64 ≤ 2 ^ 64 + addr.toNat % 64 ∧ (size.toNat - 1) % 64 + addr.toNat % 64 < 64 := by
  have small := addr.toNat_lt
  have small' := size.toNat_lt
  constructor
  · rintro ⟨addrs, visited, exact⟩
    have ends := (visits_isSome_iff_end addr size).mp (Option.isSome_of_mem visited)
    have met (line : UInt64) := (mem_cacheVisits visited line).symm.trans ((exact line).trans overlaps_iff)
    -- Without a byte before the wrapped end the line of `addr` would be missed.
    have first := met (addrToCacheline addr)
    rw [addrToCacheline_toNat] at first
    have whole : addr.toNat + size.toNat < 2 ^ 64 := by
      omega
    have last := met (addrToCacheline (addr + size - 1))
    have lastByte : (addr + size - 1).toNat = addr.toNat + size.toNat - 1 := by
      have one : (1 : UInt64).toNat = 1 := rfl
      rw [UInt64.toNat_sub_of_le _ _ (by rw [UInt64.le_iff_toNat_le, UInt64.toNat_add]; omega), UInt64.toNat_add, one]
      omega
    rw [addrToCacheline_toNat, lastByte] at last
    omega
  · rintro ⟨ends, reaches⟩
    have whole : (addr.toNat + size.toNat) % 2 ^ 64 = addr.toNat + size.toNat := Nat.mod_eq_of_lt (by omega)
    obtain ⟨addrs, visited⟩ := Option.isSome_iff_exists.mp
      ((visits_isSome_iff_end addr size).mpr (by rw [whole]; exact ends))
    refine ⟨addrs, visited, fun line => ?_⟩
    rw [mem_cacheVisits visited line, overlaps_iff, whole]
    omega

theorem visits_zero (addr : UInt64) : visits 64 (addr + 0) (2 ^ 58) addr = some [] := by
  have ended : ¬addr < addr + 0 := by
    rw [UInt64.add_zero]
    exact UInt64.lt_irrefl addr
  rw [visits.eq_def]
  exact if_neg ended

theorem not_overlaps_empty (addr line : UInt64) : ¬Overlaps addr 0 line := by
  rw [overlaps_iff]
  have none : (0 : UInt64).toNat = 0 := rfl
  omega

theorem guarded_overlap_iff (on : Bool) (addr size : UInt64) :
    (∃ addrs ∈ if on then visits 64 (addr + size) (2 ^ 58) addr else some [],
      ∀ line, line ∈ addrs.map addrToCacheline ↔ Overlaps addr size line) ↔
    size = 0 ∨ on = true ∧ addr.toNat + size.toNat + 64 ≤ 2 ^ 64 + addr.toNat % 64 ∧
      (size.toNat - 1) % 64 + addr.toNat % 64 < 64 := by
  by_cases empty : size = 0
  · subst empty
    refine iff_of_true ⟨[], ?_, fun line => ?_⟩ (.inl rfl)
    · rw [visits_zero]
      cases on <;> rfl
    · exact iff_of_false List.not_mem_nil (not_overlaps_empty addr line)
  · have some : 0 < size.toNat := Nat.pos_of_ne_zero fun none => empty (UInt64.toNat_inj.mp none)
    cases on with
    | true => simpa [empty] using cacheVisits_overlap_iff some
    | false =>
      refine iff_of_false ?_ (by simp [empty])
      rintro ⟨addrs, visited, exact⟩
      cases visited
      have first : Overlaps addr size (addrToCacheline addr) := by
        rw [overlaps_iff, addrToCacheline_toNat]
        omega
      exact List.not_mem_nil ((exact _).mpr first)

theorem rangeLines_overlap_iff (addr size : UInt64) :
    (∀ line, line ∈ rangeLines addr size ↔ Overlaps addr size line) ↔
    if size = 0 then addr.toNat % 64 = 0 ∨ 2 ^ 64 ≤ addr.toNat + 63 else addr.toNat + size.toNat + 63 < 2 ^ 64 := by
  have small := addr.toNat_lt
  simp only [mem_rangeLines, inLines_iff, overlaps_iff]
  split
  case isTrue empty =>
    have none : size.toNat = 0 := congrArg UInt64.toNat empty
    rw [none]
    constructor
    · intro exact
      have first := exact (addrToCacheline addr)
      rw [addrToCacheline_toNat] at first
      omega
    · intro fits line
      omega
  case isFalse some =>
    have positive : 0 < size.toNat := Nat.pos_of_ne_zero fun none => some (UInt64.toNat_inj.mp none)
    constructor
    · intro exact
      -- No loop gets to the last line of the address space, its end being no address.
      have last := exact (UInt64.ofNat (2 ^ 64 - 64))
      rw [UInt64.toNat_ofNat_of_lt' (by decide)] at last
      omega
    · intro fits line
      rw [Nat.mod_eq_of_lt fits]
      omega

theorem map_rangeLines (addr size : UInt64) : (rangeLines addr size).map addrToCacheline = rangeLines addr size := by
  rw [List.map_congr_left fun _ member => addrToCacheline_of_mem member, List.map_id']

theorem visitsRange_iff (ct2d : CXLType2State) (addr size : UInt64) (c : RangeCommand) :
    c.VisitsRange ct2d addr size ↔ c.Fits ct2d addr size := by
  cases c with
  | cacheFlush | cacheInvalidate | cacheWriteback => exact guarded_overlap_iff _ addr size
  | setBias | biasFlip =>
    refine Iff.trans ?_ (rangeLines_overlap_iff addr size)
    change (∃ addrs ∈ visits 64 (addrToCacheline (addr + size + 63)) (2 ^ 58) (addrToCacheline addr), _) ↔ _
    rw [visits_rangeLines]
    simp only [Option.mem_some_iff, exists_eq_left', map_rangeLines]

theorem range_visited_iff (ct2d : CXLType2State) (addr size : UInt64) (c : RangeCommand) :
    ct2d.exec (c.call addr size) = ((c.visited ct2d addr size).map fun addrs => c.loopOver ct2d addrs) ∧
      (c.VisitsRange ct2d addr size ↔ c.Fits ct2d addr size) :=
  ⟨exec_eq_over ct2d addr size c, visitsRange_iff ct2d addr size c⟩

/-- The step from the last byte of a line passes over the next one; and the loop at the end of the address space does
not end. -/
theorem not_visitsRange_unaligned :
    ¬RangeCommand.cacheInvalidate.VisitsRange (realize { deviceMemSize := 4096, cacheSize := 4096 }) 63 2 ∧
      Overlaps 63 2 64 ∧
      (realize { deviceMemSize := 4096, cacheSize := 4096 }).exec (.cacheInvalidate (-64) 63) = none := by
  refine ⟨?_, by decide, ?_⟩
  · rintro ⟨addrs, visited, exact⟩
    have loop : visits 64 (63 + 2) (2 ^ 58) 63 = some addrs := visited
    have second := (mem_cacheVisits loop 64).mp ((exact 64).mpr (by decide))
    exact absurd second (by decide)
  · have endless : visits 64 (-64 + 63) (2 ^ 58) (-64) = none := by
      rw [← Option.not_isSome_iff_eq_none, visits_isSome_iff_end]
      decide
    have loop := guarded_forLines (realize { deviceMemSize := 4096, cacheSize := 4096 }) true (-64) 63
      CXLType2State.cacheInvalidate
    rw [if_pos rfl, if_pos rfl, endless, Option.map_none] at loop
    have on : (realize { deviceMemSize := 4096, cacheSize := 4096 }).coherencyEnabled = true := rfl
    rw [CXLType2State.exec, CXLType2State.cacheInvalidateCmd, if_pos on]
    exact loop

end RangeCommand
end CxlMemSim.Type2
