import CxlMemSim.Lib.Align
import CxlMemSim.Lib.Run
import Mathlib.Algebra.BigOperators.Group.List.Basic
import Mathlib.Tactic.Abel

/-! `allocate_cxl_memory` adds to the shared `alloc_offset`, checks the bound afterwards and subtracts again what did
not fit. -/
namespace CxlMemSim.Mpi
open Run List

def cxlMaxRanks : UInt64 := 256

def cxlMsgQueueSize : UInt64 := 1024

def shmHeaderBytes : UInt64 := 2112

def msgBytes : UInt64 := 4160

def mailboxBytes : UInt64 := 128 + cxlMsgQueueSize * msgBytes

def cxlAlign (size : UInt64) : UInt64 := (size + 4096 - 1) &&& 0xFFFFFFFFFFFFF000

def headerSize : UInt64 := cxlAlign (shmHeaderBytes + cxlMaxRanks * mailboxBytes)

structure Ticket where
  size : UInt64
  oldOffset : UInt64

namespace Ticket
variable (t : Ticket)

def aligned : UInt64 := cxlAlign t.size

def newOffset : UInt64 := t.oldOffset + t.aligned

def fits (regionSize : UInt64) : Bool := !(regionSize < t.newOffset)

def start : Nat := t.oldOffset.toNat

def stop : Nat := t.start + t.aligned.toNat

end Ticket

inductive Phase where
  | added | outOfMemory | returned | rolledBack
deriving DecidableEq

structure AllocCall extends Ticket where
  phase : Phase

structure SharedPool where
  size : UInt64
  allocOffset : UInt64
  calls : List AllocCall

inductive AllocStep where
  | fetchAdd (size : UInt64)
  | check (i : Nat)
  | rollBack (i : Nat)

namespace SharedPool
variable (pool : SharedPool)

def setPhase (i : Nat) (call : AllocCall) (phase : Phase) : SharedPool :=
  { pool with calls := pool.calls.set i { call with phase } }

def step (pool : SharedPool) : AllocStep → SharedPool
  | .fetchAdd size =>
    { pool with
      allocOffset := pool.allocOffset + cxlAlign size
      calls := pool.calls ++ [⟨⟨size, pool.allocOffset⟩, .added⟩] }
  | .check i =>
    match pool.calls[i]? with
    | some call =>
      if call.phase = .added then
        pool.setPhase i call (if pool.size < call.newOffset then .outOfMemory else .returned)
      else pool
    | none => pool
  | .rollBack i =>
    match pool.calls[i]? with
    | some call =>
      if call.phase = .outOfMemory then
        { pool.setPhase i call .rolledBack with allocOffset := pool.allocOffset - call.aligned }
      else pool
    | none => pool

end SharedPool

def sharedPoolInit (size : UInt64) : SharedPool := ⟨size, headerSize, []⟩

def allocRun (size : UInt64) (steps : List AllocStep) : SharedPool := steps.foldl SharedPool.step (sharedPoolInit size)

structure SharedPool.Sound (pool : SharedPool) : Prop where
  inside : ∀ call ∈ pool.calls, call.phase = .returned →
    headerSize.toNat ≤ call.start ∧ call.start + call.size.toNat ≤ call.stop ∧ call.stop ≤ pool.size.toNat
  apart : pool.calls.Pairwise fun a b =>
    a.phase = .returned → b.phase = .returned → a.stop ≤ b.start ∨ b.stop ≤ a.start

/-- No fetch-add gets a block that fits while what a failed call has added is still in the offset. -/
def SharedPool.Quiet (pool : SharedPool) : AllocStep → Prop
  | .fetchAdd size => Ticket.fits ⟨size, pool.allocOffset⟩ pool.size = true →
      ∀ call ∈ pool.calls, call.fits pool.size = false → call.phase = .rolledBack
  | .check _ | .rollBack _ => True

instance (pool : SharedPool) (s : AllocStep) : Decidable (pool.Quiet s) :=
  match s with
  | .fetchAdd _ => inferInstanceAs (Decidable (_ = true → ∀ call ∈ pool.calls, _ → _))
  | .check _ | .rollBack _ => isTrue trivial

variable {size : UInt64}

theorem cxlAlign_toNat (small : size.toNat + 4095 < 2 ^ 64) :
    (cxlAlign size).toNat = (size.toNat + 4095) / 4096 * 4096 := by
  have up : (size + 4096 - 1).toNat = size.toNat + 4095 := by
    rw [show size + 4096 - 1 = size + 4095 by grind, UInt64.toNat_add, show (4095 : UInt64).toNat = 4095 from rfl]
    omega
  rw [cxlAlign, Align.clearLow_toNat (k := 12) (by decide) (by decide), up]
  rfl

theorem Ticket.fits_iff (t : Ticket) (regionSize : UInt64) :
    t.fits regionSize = true ↔ t.newOffset.toNat ≤ regionSize.toNat := by
  rw [Ticket.fits, Bool.not_eq_true', decide_eq_false_iff_not, UInt64.lt_iff_toNat_lt, Nat.not_lt]

def AllocCall.contribution (call : AllocCall) : UInt64 := if call.phase = .rolledBack then 0 else call.aligned

variable {call : AllocCall} {calls : List AllocCall} {i : Nat}

theorem sum_set (found : calls[i]? = some call) (call' : AllocCall) :
    ((calls.set i call').map AllocCall.contribution).sum =
      (calls.map AllocCall.contribution).sum - call.contribution + call'.contribution := by
  induction calls generalizing i with
  | nil => cases found
  | cons head calls ih =>
    cases i with
    | zero =>
      obtain rfl : head = call := Option.some.inj found
      simp only [set_cons_zero, map_cons, sum_cons]
      abel
    | succ i =>
      simp only [set_cons_succ, map_cons, sum_cons, ih found]
      abel

theorem map_toTicket_set (found : calls[i]? = some call)
    (phase : Phase) : (calls.set i { call with phase }).map AllocCall.toTicket = calls.map AllocCall.toTicket := by
  induction calls generalizing i with
  | nil => cases found
  | cons head calls ih =>
    cases i with
    | zero =>
      obtain rfl : head = call := Option.some.inj found
      rfl
    | succ i => rw [set_cons_succ, map_cons, ih found, map_cons]

namespace SharedPool
variable (pool : SharedPool)

def fitting : List Ticket := (pool.calls.map AllocCall.toTicket).filter (·.fits pool.size)

def taken : Nat := (pool.fitting.map fun t => t.aligned.toNat).sum

/-- The blocks that fit lie one after another behind the mailboxes, and the offset is what all calls have added. -/
structure Inv : Prop where
  checked : ∀ call ∈ pool.calls, call.phase = .returned → call.fits pool.size = true
  failed : ∀ call ∈ pool.calls, call.phase = .outOfMemory ∨ call.phase = .rolledBack → call.fits pool.size = false
  offset : pool.allocOffset = headerSize + (pool.calls.map AllocCall.contribution).sum
  room : headerSize.toNat + pool.taken ≤ max headerSize.toNat pool.size.toNat
  inside : ∀ t ∈ pool.fitting, headerSize.toNat ≤ t.start ∧ t.start + t.size.toNat ≤ t.stop ∧
    t.stop ≤ headerSize.toNat + pool.taken ∧ t.stop ≤ pool.size.toNat
  apart : pool.fitting.Pairwise fun a b => a.stop ≤ b.start

variable {pool}

theorem inv_init (size : UInt64) : (sharedPoolInit size).Inv where
  checked := by simp [sharedPoolInit]
  failed := by simp [sharedPoolInit]
  offset := by simp [sharedPoolInit]
  room := by simp [sharedPoolInit, taken, fitting]
  inside := by simp [sharedPoolInit, fitting]
  apart := by simp [sharedPoolInit, fitting]

theorem fitting_setPhase (found : pool.calls[i]? = some call) (phase : Phase) (allocOffset : UInt64) :
    ({ pool.setPhase i call phase with allocOffset } : SharedPool).fitting = pool.fitting := by
  rw [fitting, fitting, setPhase, map_toTicket_set found]

theorem Inv.setPhase (inv : pool.Inv) (found : pool.calls[i]? = some call)
    {phase : Phase} (returned : phase = .returned → call.fits pool.size = true)
    (failed : phase = .outOfMemory ∨ phase = .rolledBack → call.fits pool.size = false) {allocOffset : UInt64}
    (offset : allocOffset = pool.allocOffset - call.contribution + AllocCall.contribution { call with phase }) :
    ({ pool.setPhase i call phase with allocOffset } : SharedPool).Inv where
  checked := by
    intro other member
    rcases mem_or_eq_of_mem_set member with old | rfl
    · exact inv.checked other old
    · exact returned
  failed := by
    intro other member
    rcases mem_or_eq_of_mem_set member with old | rfl
    · exact inv.failed other old
    · exact failed
  offset := by
    change allocOffset = headerSize + ((pool.calls.set i { call with phase }).map AllocCall.contribution).sum
    rw [sum_set found, offset, inv.offset]
    abel
  room := by
    rw [taken, fitting_setPhase found]
    exact inv.room
  inside := by
    rw [taken, fitting_setPhase found]
    exact inv.inside
  apart := by
    rw [fitting_setPhase found]
    exact inv.apart

theorem sum_of_quiet (quiet : ∀ call ∈ calls, call.phase = .rolledBack ↔ call.fits size = false) :
    (calls.map AllocCall.contribution).sum =
      UInt64.ofNat (((calls.map AllocCall.toTicket).filter (·.fits size)).map fun t => t.aligned.toNat).sum := by
  induction calls with
  | nil => rfl
  | cons call calls ih =>
    obtain ⟨here, others⟩ := forall_mem_cons.mp quiet
    simp only [map_cons, sum_cons, ih others, filter_cons, AllocCall.contribution]
    cases fit : call.fits size with
    | true | false => simp [here, fit]

theorem Inv.offset_of_quiet (inv : pool.Inv)
    (quiet : ∀ call ∈ pool.calls, call.fits pool.size = false → call.phase = .rolledBack) :
    pool.allocOffset.toNat = headerSize.toNat + pool.taken := by
  have sum := sum_of_quiet fun call member =>
    ⟨fun back => inv.failed call member (.inr back), quiet call member⟩
  have room := inv.room
  have headerSmall := headerSize.toNat_lt
  have regionSmall := pool.size.toNat_lt
  rw [inv.offset, sum, UInt64.toNat_add, UInt64.toNat_ofNat']
  change (headerSize.toNat + pool.taken % 2 ^ 64) % 2 ^ 64 = _
  omega

theorem fitting_fetchAdd (size : UInt64) : (pool.step (.fetchAdd size)).fitting =
    pool.fitting ++ if Ticket.fits ⟨size, pool.allocOffset⟩ pool.size then [⟨size, pool.allocOffset⟩] else [] := by
  change (List.map AllocCall.toTicket (pool.calls ++ [_])).filter (·.fits pool.size) = _
  rw [map_append, filter_append, map_singleton, filter_cons, filter_nil]
  rfl

theorem taken_fetchAdd (size : UInt64) : (pool.step (.fetchAdd size)).taken =
    pool.taken + if Ticket.fits ⟨size, pool.allocOffset⟩ pool.size then (cxlAlign size).toNat else 0 := by
  rw [taken, fitting_fetchAdd, map_append, sum_append, taken]
  split <;> simp [Ticket.aligned]

variable (inv : pool.Inv)
include inv

theorem Inv.block_of_quiet (mapped : pool.size.toNat + 4096 ≤ 2 ^ 63)
    (requested : size ≤ pool.size) (quiet : pool.Quiet (.fetchAdd size))
    (fit : Ticket.fits ⟨size, pool.allocOffset⟩ pool.size = true) :
    pool.allocOffset.toNat = headerSize.toNat + pool.taken ∧ size.toNat ≤ (cxlAlign size).toNat ∧
      pool.allocOffset.toNat + (cxlAlign size).toNat ≤ pool.size.toNat := by
  have old := inv.offset_of_quiet (quiet fit)
  have header : headerSize.toNat = 1090555904 := by decide
  have room := inv.room
  rw [UInt64.le_iff_toNat_le] at requested
  have aligned : (cxlAlign size).toNat = (size.toNat + 4095) / 4096 * 4096 := cxlAlign_toNat (by omega)
  have below : (pool.allocOffset + cxlAlign size).toNat ≤ pool.size.toNat := (Ticket.fits_iff _ _).mp fit
  rw [UInt64.toNat_add] at below
  omega

theorem Inv.fetchAdd (mapped : pool.size.toNat + 4096 ≤ 2 ^ 63)
    (requested : size ≤ pool.size) (quiet : pool.Quiet (.fetchAdd size)) : (pool.step (.fetchAdd size)).Inv where
  checked := by
    intro call member returned
    rcases mem_append.mp member with old | new
    · exact inv.checked call old returned
    · obtain rfl := mem_singleton.mp new
      cases returned
  failed := by
    intro call member failed
    rcases mem_append.mp member with old | new
    · exact inv.failed call old failed
    · obtain rfl := mem_singleton.mp new
      rcases failed with failed | failed <;> cases failed
  offset := by
    have added : AllocCall.contribution ⟨⟨size, pool.allocOffset⟩, .added⟩ = cxlAlign size := rfl
    rw [step, map_append, sum_append, map_singleton, sum_singleton, added, ← UInt64.add_assoc, ← inv.offset]
  room := by
    rw [taken_fetchAdd]
    split
    · rename_i fit
      have block := inv.block_of_quiet mapped requested quiet fit
      change _ ≤ max _ pool.size.toNat
      omega
    · exact inv.room
  inside := by
    rw [fitting_fetchAdd, taken_fetchAdd]
    intro t member
    rcases mem_append.mp member with earlier | new
    · obtain ⟨low, holds, below, fits⟩ := inv.inside t earlier
      exact ⟨low, holds, by omega, fits⟩
    · split at new
      · rename_i fit
        obtain rfl := mem_singleton.mp new
        have block := inv.block_of_quiet mapped requested quiet fit
        rw [if_pos fit]
        simp only [Ticket.start, Ticket.stop, Ticket.aligned]
        exact ⟨by omega, by omega, by omega, block.2.2⟩
      · cases new
  apart := by
    rw [fitting_fetchAdd, pairwise_append]
    refine ⟨inv.apart, ?_, ?_⟩
    · split
      · exact pairwise_singleton _ _
      · exact List.Pairwise.nil
    · intro t earlier new member
      split at member
      · rename_i fit
        obtain rfl := mem_singleton.mp member
        have old := inv.offset_of_quiet (quiet fit)
        have below := (inv.inside t earlier).2.2.1
        simp only [Ticket.start]
        omega
      · cases member

theorem Inv.check (i : Nat) : (pool.step (.check i)).Inv := by
  rw [step]
  cases found : pool.calls[i]? with
  | none => exact inv
  | some call =>
    dsimp only
    by_cases added : call.phase = .added
    · rw [if_pos added]
      have whole : call.contribution = call.aligned := by simp [AllocCall.contribution, added]
      by_cases large : pool.size < call.newOffset
      · rw [if_pos large]
        refine inv.setPhase found (fun h => by cases h) (fun _ => by simp [Ticket.fits, large]) ?_
        rw [whole]
        simp [AllocCall.contribution]
      · rw [if_neg large]
        refine inv.setPhase found (fun _ => by simp [Ticket.fits, large]) (fun h => ?_) ?_
        · rcases h with h | h <;> cases h
        · rw [whole]
          simp [AllocCall.contribution]
    · rw [if_neg added]
      exact inv

theorem Inv.rollBack (i : Nat) : (pool.step (.rollBack i)).Inv := by
  rw [step]
  cases found : pool.calls[i]? with
  | none => exact inv
  | some call =>
    dsimp only
    by_cases failed : call.phase = .outOfMemory
    · rw [if_pos failed]
      have member := mem_of_getElem? found
      refine inv.setPhase found (fun h => by cases h) (fun _ => inv.failed call member (.inl failed)) ?_
      simp [AllocCall.contribution, failed]
    · rw [if_neg failed]
      exact inv

omit inv in
theorem size_step (s : AllocStep) : (pool.step s).size = pool.size := by
  cases s with
  | fetchAdd size => rfl
  | check i | rollBack i =>
    rw [step]
    split
    · split <;> rfl
    · rfl

theorem Inv.step (mapped : pool.size.toNat + 4096 ≤ 2 ^ 63) {s : AllocStep}
    (asks : ∀ size, s = .fetchAdd size → size ≤ pool.size) (quiet : pool.Quiet s) : (pool.step s).Inv := by
  cases s with
  | fetchAdd size => exact inv.fetchAdd mapped (asks size rfl) quiet
  | check i => exact inv.check i
  | rollBack i => exact inv.rollBack i

theorem Inv.sound : pool.Sound where
  inside := by
    intro call member returned
    have fits : call.toTicket ∈ pool.fitting :=
      mem_filter.mpr ⟨mem_map_of_mem member, inv.checked call member returned⟩
    obtain ⟨low, holds, -, high⟩ := inv.inside call.toTicket fits
    exact ⟨low, holds, high⟩
  apart := by
    have apart := inv.apart
    rw [fitting, pairwise_filter, pairwise_map] at apart
    refine apart.imp_of_mem ?_
    intro a b memberA memberB ordered returnedA returnedB
    exact .inl (ordered (inv.checked a memberA returnedA) (inv.checked b memberB returnedB))

end SharedPool

/-- `mapped`: `mmap` does not map beyond the lower half of the address space, nor its first page. -/
theorem alloc_blocks_sound (size : UInt64) (mapped : size.toNat + 4096 ≤ 2 ^ 63) (steps : List AllocStep)
    (asks : ∀ n, .fetchAdd n ∈ steps → n ≤ size)
    (quiet : EveryStep SharedPool.step SharedPool.Quiet (sharedPoolInit size) steps) :
    (allocRun size steps).Sound := by
  have each : EveryStep SharedPool.step (fun _ s => ∀ n, s = .fetchAdd n → n ≤ size) (sharedPoolInit size) steps :=
    everyStep_of_forall fun s member _ n same => asks n (same ▸ member)
  have kept : (allocRun size steps).Inv ∧ (allocRun size steps).size = size := by
    refine invariant_of_everyStep (I := fun pool => pool.Inv ∧ pool.size = size) ?_
      ⟨SharedPool.inv_init size, rfl⟩ (quiet.and each)
    rintro pool s ⟨inv, same⟩ ⟨quiet, asks⟩
    refine ⟨inv.step (by rw [same]; exact mapped) (by rw [same]; exact asks) quiet, ?_⟩
    rw [SharedPool.size_step, same]
  exact kept.1.sound

def hundredPages : UInt64 := headerSize + 100 * 4096

def failBetween : List AllocStep :=
  [.fetchAdd 100, .fetchAdd 8192, .check 1, .check 0, .fetchAdd hundredPages, .check 2, .rollBack 2, .fetchAdd 1,
    .check 3]

theorem alloc_blocks_sound_failBetween :
    ((allocRun hundredPages failBetween).calls.map fun call => (call.phase, call.start, call.stop)) =
        [(.returned, 1090555904, 1090560000), (.returned, 1090560000, 1090568192),
          (.rolledBack, 1090568192, 2181533696), (.returned, 1090568192, 1090572288)] ∧
      (allocRun hundredPages failBetween).Sound := by
  refine ⟨by decide +kernel, alloc_blocks_sound _ (by decide +kernel) _ ?_ (by decide +kernel)⟩
  intro n member
  simp only [failBetween, mem_cons, AllocStep.fetchAdd.injEq, reduceCtorEq, not_mem_nil, or_false, false_or] at member
  rcases member with rfl | rfl | rfl | rfl <;> decide +kernel

def meetingBlocks : List AllocStep :=
  [.fetchAdd (50 * 4096), .check 0, .fetchAdd (90 * 4096), .fetchAdd (5 * 4096), .check 1, .check 2, .rollBack 1,
    .fetchAdd (10 * 4096), .check 3, .rollBack 2, .fetchAdd (10 * 4096), .check 4]

theorem alloc_blocks_meet : (∀ n, .fetchAdd n ∈ meetingBlocks → 1 ≤ n ∧ n ≤ hundredPages) ∧
    ¬ (allocRun hundredPages meetingBlocks).Sound := by
  constructor
  · intro n member
    simp only [meetingBlocks, mem_cons, AllocStep.fetchAdd.injEq, reduceCtorEq, not_mem_nil, or_false,
      false_or] at member
    rcases member with rfl | rfl | rfl | rfl | rfl <;> decide +kernel
  · intro sound
    have apart := sound.apart
    revert apart
    decide +kernel

end CxlMemSim.Mpi
