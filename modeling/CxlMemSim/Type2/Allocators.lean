import CxlMemSim.Type2.CoherentPool
import CxlMemSim.Type2.Device

/-! Without a GPU backend `MEM_ALLOC` hands out device memory from its start upwards, up to its end; `COHERENT_ALLOC`
hands out the pool at its top. -/
namespace CxlMemSim.Type2
open FreeList Run List
open CXLType2State (CXLGPUError)

structure GpuMemory where
  deviceMemSize : UInt64
  pool : CoherentPool
  nextAlloc : UInt64 := 0

inductive AllocCmd where
  | memAlloc (size : UInt64)
  | coherentAlloc (size : UInt64)
  | coherentFree (offset : UInt64)

namespace GpuMemory
variable (mem : GpuMemory)

/-- `CXL_GPU_CMD_MEM_ALLOC` without a backend; the result is `cmd_result` and, where it is set, `results[0]`. -/
def memAlloc (size : UInt64) : GpuMemory × CXLGPUError × Option UInt64 :=
  if mem.nextAlloc + size ≤ mem.deviceMemSize then
    ({ mem with nextAlloc := mem.nextAlloc + pageAlign size }, .success, some mem.nextAlloc)
  else (mem, .errorOutOfMemory, none)

def coherentAlloc (size : UInt64) : GpuMemory × CXLGPUError × Option UInt64 :=
  let allocated := mem.pool.alloc size
  let mem := { mem with pool := allocated.1 }
  if 0 ≤ allocated.2 then (mem, .success, some allocated.2.toUInt64) else (mem, .errorOutOfMemory, none)

def coherentFree (offset : UInt64) : GpuMemory × CXLGPUError :=
  let freed := mem.pool.free offset
  ({ mem with pool := freed.1 }, if freed.2 = 0 then .success else .errorInvalidValue)

end GpuMemory

structure Region where
  coherent : Bool
  offset : UInt64
  size : UInt64

structure Guest where
  mem : GpuMemory
  live : List Region := []

namespace Guest
variable (guest : Guest)

def got (coherent : Bool) (size : UInt64) (answer : GpuMemory × CXLGPUError × Option UInt64) : Guest where
  mem := answer.1
  live :=
    if answer.2.1 = .success then (answer.2.2.map fun offset => ⟨coherent, offset, size⟩).toList ++ guest.live
    else guest.live

def step (guest : Guest) : AllocCmd → Guest
  | .memAlloc size => guest.got false size (guest.mem.memAlloc size)
  | .coherentAlloc size => guest.got true size (guest.mem.coherentAlloc size)
  | .coherentFree offset =>
    { mem := (guest.mem.coherentFree offset).1
      live := if (guest.mem.coherentFree offset).2 = .success then
          guest.live.eraseP fun r => r.coherent ∧ r.offset = offset
        else guest.live }

end Guest

def allocRun (deviceMemSize : UInt64) (cmds : List AllocCmd) : Guest :=
  cmds.foldl Guest.step { mem := { deviceMemSize, pool := coherentPoolInit deviceMemSize } }

namespace Region
variable (r : Region)

def block : Block := ⟨r.offset.toNat, r.size.toNat⟩

def Apart (r s : Region) : Prop := r.offset ≠ s.offset ∧ (r.block.stop ≤ s.block.start ∨ s.block.stop ≤ r.block.start)

end Region

structure Guest.Safe (guest : Guest) : Prop where
  inside : ∀ r ∈ guest.live, r.block.stop ≤ guest.mem.deviceMemSize.toNat
  apart : guest.live.Pairwise Region.Apart

def CoherentPool.Idle (pool : CoherentPool) : Prop := pool.allocations = ∅ ∧ ∀ blk ∈ pool.freeList, blk.size = 0

theorem takeFirst_empty {n : UInt64} (positive : 0 < n.toNat) {blks : List CXLCohFreeBlock}
    (empty : ∀ blk ∈ blks, blk.size = 0) : takeFirst n blks = none := by
  induction blks with
  | nil => rfl
  | cons blk blks ih =>
    obtain ⟨here, others⟩ := forall_mem_cons.mp empty
    have large : ¬ n ≤ blk.size := by
      rw [here, UInt64.le_iff_toNat_le]
      exact Nat.not_le_of_lt positive
    rw [takeFirst, if_neg large, ih others, Option.map_none]

variable {pool : CoherentPool} {size : UInt64}

theorem CoherentPool.Idle.alloc (idle : pool.Idle)
    (positive : 0 < (pageAlign size).toNat) : pool.alloc size = (pool, -1) := by
  rw [CoherentPool.alloc, takeFirst_empty positive idle.2]

structure Guest.Inv (guest : Guest) : Prop where
  pool : guest.mem.pool.Sound ∨ guest.mem.pool.Idle
  top : guest.mem.pool.hi = guest.mem.deviceMemSize.toNat
  low : guest.mem.pool.lo + 8192 ≤ 2 ^ 64
  coherent : ∀ r ∈ guest.live, r.coherent = true →
    (PoolCall.alloc r.size).Sized ∧ guest.mem.pool.allocations.lookup r.offset = some (pageAlign r.size)
  bump : ∀ r ∈ guest.live, r.coherent = false →
    0 < r.size.toNat ∧ r.block.stop ≤ guest.mem.nextAlloc.toNat ∧ r.block.stop ≤ guest.mem.pool.lo
  apart : guest.live.Pairwise Region.Apart

/-- A coherent allocation is rounded to one page or more, or there is no free block; what `MEM_ALLOC` gives is not
empty and ends below the pool. -/
def Guest.Keeps (guest : Guest) : AllocCmd → Prop
  | .memAlloc size => guest.mem.nextAlloc + size ≤ guest.mem.deviceMemSize →
      1 ≤ size.toNat ∧ guest.mem.nextAlloc.toNat + size.toNat ≤ guest.mem.pool.lo
  | .coherentAlloc size => (PoolCall.alloc size).Sized ∨ guest.mem.pool.freeList = []
  | .coherentFree _ => True

theorem le_pageAlign (sized : (PoolCall.alloc size).Sized) : size.toNat ≤ (pageAlign size).toNat := by
  rw [pageAlign_toNat sized.2]
  omega

theorem CoherentPool.Sound.live_mem {offset size : UInt64}
    (found : pool.allocations.lookup offset = some size) : (⟨offset.toNat, size.toNat⟩ : Block) ∈ pool.liveBlocks :=
  mem_map_of_mem (AList.mem_lookup_iff.mp found)

variable {r : Region}

theorem CoherentPool.Sound.bounds (sound : pool.Sound)
    (sized : (PoolCall.alloc r.size).Sized) (found : pool.allocations.lookup r.offset = some (pageAlign r.size)) :
    pool.lo ≤ r.block.start ∧ r.block.stop ≤ pool.hi := by
  have bounds := sound.partition.bounds (mem_append_right _ (live_mem found)) (pageAlign_pos sized)
  have rounded := le_pageAlign sized
  simp only [Region.block, Block.stop] at bounds ⊢
  omega

theorem CoherentPool.Sound.apart (sound : pool.Sound) {r s : Region}
    (sized : (PoolCall.alloc r.size).Sized) (found : pool.allocations.lookup r.offset = some (pageAlign r.size))
    (sized' : (PoolCall.alloc s.size).Sized) (found' : pool.allocations.lookup s.offset = some (pageAlign s.size))
    (other : r.offset ≠ s.offset) : r.Apart s := by
  refine ⟨other, ?_⟩
  have apart := sound.partition.apart_of_ne (mem_append_right _ (live_mem found'))
    (mem_append_right _ (live_mem found)) (fun same => other (UInt64.toNat_inj.mp (congrArg Block.start same)))
    (pageAlign_pos sized') (pageAlign_pos sized)
  have rounded := le_pageAlign sized
  have rounded' := le_pageAlign sized'
  simp only [Region.block, Block.stop] at apart ⊢
  omega

theorem not_mem_eraseP {α : Type*} {p : α → Bool} {l : List α} (once : l.Pairwise fun a b => ¬ (p a ∧ p b)) {a : α}
    (member : a ∈ l.eraseP p) : ¬ p a := by
  induction l with
  | nil => cases member
  | cons b l ih =>
    obtain ⟨first, rest⟩ := pairwise_cons.mp once
    by_cases here : p b = true
    · rw [eraseP_cons_of_pos here] at member
      exact fun also => first a member ⟨here, also⟩
    · rw [eraseP_cons_of_neg here] at member
      rcases mem_cons.mp member with rfl | later
      · exact here
      · exact ih rest later

namespace Guest.Inv
variable {guest : Guest} (inv : guest.Inv)
include inv

theorem sound_of_coherent (member : r ∈ guest.live) (coherent : r.coherent = true) : guest.mem.pool.Sound := by
  rcases inv.pool with sound | idle
  · exact sound
  · have found := (inv.coherent r member coherent).2
    rw [idle.1, AList.lookup_empty] at found
    cases found

theorem coherent_bounds (member : r ∈ guest.live) (coherent : r.coherent = true) :
    guest.mem.pool.lo ≤ r.block.start ∧ r.block.stop ≤ guest.mem.pool.hi := by
  obtain ⟨sized, found⟩ := inv.coherent r member coherent
  exact (inv.sound_of_coherent member coherent).bounds sized found

theorem safe : guest.Safe := by
  refine ⟨fun r member => ?_, inv.apart⟩
  cases coherent : r.coherent with
  | true => exact inv.top ▸ (inv.coherent_bounds member coherent).2
  | false =>
    have below := (inv.bump r member coherent).2.2
    rw [← inv.top, CoherentPool.hi]
    exact Nat.le_trans below (Nat.le_add_right _ _)

theorem memAlloc (keeps : guest.Keeps (.memAlloc size)) : (guest.step (.memAlloc size)).Inv := by
  rw [Guest.step, GpuMemory.memAlloc]
  by_cases fits : guest.mem.nextAlloc + size ≤ guest.mem.deviceMemSize
  · obtain ⟨positive, below⟩ := keeps fits
    have low := inv.low
    have rounded : (pageAlign size).toNat = (size.toNat + 4095) / 4096 * 4096 := pageAlign_toNat (by omega)
    have next : (guest.mem.nextAlloc + pageAlign size).toNat = guest.mem.nextAlloc.toNat + (pageAlign size).toNat := by
      rw [UInt64.toNat_add, Nat.mod_eq_of_lt (by omega)]
    rw [if_pos fits]
    refine ⟨inv.pool, inv.top, inv.low, ?_, ?_, pairwise_cons.mpr ⟨fun r member => ?_, inv.apart⟩⟩
    · exact forall_mem_cons.mpr ⟨fun coherent => (by cases coherent), inv.coherent⟩
    · refine forall_mem_cons.mpr ⟨fun _ => ⟨positive, ?_, below⟩, fun r member bump => ?_⟩
      · change guest.mem.nextAlloc.toNat + size.toNat ≤ (guest.mem.nextAlloc + pageAlign size).toNat
        omega
      · obtain ⟨large, earlier, belowPool⟩ := inv.bump r member bump
        refine ⟨large, ?_, belowPool⟩
        change _ ≤ (guest.mem.nextAlloc + pageAlign size).toNat
        omega
    · rw [Region.Apart, Ne, ← UInt64.toNat_inj]
      cases coherent : r.coherent with
      | true =>
        have bounds := (inv.coherent_bounds member coherent).1
        simp only [Region.block, Block.stop] at bounds ⊢
        omega
      | false =>
        obtain ⟨large, earlier, -⟩ := inv.bump r member coherent
        simp only [Region.block, Block.stop] at earlier ⊢
        omega
  · rw [if_neg fits]
    exact inv

theorem of_failed (fails : guest.mem.pool.alloc size = (guest.mem.pool, -1)) :
    (guest.step (.coherentAlloc size)).Inv := by
  rw [Guest.step, GpuMemory.coherentAlloc, fails]
  exact inv

theorem tracked {offset n : UInt64} {freeList : List CXLCohFreeBlock} (fresh : offset ∉ guest.mem.pool.allocations)
    (member : r ∈ guest.live) (coherent : r.coherent = true) :
    r.offset ≠ offset ∧ (PoolCall.alloc r.size).Sized ∧
      (guest.mem.pool.take offset n freeList).allocations.lookup r.offset = some (pageAlign r.size) := by
  obtain ⟨sized, found⟩ := inv.coherent r member coherent
  have other : r.offset ≠ offset := fun same => by
    rw [same] at found
    exact fresh (AList.lookup_isSome.mp (by rw [found]; rfl))
  exact ⟨other, sized, (AList.lookup_insert_ne other).trans found⟩

theorem coherentAlloc (keeps : guest.Keeps (.coherentAlloc size)) : (guest.step (.coherentAlloc size)).Inv := by
  by_cases sized : (PoolCall.alloc size).Sized
  · have positive := pageAlign_pos sized
    rcases inv.pool with sound | idle
    · rcases sound.alloc_cases positive with ⟨fails, -⟩ | ⟨offset, freeList, succeeds, taken, fresh⟩
      · exact inv.of_failed fails
      · have sound' := sound.take positive taken
        rw [Guest.step, GpuMemory.coherentAlloc, succeeds]
        simp only [UInt64.toUInt64_toInt64]
        split
        · have here : (guest.mem.pool.take offset (pageAlign size) freeList).allocations.lookup offset =
              some (pageAlign size) := AList.lookup_insert _
          refine ⟨.inl sound', inv.top, inv.low, ?_, ?_, pairwise_cons.mpr ⟨fun r member => ?_, inv.apart⟩⟩
          · refine forall_mem_cons.mpr ⟨fun _ => ⟨sized, here⟩, fun r member coherent => ?_⟩
            exact (inv.tracked fresh member coherent).2
          · exact forall_mem_cons.mpr ⟨fun bump => (by cases bump), inv.bump⟩
          · cases coherent : r.coherent with
            | true =>
              obtain ⟨other, sized', found⟩ := inv.tracked fresh member coherent
              exact sound'.apart (r := ⟨true, offset, size⟩) sized here sized' found other.symm
            | false =>
              obtain ⟨large, -, below⟩ := inv.bump r member coherent
              have bounds := (sound'.bounds (r := ⟨true, offset, size⟩) sized here).1
              change guest.mem.pool.lo ≤ offset.toNat at bounds
              change offset ≠ r.offset ∧ _
              rw [Ne, ← UInt64.toNat_inj]
              simp only [Region.block, Block.stop] at below ⊢
              omega
        · exact ⟨.inl sound', inv.top, inv.low, fun r member coherent => (inv.tracked fresh member coherent).2,
            inv.bump, inv.apart⟩
    · exact inv.of_failed (idle.alloc positive)
  · have empty := keeps.resolve_left sized
    refine inv.of_failed ?_
    rw [CoherentPool.alloc, empty, takeFirst]

theorem coherentFree (offset : UInt64) : (guest.step (.coherentFree offset)).Inv := by
  rw [Guest.step, GpuMemory.coherentFree, CoherentPool.free]
  cases found : guest.mem.pool.allocations.lookup offset with
  | none => exact inv
  | some size =>
    have sound : guest.mem.pool.Sound := inv.pool.resolve_right fun idle => by
      rw [idle.1, AList.lookup_empty] at found
      cases found
    have kept : ∀ r ∈ guest.live.eraseP (fun r => r.coherent ∧ r.offset = offset),
        r ∈ guest.live ∧ ¬ (r.coherent = true ∧ r.offset = offset) := by
      intro r member
      refine ⟨mem_of_mem_eraseP member, fun erased => ?_⟩
      exact not_mem_eraseP (inv.apart.imp fun apart both => apart.1 (by simp_all)) member (by simp [erased])
    refine ⟨.inl (sound.put found), inv.top, inv.low, fun r member coherent => ?_, fun r member bump => ?_, ?_⟩
    · obtain ⟨was, remains⟩ := kept r member
      obtain ⟨sized, tracked⟩ := inv.coherent r was coherent
      exact ⟨sized, (AList.lookup_erase_ne fun same => remains ⟨coherent, same⟩).trans tracked⟩
    · exact inv.bump r (kept r member).1 bump
    · exact inv.apart.sublist eraseP_sublist

end Guest.Inv

theorem coherentPoolInit_low (deviceMemSize : UInt64) : (coherentPoolInit deviceMemSize).lo + 8192 ≤ 2 ^ 64 := by
  have bound := deviceMemSize.toNat_lt
  have half := UInt64.toNat_div deviceMemSize 2
  change _ = deviceMemSize.toNat / 2 at half
  rw [CoherentPool.lo, coherentPoolInit, UInt64.toNat_sub_of_le _ _ (cohPoolSize_le _), cohPoolSize]
  split
  · rename_i small
    rw [UInt64.lt_iff_toNat_lt, half] at small
    change deviceMemSize.toNat / 2 < 0x10000000 at small
    omega
  · change deviceMemSize.toNat - 0x10000000 + 8192 ≤ 2 ^ 64
    omega

theorem inv_init (deviceMemSize : UInt64) :
    ({ mem := { deviceMemSize, pool := coherentPoolInit deviceMemSize } } : Guest).Inv where
  pool := by
    by_cases nonempty : 0 < cohPoolSize deviceMemSize
    · exact .inl (coherentPoolInit_sound nonempty)
    · refine .inr ⟨rfl, fun blk member => ?_⟩
      rw [mem_singleton.mp member]
      exact UInt64.le_antisymm (UInt64.not_lt.mp nonempty) (UInt64.zero_le)
  top := coherentPoolInit_hi deviceMemSize
  low := coherentPoolInit_low deviceMemSize
  coherent := fun r none => by cases none
  bump := fun r none => by cases none
  apart := .nil

theorem inv_step {guest : Guest} (inv : guest.Inv) {c : AllocCmd} (keeps : guest.Keeps c) : (guest.step c).Inv := by
  cases c with
  | memAlloc size => exact inv.memAlloc keeps
  | coherentAlloc size => exact inv.coherentAlloc keeps
  | coherentFree offset => exact inv.coherentFree offset

theorem live_regions_apart (deviceMemSize : UInt64) (cmds : List AllocCmd)
    (keeps : EveryStep Guest.step Guest.Keeps
      { mem := { deviceMemSize, pool := coherentPoolInit deviceMemSize } } cmds) :
    (allocRun deviceMemSize cmds).Safe := by
  have inv : (allocRun deviceMemSize cmds).Inv :=
    invariant_of_everyStep (I := Guest.Inv) (fun _ _ inv keeps => inv_step inv keeps) (inv_init deviceMemSize) keeps
  exact inv.safe

def bothAllocators : List AllocCmd :=
  [.memAlloc 0x1800, .coherentAlloc 1, .coherentAlloc 0x2000, .memAlloc 0x10, .coherentFree 0x300000, .coherentAlloc 2]

theorem live_regions_apart_bothAllocators :
    (allocRun 0x400000 bothAllocators).Safe ∧
      (allocRun 0x400000 bothAllocators).live.map (fun r => (r.coherent, r.offset)) =
        [(true, 0x300000), (false, 0x2000), (true, 0x301000), (false, 0)] := by
  refine ⟨live_regions_apart 0x400000 bothAllocators ?_, by decide +kernel⟩
  refine ⟨fun _ => ⟨by decide, by decide +kernel⟩, .inl ⟨by decide, by decide⟩, .inl ⟨by decide, by decide⟩,
    fun _ => ⟨by decide, by decide +kernel⟩, trivial, .inl ⟨by decide, by decide⟩, trivial⟩

/-- The pool lies in what `MEM_ALLOC` gives away; a huge size is rounded to nothing; and empty regions share an
offset. -/
theorem live_regions_meet :
    ¬ (allocRun 0x400000 [.memAlloc 0x400000, .coherentAlloc 1]).Safe ∧
      ¬ (allocRun 0x400000 [.coherentAlloc 0xFFFFFFFFFFFFFFFF]).Safe ∧
      ¬ (allocRun 0x400000 [.memAlloc 0, .memAlloc 0]).Safe := by
  refine ⟨fun safe => ?_, fun safe => ?_, fun safe => ?_⟩
  · have apart := rel_of_pairwise_cons safe.apart mem_cons_self
    revert apart
    rw [Region.Apart]
    decide +kernel
  · have inside := safe.inside _ mem_cons_self
    revert inside
    decide +kernel
  · exact (rel_of_pairwise_cons safe.apart mem_cons_self).1 rfl

end CxlMemSim.Type2
