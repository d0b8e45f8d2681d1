import Mathlib.Data.List.AList
import CxlMemSim.Lib.Align
import CxlMemSim.Lib.FreeList
import CxlMemSim.Lib.Run

/-! The pool at the top of device memory, with its free list and the table of allocations. -/
namespace CxlMemSim.Type2
open FreeList Run List UInt64

structure CXLCohFreeBlock where
  offset : UInt64
  size : UInt64

structure CoherentPool where
  baseOffset : UInt64
  size : UInt64
  used : UInt64 := 0
  allocations : AList fun _ : UInt64 => UInt64 := ∅
  freeList : List CXLCohFreeBlock

/-- The pool's size in `cxl_type2_realize`: 256 MiB, or a quarter of a device with less than 512 MiB. -/
def cohPoolSize (deviceMemSize : UInt64) : UInt64 :=
  if deviceMemSize / 2 < 0x10000000 then deviceMemSize / 4 else 0x10000000

def coherentPoolInit (deviceMemSize : UInt64) : CoherentPool where
  baseOffset := deviceMemSize - cohPoolSize deviceMemSize
  size := cohPoolSize deviceMemSize
  freeList := [⟨deviceMemSize - cohPoolSize deviceMemSize, cohPoolSize deviceMemSize⟩]

def pageAlign (size : UInt64) : UInt64 := (size + 0xFFF) &&& ~~~0xFFF

/-- The walk over the free list: the first block that is large enough is used up or loses its front. -/
def takeFirst (alignedSize : UInt64) : List CXLCohFreeBlock → Option (UInt64 × List CXLCohFreeBlock)
  | [] => none
  | blk :: blks =>
    if alignedSize ≤ blk.size then
      some (blk.offset,
        if blk.size = alignedSize then blks else ⟨blk.offset + alignedSize, blk.size - alignedSize⟩ :: blks)
    else (takeFirst alignedSize blks).map fun taken => (taken.1, blk :: taken.2)

def coalesceNext (newBlk : CXLCohFreeBlock) : List CXLCohFreeBlock → CXLCohFreeBlock × List CXLCohFreeBlock
  | [] => (newBlk, [])
  | next :: rest =>
    if newBlk.offset + newBlk.size = next.offset then (⟨newBlk.offset, newBlk.size + next.size⟩, rest)
    else (newBlk, next :: rest)

def coalescePrev (newBlk : CXLCohFreeBlock) (after : List CXLCohFreeBlock) :
    List CXLCohFreeBlock → List CXLCohFreeBlock
  | [] => newBlk :: after
  | [prev] =>
    if prev.offset + prev.size = newBlk.offset then ⟨prev.offset, prev.size + newBlk.size⟩ :: after
    else prev :: newBlk :: after
  | prev :: next :: rest => prev :: coalescePrev newBlk after (next :: rest)

namespace CoherentPool
variable (pool : CoherentPool)

def take (offset alignedSize : UInt64) (freeList : List CXLCohFreeBlock) : CoherentPool :=
  { pool with
    freeList
    allocations := pool.allocations.insert offset alignedSize
    used := pool.used + alignedSize }

def alloc (size : UInt64) : CoherentPool × Int64 :=
  match takeFirst (pageAlign size) pool.freeList with
  | none => (pool, -1)
  | some taken => (pool.take taken.1 (pageAlign size) taken.2, taken.1.toInt64)

def put (newBlk : CXLCohFreeBlock) : CoherentPool :=
  let joined := coalesceNext newBlk (pool.freeList.dropWhile fun cur => cur.offset < newBlk.offset)
  { pool with
    freeList := coalescePrev joined.1 joined.2 (pool.freeList.takeWhile fun cur => cur.offset < newBlk.offset)
    allocations := pool.allocations.erase newBlk.offset
    used := pool.used - newBlk.size }

def free (offset : UInt64) : CoherentPool × Int :=
  match pool.allocations.lookup offset with
  | none => (pool, -1)
  | some size => (pool.put ⟨offset, size⟩, 0)

end CoherentPool

inductive PoolCall where
  | alloc (size : UInt64)
  | free (offset : UInt64)

def poolStep (pool : CoherentPool) : PoolCall → CoherentPool
  | .alloc size => (pool.alloc size).1
  | .free offset => (pool.free offset).1

def poolRun (deviceMemSize : UInt64) (calls : List PoolCall) : CoherentPool :=
  calls.foldl poolStep (coherentPoolInit deviceMemSize)

def CXLCohFreeBlock.block (blk : CXLCohFreeBlock) : Block := ⟨blk.offset.toNat, blk.size.toNat⟩

namespace CoherentPool
variable (pool : CoherentPool)

def freeBlocks : List Block := pool.freeList.map (·.block)

def liveBlocks : List Block := pool.allocations.entries.map fun entry => ⟨entry.1.toNat, entry.2.toNat⟩

def lo : Nat := pool.baseOffset.toNat

def hi : Nat := pool.baseOffset.toNat + pool.size.toNat

structure Sound : Prop where
  top : pool.hi < 2 ^ 64
  separated : Separated pool.freeBlocks
  partition : Partitions (pool.freeBlocks ++ pool.liveBlocks) pool.lo pool.hi
  nonempty : ∀ b ∈ pool.liveBlocks, 0 < b.size
  sum : total pool.freeBlocks + total pool.liveBlocks = pool.size.toNat
  used : pool.used.toNat = total pool.liveBlocks

end CoherentPool

def Fits (blk : CXLCohFreeBlock) : Prop := blk.block.stop < 2 ^ 64

variable {blks : List CXLCohFreeBlock} {newBlk : CXLCohFreeBlock}

theorem takeFirst_blocks {n : UInt64} (fits : ∀ blk ∈ blks, Fits blk) :
    (takeFirst n blks).map (fun taken => (taken.1.toNat, taken.2.map (·.block))) =
      firstFit n.toNat (blks.map (·.block)) := by
  induction blks with
  | nil => rfl
  | cons blk blks ih =>
    obtain ⟨here, others⟩ := forall_mem_cons.mp fits
    rw [takeFirst, map_cons, firstFit]
    by_cases large : n ≤ blk.size
    · have large' : n.toNat ≤ blk.size.toNat := le_iff_toNat_le.mp large
      rw [if_pos large, if_pos (show n.toNat ≤ blk.block.size from large'), Option.map_some]
      refine congrArg some (Prod.ext rfl ?_)
      by_cases whole : blk.size = n
      · rw [if_pos whole, if_pos (show blk.block.size = n.toNat from congrArg UInt64.toNat whole)]
      · rw [if_neg whole, if_neg (show ¬ blk.block.size = n.toNat from fun same => whole (UInt64.toNat_inj.mp same))]
        refine congrArg (· :: _) ?_
        have cut : (blk.offset + n).toNat = blk.offset.toNat + n.toNat := by
          rw [Fits, Block.stop] at here
          simp only [CXLCohFreeBlock.block] at here
          rw [UInt64.toNat_add, Nat.mod_eq_of_lt (by omega)]
        simp only [CXLCohFreeBlock.block, cut, UInt64.toNat_sub_of_le _ _ large]
    · rw [if_neg large, if_neg (show ¬ n.toNat ≤ blk.block.size from fun le => large (le_iff_toNat_le.mpr le)),
        ← ih others, Option.map_map, Option.map_map]
      rfl

theorem touch_iff {a c : CXLCohFreeBlock} (fits : Fits a) :
    a.offset + a.size = c.offset ↔ a.block.stop = c.block.start := by
  rw [← UInt64.toNat_inj, UInt64.toNat_add, Nat.mod_eq_of_lt (show a.offset.toNat + a.size.toNat < 2 ^ 64 from fits)]
  rfl

theorem join_block {a c : CXLCohFreeBlock} (fits : Fits c) (touch : a.block.stop = c.block.start) :
    (⟨a.offset, a.size + c.size⟩ : CXLCohFreeBlock).block = ⟨a.block.start, a.block.size + c.block.size⟩ := by
  have room : a.size.toNat + c.size.toNat < 2 ^ 64 := by
    simp only [Fits, Block.stop, CXLCohFreeBlock.block] at fits touch
    omega
  simp only [CXLCohFreeBlock.block, UInt64.toNat_add, Nat.mod_eq_of_lt room]

theorem coalesceNext_blocks (fits : Fits newBlk) (fits' : ∀ blk ∈ blks, Fits blk) :
    (coalesceNext newBlk blks).1.block = (joinNext newBlk.block (blks.map (·.block))).1 ∧
      (coalesceNext newBlk blks).2.map (·.block) = (joinNext newBlk.block (blks.map (·.block))).2 ∧
      Fits (coalesceNext newBlk blks).1 := by
  cases blks with
  | nil => exact ⟨rfl, rfl, fits⟩
  | cons next rest =>
    have room := fits' next mem_cons_self
    rw [coalesceNext, map_cons, joinNext]
    by_cases touch : newBlk.offset + newBlk.size = next.offset
    · have touch' := (touch_iff fits).mp touch
      rw [if_pos touch, if_pos touch']
      refine ⟨join_block room touch', rfl, ?_⟩
      rw [Fits, join_block room touch']
      simp only [Fits, Block.stop] at room touch' ⊢
      omega
    · rw [if_neg touch, if_neg fun touch' => touch ((touch_iff fits).mpr touch')]
      exact ⟨rfl, rfl, fits⟩

theorem coalescePrev_blocks (fits : Fits newBlk) (after : List CXLCohFreeBlock)
    {before : List CXLCohFreeBlock} (fits' : ∀ blk ∈ before, Fits blk) :
    (coalescePrev newBlk after before).map (·.block) =
      joinPrev newBlk.block (after.map (·.block)) (before.map (·.block)) := by
  induction before with
  | nil => rfl
  | cons prev rest ih =>
  obtain ⟨here, others⟩ := forall_mem_cons.mp fits'
  cases rest with
  | nil =>
    rw [coalescePrev, map_singleton, joinPrev]
    by_cases touch : prev.offset + prev.size = newBlk.offset
    · have touch' := (touch_iff here).mp touch
      rw [if_pos touch, if_pos touch', map_cons, join_block fits touch']
    · rw [if_neg touch, if_neg fun touch' => touch ((touch_iff here).mpr touch')]
      rfl
  | cons next rest =>
    rw [coalescePrev, map_cons, ih others]
    rfl

theorem insertFree_blocks (fits : Fits newBlk) (fits' : ∀ blk ∈ blks, Fits blk) :
    (coalescePrev (coalesceNext newBlk (blks.dropWhile fun cur => cur.offset < newBlk.offset)).1
        (coalesceNext newBlk (blks.dropWhile fun cur => cur.offset < newBlk.offset)).2
        (blks.takeWhile fun cur => cur.offset < newBlk.offset)).map (·.block) =
      giveBack newBlk.block (blks.map (·.block)) := by
  have order : (fun c : Block => decide (c.start < newBlk.block.start)) ∘ CXLCohFreeBlock.block =
      fun cur => decide (cur.offset < newBlk.offset) := by
    funext cur
    exact decide_eq_decide.mpr lt_iff_toNat_lt.symm
  have dropped : ∀ blk ∈ blks.dropWhile (fun cur => cur.offset < newBlk.offset), Fits blk :=
    fun blk member => fits' blk (dropWhile_subset _ member)
  obtain ⟨first, rest, room⟩ := coalesceNext_blocks fits dropped
  rw [coalescePrev_blocks room _ fun blk member => fits' blk (takeWhile_subset _ member), first, rest, giveBack,
    takeWhile_map, dropWhile_map, order]

variable {size deviceMemSize : UInt64}

theorem pageAlign_toNat (small : size.toNat ≤ 2 ^ 64 - 4096) :
    (pageAlign size).toNat = (size.toNat + 4095) / 4096 * 4096 := by
  have high : (~~~0xFFF : UInt64).toNat = (2 ^ (64 - 12) - 1) <<< 12 := by decide
  rw [pageAlign, Align.clearLow_toNat (by decide) high, UInt64.toNat_add,
    Nat.mod_eq_of_lt (by change size.toNat + 4095 < _; omega)]
  rfl

namespace CoherentPool
variable {pool : CoherentPool}

theorem liveBlocks_take {offset : UInt64} (n : UInt64) (freeList : List CXLCohFreeBlock)
    (fresh : offset ∉ pool.allocations) :
    (pool.take offset n freeList).liveBlocks = ⟨offset.toNat, n.toNat⟩ :: pool.liveBlocks :=
  congrArg (List.map _) (AList.entries_insert_of_notMem fresh)

theorem liveBlocks_free (offset : UInt64) :
    (pool.free offset).1.liveBlocks = pool.liveBlocks.eraseP (·.start = offset.toNat) := by
  have starts : (fun b : Block => decide (b.start = offset.toNat)) ∘
      (fun entry : (_ : UInt64) × UInt64 => (⟨entry.1.toNat, entry.2.toNat⟩ : Block)) =
        fun entry => decide (offset = entry.1) := by
    funext entry
    exact decide_eq_decide.mpr (UInt64.toNat_inj.trans eq_comm)
  have erased : pool.liveBlocks.eraseP (·.start = offset.toNat) =
      (kerase offset pool.allocations.entries).map fun entry => ⟨entry.1.toNat, entry.2.toNat⟩ := by
    rw [liveBlocks, eraseP_map, starts]
    rfl
  rw [erased, CoherentPool.free]
  cases found : pool.allocations.lookup offset with
  | none =>
    rw [kerase_of_notMem_keys (AList.lookup_eq_none.mp found)]
    rfl
  | some size => rfl

section
variable (sound : pool.Sound)
include sound

theorem Sound.fits : ∀ blk ∈ pool.freeList, Fits blk := by
  intro blk member
  have inFree : blk.block ∈ pool.freeBlocks := mem_map_of_mem member
  have bounds := sound.partition.bounds (mem_append_left _ inFree) (sound.separated.nonempty _ inFree)
  exact Nat.lt_of_le_of_lt bounds.2 sound.top

theorem Sound.fresh {b : Block} (inFree : b ∈ pool.freeBlocks) {offset : UInt64}
    (start : b.start = offset.toNat) : offset ∉ pool.allocations := by
  intro present
  obtain ⟨size, found⟩ := Option.isSome_iff_exists.mp (AList.lookup_isSome.mpr present)
  have live : (⟨offset.toNat, size.toNat⟩ : Block) ∈ pool.liveBlocks :=
    mem_map_of_mem (AList.mem_lookup_iff.mp found)
  have large := sound.separated.nonempty b inFree
  have large' := sound.nonempty _ live
  have apart := sound.partition.apart inFree live large large'
  simp only [Block.stop] at apart large'
  omega

theorem Sound.take {n offset : UInt64} {freeList : List CXLCohFreeBlock} (positive : 0 < n.toNat)
    (taken : Taken n.toNat pool.freeBlocks offset.toNat (freeList.map (·.block))) :
    (pool.take offset n freeList).Sound := by
  obtain ⟨b, inFree, start, -⟩ := taken.from_
  have live := liveBlocks_take n freeList (sound.fresh inFree start)
  have room := sound.sum
  have top := sound.top
  rw [taken.total] at room
  rw [hi] at top
  refine ⟨sound.top, taken.separated, fun x => ?_, ?_, ?_, ?_⟩
  · rw [live, cover_append, cover_cons, ← Nat.add_assoc, Nat.add_right_comm]
    refine Eq.trans ?_ (sound.partition x)
    rw [cover_append, taken.cover]
    rfl
  · rw [live]
    exact forall_mem_cons.mpr ⟨positive, sound.nonempty⟩
  · rw [live, total_cons, ← Nat.add_assoc, Nat.add_comm (total _)]
    exact room
  · rw [live, total_cons]
    change (pool.used + n).toNat = n.toNat + total pool.liveBlocks
    rw [UInt64.toNat_add, sound.used, Nat.mod_eq_of_lt (by omega), Nat.add_comm]

theorem Sound.alloc_cases (positive : 0 < (pageAlign size).toNat) :
    (pool.alloc size = (pool, -1) ∧ ∀ b ∈ pool.freeBlocks, b.size < (pageAlign size).toNat) ∨
      ∃ offset freeList, pool.alloc size = (pool.take offset (pageAlign size) freeList, offset.toInt64) ∧
        Taken (pageAlign size).toNat pool.freeBlocks offset.toNat (freeList.map (·.block)) ∧
        offset ∉ pool.allocations := by
  have blocks := takeFirst_blocks (n := pageAlign size) sound.fits
  rw [CoherentPool.alloc]
  cases found : takeFirst (pageAlign size) pool.freeList with
  | none =>
    rw [found] at blocks
    exact .inl ⟨rfl, firstFit_eq_none_iff.mp blocks.symm⟩
  | some taken =>
    rw [found, Option.map_some] at blocks
    have fit := firstFit_taken positive sound.separated blocks.symm
    obtain ⟨b, inFree, start, -⟩ := fit.from_
    exact .inr ⟨taken.1, taken.2, rfl, fit, sound.fresh inFree start⟩

theorem Sound.alloc (positive : 0 < (pageAlign size).toNat) : (pool.alloc size).1.Sound ∧
      ((pool.alloc size).2 = -1 ↔ ∀ b ∈ pool.freeBlocks, b.size < (pageAlign size).toNat) ∧
      (pool.alloc size).1.liveBlocks = if (pool.alloc size).2 = -1 then pool.liveBlocks
        else ⟨(pool.alloc size).2.toUInt64.toNat, (pageAlign size).toNat⟩ :: pool.liveBlocks := by
  rcases sound.alloc_cases positive with ⟨fails, small⟩ | ⟨offset, freeList, succeeds, taken, fresh⟩
  · rw [fails]
    exact ⟨sound, iff_of_true rfl small, (if_pos rfl).symm⟩
  · obtain ⟨b, inFree, start, large⟩ := taken.from_
    rw [succeeds]
    have inside : offset.toInt64 ≠ -1 := by
      -- the last address of the address space is not in the pool
      intro minus
      have bounds := sound.partition.bounds (mem_append_left _ inFree) (by omega)
      have last : offset.toNat = 2 ^ 64 - 1 := congrArg (fun i : Int64 => i.toUInt64.toNat) minus
      have top := sound.top
      rw [Block.stop, start, last] at bounds
      omega
    refine ⟨sound.take positive taken, iff_of_false inside fun small => ?_, ?_⟩
    · have := small b inFree
      omega
    · rw [if_neg inside]
      exact liveBlocks_take _ _ fresh

theorem Sound.put {offset size : UInt64} (found : pool.allocations.lookup offset = some size) :
    (pool.put ⟨offset, size⟩).Sound := by
  have member := AList.mem_lookup_iff.mp found
  have live : (⟨offset.toNat, size.toNat⟩ : Block) ∈ pool.liveBlocks := mem_map_of_mem member
  have large : 0 < size.toNat := sound.nonempty _ live
  have bounds := sound.partition.bounds (mem_append_right _ live) large
  have fits : Fits ⟨offset, size⟩ := Nat.lt_of_le_of_lt bounds.2 sound.top
  obtain ⟨separated, covers, sizes⟩ := giveBack_spec (b := ⟨offset.toNat, size.toNat⟩) large sound.separated
    fun c inFree => sound.partition.apart inFree live (sound.separated.nonempty c inFree) large
  have free' : (pool.put ⟨offset, size⟩).freeBlocks = giveBack ⟨offset.toNat, size.toNat⟩ pool.freeBlocks :=
    insertFree_blocks fits sound.fits
  obtain ⟨size', before, after, -, entries, erased⟩ := exists_of_kerase (mem_keys_of_mem member)
  obtain rfl : size' = size := by
    refine Option.some.inj (Eq.trans (Eq.symm ?_) found)
    exact AList.mem_lookup_iff.mpr (entries ▸ mem_append_right _ mem_cons_self)
  have liveBefore : ∃ front back, pool.liveBlocks = front ++ ⟨offset.toNat, size'.toNat⟩ :: back ∧
      (pool.put ⟨offset, size'⟩).liveBlocks = front ++ back := by
    refine ⟨before.map fun entry => ⟨entry.1.toNat, entry.2.toNat⟩,
      after.map fun entry => ⟨entry.1.toNat, entry.2.toNat⟩,
      ?_, ?_⟩
    · rw [liveBlocks, entries, map_append, map_cons]
    · exact (congrArg (List.map _) erased).trans map_append
  obtain ⟨front, back, liveWas, liveIs⟩ := liveBefore
  have room := sound.sum
  have used := sound.used
  have partition := sound.partition
  have nonempty := sound.nonempty
  rw [liveWas, total_append, total_cons] at room used
  rw [liveWas] at partition nonempty
  refine ⟨sound.top, free' ▸ separated, fun x => ?_, fun b kept => ?_, ?_, ?_⟩
  · rw [free', liveIs, cover_append, covers, cover_append]
    refine Eq.trans ?_ (partition x)
    rw [cover_append, cover_append, cover_cons]
    omega
  · rw [liveIs] at kept
    refine nonempty b ?_
    rcases mem_append.mp kept with inFront | inBack
    · exact mem_append_left _ inFront
    · exact mem_append_right _ (mem_cons_of_mem _ inBack)
  · rw [free', liveIs, sizes, total_append]
    change size'.toNat + total pool.freeBlocks + _ = pool.size.toNat
    simp only at room
    omega
  · have smaller : size' ≤ pool.used := le_iff_toNat_le.mpr (by rw [used]; simp only; omega)
    rw [liveIs, total_append]
    change (pool.used - size').toNat = _
    rw [UInt64.toNat_sub_of_le _ _ smaller, used]
    simp only
    omega

theorem Sound.free (offset : UInt64) :
    (pool.free offset).1.Sound ∧ ((pool.free offset).2 = 0 ↔ ∃ b ∈ pool.liveBlocks, b.start = offset.toNat) := by
  rw [CoherentPool.free]
  cases found : pool.allocations.lookup offset with
  | none =>
    refine ⟨sound, iff_of_false (show ¬ (-1 : Int) = 0 by decide) ?_⟩
    rintro ⟨b, live, start⟩
    obtain ⟨entry, member, rfl⟩ := mem_map.mp live
    obtain rfl := UInt64.toNat_inj.mp start
    exact AList.lookup_eq_none.mp found (mem_keys_of_mem member)
  | some size =>
    refine ⟨sound.put found, iff_of_true rfl ⟨⟨offset.toNat, size.toNat⟩, ?_, rfl⟩⟩
    exact mem_map_of_mem (AList.mem_lookup_iff.mp found)

end

theorem alloc_range (size : UInt64) :
    (pool.alloc size).1.baseOffset = pool.baseOffset ∧ (pool.alloc size).1.size = pool.size := by
  rw [CoherentPool.alloc]
  split <;> exact ⟨rfl, rfl⟩

theorem free_range (offset : UInt64) :
    (pool.free offset).1.baseOffset = pool.baseOffset ∧ (pool.free offset).1.size = pool.size := by
  rw [CoherentPool.free]
  split <;> exact ⟨rfl, rfl⟩

end CoherentPool

theorem cohPoolSize_le (deviceMemSize : UInt64) : cohPoolSize deviceMemSize ≤ deviceMemSize := by
  have half := UInt64.toNat_div deviceMemSize 2
  have quarter := UInt64.toNat_div deviceMemSize 4
  rw [le_iff_toNat_le, cohPoolSize]
  split
  · rw [quarter]
    exact Nat.div_le_self _ _
  · rename_i large
    rw [lt_iff_toNat_lt, half] at large
    change ¬ deviceMemSize.toNat / 2 < 0x10000000 at large
    change 0x10000000 ≤ _
    omega

theorem coherentPoolInit_hi (deviceMemSize : UInt64) : (coherentPoolInit deviceMemSize).hi = deviceMemSize.toNat := by
  have le := cohPoolSize_le deviceMemSize
  rw [CoherentPool.hi, coherentPoolInit, UInt64.toNat_sub_of_le _ _ le]
  exact Nat.sub_add_cancel (le_iff_toNat_le.mp le)

theorem coherentPoolInit_sound (nonempty : 0 < cohPoolSize deviceMemSize) :
    (coherentPoolInit deviceMemSize).Sound where
  top := coherentPoolInit_hi deviceMemSize ▸ deviceMemSize.toNat_lt
  separated := ⟨pairwise_singleton _ _, fun b member => by
    rw [mem_singleton.mp member]
    exact lt_iff_toNat_lt.mp nonempty⟩
  partition := fun x => by
    change cover [⟨_, _⟩] x = _
    rw [cover_cons]
    exact Nat.zero_add _
  nonempty := fun b none => by cases none
  sum := Nat.add_zero _
  used := rfl

def PoolCall.Sized : PoolCall → Prop
  | .alloc size => 1 ≤ size.toNat ∧ size.toNat ≤ 2 ^ 64 - 4096
  | .free _ => True

theorem pageAlign_pos (sized : (PoolCall.alloc size).Sized) : 0 < (pageAlign size).toNat := by
  have positive := sized.1
  rw [pageAlign_toNat sized.2]
  omega

theorem poolRun_sound (nonempty : 0 < cohPoolSize deviceMemSize) {calls : List PoolCall}
    (sized : ∀ c ∈ calls, c.Sized) :
    (poolRun deviceMemSize calls).Sound ∧
      (poolRun deviceMemSize calls).baseOffset = (coherentPoolInit deviceMemSize).baseOffset ∧
      (poolRun deviceMemSize calls).size = (coherentPoolInit deviceMemSize).size := by
  refine invariant_of_everyStep (P := fun _ c => c.Sized) (I := fun pool : CoherentPool => pool.Sound ∧
    pool.baseOffset = (coherentPoolInit deviceMemSize).baseOffset ∧ pool.size = (coherentPoolInit deviceMemSize).size)
    ?_ ⟨coherentPoolInit_sound nonempty, rfl, rfl⟩ (everyStep_of_forall fun c member _ => sized c member)
  rintro pool c ⟨sound, base, size⟩ callSized
  cases c with
  | alloc n =>
    obtain ⟨base', size'⟩ := pool.alloc_range n
    exact ⟨(sound.alloc (pageAlign_pos callSized)).1, base'.trans base, size'.trans size⟩
  | free offset =>
    obtain ⟨base', size'⟩ := pool.free_range offset
    exact ⟨(sound.free offset).1, base'.trans base, size'.trans size⟩

/-- After any run from the realized pool the free list is in order with gaps, free and live blocks partition the pool
and `used` is what is live. The next call fails for want of space or of an allocation only; the block at a returned
offset is then live, and a freed one no longer. -/
theorem coherent_pool_sound (deviceMemSize : UInt64) (nonempty : 0 < cohPoolSize deviceMemSize) (calls : List PoolCall)
    (sized : ∀ c ∈ calls, c.Sized) :
    let pool := poolRun deviceMemSize calls
    Separated pool.freeBlocks ∧
      Partitions (pool.freeBlocks ++ pool.liveBlocks)
        (coherentPoolInit deviceMemSize).lo (coherentPoolInit deviceMemSize).hi ∧
      pool.used.toNat = total pool.liveBlocks ∧
      (∀ size, (PoolCall.alloc size).Sized →
        ((pool.alloc size).2 = -1 ↔ ∀ b ∈ pool.freeBlocks, b.size < (size.toNat + 4095) / 4096 * 4096) ∧
        (pool.alloc size).1.liveBlocks = if (pool.alloc size).2 = -1 then pool.liveBlocks
          else ⟨(pool.alloc size).2.toUInt64.toNat, (size.toNat + 4095) / 4096 * 4096⟩ :: pool.liveBlocks) ∧
      ∀ offset, ((pool.free offset).2 = 0 ↔ ∃ b ∈ pool.liveBlocks, b.start = offset.toNat) ∧
        (pool.free offset).1.liveBlocks = pool.liveBlocks.eraseP (·.start = offset.toNat) := by
  intro pool
  obtain ⟨sound, base, size⟩ := poolRun_sound nonempty sized
  refine ⟨sound.separated, ?_, sound.used, fun n callSized => ?_, fun offset => ?_⟩
  · have partition := sound.partition
    rw [CoherentPool.lo, CoherentPool.hi, base, size] at partition
    exact partition
  · rw [← pageAlign_toNat callSized.2]
    exact (sound.alloc (pageAlign_pos callSized)).2
  · exact ⟨(sound.free offset).2, pool.liveBlocks_free offset⟩

def coalescingRun : List PoolCall :=
  [.alloc 1, .alloc 0x1001, .alloc 0x3000, .free 0x301000, .free 0x300000, .alloc 0x800]

theorem coherent_pool_coalescingRun :
    ((poolRun 0x400000 coalescingRun).free 0x303000).2 = 0 ∧
      ((poolRun 0x400000 coalescingRun).free 0x301000).2 ≠ 0 ∧
      ((poolRun 0x400000 coalescingRun).alloc 0xfb000).2 = -1 := by
  obtain ⟨-, -, -, allocs, frees⟩ := coherent_pool_sound 0x400000 (by decide) coalescingRun
    (by simp [coalescingRun, PoolCall.Sized])
  refine ⟨(frees _).1.mpr ?_, fun freed => ?_, (allocs _ (by simp [PoolCall.Sized])).1.mpr ?_⟩
  · exact ⟨⟨0x303000, 0x3000⟩, by decide +kernel, rfl⟩
  · obtain ⟨b, live, start⟩ := (frees _).1.mp freed
    revert b
    decide +kernel
  · decide +kernel

end CxlMemSim.Type2
