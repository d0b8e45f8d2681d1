import CxlMemSim.Mhsld.Device

/-! `allocate_pool` hands out addresses by the head's number and used capacity alone. -/
namespace CxlMemSim.Mhsld
open Coherency Run MHSLDDevice List

structure Block where
  head : UInt32
  addr : UInt64
  size : UInt64
deriving DecidableEq

def Block.Covers (b : Block) (x : Nat) : Prop := b.addr.toNat ≤ x ∧ x < b.addr.toNat + b.size.toNat
deriving Decidable

namespace MHSLDDevice
variable (d : MHSLDDevice)

def Allocates (headId : UInt32) (size : UInt64) : Prop :=
  d.Accepts headId ∧ (d.heads headId).usedCapacity + size ≤ (d.heads headId).allocatedCapacity
deriving Decidable

def slice : Nat := d.totalCapacity.toNat / 16

def used (headId : UInt32) : Nat := (d.heads headId).usedCapacity.toNat

end MHSLDDevice

structure Pool where
  device : MHSLDDevice
  live : List Block

namespace Pool

def liveAfter (p : Pool) : Call → List Block
  | .allocatePool headId size =>
    if p.device.Allocates headId size then ⟨headId, (p.device.allocatePool headId size).2, size⟩ :: p.live
    else p.live
  | .releasePool headId addr size =>
    if p.device.Accepts headId then p.live.erase ⟨headId, addr, size⟩ else p.live
  | _ => p.live

def step (s : Option Pool) (c : Call) : Option Pool :=
  s.bind fun p => (p.device.exec c).map fun device => ⟨device, p.liveAfter c⟩

def run (capacity : UInt64) (calls : List Call) : Option Pool :=
  calls.foldl step (some ⟨{ totalCapacity := capacity }, []⟩)

/-- The blocks in use are apart and inside the device, and none starts at the address that reports
failure. -/
structure Sound (p : Pool) : Prop where
  disjoint : p.live.Pairwise fun b b' => ∀ x, ¬ (b.Covers x ∧ b'.Covers x)
  inside : ∀ b ∈ p.live, ∀ x, b.Covers x → x < p.device.totalCapacity.toNat
  nonzero : ∀ b ∈ p.live, b.addr ≠ 0

/-- Heads stay in their slices, free in the reverse order and are not activated anew with blocks in
use; nothing is placed at address 0. -/
def Tame (p : Pool) : Call → Prop
  | .activateHead headId _ => headId < maxHeads → ∀ b ∈ p.live, b.head = headId → b.size = 0
  | .allocatePool headId size => p.device.Allocates headId size →
      p.device.used headId + size.toNat ≤ p.device.slice ∧
      ¬ (p.device.used headId = 0 ∧ (headId = 0 ∨ p.device.totalCapacity < 16))
  | .releasePool headId addr size => p.device.Accepts headId → size = 0 ∨
      (⟨headId, addr, size⟩ ∈ p.live ∧ addr.toNat + size.toNat = headId.toNat * p.device.slice + p.device.used headId)
  | _ => True

end Pool

variable {headId : UInt32} {size : UInt64} {after : MHSLDDevice}

namespace MHSLDDevice
variable {d : MHSLDDevice}

theorem allocatePool_of_allocates (allocates : d.Allocates headId size) :
    d.allocatePool headId size =
      (d.setHead headId
          { d.heads headId with usedCapacity := (d.heads headId).usedCapacity + size },
        headId.toUInt64 * (d.totalCapacity / 16) + (d.heads headId).usedCapacity) := by
  simp only [allocatePool, if_pos allocates.1, if_neg (UInt64.not_lt.mpr allocates.2)]

theorem allocatePool_of_not (refused : ¬ d.Allocates headId size) : (d.allocatePool headId size).1 = d := by
  unfold allocatePool
  split
  · rename_i accepts
    simp only
    split
    · rfl
    · rename_i fits
      exact (refused ⟨accepts, UInt64.not_lt.mp fits⟩).elim
  · rfl

theorem usedCapacity_setHead (headId : UInt32) (state : MHSLDHeadState) (h : UInt32) :
    ((d.setHead headId state).heads h).usedCapacity =
      if h = headId then state.usedCapacity else (d.heads h).usedCapacity := by
  simp only [setHead, Function.update_apply]
  split <;> rfl

theorem usedCapacity_keep (headId : UInt32) {state : MHSLDHeadState}
    (keeps : state.usedCapacity = (d.heads headId).usedCapacity) (h : UInt32) :
    ((d.setHead headId state).heads h).usedCapacity = (d.heads h).usedCapacity := by
  rw [usedCapacity_setHead, keeps]
  split
  · rename_i same
    rw [same]
  · rfl

theorem usedCapacity_releasePool {addr size : UInt64} (accepts : d.Accepts headId)
    (returns : d.releasePool headId addr size = some after) (h : UInt32) :
    after.totalCapacity = d.totalCapacity ∧ (after.heads h).usedCapacity =
      if h = headId ∧ size ≤ (d.heads h).usedCapacity then (d.heads h).usedCapacity - size
      else (d.heads h).usedCapacity := by
  rw [releasePool, if_pos accepts] at returns
  obtain ⟨directory, -, rfl⟩ := Option.map_eq_some_iff.mp returns
  refine ⟨rfl, (usedCapacity_setHead _ _ h).trans ?_⟩
  by_cases same : h = headId
  · subst same
    simp only [if_true, true_and]
  · simp only [same, if_false, false_and]

end MHSLDDevice

def Call.usedCapacity (d : MHSLDDevice) (h : UInt32) : Call → UInt64
  | .activateHead headId _ => if headId < maxHeads ∧ h = headId then 0 else (d.heads h).usedCapacity
  | .allocatePool headId size =>
    if d.Allocates headId size ∧ h = headId then (d.heads h).usedCapacity + size else (d.heads h).usedCapacity
  | .releasePool headId _ size =>
    if d.Accepts headId ∧ h = headId ∧ size ≤ (d.heads h).usedCapacity then (d.heads h).usedCapacity - size
    else (d.heads h).usedCapacity
  | _ => (d.heads h).usedCapacity

theorem usedCapacity_exec {d after : MHSLDDevice} {c : Call} (returns : d.exec c = some after) (h : UInt32) :
    after.totalCapacity = d.totalCapacity ∧ (after.heads h).usedCapacity = c.usedCapacity d h := by
  cases c with
  | activateHead headId capacityAlloc =>
    cases returns
    by_cases valid : headId < maxHeads
    · simp only [Call.usedCapacity, valid, true_and]
      rw [activateHead, if_pos valid]
      exact ⟨rfl, usedCapacity_setHead _ _ h⟩
    · simp only [Call.usedCapacity, valid, false_and, if_false]
      rw [activateHead, if_neg valid]
      exact ⟨rfl, rfl⟩
  | deactivateHead headId =>
    cases returns
    rw [deactivateHead]
    split
    · refine ⟨rfl, usedCapacity_keep headId ?_ h⟩
      rfl
    · exact ⟨rfl, rfl⟩
  | allocatePool headId size =>
    cases returns
    by_cases allocates : d.Allocates headId size
    · simp only [Call.usedCapacity, allocates, true_and]
      rw [allocatePool_of_allocates allocates]
      refine ⟨rfl, (usedCapacity_setHead _ _ h).trans ?_⟩
      by_cases same : h = headId
      · rw [if_pos same, if_pos same, same]
      · rw [if_neg same, if_neg same]
    · simp only [Call.usedCapacity, allocates, false_and, if_false]
      rw [allocatePool_of_not allocates]
      exact ⟨rfl, rfl⟩
  | releasePool headId addr size =>
    by_cases accepts : d.Accepts headId
    · simp only [Call.usedCapacity, accepts, true_and]
      exact usedCapacity_releasePool accepts returns h
    · simp only [Call.usedCapacity, accepts, false_and, if_false]
      rw [exec, releasePool, if_neg accepts] at returns
      cases returns
      exact ⟨rfl, rfl⟩
  | readWithCoherency headId addr timestamp =>
    cases returns
    rw [readWithCoherency]
    split
    · refine ⟨rfl, usedCapacity_keep headId ?_ h⟩
      rfl
    · exact ⟨rfl, rfl⟩
  | writeWithCoherency headId addr timestamp | atomicWithCoherency headId addr timestamp =>
    cases returns
    simp only [atomicWithCoherency, writeWithCoherency]
    split
    · refine ⟨rfl, usedCapacity_keep headId ?_ h⟩
      rfl
    · exact ⟨rfl, rfl⟩
  | writeback addr headId =>
    cases returns
    rw [writeback]
    split
    · exact ⟨rfl, rfl⟩
    · split <;> exact ⟨rfl, rfl⟩

theorem slice_le (d : MHSLDDevice) {h : UInt32} (valid : h < maxHeads) :
    h.toNat * d.slice + d.slice ≤ d.totalCapacity.toNat := by
  have below : h.toNat + 1 ≤ 16 := UInt32.lt_iff_toNat_lt.mp valid
  calc h.toNat * d.slice + d.slice = (h.toNat + 1) * d.slice := by ring
    _ ≤ 16 * d.slice := Nat.mul_le_mul_right _ below
    _ ≤ d.totalCapacity.toNat := Nat.mul_div_le _ _

theorem addr_allocatePool {d : MHSLDDevice} {h : UInt32} (allocates : d.Allocates h size)
    (fits : d.used h ≤ d.slice) : (d.allocatePool h size).2.toNat = h.toNat * d.slice + d.used h := by
  have whole := slice_le d allocates.1.1
  have bound := d.totalCapacity.toNat_lt
  rw [allocatePool_of_allocates allocates]
  simp only [UInt64.toNat_add, UInt64.toNat_mul, UInt64.toNat_div, UInt32.toNat_toUInt64]
  change (h.toNat * d.slice % 2 ^ 64 + d.used h) % 2 ^ 64 = _
  rw [Nat.mod_eq_of_lt (a := h.toNat * d.slice) (by omega), Nat.mod_eq_of_lt (by omega)]

theorem slices_apart {i j n : Nat} (other : i ≠ j) {x : Nat} (inI : i * n ≤ x ∧ x < i * n + n) :
    ¬ (j * n ≤ x ∧ x < j * n + n) := by
  rintro ⟨from_j, to_j⟩
  rcases Nat.lt_or_gt_of_ne other with below | above
  · have := Nat.mul_le_mul_right n below
    rw [Nat.succ_mul] at this
    omega
  · have := Nat.mul_le_mul_right n above
    rw [Nat.succ_mul] at this
    omega

structure Placed (p : Pool) : Prop where
  used_le : ∀ h, p.device.used h ≤ p.device.slice
  valid : ∀ b ∈ p.live, b.head < maxHeads
  within : ∀ b ∈ p.live, ∀ x, b.Covers x → b.head.toNat * p.device.slice ≤ x ∧
    x < b.head.toNat * p.device.slice + p.device.used b.head
  disjoint : p.live.Pairwise fun b b' => ∀ x, ¬ (b.Covers x ∧ b'.Covers x)
  nonzero : ∀ b ∈ p.live, b.addr ≠ 0

variable {p : Pool}

section
variable (placed : Placed p)
include placed

theorem Placed.sound : p.Sound := by
  refine ⟨placed.disjoint, fun b member x covers => ?_, placed.nonzero⟩
  have whole := slice_le p.device (placed.valid b member)
  have used := placed.used_le b.head
  have inside := placed.within b member x covers
  omega

theorem Placed.shrink {live : List Block}
    (same : after.totalCapacity = p.device.totalCapacity) (used_le : ∀ h, after.used h ≤ p.device.used h)
    (fewer : live.Sublist p.live)
    (covered : ∀ b ∈ live, ∀ x, b.Covers x → x < b.head.toNat * p.device.slice + after.used b.head) :
    Placed ⟨after, live⟩ := by
  have slices : after.slice = p.device.slice := by rw [slice, same, slice]
  refine ⟨fun h => ?_, fun b member => placed.valid b (fewer.subset member), fun b member x covers => ?_,
    placed.disjoint.sublist fewer, fun b member => placed.nonzero b (fewer.subset member)⟩
  · rw [slices]
    exact (used_le h).trans (placed.used_le h)
  · rw [slices]
    exact ⟨(placed.within b (fewer.subset member) x covers).1, covered b member x covers⟩

theorem Placed.keep (same : ∀ h, after.totalCapacity = p.device.totalCapacity ∧
      (after.heads h).usedCapacity = (p.device.heads h).usedCapacity) : Placed ⟨after, p.live⟩ := by
  have used : ∀ h, after.used h = p.device.used h := fun h => congrArg UInt64.toNat (same h).2
  refine placed.shrink (same 0).1 (fun h => (used h).le) (List.Sublist.refl _) fun b member x covers => ?_
  rw [used]
  exact (placed.within b member x covers).2

theorem Placed.activateHead {capacityAlloc : UInt64} (tame : p.Tame (.activateHead headId capacityAlloc))
    (returns : p.device.exec (.activateHead headId capacityAlloc) = some after) : Placed ⟨after, p.live⟩ := by
  have used := usedCapacity_exec returns
  refine placed.shrink (used 0).1 (fun h => ?_) (List.Sublist.refl _) fun b member x covers => ?_
  · rw [MHSLDDevice.used, (used h).2, Call.usedCapacity]
    split
    · exact Nat.zero_le _
    · exact le_refl _
  · rw [MHSLDDevice.used, (used b.head).2, Call.usedCapacity]
    split
    · rename_i anew
      have empty := tame anew.1 b member anew.2
      simp only [Block.Covers, empty, UInt64.toNat_zero] at covers
      omega
    · exact (placed.within b member x covers).2

theorem Placed.cons {b : Block} (valid : b.head < maxHeads)
    (at_top : b.addr.toNat = b.head.toNat * p.device.slice + p.device.used b.head)
    (fits : p.device.used b.head + b.size.toNat ≤ p.device.slice) (nonzero : b.addr ≠ 0)
    (same : after.totalCapacity = p.device.totalCapacity)
    (used : ∀ h, after.used h = if h = b.head then p.device.used h + b.size.toNat else p.device.used h) :
    Placed ⟨after, b :: p.live⟩ := by
  have slices : after.slice = p.device.slice := by rw [slice, same, slice]
  have grows : ∀ h, p.device.used h ≤ after.used h := by
    intro h
    rw [used]
    split <;> omega
  refine ⟨fun h => ?_, ?_, ?_, ?_, ?_⟩
  · rw [slices, used]
    split
    · rename_i own
      rwa [own]
    · exact placed.used_le h
  · exact forall_mem_cons.mpr ⟨valid, placed.valid⟩
  · simp only [slices]
    refine forall_mem_cons.mpr ⟨fun x covers => ?_, fun b' member x covers => ?_⟩
    · rw [used, if_pos rfl]
      have := covers.1
      have := covers.2
      omega
    · have inside := placed.within b' member x covers
      have := grows b'.head
      omega
  · refine pairwise_cons.mpr ⟨fun b' member x both => ?_, placed.disjoint⟩
    have inside := placed.within b' member x both.2
    have least := both.1.1
    have less := both.1.2
    by_cases own : b'.head = b.head
    · rw [own] at inside
      omega
    · have le := placed.used_le b'.head
      exact slices_apart (fun same => own (UInt32.toNat_inj.mp same)) (x := x)
        (n := p.device.slice) ⟨inside.1, by omega⟩ ⟨by omega, by omega⟩
  · exact forall_mem_cons.mpr ⟨nonzero, placed.nonzero⟩

theorem Placed.allocatePool (tame : p.Tame (.allocatePool headId size))
    (returns : p.device.exec (.allocatePool headId size) = some after) :
    Placed ⟨after, p.liveAfter (.allocatePool headId size)⟩ := by
  have used := usedCapacity_exec returns
  simp only [Call.usedCapacity] at used
  by_cases allocates : p.device.Allocates headId size
  · simp only [allocates, true_and] at used
    rw [Pool.liveAfter, if_pos allocates]
    obtain ⟨fits, nonzero⟩ := tame allocates
    have at_top := addr_allocatePool allocates (placed.used_le headId)
    refine placed.cons allocates.1.1 at_top fits (fun zero => nonzero ?_) (used 0).1 fun h => ?_
    · rw [show (p.device.allocatePool headId size).2 = 0 from zero, UInt64.toNat_zero] at at_top
      have no_base : headId.toNat * p.device.slice = 0 := by omega
      refine ⟨by omega, (Nat.mul_eq_zero.mp no_base).imp (fun h => UInt32.toNat_inj.mp h) fun h => ?_⟩
      rw [slice, Nat.div_eq_zero_iff_lt (by decide)] at h
      exact UInt64.lt_iff_toNat_lt.mpr h
    · have whole := slice_le p.device allocates.1.1
      have bound := p.device.totalCapacity.toNat_lt
      rw [MHSLDDevice.used, (used h).2]
      split
      · rename_i own
        subst own
        rw [UInt64.toNat_add]
        exact Nat.mod_eq_of_lt (by unfold MHSLDDevice.used at fits; omega)
      · rfl
  · simp only [allocates, false_and, if_false] at used
    rw [Pool.liveAfter, if_neg allocates]
    exact placed.keep used

theorem Placed.releasePool {addr size : UInt64} (tame : p.Tame (.releasePool headId addr size))
    (returns : p.device.exec (.releasePool headId addr size) = some after) :
    Placed ⟨after, p.liveAfter (.releasePool headId addr size)⟩ := by
  have used := usedCapacity_exec returns
  simp only [Call.usedCapacity] at used
  by_cases accepts : p.device.Accepts headId
  · simp only [accepts, true_and] at used
    rw [Pool.liveAfter, if_pos accepts]
    refine placed.shrink (used 0).1 (fun h => ?_) erase_sublist fun b member x covers => ?_
    · rw [MHSLDDevice.used, (used h).2]
      split
      · rename_i less
        rw [UInt64.toNat_sub_of_le _ _ less.2]
        exact Nat.sub_le _ _
      · exact le_refl _
    · have inside := placed.within b (mem_of_mem_erase member) x covers
      rw [MHSLDDevice.used, (used b.head).2]
      split
      · rename_i less
        rw [UInt64.toNat_sub_of_le _ _ less.2]
        rcases tame accepts with empty | ⟨released, on_top⟩
        · rw [empty]
          exact inside.2
        · have apart := (pairwise_cons.mp (((perm_cons_erase released).pairwise_iff
            fun disjoint x both => disjoint x both.symm).mp placed.disjoint)).1 b member x
          have above : ¬ (addr.toNat ≤ x ∧ x < addr.toNat + size.toNat) := fun covered => apart ⟨covered, covers⟩
          rw [← less.1] at on_top
          unfold MHSLDDevice.used at on_top inside
          omega
      · exact inside.2
  · simp only [accepts, false_and, if_false] at used
    rw [Pool.liveAfter, if_neg accepts]
    exact placed.keep used

end

theorem placed_step {s : Option Pool} {c : Call} (placed : ∀ p ∈ s, Placed p) (tame : Before Pool.Tame s c) :
    ∀ p ∈ Pool.step s c, Placed p := by
  intro q member
  obtain ⟨p, here, mapped⟩ := Option.bind_eq_some_iff.mp member
  obtain ⟨after, returns, rfl⟩ := Option.map_eq_some_iff.mp mapped
  cases c with
  | activateHead headId capacityAlloc => exact (placed p here).activateHead (tame p here) returns
  | allocatePool headId size => exact (placed p here).allocatePool (tame p here) returns
  | releasePool headId addr size => exact (placed p here).releasePool (tame p here) returns
  | deactivateHead | readWithCoherency | writeWithCoherency | atomicWithCoherency | writeback =>
    exact (placed p here).keep (usedCapacity_exec returns)

theorem placed_fresh (capacity : UInt64) : Placed ⟨{ totalCapacity := capacity }, []⟩ where
  used_le _ := Nat.zero_le _
  valid _ member := (not_mem_nil member).elim
  within _ member := (not_mem_nil member).elim
  disjoint := List.Pairwise.nil
  nonzero _ member := (not_mem_nil member).elim

theorem pool_blocks_sound (capacity : UInt64) (calls later : List Call)
    (tame : EveryStep Pool.step (Before Pool.Tame) (some ⟨{ totalCapacity := capacity }, []⟩) (calls ++ later))
    (p : Pool) (reached : Pool.run capacity calls = some p) : p.Sound := by
  have placed : ∀ p ∈ Pool.run capacity calls, Placed p := by
    refine invariant_of_everyStep (fun s c => placed_step) (fun p here => ?_) tame.of_append
    cases here
    exact placed_fresh capacity
  exact (placed p reached).sound

instance (p : Pool) : (c : Call) → Decidable (p.Tame c)
  | .activateHead headId _ =>
    inferInstanceAs (Decidable (headId < maxHeads → ∀ b ∈ p.live, b.head = headId → b.size = 0))
  | .allocatePool _ _ => inferInstanceAs (Decidable (_ → _ ≤ _ ∧ ¬ (_ = _ ∧ (_ = _ ∨ _ < _))))
  | .releasePool _ _ _ => inferInstanceAs (Decidable (_ → _ = _ ∨ (_ ∈ _ ∧ _ = _)))
  | .deactivateHead _ | .readWithCoherency _ _ _ | .writeWithCoherency _ _ _ | .atomicWithCoherency _ _ _
  | .writeback _ _ => inferInstanceAs (Decidable True)

def stacked : List Call :=
  [.activateHead 1 0x100, .activateHead 2 0x80, .allocatePool 1 0x40, .allocatePool 2 0x80, .allocatePool 1 0x80,
   .releasePool 1 0x140 0x80, .allocatePool 1 0xc0]

theorem pool_blocks_sound_stacked :
    ∃ p, Pool.run 0x1000 stacked = some p ∧
      p.live = [⟨1, 0x140, 0xc0⟩, ⟨2, 0x200, 0x80⟩, ⟨1, 0x100, 0x40⟩] ∧ p.Sound := by
  refine ⟨_, rfl, by decide +kernel, pool_blocks_sound 0x1000 stacked [] ?_ _ rfl⟩
  refine ⟨?_, ?_, ?_, ?_, ?_, ?_, ?_, trivial⟩
  all_goals
    intro p here
    cases here
    decide +kernel

theorem not_sound_of_overlap {b b' : Block} (live : p.live = [b, b']) (x : Nat)
    (both : b.Covers x ∧ b'.Covers x) : ¬ p.Sound := by
  intro sound
  have disjoint := sound.disjoint
  rw [live] at disjoint
  exact (pairwise_cons.mp disjoint).1 b' mem_cons_self x both

/-- The first block is at address 0; blocks freed in the order of their allocation, or kept over an activation, are
handed out again; large capacities reach over the slice. -/
theorem pool_blocks_collide :
    (∃ p, Pool.run 0x1000 [.activateHead 0 0x100, .allocatePool 0 0x40] = some p ∧
      p.live = [⟨0, 0, 0x40⟩] ∧ ¬ p.Sound) ∧
    (∃ p, Pool.run 0x1000 [.activateHead 1 0x100, .allocatePool 1 0x40, .allocatePool 1 0x40,
        .releasePool 1 0x100 0x40, .allocatePool 1 0x40] = some p ∧
      p.live = [⟨1, 0x140, 0x40⟩, ⟨1, 0x140, 0x40⟩] ∧ ¬ p.Sound) ∧
    (∃ p, Pool.run 0x1000 [.activateHead 1 0x100, .allocatePool 1 0x40, .activateHead 1 0x100,
        .allocatePool 1 0x40] = some p ∧ p.live = [⟨1, 0x100, 0x40⟩, ⟨1, 0x100, 0x40⟩] ∧ ¬ p.Sound) ∧
    (∃ p, Pool.run 0x1000 [.activateHead 1 0x200, .activateHead 2 0x100, .allocatePool 1 0x200,
        .allocatePool 2 0x40] = some p ∧ p.live = [⟨2, 0x200, 0x40⟩, ⟨1, 0x100, 0x200⟩] ∧ ¬ p.Sound) ∧
    (∃ p, Pool.run 0x1000 [.activateHead 15 0x200, .allocatePool 15 0x200] = some p ∧
      p.live = [⟨15, 0xf00, 0x200⟩] ∧ ¬ p.Sound) := by
  refine ⟨⟨_, rfl, by decide +kernel, fun sound => ?_⟩,
    ⟨_, rfl, by decide +kernel, not_sound_of_overlap rfl 0x140 (by decide +kernel)⟩,
    ⟨_, rfl, by decide +kernel, not_sound_of_overlap rfl 0x100 (by decide +kernel)⟩,
    ⟨_, rfl, by decide +kernel, not_sound_of_overlap rfl 0x200 (by decide +kernel)⟩,
    ⟨_, rfl, by decide +kernel, fun sound => ?_⟩⟩
  · exact sound.nonzero _ mem_cons_self rfl
  · exact absurd (sound.inside _ mem_cons_self 0x1000 (by decide +kernel)) (by decide +kernel)

end CxlMemSim.Mhsld
