import Mathlib.Data.UInt
import CxlMemSim.Hdm.Decoder
import CxlMemSim.Lib.Interleave

/-! In a region that does not pass the end of the address space, decoding deals out the blocks to the targets in turn.
-/
namespace CxlMemSim.Hdm
open Interleave

namespace HDMDecoder

def configureInterleave (d : HDMDecoder) (gran : InterleaveGranularity) (targets : List UInt32)
    (base totalSize : UInt64) : HDMDecoder :=
  { d with interleaveConfig := ⟨gran, targets, base, totalSize⟩ }

def placement (d : HDMDecoder) (addr : UInt64) : UInt32 × UInt64 :=
  ((d.decodeInterleaved addr).targetId, (d.decodeInterleaved addr).localOffset)

end HDMDecoder

theorem InterleaveGranularity.bytes_pos (gran : InterleaveGranularity) : 0 < gran.bytes.toNat := by
  cases gran <;> decide

theorem length_le_of_distinct {targets : List UInt32} (distinct : targets.Nodup) : targets.length ≤ 2 ^ 32 := by
  have ids : (targets.map UInt32.toNat).Nodup := distinct.map fun _ _ => UInt32.toNat_inj.mp
  have below : targets.map UInt32.toNat ⊆ List.range (2 ^ 32) := by
    intro i member
    obtain ⟨id, -, rfl⟩ := List.mem_map.mp member
    exact List.mem_range.mpr id.toNat_lt
  have fewer := (List.subperm_of_subset ids below).length_le
  rwa [List.length_map, List.length_range] at fewer

section
variable {gran : InterleaveGranularity} {targets : List UInt32} {base totalSize addr : UInt64}

def region (base totalSize : UInt64) : Set UInt64 := { addr | base ≤ addr ∧ addr < base + totalSize }

theorem mem_region_iff (fits : base.toNat + totalSize.toNat < 2 ^ 64) :
    addr ∈ region base totalSize ↔ base.toNat ≤ addr.toNat ∧ addr.toNat - base.toNat < totalSize.toNat := by
  rw [region, Set.mem_ofPred_eq, UInt64.le_iff_toNat_le, UInt64.lt_iff_toNat_lt, UInt64.toNat_add,
    Nat.mod_eq_of_lt fits]
  omega

variable (d : HDMDecoder) (nonempty : targets ≠ []) (distinct : targets.Nodup)
include nonempty distinct

variable (gran) in
theorem placement_eq (inside : addr ∈ region base totalSize) :
    ∃ within : target gran.bytes.toNat targets.length (addr.toNat - base.toNat) < targets.length,
      ((d.configureInterleave gran targets base totalSize).placement addr).1 =
        targets[target gran.bytes.toNat targets.length (addr.toNat - base.toNat)] ∧
      ((d.configureInterleave gran targets base totalSize).placement addr).2.toNat =
        offset gran.bytes.toNat targets.length (addr.toNat - base.toNat) := by
  have pos : 0 < targets.length := List.length_pos_iff.mpr nonempty
  have few := length_le_of_distinct distinct
  have relative : (addr - base).toNat = addr.toNat - base.toNat := UInt64.toNat_sub_of_le _ _ inside.1
  have count : (UInt64.ofNat targets.length).toNat = targets.length :=
    UInt64.toNat_ofNat_of_lt (Nat.lt_of_le_of_lt few (by decide))
  have within := target_lt (g := gran.bytes.toNat) pos (addr.toNat - base.toNat)
  have outside : ¬ (addr < base ∨ base + totalSize ≤ addr) :=
    not_or.mpr ⟨UInt64.not_lt.mpr inside.1, UInt64.not_le.mpr inside.2⟩
  have decoded : (d.configureInterleave gran targets base totalSize).decodeInterleaved addr = _ :=
    (if_neg nonempty).trans (if_neg outside)
  refine ⟨within, ?_, ?_⟩
  · have index : ((addr - base) / gran.bytes % UInt64.ofNat targets.length).toNat =
        target gran.bytes.toNat targets.length (addr.toNat - base.toNat) := by
      rw [UInt64.toNat_mod, UInt64.toNat_div, count, relative, target]
    refine (congrArg DecodeResult.targetId decoded).trans ?_
    change targets[((addr - base) / gran.bytes % UInt64.ofNat targets.length).toNat]?.getD noTarget = _
    rw [index, List.getElem?_eq_getElem within, Option.getD_some]
  · have short : offset gran.bytes.toNat targets.length (addr.toNat - base.toNat) < 2 ^ 64 :=
      Nat.lt_of_le_of_lt (offset_le _) (Nat.lt_of_le_of_lt (Nat.sub_le _ _) addr.toNat_lt)
    refine (congrArg (fun r => r.localOffset.toNat) decoded).trans ?_
    change ((addr - base) / gran.bytes / UInt64.ofNat targets.length * gran.bytes +
      (addr - base) % gran.bytes).toNat = _
    rw [UInt64.toNat_add, UInt64.toNat_mul, UInt64.toNat_div, UInt64.toNat_div, UInt64.toNat_mod, count, relative,
      Nat.mod_add_mod]
    exact Nat.mod_eq_of_lt short

theorem placement_injOn :
    Set.InjOn (d.configureInterleave gran targets base totalSize).placement (region base totalSize) := by
  intro a inside b inside' same
  obtain ⟨_, toTarget, atOffset⟩ := placement_eq gran d nonempty distinct inside
  obtain ⟨_, toTarget', atOffset'⟩ := placement_eq gran d nonempty distinct inside'
  rw [same] at toTarget atOffset
  have targets_same := (List.Nodup.getElem_inj_iff distinct).mp (toTarget.symm.trans toTarget')
  have relative : a.toNat - base.toNat = b.toNat - base.toNat := by
    rw [← origin_target_offset (n := targets.length) gran.bytes_pos (a.toNat - base.toNat), targets_same, ← atOffset,
      atOffset', origin_target_offset gran.bytes_pos]
  have low := UInt64.le_iff_toNat_le.mp inside.1
  have low' := UInt64.le_iff_toNat_le.mp inside'.1
  apply UInt64.toNat_inj.mp
  omega

/-- The offsets that a target has where the blocks of the region go round evenly. -/
def slots (targets : List UInt32) (totalSize : UInt64) : Set (UInt32 × UInt64) :=
  { p | p.1 ∈ targets ∧ p.2.toNat < totalSize.toNat / targets.length }

theorem placement_bijOn (fits : base.toNat + totalSize.toNat < 2 ^ 64)
    (even : targets.length * gran.bytes.toNat ∣ totalSize.toNat) :
    Set.BijOn (d.configureInterleave gran targets base totalSize).placement (region base totalSize)
      (slots targets totalSize) := by
  have pos : 0 < targets.length := List.length_pos_iff.mpr nonempty
  obtain ⟨k, whole⟩ := even
  have share : totalSize.toNat / targets.length = gran.bytes.toNat * k := by
    rw [whole, Nat.mul_assoc, Nat.mul_div_cancel_left _ pos]
  refine ⟨fun addr inside => ?_, placement_injOn d nonempty distinct, ?_⟩
  · obtain ⟨within, toTarget, atOffset⟩ := placement_eq gran d nonempty distinct inside
    have relative := ((mem_region_iff fits).mp inside).2
    rw [← origin_target_offset (n := targets.length) gran.bytes_pos (addr.toNat - base.toNat), whole,
      origin_lt_iff gran.bytes_pos within] at relative
    refine ⟨?_, ?_⟩
    · rw [toTarget]
      exact List.getElem_mem within
    · rw [atOffset, share]
      exact relative
  · rintro ⟨id, o⟩ ⟨member, below⟩
    obtain ⟨t, within, rfl⟩ := List.getElem_of_mem member
    rw [share] at below
    -- the address that the slot comes from
    have bound : origin gran.bytes.toNat targets.length t o.toNat < totalSize.toNat :=
      whole ▸ (origin_lt_iff gran.bytes_pos within _ k).mpr below
    obtain ⟨addr, reached⟩ : ∃ addr : UInt64,
        addr.toNat = base.toNat + origin gran.bytes.toNat targets.length t o.toNat :=
      ⟨UInt64.ofNat (base.toNat + origin gran.bytes.toNat targets.length t o.toNat),
        UInt64.toNat_ofNat_of_lt (show _ < 2 ^ 64 by omega)⟩
    have inside : addr ∈ region base totalSize := by
      rw [mem_region_iff fits, reached]
      omega
    obtain ⟨_, toTarget, atOffset⟩ := placement_eq gran d nonempty distinct inside
    simp only [reached, Nat.add_sub_cancel_left, target_origin gran.bytes_pos within,
      offset_origin gran.bytes_pos within] at toTarget atOffset
    exact ⟨addr, inside, Prod.ext toTarget (UInt64.toNat_inj.mp atOffset)⟩

end

/-- Decoding is injective on the region, and deals it out evenly where the blocks go round evenly. -/
theorem interleaving_lossless (d : HDMDecoder) (gran : InterleaveGranularity) (targets : List UInt32)
    (base totalSize : UInt64) (nonempty : targets ≠ []) (distinct : targets.Nodup)
    (fits : base.toNat + totalSize.toNat < 2 ^ 64) :
    Set.InjOn (d.configureInterleave gran targets base totalSize).placement (region base totalSize) ∧
    (targets.length * gran.bytes.toNat ∣ totalSize.toNat →
      Set.BijOn (d.configureInterleave gran targets base totalSize).placement (region base totalSize)
        (slots targets totalSize)) :=
  ⟨placement_injOn d nonempty distinct, placement_bijOn d nonempty distinct fits⟩

theorem interleaving_lossless_three :
    ([7, 3, 5] : List UInt32).Nodup ∧ Set.BijOn
      (({ mode := .interleaved } : HDMDecoder).configureInterleave .cacheline256B [7, 3, 5] 0x1000 0x600).placement
      (region 0x1000 0x600) (slots [7, 3, 5] 0x600) :=
  ⟨by decide, (interleaving_lossless { mode := .interleaved } .cacheline256B [7, 3, 5] 0x1000 0x600 (by decide)
    (by decide) (by decide)).2 (by decide)⟩

end CxlMemSim.Hdm
