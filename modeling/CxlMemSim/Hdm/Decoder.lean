import Mathlib.Data.List.Basic

/-! `HDMDecoder` says which device or node an address belongs to: by a list of ranges, by interleaving over a list of
targets, or by the first and then the second. -/
namespace CxlMemSim.Hdm

inductive HDMDecoderMode where
  | interleaved | rangeBased | hybrid
deriving DecidableEq

inductive InterleaveGranularity where
  | cacheline64B | cacheline256B | page4K | page2M | page1G
deriving DecidableEq

def InterleaveGranularity.bytes : InterleaveGranularity → UInt64
  | .cacheline64B => 64
  | .cacheline256B => 256
  | .page4K => 4096
  | .page2M => 2097152
  | .page1G => 1073741824

structure HDMRange where
  baseAddr : UInt64
  size : UInt64
  targetId : UInt32
  isRemote : Bool

structure HDMInterleaveConfig where
  granularity : InterleaveGranularity := .cacheline256B
  targetIds : List UInt32 := []
  baseAddr : UInt64 := 0
  totalSize : UInt64 := 0

structure DecodeResult where
  targetId : UInt32
  localOffset : UInt64
  isRemote : Bool
  hopCount : UInt32
deriving DecidableEq

def noTarget : UInt32 := 0xffffffff

def unmapped : DecodeResult := ⟨noTarget, 0, false, 0⟩

structure HDMDecoder where
  mode : HDMDecoderMode
  ranges : List HDMRange := []
  interleaveConfig : HDMInterleaveConfig := {}
  rangesSorted : Bool := false

namespace HDMRange

def Contains (r : HDMRange) (addr : UInt64) : Prop := r.baseAddr ≤ addr ∧ addr < r.baseAddr + r.size
deriving Decidable

def result (r : HDMRange) (addr : UInt64) : DecodeResult :=
  ⟨r.targetId, addr - r.baseAddr, r.isRemote, if r.isRemote then 1 else 0⟩

end HDMRange

def searchRange (ranges : List HDMRange) (addr : UInt64) : Nat → Int → Int → DecodeResult
  | 0, _, _ => unmapped
  | turns + 1, lo, hi =>
    if lo ≤ hi then
      let mid := lo + (hi - lo) / 2
      match ranges[mid.toNat]? with
      | none => unmapped
      | some range =>
        if addr < range.baseAddr then searchRange ranges addr turns lo (mid - 1)
        else if range.baseAddr + range.size ≤ addr then searchRange ranges addr turns (mid + 1) hi
        else range.result addr
    else unmapped

namespace HDMDecoder
variable (d : HDMDecoder)

def addRange (base size : UInt64) (targetId : UInt32) (isRemote : Bool) : HDMDecoder :=
  { d with ranges := d.ranges ++ [⟨base, size, targetId, isRemote⟩], rangesSorted := false }

/-- Each turn of the binary search leaves fewer ranges, so their number is enough. -/
def decodeRange (addr : UInt64) : DecodeResult :=
  if d.rangesSorted then searchRange d.ranges addr d.ranges.length 0 (d.ranges.length - 1)
  else ((d.ranges.find? fun range => range.Contains addr).map fun range => range.result addr).getD unmapped

def decodeInterleaved (addr : UInt64) : DecodeResult :=
  let config := d.interleaveConfig
  if config.targetIds = [] then unmapped
  else if addr < config.baseAddr ∨ config.baseAddr + config.totalSize ≤ addr then unmapped
  else
    let granularity := config.granularity.bytes
    let relativeAddr := addr - config.baseAddr
    let blockIndex := relativeAddr / granularity
    let numTargets := UInt64.ofNat config.targetIds.length
    let targetId := config.targetIds[(blockIndex % numTargets).toNat]?.getD noTarget
    let targetBlock := blockIndex / numTargets
    let isRemote := ((d.ranges.find? fun range => range.targetId = targetId).map HDMRange.isRemote).getD false
    ⟨targetId, targetBlock * granularity + relativeAddr % granularity, isRemote, if isRemote then 1 else 0⟩

def decode (addr : UInt64) : DecodeResult :=
  match d.mode with
  | .rangeBased => d.decodeRange addr
  | .interleaved => d.decodeInterleaved addr
  | .hybrid =>
    if (d.decodeRange addr).targetId ≠ noTarget then d.decodeRange addr else d.decodeInterleaved addr

def getHomeNode (addr : UInt64) : UInt32 := (d.decode addr).targetId

variable {d}

theorem getHomeNode_of_ranges (mode : d.mode ≠ .interleaved) (unsorted : d.rangesSorted = false)
    (noTargets : d.interleaveConfig.targetIds = []) (addr : UInt64) :
    d.getHomeNode addr =
      ((d.ranges.find? fun range => range.Contains addr).map HDMRange.targetId).getD noTarget := by
  have linear : (d.decodeRange addr).targetId =
      ((d.ranges.find? fun range => range.Contains addr).map HDMRange.targetId).getD noTarget := by
    rw [decodeRange, unsorted]
    cases d.ranges.find? fun range => range.Contains addr <;> rfl
  cases found : d.mode with
  | interleaved => exact (mode found).elim
  | rangeBased =>
    simp only [getHomeNode, decode, found]
    exact linear
  | hybrid =>
    simp only [getHomeNode, decode, found]
    split
    · exact linear
    · rename_i missed
      rw [← linear, not_not.mp missed, decodeInterleaved, if_pos noTargets]
      rfl

end HDMDecoder
end CxlMemSim.Hdm
