import CxlMemSim.Endpoint.Residency
import Mathlib.Algebra.Order.BigOperators.Group.List
import Mathlib.Algebra.Order.Field.Basic

/-! The bandwidth of a tree of expanders, over the rationals. The excess over a limit is cut off at zero from above in
each expander and from below in the controller. -/
namespace CxlMemSim.Endpoint
open List

structure Bandwidth where
  read : ℚ
  write : ℚ
  link : ℚ

def gbps (accessCount : Nat) : ℚ := 64 * accessCount / (2 / 100) / (1024 * 1024 * 1024)

namespace Device

/-- Excess over the limit for the accesses that count, each a timestamp and an address. -/
def excess (elem : List (UInt64 × UInt64)) (counts : UInt64 → Bool) (limit : ℚ) : ℚ :=
  match elem.getLast? with
  | none => 0
  | some last =>
    let windowStart := last.1 - 20000000
    min (gbps (elem.countP fun access => decide (windowStart ≤ access.1) && counts access.2) - limit) 0

def calculateBandwidth (elem : List (UInt64 × UInt64)) (bandwidth : Bandwidth) (d : Device) : ℚ :=
  match d.remote with
  | none => excess elem (fun _ => true) (bandwidth.read + bandwidth.write)
  | some range => excess elem (fun addr => range.Contains addr) bandwidth.link

end Device

mutual

def CXLSwitch.total (of : Ref → ℚ) : CXLSwitch → ℚ
  | .mk expanders switches => (expanders.map of).sum + switchesTotal of switches

def switchesTotal (of : Ref → ℚ) : List CXLSwitch → ℚ
  | [] => 0
  | sw :: rest => sw.total of + switchesTotal of rest

end

def CXLSwitch.calculateBandwidth (sw : CXLSwitch) (store : Store) (bandwidth : Ref → Bandwidth)
    (elem : List (UInt64 × UInt64)) : ℚ :=
  sw.total fun r => (store r).calculateBandwidth elem (bandwidth r)

def CXLSwitch.getAccess (sw : CXLSwitch) (store : Store) (timestamp : UInt64) : List (UInt64 × UInt64) :=
  sw.refs.flatMap fun r => (store r).expander.getAccess timestamp

def insertBandwidthLat (controller : CXLSwitch) (store : Store) (bandwidth : Ref → Bandwidth) (timestamp : UInt64)
    (bandwidthLat : ℚ) : ℚ :=
  bandwidthLat + max (controller.calculateBandwidth store bandwidth (controller.getAccess store timestamp)) 0

/-- More was moved in the 20 ms before the last access than an expander can read and write. -/
def Exceeds (elem : List (UInt64 × UInt64)) (bandwidth : Bandwidth) : Prop :=
  ∃ last ∈ elem.getLast?, bandwidth.read + bandwidth.write <
    gbps (elem.countP fun access => last.1.toNat ≤ access.1.toNat + 20000000)

structure ReportsExcess (controller : CXLSwitch) (store : Store) (bandwidth : Ref → Bandwidth) (timestamp : UInt64)
    (bandwidthLat : ℚ) : Prop where
  positive : ∀ r ∈ controller.refs, Exceeds (controller.getAccess store timestamp) (bandwidth r) →
    0 < (store r).calculateBandwidth (controller.getAccess store timestamp) (bandwidth r)
  increases : (∃ r ∈ controller.refs, Exceeds (controller.getAccess store timestamp) (bandwidth r)) →
    bandwidthLat < insertBandwidthLat controller store bandwidth timestamp bandwidthLat
  unchanged : (∀ r ∈ controller.refs, ¬ Exceeds (controller.getAccess store timestamp) (bandwidth r)) →
    insertBandwidthLat controller store bandwidth timestamp bandwidthLat = bandwidthLat

theorem Device.calculateBandwidth_nonpos (elem : List (UInt64 × UInt64)) (bandwidth : Bandwidth) (d : Device) :
    d.calculateBandwidth elem bandwidth ≤ 0 := by
  have cut : ∀ counts limit, excess elem counts limit ≤ 0 := by
    intro counts limit
    unfold excess
    split
    · exact le_refl 0
    · exact min_le_right _ _
  unfold calculateBandwidth
  split <;> exact cut _ _

mutual

theorem CXLSwitch.total_nonpos {of : Ref → ℚ} (nonpos : ∀ r, of r ≤ 0) (sw : CXLSwitch) : sw.total of ≤ 0 := by
  cases sw with
  | mk expanders switches =>
    rw [CXLSwitch.total]
    have here : (expanders.map of).sum ≤ (expanders.map of).length • 0 := by
      refine sum_le_card_nsmul _ 0 fun x member => ?_
      obtain ⟨r, -, rfl⟩ := mem_map.mp member
      exact nonpos r
    exact add_nonpos (here.trans (nsmul_zero _).le) (switchesTotal_nonpos nonpos switches)
termination_by sizeOf sw

theorem switchesTotal_nonpos {of : Ref → ℚ} (nonpos : ∀ r, of r ≤ 0) (switches : List CXLSwitch) :
    switchesTotal of switches ≤ 0 := by
  cases switches with
  | nil => rw [switchesTotal]
  | cons sw rest =>
    rw [switchesTotal]
    exact add_nonpos (sw.total_nonpos nonpos) (switchesTotal_nonpos nonpos rest)
termination_by sizeOf switches

end

theorem insertBandwidthLat_eq (controller : CXLSwitch) (store : Store) (bandwidth : Ref → Bandwidth)
    (timestamp : UInt64) (bandwidthLat : ℚ) :
    insertBandwidthLat controller store bandwidth timestamp bandwidthLat = bandwidthLat := by
  rw [insertBandwidthLat, max_eq_right, add_zero]
  exact controller.total_nonpos fun r => (store r).calculateBandwidth_nonpos _ (bandwidth r)

/-- No excess is ever reported. -/
theorem reportsExcess_iff (controller : CXLSwitch) (store : Store) (bandwidth : Ref → Bandwidth) (timestamp : UInt64)
    (bandwidthLat : ℚ) :
    ReportsExcess controller store bandwidth timestamp bandwidthLat ↔
      ∀ r ∈ controller.refs, ¬ Exceeds (controller.getAccess store timestamp) (bandwidth r) := by
  constructor
  · intro law r listed exceeds
    exact absurd (law.positive r listed exceeds) (not_lt.mpr ((store r).calculateBandwidth_nonpos _ (bandwidth r)))
  · intro within
    refine ⟨fun r listed exceeds => absurd exceeds (within r listed), ?_, fun _ => insertBandwidthLat_eq ..⟩
    rintro ⟨r, listed, exceeds⟩
    exact absurd exceeds (within r listed)

def busy (lines : Nat) : Store := fun _ =>
  { expander := { id := 0, occupation := (List.range lines).map fun i => ⟨30000000, UInt64.ofNat (64 * i + 64), 0⟩ } }

theorem getAccess_busy (lines : Nat) :
    defaultTopology.getAccess (busy lines) 30000000 =
      (List.range lines).map fun i => (30000000, UInt64.ofNat (64 * i + 64)) := by
  have all : (busy lines 0).expander.occupation.filter (fun o => 30000000 - 100000 < o.timestamp) =
      (busy lines 0).expander.occupation := by
    refine filter_eq_self.mpr fun o member => ?_
    obtain ⟨i, -, rfl⟩ := mem_map.mp member
    rfl
  have read : defaultTopology.getAccess (busy lines) 30000000 = (busy lines 0).expander.getAccess 30000000 ++ [] := rfl
  rw [read, append_nil, CXLMemExpander.getAccess, all, busy, map_map]
  rfl

theorem exceeds_busy {lines : Nat} {bandwidth : Bandwidth}
    (more : bandwidth.read + bandwidth.write < gbps (lines + 1)) :
    Exceeds (defaultTopology.getAccess (busy (lines + 1)) 30000000) bandwidth := by
  rw [getAccess_busy]
  refine ⟨(30000000, UInt64.ofNat (64 * lines + 64)), ?_, ?_⟩
  · rw [range_succ, map_append]
    simp
  · rw [countP_eq_length.mpr, length_map, length_range]
    · exact more
    · intro access member
      obtain ⟨i, -, rfl⟩ := mem_map.mp member
      exact decide_eq_true (Nat.le_add_right _ _)

theorem not_reportsExcess : ¬ ReportsExcess defaultTopology (busy 700000) (fun _ => ⟨1, 1, 0⟩) 30000000 0 := by
  have more : (1 : ℚ) + 1 < gbps (699999 + 1) := by decide +kernel
  intro law
  have increases := law.increases ⟨0, by decide, exceeds_busy more⟩
  rw [insertBandwidthLat_eq] at increases
  exact lt_irrefl 0 increases

end CxlMemSim.Endpoint
