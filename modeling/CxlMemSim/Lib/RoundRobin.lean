import Mathlib.Algebra.Order.Ring.Nat
import Mathlib.Order.Interval.Finset.Nat

/-! One cycle lists each index as often as its weight says, and a cursor walks over it. -/
namespace RoundRobin
open List

def cycle : List Nat → (index : Nat) → List Nat
  | [], _ => []
  | w :: rest, index => List.replicate w index ++ cycle rest (index + 1)

/-- The first index at which the sum of the weights exceeds the cursor, undefined past the last weight. -/
def pick (cursor : Nat) : List Nat → (index sum : Nat) → Option Nat
  | [], _, _ => none
  | w :: rest, index, sum => if cursor < sum + w then some index else pick cursor rest (index + 1) (sum + w)

variable (weights : List Nat)

theorem length_cycle (index : Nat) : (cycle weights index).length = weights.sum := by
  induction weights generalizing index with
  | nil => rfl
  | cons w rest ih => rw [cycle, length_append, length_replicate, ih, sum_cons]

theorem pick_eq (cursor index : Nat) {sum : Nat} (started : sum ≤ cursor) :
    pick cursor weights index sum = (cycle weights index)[cursor - sum]? := by
  induction weights generalizing index sum with
  | nil => rfl
  | cons w rest ih =>
    rw [pick, cycle]
    by_cases here : cursor < sum + w
    · have inside : cursor - sum < w := by omega
      rw [if_pos here, getElem?_append_left (by rwa [length_replicate]), getElem?_replicate, if_pos inside]
    · have past : w ≤ cursor - sum := by omega
      rw [if_neg here, ih (index + 1) (by omega), getElem?_append_right (by rwa [length_replicate]),
        length_replicate, Nat.sub_add_eq]

theorem count_cycle (start i : Nat) :
    (cycle weights start).count i = if start ≤ i then weights.getD (i - start) 0 else 0 := by
  induction weights generalizing start with
  | nil => simp [cycle]
  | cons w rest ih =>
    rw [cycle, count_append, count_replicate, ih]
    obtain less | rfl | more := Nat.lt_trichotomy i start
    · simp [Nat.ne_of_gt less, Nat.not_le.mpr less, Nat.not_le.mpr (Nat.lt_succ_of_lt less)]
    · simp
    · obtain ⟨k, rfl⟩ := Nat.exists_eq_add_of_lt more
      have here : start + k + 1 - start = k + 1 := by omega
      have later : start + k + 1 - (start + 1) = k := by omega
      rw [if_pos (Nat.le_of_lt more), if_pos (Nat.succ_le_of_lt more), here, later, getD_cons_succ]
      simp [Nat.add_assoc]

theorem window_perm {α : Type*} (l : List α) (cursor : Nat) :
    ((List.range' cursor l.length).map fun n => l[n % l.length]?).Perm (l.map some) := by
  have places : (List.range l.length).map (fun n => l[n]?) = l.map some := by
    refine ext_getElem (by simp) fun n _ inside => ?_
    rw [length_map] at inside
    simp [getElem?_eq_getElem inside]
  have residues : ((List.range' cursor l.length).map (· % l.length)).Perm (List.range l.length) := by
    have window := Nat.multiset_Ico_map_mod cursor l.length
    rw [Multiset.Ico, Nat.Ico_eq_range', Nat.add_sub_cancel_left] at window
    exact Multiset.coe_eq_coe.mp window
  have placed := residues.map fun n => l[n]?
  rw [places, map_map] at placed
  exact placed

end RoundRobin
