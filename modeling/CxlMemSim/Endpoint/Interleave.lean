import CxlMemSim.Endpoint.Tlb
import CxlMemSim.Lib.RoundRobin
import Mathlib.Data.List.GetD
import Mathlib.Data.Nat.ModEq

/-! Once the local memory is saturated, `InterleavePolicy` deals the pages out to the expanders in turn, each as often
as its weight says. -/
namespace CxlMemSim.Endpoint
open RoundRobin List

def PageType.perSize : PageType → UInt64
  | cacheline => 64
  | page => 4096
  | hugepage2M => 2 * 1024 * 1024
  | hugepage1G => 1024 * 1024 * 1024

def PageType.megabytes (pageType : PageType) (entries : UInt64) : UInt64 := entries * pageType.perSize / 1024 / 1024

/-- What the policy reads of an expander; `weight` is the whole part of ten times its share of the inverse latencies of
writes, as the code's doubles come out. -/
structure Load where
  occupied : UInt64
  capacity : UInt64
  weight : Nat

structure Placement where
  pageType : PageType
  occupied : UInt64
  capacity : Int
  curExpanders : List Load

namespace Placement
variable (v : Placement)

def Saturated : Prop := ¬ (v.pageType.megabytes v.occupied).toNat * 10 < v.capacity * 9
deriving Decidable

def Full (e : Load) : Prop := ¬ v.pageType.megabytes e.occupied < e.capacity
deriving Decidable

end Placement

structure InterleavePolicy where
  lastRemote : Nat := 0
  allSize : Nat := 0
  percentage : List Nat := []
  total : allSize = percentage.sum := by simp

namespace InterleavePolicy

def prepare (p : InterleavePolicy) (v : Placement) : InterleavePolicy :=
  if p.percentage = [] then
    let percentage := v.curExpanders.map fun e => e.weight
    { p with percentage, allSize := percentage.sum, total := rfl }
  else p

def advance (p : InterleavePolicy) : InterleavePolicy := { p with lastRemote := (p.lastRemote + 1) % p.allSize }

def next (v : Placement) : (fuel : Nat) → InterleavePolicy → Option (Int × InterleavePolicy)
  | 0, _ => none
  | fuel + 1, p =>
    if p.allSize = 0 then some (-1, p)
    else
      (pick p.advance.lastRemote p.percentage 0 0).bind fun index =>
        v.curExpanders[index]?.bind fun e =>
          if v.Full e then next v fuel p.advance else some (index, p.advance)

def computeOnce (p : InterleavePolicy) (v : Placement) (fuel : Nat) : Option (Int × InterleavePolicy) :=
  if v.Saturated then next v fuel (p.prepare v) else some (-1, p)

def run (fuel : Nat) : InterleavePolicy → List Placement → Option (List Int × InterleavePolicy)
  | p, [] => some ([], p)
  | p, v :: rest => (p.computeOnce v fuel).bind fun (index, p) => (run fuel p rest).map (Prod.map (index :: ·) id)

def Fits (p : InterleavePolicy) (v : Placement) : Prop := p.percentage.length ≤ v.curExpanders.length

theorem lt_of_positive {weights : List Nat} {i : Nat} (positive : 0 < weights.getD i 0) : i < weights.length := by
  by_contra past
  rw [getD_eq_default _ _ (Nat.le_of_not_lt past)] at positive
  exact Nat.lt_irrefl 0 positive

variable {p : InterleavePolicy} {v : Placement} {cursor : Nat}

theorem ne_nil_of_positive (positive : 0 < p.allSize) : p.percentage ≠ [] := by
  intro none
  rw [p.total, none] at positive
  exact Nat.lt_irrefl 0 positive

theorem prepare_of_ne_nil (given : p.percentage ≠ []) : p.prepare v = p := if_neg given

def place (p : InterleavePolicy) (cursor : Nat) : Option Nat := (cycle p.percentage 0)[cursor % p.allSize]?

theorem mem_cycle {weights : List Nat} {i : Nat} : i ∈ cycle weights 0 ↔ 0 < weights.getD i 0 := by
  rw [← count_pos_iff, count_cycle, if_pos (Nat.zero_le i), Nat.sub_zero]

theorem next_succ (fits : p.Fits v) (positive : 0 < p.allSize)
    (same : p.allSize.ModEq cursor p.lastRemote) (fuel : Nat) :
    ∃ index e, p.place (cursor + 1) = some index ∧ 0 < p.percentage.getD index 0 ∧ v.curExpanders[index]? = some e ∧
      next v (fuel + 1) p = if v.Full e then next v fuel p.advance else some (index, p.advance) := by
  have cursor' : (cursor + 1) % p.allSize = p.advance.lastRemote := same.add_right 1
  have inside : p.advance.lastRemote < (cycle p.percentage 0).length := by
    rw [length_cycle, ← p.total]
    exact Nat.mod_lt _ positive
  have found := getElem?_eq_getElem inside
  have weight := mem_cycle.mp (getElem_mem inside)
  have isExpander := getElem?_eq_getElem (Nat.lt_of_lt_of_le (lt_of_positive weight) fits)
  refine ⟨_, _, ?_, weight, isExpander, ?_⟩
  · rw [place, cursor', found]
  · rw [next, if_neg (Nat.ne_of_gt positive), pick_eq _ _ _ (Nat.zero_le _), Nat.sub_zero, found,
      Option.bind_some, isExpander, Option.bind_some]

theorem modEq_advance (same : p.allSize.ModEq cursor p.lastRemote) :
    p.advance.allSize.ModEq (cursor + 1) p.advance.lastRemote :=
  (same.add_right 1).trans (Nat.mod_modEq _ _).symm

theorem run_eq {views : List Placement} (fits : ∀ v ∈ views, p.Fits v) (positive : 0 < p.allSize)
    (saturated : ∀ v ∈ views, v.Saturated) (room : ∀ v ∈ views, ∀ e ∈ v.curExpanders, ¬ v.Full e)
    (same : p.allSize.ModEq cursor p.lastRemote) (fuel : Nat) :
    ∃ (indices : List Nat) (p' : InterleavePolicy), run (fuel + 1) p views = some (indices.map Int.ofNat, p') ∧
      indices.map some = (List.range' (cursor + 1) views.length).map p.place := by
  have given := ne_nil_of_positive positive
  induction views generalizing p cursor with
  | nil => exact ⟨[], p, rfl, rfl⟩
  | cons v rest ih =>
    rw [forall_mem_cons] at fits saturated room
    obtain ⟨index, e, here, -, isExpander, step⟩ := next_succ fits.1 positive same fuel
    obtain ⟨indices, p', later, places⟩ :=
      ih (p := p.advance) fits.2 positive saturated.2 room.2 (modEq_advance same) given
    refine ⟨index :: indices, p', ?_, congrArg₂ List.cons here.symm places⟩
    rw [run, computeOnce, if_pos saturated.1, prepare_of_ne_nil given, step,
      if_neg (room.1 e (mem_of_getElem? isExpander)), Option.bind_some]
    exact congrArg (Option.map _) later

theorem run_fair (p : InterleavePolicy) (v : Placement) (rest : List Placement) (fuel : Nat)
    (positive : 0 < (p.prepare v).allSize) (window : (v :: rest).length = (p.prepare v).allSize)
    (fits : ∀ v' ∈ v :: rest, (p.prepare v).Fits v') (saturated : ∀ v' ∈ v :: rest, v'.Saturated)
    (room : ∀ v' ∈ v :: rest, ∀ e ∈ v'.curExpanders, ¬ v'.Full e) :
    ∃ (indices : List Nat) (p' : InterleavePolicy), run (fuel + 1) p (v :: rest) = some (indices.map Int.ofNat, p') ∧
      (∀ i, indices.count i = (p.prepare v).percentage.getD i 0) ∧
      ∀ i ∈ indices, i < (p.prepare v).percentage.length ∧ 0 < (p.prepare v).percentage.getD i 0 := by
  have given := ne_nil_of_positive positive
  obtain ⟨indices, p', answers, places⟩ := run_eq fits positive saturated room rfl fuel
  have perm : indices.Perm (cycle (p.prepare v).percentage 0) := by
    have cycle := window_perm (cycle (p.prepare v).percentage 0) ((p.prepare v).lastRemote + 1)
    rw [length_cycle, ← (p.prepare v).total] at cycle
    rw [window] at places
    exact (map_perm_map_iff (Option.some_injective _)).mp (places ▸ cycle)
  refine ⟨indices, p', ?_, fun i => ?_, fun i member => ?_⟩
  · rw [← answers, run, run, computeOnce, computeOnce, if_pos (saturated v mem_cons_self),
      if_pos (saturated v mem_cons_self), prepare_of_ne_nil given]
  · rw [perm.count_eq, count_cycle]
    rfl
  · have weight := mem_cycle.mp (perm.mem_iff.mp member)
    exact ⟨lt_of_positive weight, weight⟩

def twoExpanders : Placement where
  pageType := .hugepage1G
  occupied := 1
  capacity := 1024
  curExpanders := [⟨0, 4, 5⟩, ⟨0, 4, 5⟩]

theorem run_fair_twoExpanders :
    ∃ (indices : List Nat) (p' : InterleavePolicy),
      run 1 { lastRemote := 1, allSize := 3, percentage := [2, 1] } [twoExpanders, twoExpanders, twoExpanders] =
        some (indices.map Int.ofNat, p') ∧ indices.count 0 = 2 ∧ indices.count 1 = 1 := by
  have all : ∀ {P : Placement → Prop}, P twoExpanders → ∀ v ∈ [twoExpanders, twoExpanders, twoExpanders], P v :=
    fun holds v member => eq_of_mem_replicate (n := 3) member ▸ holds
  obtain ⟨indices, p', answers, counts, -⟩ := run_fair { lastRemote := 1, allSize := 3, percentage := [2, 1] }
    twoExpanders [twoExpanders, twoExpanders] 0 (by decide) rfl (all (Nat.le_refl 2))
      (all (by decide)) (all (by decide))
  exact ⟨indices, p', answers, counts 0, counts 1⟩

theorem next_isSome (fits : p.Fits v) (positive : 0 < p.allSize)
    (same : p.allSize.ModEq cursor p.lastRemote) {fuel k index : Nat} (soon : k < fuel)
    (here : p.place (cursor + 1 + k) = some index) {e : Load} (isExpander : v.curExpanders[index]? = some e)
    (room : ¬ v.Full e) : (next v fuel p).isSome := by
  induction fuel generalizing p cursor k with
  | zero => exact absurd soon (Nat.not_lt_zero k)
  | succ fuel ih =>
    obtain ⟨first, e', place, -, found, step⟩ := next_succ fits positive same fuel
    rw [step]
    by_cases full : v.Full e'
    · rw [if_pos full]
      cases k with
      | zero =>
        obtain rfl := Option.some.inj (place.symm.trans here)
        exact absurd full (Option.some.inj (isExpander.symm.trans found) ▸ room)
      | succ k =>
        refine ih (p := p.advance) fits positive (modEq_advance same) (Nat.lt_of_succ_lt_succ soon) ?_
        rwa [Nat.add_right_comm _ 1 k]
    · rw [if_neg full]
      rfl

theorem next_eq_none (fits : p.Fits v) (positive : 0 < p.allSize)
    (full : ∀ i e, 0 < p.percentage.getD i 0 → v.curExpanders[i]? = some e → v.Full e) (fuel : Nat) :
    next v fuel p = none := by
  induction fuel generalizing p with
  | zero => rfl
  | succ fuel ih =>
    obtain ⟨index, e, -, weight, isExpander, step⟩ := next_succ fits positive rfl fuel
    rw [step, if_pos (full index e weight isExpander)]
    exact ih (p := p.advance) fits positive full

theorem next_room (fits : p.Fits v) {fuel : Nat} {index : Int} {p' : InterleavePolicy}
    (returns : next v fuel p = some (index, p')) {i : Nat} (isIndex : index = i) {e : Load}
    (isExpander : v.curExpanders[i]? = some e) : ¬ v.Full e := by
  induction fuel generalizing p with
  | zero => cases returns
  | succ fuel ih =>
    obtain none | positive := Nat.eq_zero_or_pos p.allSize
    · rw [next, if_pos none, isIndex] at returns
      cases returns
    · obtain ⟨first, e', -, -, found, step⟩ := next_succ fits positive rfl fuel
      rw [step] at returns
      by_cases full : v.Full e'
      · rw [if_pos full] at returns
        exact ih (p := p.advance) fits returns
      · rw [if_neg full] at returns
        obtain ⟨same, -⟩ := Prod.mk.inj (Option.some.inj returns)
        obtain rfl := Int.ofNat.inj (same.trans isIndex)
        exact Option.some.inj (found.symm.trans isExpander) ▸ full

/-- The call returns, and not with a full expander, just if it does not need an expander, has no weights to deal by or
finds an expander with a weight that is not full. -/
theorem computeOnce_iff (p : InterleavePolicy) (v : Placement) (fits : (p.prepare v).Fits v) :
    ((∃ fuel, (p.computeOnce v fuel).isSome) ∧ ∀ fuel index p', p.computeOnce v fuel = some (index, p') →
      ∀ i e, index = Int.ofNat i → v.curExpanders[i]? = some e → ¬ v.Full e) ↔
    (v.Saturated → 0 < (p.prepare v).allSize →
      ∃ i e, 0 < (p.prepare v).percentage.getD i 0 ∧ v.curExpanders[i]? = some e ∧ ¬ v.Full e) := by
  by_cases saturated : v.Saturated
  · have call : ∀ fuel, p.computeOnce v fuel = next v fuel (p.prepare v) := fun fuel => if_pos saturated
    have room : ∀ fuel index p', p.computeOnce v fuel = some (index, p') →
        ∀ i e, index = Int.ofNat i → v.curExpanders[i]? = some e → ¬ v.Full e :=
      fun fuel _ _ returns _ _ isIndex isExpander => next_room fits (call fuel ▸ returns) isIndex isExpander
    rw [and_iff_left room, imp_iff_right saturated]
    constructor
    · rintro ⟨fuel, returns⟩ positive
      by_contra none
      push Not at none
      rw [call, next_eq_none fits positive none] at returns
      cases returns
    · intro some
      obtain none | positive := Nat.eq_zero_or_pos (p.prepare v).allSize
      · refine ⟨1, ?_⟩
        rw [call, next, if_pos none]
        rfl
      · obtain ⟨i, e, weight, isExpander, notFull⟩ := some positive
        have window := window_perm (cycle (p.prepare v).percentage 0)
          ((p.prepare v).lastRemote + 1)
        rw [length_cycle, ← (p.prepare v).total] at window
        obtain ⟨n, inside, here⟩ := mem_map.mp (window.mem_iff.mpr (mem_map_of_mem (mem_cycle.mpr weight)))
        obtain ⟨after, before⟩ := mem_range'_1.mp inside
        obtain ⟨k, rfl⟩ := Nat.exists_eq_add_of_le after
        refine ⟨(p.prepare v).allSize, ?_⟩
        rw [call]
        exact next_isSome fits positive rfl (Nat.lt_of_add_lt_add_left before) here isExpander notFull
  · have call : ∀ fuel, p.computeOnce v fuel = some (-1, p) := fun fuel => if_neg saturated
    refine iff_of_true ⟨⟨0, by rw [call]; rfl⟩, fun fuel index p' returns i e isIndex => ?_⟩ (absurd · saturated)
    rw [call, isIndex] at returns
    cases returns

theorem computeOnce_iff_twoExpanders :
    ∃ fuel, (computeOnce { lastRemote := 1, allSize := 3, percentage := [2, 1] } twoExpanders fuel).isSome := by
  refine ((computeOnce_iff { lastRemote := 1, allSize := 3, percentage := [2, 1] } twoExpanders (Nat.le_refl 2)).mpr
    fun _ _ => ?_).1
  exact ⟨0, _, by decide, rfl, by decide⟩

def filledUp : Placement where
  pageType := .hugepage1G
  occupied := 1
  capacity := 1024
  curExpanders := [⟨1, 1024, 10⟩]

/-- The first call of a new policy jumps back for ever. -/
theorem computeOnce_filledUp : ¬ ∃ fuel, (computeOnce {} filledUp fuel).isSome := by
  rintro ⟨fuel, returns⟩
  have weights : (prepare {} filledUp).percentage = [10] := by decide +kernel
  have total := (prepare {} filledUp).total
  rw [weights] at total
  rw [computeOnce, if_pos (by decide +kernel), next_eq_none] at returns
  · cases returns
  · rw [Fits, weights]
    exact Nat.le_refl 1
  · rw [total]
    decide
  · intro i e _ isExpander
    obtain rfl := mem_singleton.mp (mem_of_getElem? isExpander)
    decide +kernel

end InterleavePolicy

end CxlMemSim.Endpoint
