import Mathlib.Data.List.Induction
import Mathlib.Data.List.Sort

/-! The pass of `CXLSwitch::calculate_congestion` over the sorted timestamps. -/
namespace CxlMemSim.Endpoint
open List

def Close (earlier later : UInt64) : Prop := later - earlier < 2000
deriving Decidable

def turned (next : UInt64) (rest : List UInt64) : List UInt64 :=
  (next :: rest).getLast (cons_ne_nil _ _) :: (next :: rest).dropLast

/-- The loop on the part of the vector from `it` on, which gets shorter by one each time. -/
def conflictLoop : (rounds : Nat) → List UInt64 → Nat × List UInt64
  | rounds + 1, first :: next :: rest =>
    if Close first next then
      let (conflicts, congestion) := conflictLoop rounds (turned next rest)
      (conflicts + 1, congestion)
    else
      let (conflicts, congestion) := conflictLoop rounds (next :: rest)
      (conflicts, first :: congestion)
  | _, congestion => (0, congestion)

def conflictPass (congestion : List UInt64) : Nat × List UInt64 :=
  let sorted := congestion.mergeSort fun a b => a ≤ b
  conflictLoop sorted.length sorted

def closePairs : List UInt64 → Nat
  | first :: next :: rest => (if Close first next then 1 else 0) + closePairs (next :: rest)
  | _ => 0

def Apart (congestion : List UInt64) : Prop := congestion.Pairwise fun a b => a.toNat + 2000 ≤ b.toNat

def LevelAfterClose : List UInt64 → Prop
  | first :: next :: rest => if Close first next then ∀ t ∈ rest, t = next else LevelAfterClose (next :: rest)
  | _ => True

def CountsConflicts (congestion : List UInt64) : Prop :=
  (conflictPass congestion).1 = closePairs (congestion.mergeSort fun a b => a ≤ b) ∧ Apart (conflictPass congestion).2

section
variable {first next : UInt64} {rest : List UInt64}

theorem close_iff (le : first ≤ next) : Close first next ↔ next.toNat < first.toNat + 2000 := by
  rw [Close, UInt64.lt_iff_toNat_lt, UInt64.toNat_sub_of_le _ _ le]
  have le := UInt64.le_iff_toNat_le.mp le
  change _ < 2000 ↔ _
  omega

theorem close_self (t : UInt64) : Close t t := (close_iff (UInt64.le_refl t)).mpr (by omega)

theorem eq_of_close (le : first ≤ next) (close : Close first next) (back : Close next first) : next = first := by
  rw [close_iff le] at close
  rw [Close, UInt64.lt_iff_toNat_lt, UInt64.toNat_sub] at back
  have le := UInt64.le_iff_toNat_le.mp le
  have bound := next.toNat_lt
  change _ < 2000 at back
  exact UInt64.toNat_inj.mp (by omega)

theorem conflictLoop_close (rounds : Nat) (close : Close first next) :
    conflictLoop (rounds + 1) (first :: next :: rest) =
      Prod.map (· + 1) id (conflictLoop rounds (turned next rest)) := by
  rw [conflictLoop, if_pos close]
  rfl

theorem conflictLoop_far (rounds : Nat) (far : ¬ Close first next) :
    conflictLoop (rounds + 1) (first :: next :: rest) =
      Prod.map id (first :: ·) (conflictLoop rounds (next :: rest)) := by
  rw [conflictLoop, if_neg far]
  rfl

end

variable {congestion : List UInt64}

theorem conflictLoop_left (rounds : Nat) (some : congestion ≠ []) :
    (conflictLoop rounds congestion).2 ≠ [] ∧ ∀ t ∈ (conflictLoop rounds congestion).2, t ∈ congestion := by
  induction rounds generalizing congestion with
  | zero => exact ⟨some, fun _ member => member⟩
  | succ rounds ih =>
    obtain _ | ⟨first, _ | ⟨next, rest⟩⟩ := congestion
    · exact absurd rfl some
    · exact ⟨some, fun _ member => member⟩
    · by_cases close : Close first next
      · rw [conflictLoop_close rounds close]
        obtain ⟨left, inside⟩ := ih (cons_ne_nil _ _ : turned next rest ≠ [])
        refine ⟨left, fun t member => mem_cons_of_mem first ?_⟩
        obtain rfl | before := mem_cons.mp (inside t member)
        · exact getLast_mem _
        · exact dropLast_subset _ before
      · rw [conflictLoop_far rounds close]
        obtain ⟨-, inside⟩ := ih (cons_ne_nil next rest)
        refine ⟨cons_ne_nil _ _, fun t member => ?_⟩
        exact mem_cons.mpr ((mem_cons.mp member).imp_right (inside t))

theorem turned_append (next last : UInt64) (rest : List UInt64) :
    turned next (rest ++ [last]) = last :: next :: rest := by
  refine congrArg₂ List.cons ?_ (@List.dropLast_concat _ (next :: rest) last)
  simp

theorem not_apart_cons {first : UInt64} (some : congestion ≠ [])
    (least : ∀ t ∈ congestion, t ≤ first) : ¬ Apart (first :: congestion) := by
  intro apart
  obtain ⟨t, member⟩ := exists_mem_of_ne_nil congestion some
  have gap := (pairwise_cons.mp apart).1 t member
  have le := UInt64.le_iff_toNat_le.mp (least t member)
  omega

variable {rest : List UInt64}

/-- After a close pair the last timestamps come to the front one by one; if none of them stays there, each is close to
the second of the pair. -/
theorem close_of_apart (next : UInt64) (sorted : (next :: rest).Pairwise (· ≤ ·))
    (apart : Apart (conflictLoop (rest.length + 1) (turned next rest)).2) :
    (∀ t ∈ rest, Close t next) ∧ (conflictLoop (rest.length + 1) (turned next rest)).1 = rest.length := by
  induction rest using List.reverseRecOn with
  | nil => exact ⟨fun _ member => absurd member not_mem_nil, rfl⟩
  | append_singleton rest last ih =>
    rw [← cons_append, pairwise_append] at sorted
    rw [turned_append, length_append, length_singleton] at apart ⊢
    by_cases close : Close last next
    · rw [conflictLoop_close _ close] at apart ⊢
      obtain ⟨all, count⟩ := ih sorted.1 apart
      refine ⟨fun t member => ?_, congrArg (· + 1) count⟩
      obtain before | isLast := mem_append.mp member
      · exact all t before
      · exact mem_singleton.mp isLast ▸ close
    · rw [conflictLoop_far _ close] at apart
      obtain ⟨left, inside⟩ := conflictLoop_left (rest.length + 1) (cons_ne_nil next rest)
      refine absurd apart (not_apart_cons left fun t member => ?_)
      exact sorted.2.2 t (inside t member) last mem_cons_self

theorem conflictLoop_level (next : UInt64) (level : ∀ t ∈ rest, t = next) :
    conflictLoop (rest.length + 1) (turned next rest) = (rest.length, [next]) := by
  induction rest using List.reverseRecOn with
  | nil => rfl
  | append_singleton rest last ih =>
    obtain rfl : last = next := level last (by simp)
    rw [turned_append, length_append, length_singleton, conflictLoop_close _ (close_self last),
      ih fun t member => level t (mem_append_left _ member)]
    rfl

theorem closePairs_cons_le (first : UInt64) (rest : List UInt64) : closePairs (first :: rest) ≤ rest.length := by
  induction rest generalizing first with
  | nil => exact Nat.le_refl 0
  | cons next rest ih =>
    have later := ih next
    rw [closePairs, length_cons]
    split <;> omega

theorem closePairs_level (next : UInt64) (level : ∀ t ∈ rest, t = next) : closePairs (next :: rest) = rest.length := by
  induction rest with
  | nil => rfl
  | cons t rest ih =>
    rw [forall_mem_cons] at level
    obtain rfl := level.1
    rw [closePairs, if_pos (close_self t), ih level.2, length_cons, Nat.add_comm]

theorem level_of_close {next : UInt64} (sorted : (next :: rest).Pairwise (· ≤ ·))
    (count : closePairs (next :: rest) = rest.length) (back : ∀ t ∈ rest, Close t next) : ∀ t ∈ rest, t = next := by
  induction rest with
  | nil => exact fun _ member => absurd member not_mem_nil
  | cons t rest ih =>
    rw [pairwise_cons] at sorted
    rw [forall_mem_cons] at back ⊢
    have later := closePairs_cons_le t rest
    rw [closePairs, length_cons] at count
    have close : Close next t := by
      by_contra far
      rw [if_neg far] at count
      omega
    rw [if_pos close, Nat.add_comm] at count
    obtain rfl := eq_of_close (sorted.1 t mem_cons_self) close back.1
    exact ⟨rfl, ih sorted.2 (Nat.add_right_cancel count) back.2⟩

theorem countsConflicts_sorted (sorted : congestion.Pairwise (· ≤ ·)) :
    ((conflictLoop congestion.length congestion).1 = closePairs congestion ∧
      Apart (conflictLoop congestion.length congestion).2) ↔ LevelAfterClose congestion := by
  induction congestion with
  | nil => exact iff_of_true ⟨rfl, List.Pairwise.nil⟩ trivial
  | cons first rest ih =>
    cases rest with
    | nil => exact iff_of_true ⟨rfl, pairwise_singleton _ _⟩ trivial
    | cons next rest =>
      rw [pairwise_cons] at sorted
      rw [closePairs, LevelAfterClose, length_cons]
      by_cases close : Close first next
      · rw [conflictLoop_close _ close, if_pos close, if_pos close, length_cons]
        constructor
        · rintro ⟨count, apart⟩
          obtain ⟨back, rounds⟩ := close_of_apart next sorted.2 apart
          refine level_of_close sorted.2 ?_ back
          rw [Prod.map_fst, rounds, Nat.add_comm] at count
          exact (Nat.add_left_cancel count).symm
        · intro level
          rw [conflictLoop_level next level, closePairs_level next level, Nat.add_comm]
          exact ⟨rfl, pairwise_singleton _ _⟩
      · rw [conflictLoop_far _ close, if_neg close, if_neg close, Nat.zero_add, ← ih sorted.2]
        refine and_congr_right fun _ => ⟨fun apart => (pairwise_cons.mp apart).2, fun apart => ?_⟩
        refine pairwise_cons.mpr ⟨fun t member => ?_, apart⟩
        have inside := (conflictLoop_left _ (cons_ne_nil next rest)).2 t member
        have after : next ≤ t := by
          obtain rfl | later := mem_cons.mp inside
          · exact UInt64.le_refl _
          · exact (pairwise_cons.mp sorted.2).1 t later
        rw [close_iff (sorted.1 next mem_cons_self), Nat.not_lt] at close
        exact Nat.le_trans close (UInt64.le_iff_toNat_le.mp after)

theorem countsConflicts_iff (congestion : List UInt64) :
    CountsConflicts congestion ↔ LevelAfterClose (congestion.mergeSort fun a b => a ≤ b) := by
  refine countsConflicts_sorted ?_
  have sorted := @List.pairwise_mergeSort _ (fun a b : UInt64 => decide (a ≤ b))
    (fun a b c => by simpa using @UInt64.le_trans a b c) (fun a b => by simpa using UInt64.le_total a b) congestion
  simpa using sorted

theorem not_countsConflicts :
    conflictPass [10000, 11000, 15000] = (1, [15000, 11000]) ∧ ¬ CountsConflicts [10000, 11000, 15000] := by
  have left : conflictPass [10000, 11000, 15000] = (1, [15000, 11000]) := by
    rw [conflictPass, mergeSort_of_pairwise (by decide)]
    decide +kernel
  refine ⟨left, fun law => ?_⟩
  have apart := law.2
  rw [left] at apart
  exact absurd ((pairwise_cons.mp apart).1 11000 mem_cons_self) (by decide)

end CxlMemSim.Endpoint
