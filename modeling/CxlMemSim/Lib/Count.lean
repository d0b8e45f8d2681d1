import Mathlib.Algebra.Order.BigOperators.Group.Finset
import Mathlib.Data.Fintype.BigOperators

/-! The number of places of a finite table whose contents pass a test, and how it changes with one place. -/
namespace Count
open Function Finset

variable {α β : Type*} [Fintype α]

def count (p : β → Bool) (f : α → β) : Nat := ∑ a, (p (f a)).toNat

variable {p : β → Bool} {f : α → β}

theorem count_eq_zero_iff : count p f = 0 ↔ ∀ a, p (f a) = false := by
  rw [count, sum_eq_zero_iff]
  exact ⟨fun none a => Bool.toNat_eq_zero.mp (none a (mem_univ a)), fun none a _ => Bool.toNat_eq_zero.mpr (none a)⟩

theorem count_le (p : β → Bool) (f : α → β) : count p f ≤ Fintype.card α := by
  calc
    count p f ≤ ∑ _ : α, 1 := sum_le_sum fun a _ => Bool.toNat_le (p (f a))
    _ = Fintype.card α := by rw [← card_eq_sum_ones, card_univ]

theorem count_of_forall (all : ∀ a, p (f a) = true) : count p f = Fintype.card α := by
  have ones : ∀ a ∈ Finset.univ, (p (f a)).toNat = 1 := fun a _ => by rw [all a]; rfl
  rw [count, sum_congr rfl ones, ← card_eq_sum_ones, card_univ]

variable [DecidableEq α] {a : α} {b : β}

theorem count_update (p : β → Bool) (f : α → β) (a : α) (b : β) :
    count p (update f a b) + (p (f a)).toNat = count p f + (p b).toNat := by
  have split : ∀ g : α → β, count p g = (p (g a)).toNat + ∑ x ∈ Finset.univ.erase a, (p (g x)).toNat :=
    fun g => (add_sum_erase Finset.univ (fun x => (p (g x)).toNat) (mem_univ a)).symm
  have others : ∑ x ∈ Finset.univ.erase a, (p (update f a b x)).toNat =
      ∑ x ∈ Finset.univ.erase a, (p (f x)).toNat := by
    refine sum_congr rfl fun x member => ?_
    rw [update_of_ne (ne_of_mem_erase member)]
  rw [split (update f a b), split f, others, update_self]
  omega

theorem count_update_same (same : p b = p (f a)) : count p (update f a b) = count p f := by
  have change := count_update p f a b
  rw [same] at change
  omega

theorem count_update_enter (before : p (f a) = false) (after : p b = true) :
    count p (update f a b) = count p f + 1 := by
  have change := count_update p f a b
  rw [before, after] at change
  exact change

theorem count_update_leave (before : p (f a) = true) (after : p b = false) :
    count p (update f a b) + 1 = count p f := by
  have change := count_update p f a b
  rw [before, after] at change
  exact change

end Count
