import Mathlib.Order.WellFounded

/-! Runs with infinitely many steps: a rank that no step raises cannot outlive infinitely many steps of a kind that
lowers it. -/
namespace Run

variable {σ ι : Type*}

def states (step : σ → ι → σ) (s : σ) (inputs : Nat → ι) : Nat → σ
  | 0 => s
  | t + 1 => step (states step s inputs t) (inputs t)

theorem states_invariant {step : σ → ι → σ} {P : σ → ι → Prop} {I : σ → Prop}
    (keep : ∀ s i, I s → P s i → I (step s i)) {s : σ} (start : I s) {inputs : Nat → ι}
    (all : ∀ t, P (states step s inputs t) (inputs t)) (t : Nat) : I (states step s inputs t) := by
  induction t with
  | zero => exact start
  | succ t ih => exact keep _ _ ih (all t)

theorem eventually_of_rank {α : Type*} [Preorder α] [WellFoundedLT α] {goal acts : Nat → Prop} {start : Nat}
    (rank : Nat → α) (keep : ∀ t, start ≤ t → ¬ goal t → rank (t + 1) ≤ rank t)
    (lower : ∀ t, start ≤ t → ¬ goal t → acts t → rank (t + 1) < rank t)
    (often : ∀ t, ∃ u, t ≤ u ∧ acts u) : ∃ t, start ≤ t ∧ goal t := by
  induction value : rank start using WellFoundedLT.induction generalizing start with
  | ind r ih =>
    subst value
    by_contra never
    have waiting : ∀ t, start ≤ t → ¬ goal t := fun t late met => never ⟨t, late, met⟩
    have bound : ∀ t, start ≤ t → rank t ≤ rank start := by
      intro t late
      induction t, late using Nat.le_induction with
      | base => exact le_refl _
      | succ t late ih => exact (keep t late (waiting t late)).trans ih
    obtain ⟨u, late, act⟩ := often start
    have less : rank (u + 1) < rank start := (lower u late (waiting u late) act).trans_le (bound u late)
    have later : ∀ t, u + 1 ≤ t → start ≤ t := fun t after => by omega
    obtain ⟨t, after, met⟩ := ih _ less (fun t after => keep t (later t after))
      (fun t after => lower t (later t after)) rfl
    exact waiting t (later t after) met

end Run
