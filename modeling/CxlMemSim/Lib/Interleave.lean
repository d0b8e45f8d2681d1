import Mathlib.Data.Nat.Basic

/-! Blocks of `g` consecutive numbers are dealt out to `n` targets in turn. -/
namespace Interleave

def target (g n r : Nat) : Nat := r / g % n

def offset (g n r : Nat) : Nat := r / g / n * g + r % g

def origin (g n t o : Nat) : Nat := (o / g * n + t) * g + o % g

variable {g n t : Nat}

theorem target_lt (pos : 0 < n) (r : Nat) : target g n r < n := Nat.mod_lt _ pos

theorem block_add (pos : 0 < g) (q r : Nat) : (q * g + r % g) / g = q ∧ (q * g + r % g) % g = r % g := by
  have inside := Nat.mod_lt r pos
  constructor
  · rw [Nat.mul_comm, Nat.mul_add_div pos, Nat.div_eq_of_lt inside, Nat.add_zero]
  · rw [Nat.mul_comm, Nat.mul_add_mod, Nat.mod_eq_of_lt inside]

theorem offset_le (r : Nat) : offset g n r ≤ r := by
  have blocks : r / g / n * g ≤ r / g * g := Nat.mul_le_mul_right g (Nat.div_le_self _ _)
  have split := Nat.div_add_mod r g
  rw [Nat.mul_comm] at split
  simp only [offset]
  omega

theorem origin_target_offset (pos : 0 < g) (r : Nat) : origin g n (target g n r) (offset g n r) = r := by
  obtain ⟨quotient, remainder⟩ := block_add pos (r / g / n) r
  simp only [origin, target, offset, quotient, remainder]
  rw [Nat.mul_comm (r / g / n), Nat.div_add_mod, Nat.mul_comm, Nat.div_add_mod]

theorem block_origin (pos : 0 < g) (t o : Nat) : origin g n t o / g = o / g * n + t ∧ origin g n t o % g = o % g :=
  block_add pos _ o

theorem target_origin (pos : 0 < g) (inside : t < n) (o : Nat) : target g n (origin g n t o) = t := by
  rw [target, (block_origin pos t o).1, Nat.mul_comm, Nat.mul_add_mod, Nat.mod_eq_of_lt inside]

theorem offset_origin (pos : 0 < g) (inside : t < n) (o : Nat) : offset g n (origin g n t o) = o := by
  have turns : (o / g * n + t) / n = o / g := by
    rw [Nat.mul_comm, Nat.mul_add_div (Nat.zero_lt_of_lt inside), Nat.div_eq_of_lt inside, Nat.add_zero]
  rw [offset, (block_origin pos t o).1, (block_origin pos t o).2, turns, Nat.mul_comm, Nat.div_add_mod]

theorem origin_lt_iff (pos : 0 < g) (inside : t < n) (o k : Nat) : origin g n t o < n * g * k ↔ o < g * k := by
  have rounds : o / g * n + t < k * n ↔ o / g < k := by
    constructor
    · intro below
      exact Nat.lt_of_mul_lt_mul_right (Nat.lt_of_le_of_lt (Nat.le_add_right _ t) below)
    · intro below
      have next : (o / g + 1) * n ≤ k * n := Nat.mul_le_mul_right n below
      rw [Nat.add_mul, Nat.one_mul] at next
      omega
  rw [Nat.mul_comm n g, Nat.mul_assoc, Nat.mul_comm g, Nat.mul_comm g, ← Nat.div_lt_iff_lt_mul pos,
    ← Nat.div_lt_iff_lt_mul pos, (block_origin pos t o).1, Nat.mul_comm n k, rounds]

end Interleave
