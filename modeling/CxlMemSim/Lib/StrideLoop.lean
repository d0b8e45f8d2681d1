import Mathlib.Data.UInt

/-! `for (a = start; a < stop; a += stride) body(a)` on 64-bit addresses. -/
namespace StrideLoop
open Function List UInt64

variable {σ : Type*}

def strideLoop (stride stop : UInt64) (body : σ → UInt64 → σ) : Nat → UInt64 → σ → Option σ
  | 0, a, s => if a < stop then none else some s
  | n + 1, a, s => if a < stop then strideLoop stride stop body n (a + stride) (body s a) else some s

variable {n : Nat} {a : UInt64} {I : σ → Prop}

theorem strideLoop_invariant {stride stop : UInt64} {body : σ → UInt64 → σ}
    (keep : ∀ s a, I s → I (body s a)) {s s' : σ} (start : I s)
    (returns : strideLoop stride stop body n a s = some s') : I s' := by
  induction n generalizing a s with
  | zero =>
    rw [strideLoop] at returns
    split at returns
    · cases returns
    · exact Option.some.inj returns ▸ start
  | succ n ih =>
    rw [strideLoop] at returns
    split at returns
    · exact ih (keep s a start) returns
    · exact Option.some.inj returns ▸ start

variable {stride stop : UInt64} {body : σ → UInt64 → σ} {addrs : List UInt64}

section
variable (divides : stride.toNat ∣ 2 ^ 64)
include divides

theorem next_mod (a : UInt64) : (a + stride).toNat % stride.toNat = a.toNat % stride.toNat := by
  rw [UInt64.toNat_add, Nat.mod_mod_of_dvd _ divides, Nat.add_mod_right]

theorem le_last (a : UInt64) : a.toNat + stride.toNat ≤ 2 ^ 64 + a.toNat % stride.toNat := by
  obtain ⟨k, whole⟩ := divides
  have below := a.toNat_lt
  have split := Nat.div_add_mod a.toNat stride.toNat
  have quotient : a.toNat / stride.toNat < k := Nat.div_lt_of_lt_mul (by rw [← whole]; exact below)
  have turns : stride.toNat * (a.toNat / stride.toNat + 1) ≤ stride.toNat * k := Nat.mul_le_mul_left _ quotient
  rw [Nat.mul_add, Nat.mul_one] at turns
  omega

theorem strideLoop_endless (past : 2 ^ 64 + a.toNat % stride.toNat < stop.toNat + stride.toNat) (s : σ) :
    strideLoop stride stop body n a s = none := by
  have below : a < stop := by
    have last := le_last divides a
    rw [lt_iff_toNat_lt]
    omega
  induction n generalizing a s with
  | zero => rw [strideLoop, if_pos below]
  | succ n ih =>
    have past' : 2 ^ 64 + (a + stride).toNat % stride.toNat < stop.toNat + stride.toNat := by
      rw [next_mod divides]
      exact past
    have last := le_last divides (a + stride)
    rw [strideLoop, if_pos below]
    exact ih past' (body s a) (lt_iff_toNat_lt.mpr (by omega))

theorem next_toNat (below : a < stop) (reached : stop.toNat + stride.toNat ≤ 2 ^ 64 + a.toNat % stride.toNat) :
    (a + stride).toNat = a.toNat + stride.toNat := by
  have positive := Nat.pos_of_dvd_of_pos divides (by decide)
  obtain ⟨k, whole⟩ := divides
  rw [lt_iff_toNat_lt] at below
  have split := Nat.div_add_mod a.toNat stride.toNat
  have quotient : a.toNat / stride.toNat + 1 < k := by
    refine Nat.lt_of_mul_lt_mul_left (a := stride.toNat) ?_
    rw [Nat.mul_add, Nat.mul_one, ← whole]
    omega
  have turns : stride.toNat * (a.toNat / stride.toNat + 1 + 1) ≤ stride.toNat * k := Nat.mul_le_mul_left _ quotient
  have remainder := Nat.mod_lt a.toNat positive
  rw [Nat.mul_add, Nat.mul_add, Nat.mul_one] at turns
  rw [UInt64.toNat_add, Nat.mod_eq_of_lt (by omega)]

/-- What holds at the address a turn starts from, when the turn carries it to the next one, holds where the
loop has passed its stop. -/
theorem strideLoop_carries {P : Nat → σ → Prop}
    (turn : ∀ s a, a < stop → P a.toNat s → P (a.toNat + stride.toNat) (body s a)) {s : σ}
    (reached : stop.toNat + stride.toNat ≤ 2 ^ 64 + a.toNat % stride.toNat)
    (turns : stop.toNat ≤ a.toNat + stride.toNat * n) (start : P a.toNat s) :
    ∃ s' k, strideLoop stride stop body n a s = some s' ∧ stop.toNat ≤ k ∧ P k s' := by
  induction n generalizing a s with
  | zero =>
    rw [strideLoop, if_neg (by rw [lt_iff_toNat_lt]; omega)]
    exact ⟨s, a.toNat, rfl, by omega, start⟩
  | succ n ih =>
    rw [strideLoop]
    split
    · rename_i below
      have next := next_toNat divides below reached
      refine ih ?_ ?_ ?_
      · rw [next_mod divides]
        exact reached
      · rw [Nat.mul_add, Nat.mul_one] at turns
        omega
      · rw [next]
        exact turn s a below start
    · rename_i past
      rw [lt_iff_toNat_lt] at past
      exact ⟨s, a.toNat, rfl, by omega, start⟩

theorem strideLoop_ends (reached : stop.toNat + stride.toNat ≤ 2 ^ 64 + a.toNat % stride.toNat)
    (turns : stop.toNat ≤ a.toNat + stride.toNat * n) (s : σ) : (strideLoop stride stop body n a s).isSome := by
  obtain ⟨s', -, returns, -⟩ :=
    strideLoop_carries (P := fun _ _ => True) (s := s) divides (fun _ _ _ _ => trivial) reached turns
      trivial
  rw [returns]
  rfl

/-- With turns for the whole address space the loop has a result just if it ends. -/
theorem strideLoop_isSome_iff (turns : 2 ^ 64 ≤ stride.toNat * n)
    (a : UInt64) (s : σ) : (strideLoop stride stop body n a s).isSome ↔
      stop.toNat + stride.toNat ≤ 2 ^ 64 + a.toNat % stride.toNat := by
  constructor
  · intro returns
    by_contra past
    rw [strideLoop_endless divides (Nat.lt_of_not_le past)] at returns
    cases returns
  · intro reached
    have below := stop.toNat_lt
    exact strideLoop_ends divides reached (by omega) s

theorem reached_of_isSome {s s' : σ} (returns : strideLoop stride stop body n a s = some s') :
    stop.toNat + stride.toNat ≤ 2 ^ 64 + a.toNat % stride.toNat := by
  by_contra past
  rw [strideLoop_endless divides (Nat.lt_of_not_le past)] at returns
  cases returns

end

theorem le_of_sameRemainder {a k m : Nat} (same : k % m = a % m) (below : a < k) : a + m ≤ k := by
  have divides : m ∣ k - a := (Nat.modEq_iff_dvd' below.le).mp same.symm
  have := Nat.le_of_dvd (by omega) divides
  omega

def visits (stride stop : UInt64) : Nat → UInt64 → Option (List UInt64)
  | 0, a => if a < stop then none else some []
  | n + 1, a => if a < stop then (visits stride stop n (a + stride)).map (a :: ·) else some []

theorem strideLoop_eq_foldl (n : Nat) (a : UInt64) (s : σ) :
    strideLoop stride stop body n a s = (visits stride stop n a).map fun addrs => addrs.foldl body s := by
  induction n generalizing a s with
  | zero =>
    rw [strideLoop, visits]
    split <;> rfl
  | succ n ih =>
    rw [strideLoop, visits]
    split
    · rw [ih, Option.map_map]
      rfl
    · rfl

section
variable (divides : stride.toNat ∣ 2 ^ 64)
include divides

theorem visits_isSome_iff (turns : 2 ^ 64 ≤ stride.toNat * n) (a : UInt64) :
    (visits stride stop n a).isSome ↔ stop.toNat + stride.toNat ≤ 2 ^ 64 + a.toNat % stride.toNat := by
  have ends : (strideLoop stride stop (fun (_ : Unit) _ => ()) n a ()).isSome ↔ _ :=
    strideLoop_isSome_iff divides turns a ()
  rw [strideLoop_eq_foldl, Option.isSome_map] at ends
  exact ends

theorem visits_reached (visited : visits stride stop n a = some addrs) :
    stop.toNat + stride.toNat ≤ 2 ^ 64 + a.toNat % stride.toNat := by
  have returns : strideLoop stride stop (fun (_ : Unit) _ => ()) n a () =
      some (addrs.foldl (fun _ _ => ()) ()) := by
    rw [strideLoop_eq_foldl, visited]
    rfl
  exact reached_of_isSome divides returns

theorem visits_spec (visited : visits stride stop n a = some addrs) :
    addrs.Pairwise (· < ·) ∧
      ∀ k, k ∈ addrs ↔ a ≤ k ∧ k < stop ∧ k.toNat % stride.toNat = a.toNat % stride.toNat := by
  have positive := Nat.pos_of_dvd_of_pos divides (by decide)
  have reached := visits_reached divides visited
  induction n generalizing a addrs with
  | zero =>
    rw [visits] at visited
    split at visited
    · cases visited
    · rename_i past
      cases visited
      refine ⟨.nil, fun k => iff_of_false not_mem_nil fun inside => ?_⟩
      exact past (UInt64.lt_of_le_of_lt inside.1 inside.2.1)
  | succ n ih =>
    rw [visits] at visited
    split at visited
    · rename_i below
      obtain ⟨rest, visited', rfl⟩ := Option.map_eq_some_iff.mp visited
      have next := next_toNat divides below reached
      obtain ⟨sorted, members⟩ := ih visited' (visits_reached divides visited')
      rw [next_mod divides] at members
      refine ⟨pairwise_cons.mpr ⟨fun k member => ?_, sorted⟩, fun k => ?_⟩
      · have low := ((members k).mp member).1
        rw [le_iff_toNat_le, next] at low
        rw [lt_iff_toNat_lt]
        omega
      · rw [mem_cons, members]
        constructor
        · rintro (rfl | ⟨low, high, same⟩)
          · exact ⟨UInt64.le_refl k, below, rfl⟩
          · rw [le_iff_toNat_le, next] at low
            exact ⟨le_iff_toNat_le.mpr (by omega), high, same⟩
        · rintro ⟨low, high, same⟩
          by_cases here : k = a
          · exact .inl here
          · have beyond : a.toNat < k.toNat :=
              Nat.lt_of_le_of_ne (UInt64.le_iff_toNat_le.mp low) fun eq => here (UInt64.toNat_inj.mp eq.symm)
            have stepped := le_of_sameRemainder same beyond
            exact .inr ⟨le_iff_toNat_le.mpr (by rw [next]; exact stepped), high, same⟩
    · rename_i past
      cases visited
      refine ⟨.nil, fun k => iff_of_false not_mem_nil fun inside => ?_⟩
      exact past (UInt64.lt_of_le_of_lt inside.1 inside.2.1)

end

theorem foldl_pointwise {κ β : Type*} [DecidableEq κ] {body : σ → κ → σ} (look : σ → κ → β) {f : κ → β → β}
    {addrs : List κ} (keep : ∀ s, ∀ a ∈ addrs, I s → I (body s a)) (nodup : addrs.Nodup)
    (turn : ∀ s, ∀ a ∈ addrs, I s → look (body s a) = update (look s) a (f a (look s a))) {s : σ}
    (holds : I s) (k : κ) :
    look (addrs.foldl body s) k = if k ∈ addrs then f k (look s k) else look s k := by
  induction addrs generalizing s with
  | nil => rfl
  | cons a addrs ih =>
    obtain ⟨absent, nodup⟩ := nodup_cons.mp nodup
    have rest := ih (fun s b member => keep s b (mem_cons_of_mem a member)) nodup
      (fun s b member => turn s b (mem_cons_of_mem a member)) (keep s a mem_cons_self holds)
    rw [foldl_cons, rest, turn s a mem_cons_self holds]
    by_cases here : k = a
    · subst here
      rw [if_neg absent, if_pos mem_cons_self, update_self]
    · rw [update_of_ne here]
      refine if_congr ⟨mem_cons_of_mem a, fun member => ?_⟩ rfl rfl
      exact (mem_cons.mp member).resolve_left here

end StrideLoop
