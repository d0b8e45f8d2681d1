import Mathlib.Data.Nat.Digits.Defs

/-! A memory is a function from addresses to bytes. A copy walks a sequence of addresses `at_ 0, at_ 1, …`, however
these are computed. -/
namespace ByteMemory
open Function List

variable {α : Type*} {at_ : Nat → α} {m : α → UInt8} {p : α}

def peek (m : α → UInt8) (at_ : Nat → α) (n : Nat) : List UInt8 :=
  (List.range n).map fun i => m (at_ i)

/-- Store bytes one after another along `at_`; a later byte wins on a repeated address. -/
def poke [DecidableEq α] (m : α → UInt8) (at_ : Nat → α) : List UInt8 → α → UInt8
  | [] => m
  | b :: bs => poke (update m (at_ 0) b) (fun i => at_ (i + 1)) bs

def Distinct (at_ : Nat → α) (n : Nat) : Prop :=
  ∀ i j, i < n → j < n → at_ i = at_ j → i = j

theorem distinct_add (start n : Nat) : Distinct (start + · : Nat → Nat) n := by
  intro i j _ _ same
  exact Nat.add_left_cancel same

@[simp] theorem peek_length (m : α → UInt8) (at_ : Nat → α) (n : Nat) :
    (peek m at_ n).length = n := by simp [peek]

@[simp] theorem peek_zero (m : α → UInt8) (at_ : Nat → α) : peek m at_ 0 = [] := rfl

theorem peek_getElem (m : α → UInt8) (at_ : Nat → α) {n i : Nat} (h : i < (peek m at_ n).length) :
    (peek m at_ n)[i] = m (at_ i) := by simp [peek]

theorem peek_add (m : α → UInt8) (at_ : Nat → α) (a b : Nat) :
    peek m at_ (a + b) = peek m at_ a ++ peek m (fun i => at_ (a + i)) b := by
  simp [peek, range_add, comp_def]

theorem peek_congr {β : Type*} {m' : β → UInt8} {at' : Nat → β} {n : Nat}
    (h : ∀ i, i < n → m (at_ i) = m' (at' i)) : peek m at_ n = peek m' at' n := by
  simp only [peek]
  apply map_congr_left
  intro i member
  exact h i (mem_range.mp member)

section Poke
variable [DecidableEq α]

@[simp] theorem poke_nil (m : α → UInt8) (at_ : Nat → α) : poke m at_ [] = m := rfl

theorem poke_append (m : α → UInt8) (at_ : Nat → α) (xs ys : List UInt8) :
    poke m at_ (xs ++ ys) = poke (poke m at_ xs) (fun i => at_ (xs.length + i)) ys := by
  induction xs generalizing m at_ with
  | nil => simp
  | cons x xs ih =>
    simp only [cons_append, poke, ih, length_cons]
    congr 1
    funext i
    congr 1
    omega

theorem poke_other (m : α → UInt8) (at_ : Nat → α) (bs : List UInt8)
    (off : ∀ i, i < bs.length → at_ i ≠ p) : poke m at_ bs p = m p := by
  induction bs generalizing m at_ with
  | nil => rfl
  | cons b bs ih =>
    rw [poke, ih _ _ fun i hi => off (i + 1) (Nat.succ_lt_succ hi)]
    exact update_of_ne (off 0 (Nat.zero_lt_succ _)).symm _ _

theorem poke_at (m : α → UInt8) (at_ : Nat → α) (bs : List UInt8)
    (distinct : Distinct at_ bs.length) {i : Nat} (hi : i < bs.length) :
    poke m at_ bs (at_ i) = bs[i] := by
  induction bs generalizing m at_ i with
  | nil => simp at hi
  | cons b bs ih =>
    have tail : Distinct (fun k => at_ (k + 1)) bs.length := by
      intro j k hj hk same
      have := distinct (j + 1) (k + 1) (Nat.succ_lt_succ hj) (Nat.succ_lt_succ hk) same
      omega
    cases i with
    | zero =>
      rw [poke, poke_other]
      · simp
      · intro j hj same
        have := distinct (j + 1) 0 (Nat.succ_lt_succ hj) hi same
        omega
    | succ i =>
      rw [poke, getElem_cons_succ]
      exact ih _ _ tail (Nat.lt_of_succ_lt_succ hi)

theorem poke_congr (m : α → UInt8) {at' : Nat → α} (bs : List UInt8)
    (h : ∀ i, i < bs.length → at_ i = at' i) : poke m at_ bs = poke m at' bs := by
  induction bs generalizing m at_ at' with
  | nil => rfl
  | cons b bs ih =>
    rw [poke, poke, h 0 (Nat.zero_lt_succ _)]
    exact ih _ fun i hi => h (i + 1) (Nat.succ_lt_succ hi)

theorem poke_comp {β : Type*} [DecidableEq β] {f : α → β} (injective : Injective f) (m : β → UInt8)
    (at_ : Nat → α) (bs : List UInt8) : poke (m ∘ f) at_ bs = poke m (f ∘ at_) bs ∘ f := by
  induction bs generalizing m at_ with
  | nil => rfl
  | cons b bs ih =>
    rw [poke, poke, ← update_comp_eq_of_injective m injective (at_ 0) b]
    exact ih _ _

theorem poke_apply_congr {m' : α → UInt8} (at_ : Nat → α) (bs : List UInt8) (h : m p = m' p) :
    poke m at_ bs p = poke m' at_ bs p := by
  induction bs generalizing m m' at_ with
  | nil => exact h
  | cons b bs ih =>
    refine ih _ ?_
    rw [update_apply, update_apply, h]

variable (m : α → UInt8)

theorem peek_poke (at_ : Nat → α) (bs : List UInt8)
    (distinct : Distinct at_ bs.length) : peek (poke m at_ bs) at_ bs.length = bs := by
  apply ext_getElem (by simp)
  intro i h1 h2
  rw [peek_getElem, poke_at m at_ bs distinct h2]

theorem poke_peek (at_ : Nat → α) (n : Nat) : poke m at_ (peek m at_ n) = m := by
  induction n generalizing at_ with
  | zero => rfl
  | succ n ih =>
    have first : peek m at_ (n + 1) = m (at_ 0) :: peek m (fun i => at_ (i + 1)) n := by
      simp only [peek, range_succ_eq_map, map_cons, map_map, comp_def]
    rw [first, poke, update_eq_self]
    exact ih _

theorem poke_peek_at (data : Nat → UInt8) {n i : Nat} (distinct : Distinct at_ n)
    (inside : i < n) : poke m at_ (peek data id n) (at_ i) = data i := by
  have length := peek_length data id n
  rw [poke_at m at_ _ (by rwa [length]) (by rwa [length]), peek_getElem]
  rfl

theorem poke_eq_self_iff (at_ : Nat → α) (bs : List UInt8) (distinct : Distinct at_ bs.length) :
    poke m at_ bs = m ↔ peek m at_ bs.length = bs := by
  constructor
  · intro same
    conv_lhs => rw [← same]
    exact peek_poke m at_ bs distinct
  · intro there
    conv_lhs => rw [← there]
    exact poke_peek m at_ bs.length

theorem poke_getD (at_ : Nat → α) (bs : List UInt8) {n j : Nat}
    (distinct : Distinct at_ n) (short : bs.length ≤ n) (hj : j < n) :
    poke m at_ bs (at_ j) = bs[j]?.getD (m (at_ j)) := by
  by_cases reached : j < bs.length
  · rw [getElem?_eq_getElem reached, Option.getD_some]
    apply poke_at m at_ bs _ reached
    intro a b ha hb same
    exact distinct a b (by omega) (by omega) same
  · rw [getElem?_eq_none (by omega), Option.getD_none]
    apply poke_other
    intro i hi same
    have := distinct i j (by omega) hj same
    omega

theorem poke_cases (at_ : Nat → α) (bs : List UInt8) (distinct : Distinct at_ bs.length) (p : α) :
    (∃ i, ∃ hi : i < bs.length, at_ i = p ∧ poke m at_ bs p = bs[i]) ∨
      ((∀ i, i < bs.length → at_ i ≠ p) ∧ poke m at_ bs p = m p) := by
  by_cases hit : ∃ i, i < bs.length ∧ at_ i = p
  · obtain ⟨i, hi, rfl⟩ := hit
    exact .inl ⟨i, hi, rfl, poke_at m at_ bs distinct hi⟩
  · have off : ∀ i, i < bs.length → at_ i ≠ p := fun i hi here => hit ⟨i, hi, here⟩
    exact .inr ⟨off, poke_other m at_ bs off⟩

theorem poke_find (at_ : Nat → α) (bs : List UInt8) (distinct : Distinct at_ bs.length) (p : α) :
    poke m at_ bs p =
      (((List.range bs.length).find? fun i => at_ i = p).bind fun i => bs[i]?).getD (m p) := by
  cases found : (List.range bs.length).find? fun i => at_ i = p with
  | none =>
    apply poke_other
    intro i hi same
    have missed := find?_eq_none.mp found i (mem_range.mpr hi)
    exact missed (by simpa using same)
  | some i =>
    have hi : i < bs.length := mem_range.mp (mem_of_find?_eq_some found)
    have here : at_ i = p := by simpa using find?_some found
    rw [← here, poke_at m at_ bs distinct hi]
    simp [getElem?_eq_getElem hi]

end Poke

def toBytesLE : Nat → Nat → List UInt8
  | 0, _ => []
  | w + 1, v => UInt8.ofNat v :: toBytesLE w (v / 256)

def ofBytesLE (bs : List UInt8) : Nat := Nat.ofDigits 256 (bs.map UInt8.toNat)

@[simp] theorem toBytesLE_length (w v : Nat) : (toBytesLE w v).length = w := by
  induction w generalizing v with
  | zero => rfl
  | succ w ih => simp [toBytesLE, ih]

theorem ofBytesLE_toBytesLE (w v : Nat) : ofBytesLE (toBytesLE w v) = v % 256 ^ w := by
  induction w generalizing v with
  | zero => simp [toBytesLE, ofBytesLE, Nat.mod_one]
  | succ w ih =>
    have tail : Nat.ofDigits 256 ((toBytesLE w (v / 256)).map UInt8.toNat) = v / 256 % 256 ^ w := ih _
    have split : v % 256 ^ (w + 1) = v % 256 + 256 * (v / 256 % 256 ^ w) := by rw [pow_succ', Nat.mod_mul]
    rw [toBytesLE, ofBytesLE, map_cons, Nat.ofDigits_cons, tail, split, UInt8.toNat_ofNat']

theorem toBytesLE_ofBytesLE (bs : List UInt8) : toBytesLE bs.length (ofBytesLE bs) = bs := by
  induction bs with
  | nil => rfl
  | cons b bs ih =>
    have byte := b.toNat_lt
    have split : ofBytesLE (b :: bs) = b.toNat + 256 * ofBytesLE bs := by
      rw [ofBytesLE, map_cons, Nat.ofDigits_cons]
      rfl
    have low : UInt8.ofNat (b.toNat + 256 * ofBytesLE bs) = b := by
      apply UInt8.toNat_inj.mp
      rw [UInt8.toNat_ofNat']
      omega
    rw [length_cons, toBytesLE, split, low, show (b.toNat + 256 * ofBytesLE bs) / 256 = ofBytesLE bs by omega, ih]

theorem ofBytesLE_lt (bs : List UInt8) : ofBytesLE bs < 256 ^ bs.length := by
  have bounded := Nat.ofDigits_lt_base_pow_length (b := 256) (l := bs.map UInt8.toNat) (by decide) (by
    intro d member
    obtain ⟨b, -, rfl⟩ := mem_map.mp member
    exact b.toNat_lt)
  rwa [length_map] at bounded

def loadLE (m : α → UInt8) (at_ : Nat → α) (w : Nat) : Nat := ofBytesLE (peek m at_ w)

def storeLE [DecidableEq α] (m : α → UInt8) (at_ : Nat → α) (w v : Nat) : α → UInt8 :=
  poke m at_ (toBytesLE w v)

theorem loadLE_congr {β : Type*} {m' : β → UInt8} {at' : Nat → β} {w : Nat}
    (h : ∀ i, i < w → m (at_ i) = m' (at' i)) : loadLE m at_ w = loadLE m' at' w :=
  congrArg ofBytesLE (peek_congr h)

theorem loadLE_lt (m : α → UInt8) (at_ : Nat → α) (w : Nat) : loadLE m at_ w < 256 ^ w := by
  have bound := ofBytesLE_lt (peek m at_ w)
  rwa [peek_length] at bound

theorem toBytesLE_loadLE (m : α → UInt8) (at_ : Nat → α) (w : Nat) : toBytesLE w (loadLE m at_ w) = peek m at_ w := by
  have bytes := toBytesLE_ofBytesLE (peek m at_ w)
  rwa [peek_length] at bytes

theorem loadLE_one (m : α → UInt8) (at_ : Nat → α) : UInt64.ofNat (loadLE m at_ 1) = (m (at_ 0)).toUInt64 := by
  have one : loadLE m at_ 1 = (m (at_ 0)).toNat := by
    simp [loadLE, peek, ofBytesLE]
  have small := (m (at_ 0)).toNat_lt
  rw [one, ← UInt64.toNat_inj, UInt64.toNat_ofNat', UInt8.toNat_toUInt64]
  omega

section Store
variable [DecidableEq α]

theorem loadLE_storeLE (m : α → UInt8) (at_ : Nat → α) (w v : Nat) (distinct : Distinct at_ w) :
    loadLE (storeLE m at_ w v) at_ w = v % 256 ^ w := by
  have back := peek_poke m at_ (toBytesLE w v) (by simpa only [toBytesLE_length] using distinct)
  rw [toBytesLE_length] at back
  rw [loadLE, storeLE, back, ofBytesLE_toBytesLE]

theorem storeLE_loadLE (m : α → UInt8) (at_ : Nat → α) (w : Nat) : storeLE m at_ w (loadLE m at_ w) = m := by
  rw [storeLE, toBytesLE_loadLE, poke_peek]

theorem storeLE_other (m : α → UInt8) (at_ : Nat → α) (w v : Nat)
    (off : ∀ i, i < w → at_ i ≠ p) : storeLE m at_ w v p = m p :=
  poke_other m at_ _ (by simpa only [toBytesLE_length] using off)

end Store
end ByteMemory
