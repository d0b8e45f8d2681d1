import Mathlib.Data.Fintype.Card

/-! A table has a fixed number of slots, each free or occupied. -/
namespace SlotTable
open Function

variable {n : Nat} {α β : Type*}

def firstFree (slots : Fin n → Option α) : Option (Fin n) := (List.finRange n).find? fun i => (slots i).isNone

def firstWith (p : α → Bool) (slots : Fin n → Option α) : Option (Fin n) :=
  (List.finRange n).find? fun i => (slots i).any p

def occupied (slots : Fin n → Option α) : Finset (Fin n) := {i | (slots i).isSome}

variable {slots : Fin n → Option α} {i : Fin n} {p : α → Bool} {f : α → β}

theorem free_of_firstFree (found : firstFree slots = some i) : slots i = none := by
  have free : (slots i).isNone = true := by simpa using List.find?_some (l := List.finRange n) found
  exact Option.isNone_iff_eq_none.mp free

theorem firstFree_eq_none_iff : firstFree slots = none ↔ ∀ i, slots i ≠ none := by
  simp [firstFree, List.find?_eq_none, Option.ne_none_iff_isSome]

theorem entry_of_firstWith (found : firstWith p slots = some i) : ∃ a, slots i = some a ∧ p a = true := by
  have fits : (slots i).any p = true := by simpa using List.find?_some (l := List.finRange n) found
  cases there : slots i with
  | none =>
    rw [there] at fits
    cases fits
  | some a =>
    rw [there] at fits
    exact ⟨a, rfl, fits⟩

theorem firstWith_eq_none_iff : firstWith p slots = none ↔ ∀ i a, slots i = some a → p a = false := by
  simp [firstWith, List.find?_eq_none, Option.any_eq_false]

theorem card_occupied_put (free : slots i = none) (a : α) :
    (occupied (update slots i (some a))).card = (occupied slots).card + 1 := by
  have other : i ∉ occupied slots := by simp [occupied, free]
  have added : occupied (update slots i (some a)) = insert i (occupied slots) := by
    ext j
    by_cases same : j = i
    · simp [occupied, same]
    · simp [occupied, same]
  rw [added, Finset.card_insert_of_notMem other]

theorem card_occupied_clear {a : α} (used : slots i = some a) :
    (occupied (update slots i none)).card + 1 = (occupied slots).card := by
  have free : update slots i none i = none := update_self ..
  rw [← card_occupied_put free a, update_idem, ← used, update_eq_self]

def DistinctBy (f : α → β) (slots : Fin n → Option α) : Prop :=
  ∀ i j a b, slots i = some a → slots j = some b → f a = f b → i = j

theorem distinctBy_put_iff (free : slots i = none) (a : α) :
    DistinctBy f (update slots i (some a)) ↔
      DistinctBy f slots ∧ ∀ j b, slots j = some b → f b ≠ f a := by
  have kept {j : Fin n} {b : α} (there : slots j = some b) : update slots i (some a) j = some b := by
    rw [update_of_ne (by rintro rfl; rw [free] at there; cases there)]
    exact there
  have new : update slots i (some a) i = some a := update_self ..
  constructor
  · intro distinct
    refine ⟨fun j k b c atJ atK same => distinct j k b c (kept atJ) (kept atK) same, ?_⟩
    rintro j b there same
    rw [distinct j i b a (kept there) new same, free] at there
    cases there
  · rintro ⟨distinct, fresh⟩ j k b c atJ atK same
    by_cases first : j = i
    · by_cases second : k = i
      · rw [first, second]
      · rw [first, new] at atJ
        rw [update_of_ne second] at atK
        cases atJ
        exact absurd same.symm (fresh k c atK)
    · rw [update_of_ne first] at atJ
      by_cases second : k = i
      · rw [second, new] at atK
        cases atK
        exact absurd same (fresh j b atJ)
      · rw [update_of_ne second] at atK
        exact distinct j k b c atJ atK same

theorem DistinctBy.clear (distinct : DistinctBy f slots) (i : Fin n) : DistinctBy f (update slots i none) := by
  have kept {j : Fin n} {b : α} (there : update slots i none j = some b) : slots j = some b := by
    by_cases same : j = i
    · rw [same, update_self] at there
      cases there
    · rwa [update_of_ne same] at there
  intro j k b c atJ atK same
  exact distinct j k b c (kept atJ) (kept atK) same

end SlotTable
