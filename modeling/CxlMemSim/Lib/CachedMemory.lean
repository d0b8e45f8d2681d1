import Mathlib.Order.SetNotation

/-! The cache is given by its view: the value it holds for an address, if any. -/
namespace CachedMemory

variable {α β : Type*} {region : Set α} {memory memory' : α → β} {view view' : α → Option β}

def readThrough (memory : α → β) (view : α → Option β) (a : α) : β := (view a).getD (memory a)

def Agrees (region : Set α) (memory : α → β) (view : α → Option β) : Prop :=
  ∀ a ∈ region, ∀ value ∈ view a, value = memory a

theorem agrees_empty (region : Set α) (memory : α → β) : Agrees region memory fun _ => none := by
  intro a _ value held
  cases held

theorem agrees_iff_readThrough : Agrees region memory view ↔ ∀ a ∈ region, readThrough memory view a = memory a := by
  refine forall₂_congr fun a _ => ?_
  rw [readThrough]
  cases view a with
  | none => exact iff_of_true (fun _ held => by cases held) rfl
  | some held => exact ⟨fun same => same held rfl, fun same _ isHeld => (Option.some.inj isHeld) ▸ same⟩

variable (agrees : Agrees region memory view)
include agrees

theorem Agrees.step
    (each : ∀ a ∈ region, ∀ value ∈ view' a, value = memory' a ∨ (value ∈ view a ∧ memory' a = memory a)) :
    Agrees region memory' view' := by
  intro a inside value held
  rcases each a inside value held with fresh | ⟨before, stays⟩
  · exact fresh
  · exact (agrees a inside value before).trans stays.symm

theorem Agrees.forget (fewer : ∀ a, ∀ value ∈ view' a, value ∈ view a) : Agrees region memory view' :=
  agrees.step fun a _ value held => .inr ⟨fewer a value held, rfl⟩

theorem Agrees.store_iff (fewer : ∀ a, ∀ value ∈ view' a, value ∈ view a)
    (written : Set α) (elsewhere : ∀ a ∈ region, a ∉ written → memory' a = memory a) :
    Agrees region memory' view' ↔ ∀ a ∈ region ∩ written, ∀ value ∈ view' a, value = memory' a := by
  constructor
  · intro after a inside value held
    exact after a inside.1 value held
  · intro kept
    refine agrees.step fun a inside value held => ?_
    by_cases here : a ∈ written
    · exact .inl (kept a ⟨inside, here⟩ value held)
    · exact .inr ⟨fewer a value held, elsewhere a inside here⟩

end CachedMemory
