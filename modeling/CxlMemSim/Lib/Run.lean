import Mathlib.Data.List.Basic

/-! A run is the left fold of a step function over its inputs. -/
namespace Run
open List

variable {σ ι : Type*}

/-- `P` holds of the state before each step together with that step's input. -/
def EveryStep (step : σ → ι → σ) (P : σ → ι → Prop) : σ → List ι → Prop
  | _, [] => True
  | s, i :: is => P s i ∧ EveryStep step P (step s i) is

@[simp] theorem everyStep_nil (step : σ → ι → σ) (P : σ → ι → Prop) (s : σ) :
    EveryStep step P s [] := trivial

@[simp] theorem everyStep_cons (step : σ → ι → σ) (P : σ → ι → Prop) (s : σ) (i : ι) (is : List ι) :
    EveryStep step P s (i :: is) ↔ P s i ∧ EveryStep step P (step s i) is := Iff.rfl

instance decidableEveryStep (step : σ → ι → σ) (P : σ → ι → Prop) [d : ∀ s i, Decidable (P s i)] :
    ∀ s is, Decidable (EveryStep step P s is)
  | _, [] => isTrue trivial
  | s, i :: is => @instDecidableAnd _ _ (d s i) (decidableEveryStep step P (step s i) is)

def Before (P : σ → ι → Prop) (s : Option σ) (i : ι) : Prop := ∀ x ∈ s, P x i

variable {step : σ → ι → σ} {I : σ → Prop} {s : σ}

theorem invariant (keep : ∀ s i, I s → I (step s i)) (start : I s) (is : List ι) : I (is.foldl step s) := by
  induction is generalizing s with
  | nil => exact start
  | cons i is ih => exact ih (keep s i start)

variable {P : σ → ι → Prop} {is : List ι}

/-- Preservation may use what each step of the run is known to satisfy. -/
theorem invariant_of_everyStep (keep : ∀ s i, I s → P s i → I (step s i)) (start : I s)
    (all : EveryStep step P s is) : I (is.foldl step s) := by
  induction is generalizing s with
  | nil => exact start
  | cons i is ih => exact ih (keep s i start all.1) all.2

theorem EveryStep.at_split {before after : List ι} {i : ι}
    (all : EveryStep step P s (before ++ i :: after)) : P (before.foldl step s) i := by
  induction before generalizing s with
  | nil => exact all.1
  | cons j before ih => exact ih all.2

theorem EveryStep.of_append {before after : List ι}
    (all : EveryStep step P s (before ++ after)) : EveryStep step P s before := by
  induction before generalizing s with
  | nil => trivial
  | cons j before ih => exact ⟨all.1, ih all.2⟩

theorem EveryStep.of_append_right {before after : List ι}
    (all : EveryStep step P s (before ++ after)) : EveryStep step P (before.foldl step s) after := by
  induction before generalizing s with
  | nil => exact all
  | cons j before ih => exact ih all.2

variable {P Q : σ → ι → Prop}

theorem EveryStep.mono (keep : ∀ s i, I s → P s i → I (step s i)) (weaken : ∀ s i, I s → P s i → Q s i) (start : I s)
    (all : EveryStep step P s is) : EveryStep step Q s is := by
  induction is generalizing s with
  | nil => trivial
  | cons i is ih => exact ⟨weaken s i start all.1, ih (keep s i start all.1) all.2⟩

theorem EveryStep.iff_of_invariant {P Q R : σ → ι → Prop}
    (keep : ∀ s i, I s → R s i → I (step s i)) (agree : ∀ s i, I s → R s i → (P s i ↔ Q s i)) (start : I s)
    (all : EveryStep step R s is) :
    EveryStep step P s is ↔ EveryStep step Q s is := by
  induction is generalizing s with
  | nil => exact Iff.rfl
  | cons i is ih =>
    exact and_congr (agree s i start all.1) (ih (keep s i start all.1) all.2)

theorem EveryStep.and (p : EveryStep step P s is) (q : EveryStep step Q s is) :
    EveryStep step (fun s i => P s i ∧ Q s i) s is := by
  induction is generalizing s with
  | nil => trivial
  | cons i is ih => exact ⟨⟨p.1, q.1⟩, ih p.2 q.2⟩

theorem everyStep_of_forall (each : ∀ i ∈ is, ∀ s, P s i) : EveryStep step P s is := by
  induction is generalizing s with
  | nil => trivial
  | cons i is ih =>
    exact ⟨each i mem_cons_self s, ih fun j member => each j (mem_cons_of_mem i member)⟩

theorem everyStep_and_iff :
    EveryStep step (fun s i => P s i ∧ Q s i) s is ↔ EveryStep step P s is ∧ EveryStep step Q s is := by
  induction is generalizing s with
  | nil => exact (and_self_iff (a := True)).symm
  | cons i is ih =>
    rw [everyStep_cons, everyStep_cons, everyStep_cons, ih]
    exact and_and_and_comm

/-- Two conditions agree on a run if they agree at each step, under an invariant that the second one keeps. -/
theorem everyStep_congr_of_invariant (start : I s) (keep : ∀ s, ∀ i ∈ is, I s → Q s i → I (step s i))
    (agree : ∀ s, ∀ i ∈ is, I s → (P s i ↔ Q s i)) : EveryStep step P s is ↔ EveryStep step Q s is := by
  induction is generalizing s with
  | nil => exact Iff.rfl
  | cons i is ih =>
    rw [everyStep_cons, everyStep_cons, agree s i mem_cons_self start]
    refine and_congr_right fun meets => ih (keep s i mem_cons_self start meets) ?_ ?_
    · exact fun s j member => keep s j (mem_cons_of_mem i member)
    · exact fun s j member => agree s j (mem_cons_of_mem i member)

theorem everyStep_congr (agree : ∀ s i, P s i ↔ Q s i) : EveryStep step P s is ↔ EveryStep step Q s is :=
  everyStep_congr_of_invariant (I := fun _ => True) trivial (fun _ _ _ _ _ => trivial) fun s i _ _ => agree s i

theorem forall_prefix_iff_everyStep {Q : σ → Prop} :
    (∀ before, before <+: is → Q (before.foldl step s)) ↔ Q s ∧ EveryStep step (fun s i => Q (step s i)) s is := by
  induction is generalizing s with
  | nil =>
    refine ⟨fun all => ⟨all [] prefix_rfl, trivial⟩, fun held before none => ?_⟩
    rw [prefix_nil.mp none]
    exact held.1
  | cons i is ih =>
    rw [everyStep_cons, ← ih]
    constructor
    · intro all
      refine ⟨all [] nil_prefix, fun before isPrefix => ?_⟩
      exact all (i :: before) (cons_prefix_cons.mpr ⟨rfl, isPrefix⟩)
    · rintro ⟨held, later⟩ before isPrefix
      cases before with
      | nil => exact held
      | cons j before =>
        obtain ⟨rfl, tail⟩ := cons_prefix_cons.mp isPrefix
        exact later before tail

theorem forall_prefix_iff_of_invariant {I Q : σ → Prop} (holds : ∀ s, I s → Q s) (start : I s)
    (keep : ∀ s, ∀ i ∈ is, I s → P s i → I (step s i)) (shows : ∀ s, ∀ i ∈ is, I s → Q (step s i) → P s i) :
    (∀ before, before <+: is → Q (before.foldl step s)) ↔ EveryStep step P s is := by
  rw [forall_prefix_iff_everyStep, and_iff_right (holds s start)]
  refine everyStep_congr_of_invariant start keep fun s i member held => ⟨shows s i member held, fun meets => ?_⟩
  exact holds _ (keep s i member held meets)

/-- Where a step keeps the invariant just if it meets a condition, a run does so just if each step meets it. -/
theorem forall_prefix_iff_of_mem (start : I s) (decides : ∀ s, ∀ i ∈ is, I s → (I (step s i) ↔ P s i)) :
    (∀ before, before <+: is → I (before.foldl step s)) ↔ EveryStep step P s is :=
  forall_prefix_iff_of_invariant (fun _ held => held) start
    (fun s i member held => (decides s i member held).mpr) (fun s i member held => (decides s i member held).mp)

theorem forall_prefix_iff (decides : ∀ s i, I s → (I (step s i) ↔ P s i)) (start : I s) (is : List ι) :
    (∀ before, before <+: is → I (before.foldl step s)) ↔ EveryStep step P s is :=
  forall_prefix_iff_of_mem start fun s i _ => decides s i

end Run
