import Mathlib.Logic.Hydra
import Mathlib.Tactic.Abel

/-! A process is the tree of its next actions: loads and stores of shared bytes, allocation, its entry in a directory of
pointers, and calls that all processes have to make. -/
namespace Phased
open Function

inductive Proc (ι γ α : Type) where
  | ret (a : α)
  | alloc (size : Nat) (k : Option Nat → Proc ι γ α)
  | store (addr : Nat) (byte : UInt8) (k : Proc ι γ α)
  | load (addr : Nat) (k : UInt8 → Proc ι γ α)
  | publish (ptr : Option Nat) (k : Proc ι γ α)
  | lookup (who : ι) (k : Option Nat → Proc ι γ α)
  | call (c : γ) (k : Proc ι γ α)

variable {ι γ α β : Type}

namespace Proc

protected def bind : Proc ι γ α → (α → Proc ι γ β) → Proc ι γ β
  | ret a, f => f a
  | alloc size k, f => alloc size fun r => (k r).bind f
  | store addr byte k, f => store addr byte (k.bind f)
  | load addr k, f => load addr fun b => (k b).bind f
  | publish ptr k, f => publish ptr (k.bind f)
  | lookup who k, f => lookup who fun r => (k r).bind f
  | call c k, f => call c (k.bind f)

instance : Monad (Proc ι γ) where
  pure := ret
  bind := Proc.bind

theorem bind_ret (x : Proc ι γ α) : x.bind ret = x := by
  induction x with
  | ret a => rfl
  | alloc _ _ ih | lookup _ _ ih | load _ _ ih | store _ _ _ ih | publish _ _ ih | call _ _ ih =>
    simp only [Proc.bind, ih]

theorem bind_bind {δ : Type} (x : Proc ι γ α) (f : α → Proc ι γ β) (g : β → Proc ι γ δ) :
    (x.bind f).bind g = x.bind fun a => (f a).bind g := by
  induction x with
  | ret a => rfl
  | alloc _ _ ih | lookup _ _ ih | load _ _ ih | store _ _ _ ih | publish _ _ ih | call _ _ ih =>
    simp only [Proc.bind, ih]

instance : LawfulMonad (Proc ι γ) := LawfulMonad.mk' (Proc ι γ) (fun x => bind_ret x) (fun _ _ => rfl) bind_bind

/-! The actions by themselves. -/

def allocate (size : Nat) : Proc ι γ (Option Nat) := alloc size ret

def putPtr (ptr : Option Nat) : Proc ι γ Unit := publish ptr (ret ())

def getPtr (who : ι) : Proc ι γ (Option Nat) := lookup who ret

def enter (c : γ) : Proc ι γ Unit := call c (ret ())

def storeBytes (addr : Nat) : List UInt8 → Proc ι γ Unit
  | [] => ret ()
  | b :: bs => store addr b (storeBytes (addr + 1) bs)

def loadBytes (addr : Nat) : Nat → Proc ι γ (List UInt8)
  | 0 => ret []
  | n + 1 => load addr fun b => (loadBytes (addr + 1) n).bind fun bs => ret (b :: bs)

@[simp] theorem allocate_bind (size : Nat) (f : Option Nat → Proc ι γ β) : allocate size >>= f = alloc size f := rfl

end Proc

/-- How allocations go: the processes whose allocations succeed, and the sizes they are rounded up to. -/
structure Heap (ι : Type) where
  grant : ι → Bool
  round : Nat → Nat
  le_round : ∀ size, size ≤ round size

structure World (ι γ α : Type) where
  mem : Nat → UInt8
  dir : ι → Option Nat
  top : Nat
  code : ι → Proc ι γ α
  issued : ι → List γ
  inside : ι → Bool

def start (mem : Nat → UInt8) (dir : ι → Option Nat) (top : Nat) (code : ι → Proc ι γ α) : World ι γ α where
  mem := mem
  dir := dir
  top := top
  code := code
  issued := fun _ => []
  inside := fun _ => false

namespace World
variable [DecidableEq ι] (w : World ι γ α)

def goOn (p : ι) (k : Proc ι γ α) : World ι γ α := { w with code := update w.code p k }

def AllIn (p : ι) (c : γ) : Prop := ∀ q, (w.issued q)[(w.issued p).length - 1]? = some c

instance [Fintype ι] [DecidableEq γ] (p : ι) (c : γ) : Decidable (w.AllIn p c) :=
  inferInstanceAs (Decidable (∀ _, _ = _))

def step [Fintype ι] [DecidableEq γ] (heap : Heap ι) (w : World ι γ α) (p : ι) : World ι γ α :=
  match w.code p with
  | .ret _ => w
  | .alloc size k =>
    if heap.grant p then { w.goOn p (k (some w.top)) with top := w.top + heap.round size }
    else w.goOn p (k none)
  | .store addr byte k => { w.goOn p k with mem := update w.mem addr byte }
  | .load addr k => w.goOn p (k (w.mem addr))
  | .publish ptr k => { w.goOn p k with dir := update w.dir p ptr }
  | .lookup who k => w.goOn p (k (w.dir who))
  | .call c k =>
    if w.inside p then
      if w.AllIn p c then { w.goOn p k with inside := update w.inside p false } else w
    else
      { w with
        issued := update w.issued p (w.issued p ++ [c])
        inside := update w.inside p true }

end World

inductive Child : Proc ι γ α → Proc ι γ α → Prop
  | alloc (size k r) : Child (k r) (.alloc size k)
  | store (addr byte k) : Child k (.store addr byte k)
  | load (addr k b) : Child (k b) (.load addr k)
  | publish (ptr k) : Child k (.publish ptr k)
  | lookup (who k r) : Child (k r) (.lookup who k)
  | call (c k) : Child k (.call c k)

theorem child_wellFounded : WellFounded (Child : Proc ι γ α → Proc ι γ α → Prop) := by
  constructor
  intro x
  induction x with
  | ret a => exact ⟨_, fun y child => by cases child⟩
  | alloc size k ih | load addr k ih | lookup who k ih =>
    refine ⟨_, fun y child => ?_⟩
    cases child
    exact ih _
  | store addr byte k ih | publish ptr k ih | call c k ih =>
    refine ⟨_, fun y child => ?_⟩
    cases child
    exact ih

def World.left (w : World ι γ α) (p : ι) : Proc ι γ α × Bool := (w.code p, w.inside p)

def Less : Proc ι γ α × Bool → Proc ι γ α × Bool → Prop := Prod.Lex Child fun a b => a = true ∧ b = false

theorem less_wellFounded : WellFounded (Less : Proc ι γ α × Bool → Proc ι γ α × Bool → Prop) := by
  refine child_wellFounded.prod_lex ⟨fun b => ?_⟩
  refine ⟨_, fun a less => ⟨_, fun c lesser => ?_⟩⟩
  rw [less.1] at lesser
  cases lesser.2

def Moves (w : World ι γ α) (p : ι) : Prop :=
  (∀ a, w.code p ≠ .ret a) ∧ ∀ c k, w.code p = .call c k → w.inside p = true → w.AllIn p c

theorem cutExpand_update [DecidableEq ι] [Fintype ι] {δ : Type} {r : δ → δ → Prop} (f : ι → δ) (p : ι) {x : δ}
    (less : r x (f p)) :
    Relation.CutExpand r (Finset.univ.val.map (update f p x)) (Finset.univ.val.map f) := by
  refine ⟨{x}, f p, by simpa using less, ?_⟩
  have split : ∀ g : ι → δ, Finset.univ.val.map g = g p ::ₘ (Finset.univ.erase p).val.map g := by
    intro g
    rw [← Multiset.map_cons]
    congr 1
    exact (Multiset.cons_erase (Finset.mem_univ p)).symm
  have same : (Finset.univ.erase p).val.map (update f p x) = (Finset.univ.erase p).val.map f := by
    refine Multiset.map_congr rfl fun q member => update_of_ne ?_ _ _
    exact Finset.ne_of_mem_erase member
  rw [split (update f p x), split f, same, update_self]
  simp only [← Multiset.singleton_add]
  abel

section
variable [DecidableEq ι] [Fintype ι] [DecidableEq γ] {heap : Heap ι} {w : World ι γ α}

theorem step_left {p : ι} (moves : Moves w p) : ∃ x, Less x (w.left p) ∧ (w.step heap p).left = update w.left p x := by
  have goOn : ∀ k (mem : Nat → UInt8) (dir : ι → Option Nat) (top : Nat), Child k (w.code p) →
      ∃ x, Less x (w.left p) ∧ ({ w.goOn p k with mem := mem, dir := dir, top := top } : World ι γ α).left =
        update w.left p x := by
    intro k mem dir top child
    refine ⟨(k, w.inside p), .left _ _ child, ?_⟩
    funext q
    by_cases here : q = p
    · subst here
      simp [World.left, World.goOn]
    · simp [World.left, World.goOn, here]
  rw [World.step]
  cases code : w.code p with
  | ret a => exact absurd code (moves.1 a)
  | alloc size k =>
    dsimp only
    split
    · exact goOn _ _ _ _ (code ▸ .alloc size k _)
    · exact goOn _ _ _ _ (code ▸ .alloc size k _)
  | store addr byte k => exact goOn _ _ _ _ (code ▸ .store addr byte k)
  | load addr k => exact goOn _ _ _ _ (code ▸ .load addr k _)
  | publish ptr k => exact goOn _ _ _ _ (code ▸ .publish ptr k)
  | lookup who k => exact goOn _ _ _ _ (code ▸ .lookup who k _)
  | call c k =>
    dsimp only
    cases inside : w.inside p with
    | true =>
      rw [if_pos rfl, if_pos (moves.2 c k code inside)]
      refine ⟨(k, false), .left _ _ (code ▸ .call c k), ?_⟩
      funext q
      by_cases here : q = p
      · subst here
        simp [World.left, World.goOn]
      · simp [World.left, World.goOn, here]
    | false =>
      rw [if_neg (by decide)]
      refine ⟨(w.code p, true), ?_, ?_⟩
      · rw [World.left, inside]
        exact .right _ ⟨rfl, rfl⟩
      · funext q
        by_cases here : q = p
        · subst here
          simp [World.left]
        · simp [World.left, here]

end

def run [DecidableEq ι] [Fintype ι] [DecidableEq γ] (heap : Heap ι) (w : World ι γ α) (schedule : List ι) :
    World ι γ α :=
  schedule.foldl (World.step heap) w

end Phased
