import Mathlib.Logic.Function.Basic

/-! A program is a tree of single loads and stores on cells that other programs may access as well. -/
namespace SharedProgram
open Function

variable {Cell : Type} {Val : Cell → Type} {α : Type}

inductive Prog {Cell : Type} (Val : Cell → Type) (α : Type)
  | ret (result : α)
  | load (c : Cell) (next : Val c → Prog Val α)
  | store (c : Cell) (v : Val c) (next : Prog Val α)

namespace Prog
variable [DecidableEq Cell]

def advance (p : Prog Val α) (cells : ∀ c, Val c) : Prog Val α × (∀ c, Val c) :=
  match p with
  | ret result => (ret result, cells)
  | load c next => (next (cells c), cells)
  | store c v next => (next, update cells c v)

def returned : Prog Val α → Option α
  | ret result => some result
  | load _ _ | store _ _ _ => none

omit [DecidableEq Cell] in
@[simp] theorem returned_ret (result : α) : (ret result : Prog Val α).returned = some result := rfl

omit [DecidableEq Cell] in
@[simp] theorem returned_load (c : Cell) (next : Val c → Prog Val α) : (load c next).returned = none := rfl

omit [DecidableEq Cell] in
@[simp] theorem returned_store (c : Cell) (v : Val c) (next : Prog Val α) : (store c v next).returned = none := rfl

def exec : Prog Val α → (∀ c, Val c) → α × (∀ c, Val c)
  | ret result, cells => (result, cells)
  | load c next, cells => (next (cells c)).exec cells
  | store c v next, cells => next.exec (update cells c v)

@[simp] theorem exec_ret (result : α) (cells : ∀ c, Val c) :
    (ret result : Prog Val α).exec cells = (result, cells) := rfl

@[simp] theorem exec_load (c : Cell) (next : Val c → Prog Val α) (cells : ∀ c, Val c) :
    (load c next).exec cells = (next (cells c)).exec cells := rfl

@[simp] theorem exec_store (c : Cell) (v : Val c) (next : Prog Val α) (cells : ∀ c, Val c) :
    (store c v next).exec cells = next.exec (update cells c v) := rfl

/-- One access does not change what a program is going to do on its own. -/
theorem exec_advance (p : Prog Val α) (cells : ∀ c, Val c) :
    (p.advance cells).1.exec (p.advance cells).2 = p.exec cells := by
  cases p <;> rfl

end Prog

abbrev Store (Val : Cell → Type) := Σ c, Val c

def storeAll : List (Store Val) → Prog Val α → Prog Val α
  | [], next => next
  | w :: ws, next => .store w.1 w.2 (storeAll ws next)

variable [DecidableEq Cell]

def applyAll (ws : List (Store Val)) (cells : ∀ c, Val c) : ∀ c, Val c :=
  ws.foldl (fun cells w => update cells w.1 w.2) cells

theorem exec_storeAll (ws : List (Store Val)) (next : Prog Val α) (cells : ∀ c, Val c) :
    (storeAll ws next).exec cells = next.exec (applyAll ws cells) := by
  induction ws generalizing cells with
  | nil => rfl
  | cons w ws ih => exact ih _

theorem applyAll_other {ws : List (Store Val)} {c : Cell} (off : ∀ w ∈ ws, w.1 ≠ c) (cells : ∀ c, Val c) :
    applyAll ws cells c = cells c := by
  induction ws generalizing cells with
  | nil => rfl
  | cons w ws ih =>
    have first : c ≠ w.1 := (off w List.mem_cons_self).symm
    exact (ih (fun w' member => off w' (List.mem_cons_of_mem _ member)) _).trans
      (update_of_ne first _ _)

end SharedProgram
