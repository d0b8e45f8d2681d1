import Mathlib.Data.Multiset.AddSub

/-! An association list whose keys increase: the order in which the map is walked. -/
structure SortedMap (κ ν : Type*) [LT κ] where
  entries : List (κ × ν)
  sorted : entries.Pairwise fun a b => a.1 < b.1

namespace SortedMap
open List
variable {κ ν : Type*} [LT κ]

def empty : SortedMap κ ν := ⟨[], .nil⟩

def values (m : SortedMap κ ν) : Multiset ν := m.entries.map Prod.snd

section Insertion
variable [DecidableLT κ]

def insertEntry (e : κ × ν) : List (κ × ν) → List (κ × ν)
  | [] => [e]
  | first :: rest => if e.1 < first.1 then e :: first :: rest else first :: insertEntry e rest

theorem insertEntry_perm (e : κ × ν) (entries : List (κ × ν)) : (insertEntry e entries).Perm (e :: entries) := by
  induction entries with
  | nil => exact List.Perm.refl _
  | cons first rest ih =>
    rw [insertEntry]
    split
    · exact List.Perm.refl _
    · exact (ih.cons first).trans (List.Perm.swap e first rest)

variable [LE κ] [Std.LawfulOrderLT κ] [Std.IsLinearOrder κ]

theorem sorted_insertEntry {e : κ × ν} {entries : List (κ × ν)} (sorted : entries.Pairwise fun a b => a.1 < b.1)
    (absent : e.1 ∉ entries.map Prod.fst) : (insertEntry e entries).Pairwise fun a b => a.1 < b.1 := by
  induction entries with
  | nil => exact pairwise_singleton _ _
  | cons first rest ih =>
    rw [pairwise_cons] at sorted
    rw [map_cons, mem_cons, not_or] at absent
    rw [insertEntry]
    split
    · rename_i before
      refine pairwise_cons.mpr ⟨fun b member => ?_, pairwise_cons.mpr sorted⟩
      rcases mem_cons.mp member with rfl | member
      · exact before
      · exact Std.lt_trans before (sorted.1 b member)
    · rename_i notBefore
      refine pairwise_cons.mpr ⟨fun b member => ?_, ih sorted.2 absent.2⟩
      rcases mem_cons.mp ((insertEntry_perm e rest).mem_iff.mp member) with rfl | member
      · exact Std.lt_of_le_of_ne (Std.not_lt.mp notBefore) (Ne.symm absent.1)
      · exact sorted.1 b member

variable [DecidableEq κ] (m : SortedMap κ ν)

def emplace (key : κ) (value : ν) : SortedMap κ ν :=
  if absent : key ∉ m.entries.map Prod.fst then
    ⟨insertEntry (key, value) m.entries, sorted_insertEntry m.sorted absent⟩
  else m

theorem values_emplace {key : κ} (absent : key ∉ m.entries.map Prod.fst) (value : ν) :
    (m.emplace key value).values = value ::ₘ m.values := by
  rw [emplace, dif_pos absent]
  exact Multiset.coe_eq_coe.mpr ((insertEntry_perm (key, value) m.entries).map Prod.snd)

theorem emplace_of_mem {key : κ} (present : key ∈ m.entries.map Prod.fst) (value : ν) : m.emplace key value = m := by
  rw [emplace, dif_neg (not_not.mpr present)]

end Insertion

def eraseFirst (m : SortedMap κ ν) (p : ν → Bool) : SortedMap κ ν :=
  ⟨m.entries.eraseP fun e => p e.2, m.sorted.sublist eraseP_sublist⟩

end SortedMap
