import CxlMemSim.Lib.Run
import Mathlib.Data.Finset.Card

/-! Keys in the order of their last use: a linked list with an index of iterators, the numbers of its nodes. -/
structure Recency (κ : Type*) where
  nodes : List (Nat × κ) := []
  index : κ → Option Nat := fun _ => none
  fresh : Nat := 0

namespace Recency
open Function List
variable {κ : Type*} (r : Recency κ) (key : κ)

def keys : List κ := r.nodes.map Prod.snd

section Operations
variable [DecidableEq κ]

/-- The new node's iterator replaces what the index had for the key. -/
def pushFront : Recency κ where
  nodes := (r.fresh, key) :: r.nodes
  index := update r.index key (some r.fresh)
  fresh := r.fresh + 1

/-- Erases the node that the index has for the key, undefined where that is no node of the list. -/
def eraseNode : Option (Recency κ) :=
  match r.index key with
  | some it =>
    if it ∈ r.nodes.map Prod.fst then some { r with nodes := r.nodes.filter fun node => node.1 ≠ it } else none
  | none => none

def forget : Recency κ := { r with index := update r.index key none }

/-- Takes the last key out of the list and out of the index, undefined on an empty list. -/
def evict : Option (κ × Recency κ) :=
  r.nodes.getLast?.map fun node => (node.2, { r with nodes := r.nodes.dropLast }.forget node.2)

end Operations

structure SoundBut : Prop where
  ids : (r.nodes.map Prod.fst).Nodup
  below : ∀ node ∈ r.nodes, node.1 < r.fresh
  indexed : ∀ other, other ≠ key → ∀ it, r.index other = some it ↔ (it, other) ∈ r.nodes
  absent : key ∉ r.keys

structure Sound : Prop where
  ids : (r.nodes.map Prod.fst).Nodup
  below : ∀ node ∈ r.nodes, node.1 < r.fresh
  indexed : ∀ key it, r.index key = some it ↔ (it, key) ∈ r.nodes

variable {r key}

theorem mem_keys : key ∈ r.keys ↔ ∃ it, (it, key) ∈ r.nodes := by
  simp [keys]

theorem SoundBut.pushFront [DecidableEq κ] (h : r.SoundBut key) : (r.pushFront key).Sound where
  ids := nodup_cons.mpr ⟨fun member => by
    obtain ⟨node, isNode, same⟩ := mem_map.mp member
    exact absurd (h.below node isNode) (same ▸ Nat.lt_irrefl _), h.ids⟩
  below := forall_mem_cons.mpr ⟨Nat.lt_succ_self _, fun node isNode => Nat.lt_succ_of_lt (h.below node isNode)⟩
  indexed := by
    intro other it
    have absent : ∀ it, (it, key) ∉ r.nodes := fun it isNode => h.absent (mem_keys.mpr ⟨it, isNode⟩)
    by_cases same : other = key
    · subst same
      simp [Recency.pushFront, absent, eq_comm]
    · simp [Recency.pushFront, h.indexed other same, same]

theorem SoundBut.forget [DecidableEq κ] (h : r.SoundBut key) : (r.forget key).Sound where
  ids := h.ids
  below := h.below
  indexed := by
    intro other it
    have absent : ∀ it, (it, key) ∉ r.nodes := fun it isNode => h.absent (mem_keys.mpr ⟨it, isNode⟩)
    by_cases same : other = key
    · subst same
      simp [Recency.forget, absent]
    · simp [Recency.forget, update_of_ne same, h.indexed other same]

namespace Sound

theorem empty : ({} : Recency κ).Sound where
  ids := nodup_nil
  below := by simp
  indexed := by simp

variable (h : r.Sound)
include h

theorem soundBut (absent : key ∉ r.keys) : r.SoundBut key := ⟨h.ids, h.below, fun other _ => h.indexed other, absent⟩

theorem isSome_index : (r.index key).isSome ↔ key ∈ r.keys := by
  rw [Option.isSome_iff_exists, mem_keys]
  exact exists_congr (h.indexed key)

theorem nodup_keys : r.keys.Nodup := by
  refine List.Nodup.map_on ?_ h.ids.of_map
  rintro ⟨it, key⟩ first ⟨it', _⟩ second rfl
  have same := ((h.indexed key it).mpr first).symm.trans ((h.indexed key it').mpr second)
  rw [Option.some.inj same]

theorem fst_ne_iff {it : Nat} (found : r.index key = some it) {node : Nat × κ} (isNode : node ∈ r.nodes) :
    node.1 ≠ it ↔ node.2 ≠ key := by
  have own := (h.indexed key it).mp found
  refine not_congr ⟨fun same => ?_, fun same => ?_⟩
  · exact congrArg Prod.snd (inj_on_of_nodup_map h.ids isNode own same)
  · subst same
    exact Option.some.inj (((h.indexed node.2 node.1).mpr isNode).symm.trans found)

theorem eraseNode [DecidableEq κ] (present : key ∈ r.keys) :
    ∃ r', r.eraseNode key = some r' ∧ r'.SoundBut key ∧ r'.keys = r.keys.filter (· ≠ key) := by
  obtain ⟨it, isNode⟩ := mem_keys.mp present
  have found := (h.indexed key it).mpr isNode
  have keys : (r.nodes.filter fun node => node.1 ≠ it).map Prod.snd = r.keys.filter (· ≠ key) := by
    rw [Recency.keys, filter_map]
    refine congrArg (List.map Prod.snd) (filter_congr fun node isNode => ?_)
    exact decide_eq_decide.mpr (h.fst_ne_iff found isNode)
  refine ⟨{ r with nodes := r.nodes.filter fun node => node.1 ≠ it }, ?_, ⟨?_, ?_, ?_, ?_⟩, keys⟩
  · rw [Recency.eraseNode, found]
    exact if_pos (mem_map_of_mem isNode)
  · exact h.ids.sublist (filter_sublist.map Prod.fst)
  · exact fun node member => h.below node (mem_of_mem_filter member)
  · intro other differs it'
    rw [h.indexed, mem_filter, decide_eq_true_iff]
    exact ⟨fun isNode => ⟨isNode, (h.fst_ne_iff found isNode).mpr differs⟩, And.left⟩
  · rw [Recency.keys, keys]
    simp

theorem evict [DecidableEq κ] (some : r.keys ≠ []) :
    ∃ key r', r.evict = .some (key, r') ∧ r'.Sound ∧ r.keys = r'.keys ++ [key] := by
  obtain none | ⟨init, ⟨it, key⟩, split⟩ := eq_nil_or_concat r.nodes
  · exact absurd (congrArg (List.map Prod.snd) none) some
  have keys : r.keys = init.map Prod.snd ++ [key] := by
    rw [Recency.keys, split, concat_eq_append, map_append, map_singleton]
  have distinct := h.nodup_keys
  rw [keys, nodup_append] at distinct
  rw [concat_eq_append] at split
  have inside : init.Sublist r.nodes := split ▸ sublist_append_left init _
  refine ⟨key, Recency.forget { r with nodes := init } key, ?_, SoundBut.forget ⟨?_, ?_, ?_, ?_⟩, keys⟩
  · simp [Recency.evict, split]
  · exact h.ids.sublist (inside.map Prod.fst)
  · exact fun node member => h.below node (inside.subset member)
  · intro other differs it'
    rw [h.indexed, split, mem_append, mem_singleton]
    exact or_iff_left fun same => differs (congrArg Prod.snd same)
  · exact fun member => distinct.2.2 _ member _ mem_cons_self rfl

end Sound

section History
variable [DecidableEq κ] {history : List κ}

def use (keys : List κ) (key : κ) : List κ := key :: keys.filter (· ≠ key)

def recent (history : List κ) : List κ := history.foldl use []

theorem recent_append (history : List κ) (key : κ) : recent (history ++ [key]) = use (recent history) key := by
  rw [recent, foldl_append]
  rfl

theorem nodup_use {keys : List κ} (distinct : keys.Nodup) (key : κ) : (use keys key).Nodup :=
  nodup_cons.mpr ⟨by simp, distinct.filter _⟩

theorem nodup_recent (history : List κ) : (recent history).Nodup :=
  Run.invariant (I := List.Nodup) (fun _ key distinct => nodup_use distinct key) nodup_nil history

theorem mem_recent : key ∈ recent history ↔ key ∈ history := by
  induction history using List.reverseRecOn with
  | nil => exact Iff.rfl
  | append_singleton history other ih =>
    by_cases same : key = other <;> simp [recent_append, use, ih, same]

theorem recent_split {newer : List κ} (last : key ∉ newer) (older : List κ) :
    ∃ rest, recent (older ++ key :: newer) = recent newer ++ key :: rest := by
  induction newer using List.reverseRecOn with
  | nil => exact ⟨_, recent_append older key⟩
  | append_singleton newer other ih =>
    rw [mem_append, mem_singleton, not_or] at last
    obtain ⟨rest, split⟩ := ih last.1
    refine ⟨rest.filter (· ≠ other), ?_⟩
    rw [← cons_append, ← append_assoc, recent_append, recent_append, split, use, filter_append,
      filter_cons_of_pos (by simpa using last.2)]
    rfl

theorem mem_take_recent {n : Nat} :
    key ∈ (recent history).take n ↔
      ∃ older newer, history = older ++ key :: newer ∧ key ∉ newer ∧ newer.toFinset.card < n := by
  have place : ∀ older newer : List κ, key ∉ newer →
      (key ∈ (recent (older ++ key :: newer)).take n ↔ newer.toFinset.card < n) := by
    intro older newer last
    obtain ⟨rest, split⟩ := recent_split last older
    have before : key ∉ (recent newer).take n := fun member => last (mem_recent.mp (mem_of_mem_take member))
    have length : newer.toFinset.card = (recent newer).length := by
      rw [← toFinset_card_of_nodup (nodup_recent newer)]
      refine congrArg Finset.card (Finset.ext fun k => ?_)
      rw [mem_toFinset, mem_toFinset, mem_recent]
    rw [split, take_append, mem_append, or_iff_right before, length, ← Nat.sub_pos_iff_lt]
    cases n - (recent newer).length <;> simp
  constructor
  · intro among
    have used := mem_recent.mp (mem_of_mem_take among)
    obtain ⟨newer, older, split, last⟩ := eq_append_cons_of_mem (mem_reverse.mpr used)
    obtain rfl : history = older.reverse ++ key :: newer.reverse := by
      rw [← reverse_reverse history, split]
      simp
    rw [← mem_reverse] at last
    exact ⟨_, _, rfl, last, (place _ _ last).mp among⟩
  · rintro ⟨older, newer, rfl, last, few⟩
    exact (place older newer last).mpr few

theorem take_use {l : List κ} (distinct : l.Nodup) (n : Nat) (key : κ) :
    (use (l.take n) key).take n = (use l key).take n := by
  cases n with
  | zero => rfl
  | succ n =>
    refine congrArg (key :: ·) ?_
    induction l generalizing n with
    | nil => rfl
    | cons first rest ih =>
      rw [nodup_cons] at distinct
      by_cases same : first = key
      · subst same
        have others : ∀ l : List κ, l.Sublist rest → l.filter (· ≠ first) = l := by
          intro l part
          refine filter_eq_self.mpr fun k member => decide_eq_true ?_
          exact fun same => distinct.1 (same ▸ part.subset member)
        rw [take_succ_cons, filter_cons_of_neg (by simp), filter_cons_of_neg (by simp),
          others _ (take_sublist n rest), others rest (List.Sublist.refl rest), take_take, Nat.min_self]
      · rw [take_succ_cons, filter_cons_of_pos (by simpa using same), filter_cons_of_pos (by simpa using same)]
        cases n with
        | zero => rfl
        | succ n => exact congrArg (first :: ·) (ih distinct.2 n)

end History

end Recency
