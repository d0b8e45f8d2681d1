import Mathlib.Data.List.FinRange
import Mathlib.Data.Nat.ModEq

/-! `n` cells, each empty or full. `Holds` reads a ring with a head and a tail as a bounded queue, `scan` the full cells
in index order. -/
namespace RingBuffer
open Function List

variable {n : Nat} {α : Type*} {cell : Fin n → Option α} {x : α} {start : Fin n}

def place (start : Fin n) (i : Nat) : Fin n := ⟨(start + i) % n, Nat.mod_lt _ start.pos⟩

@[simp] theorem place_zero (start : Fin n) : place start 0 = start := by
  apply Fin.ext
  simp [place, Nat.mod_eq_of_lt start.isLt]

theorem place_place (start : Fin n) (i j : Nat) : place (place start i) j = place start (i + j) := by
  apply Fin.ext
  simp only [place, Nat.mod_add_mod, Nat.add_assoc]

theorem place_turn (start : Fin n) : place start n = start := by
  apply Fin.ext
  simp [place, Nat.mod_eq_of_lt start.isLt]

theorem place_injective {i j : Nat} (hi : i < n) (hj : j < n) (same : place start i = place start j) : i = j := by
  have rest : i ≡ j [MOD n] := Nat.ModEq.add_left_cancel' start.val (Fin.mk.inj same)
  rwa [Nat.ModEq, Nat.mod_eq_of_lt hi, Nat.mod_eq_of_lt hj] at rest

@[irreducible] def search (start : Fin n) (p : Fin n → Bool) : Option (Fin n) :=
  ((List.range n).map (place start)).find? p

/-- The cells from `tail` up to `head` hold `xs`, and the others are empty. -/
structure Holds (cell : Fin n → Option α) (tail head : Fin n) (xs : List α) : Prop where
  room : xs.length < n
  ends : place tail xs.length = head
  cells : ∀ i < n, cell (place tail i) = xs[i]?

namespace Holds
variable {cell : Fin n → Option α} {tail head : Fin n} {xs : List α}

theorem of_empty (empty : ∀ i, cell i = none) (start : Fin n) : Holds cell start start [] :=
  ⟨start.pos, place_zero start, fun _ _ => empty _⟩

theorem tail_cell (h : Holds cell tail head xs) : cell tail = xs.head? := by
  have at_tail := h.cells 0 tail.pos
  rwa [place_zero, ← head?_eq_getElem?] at at_tail

theorem push (h : Holds cell tail head xs) (notFull : place head 1 ≠ tail) (x : α) :
    Holds (update cell head (some x)) tail (place head 1) (xs ++ [x]) := by
  have ends : place tail (xs.length + 1) = place head 1 := by rw [← place_place, h.ends]
  have room : xs.length + 1 < n := by
    have fits : xs.length + 1 ≤ n := h.room
    apply Nat.lt_of_le_of_ne fits
    intro full
    rw [full, place_turn] at ends
    exact notFull ends.symm
  refine ⟨by simpa using room, by simpa using ends, ?_⟩
  intro i hi
  by_cases last : i = xs.length
  · rw [last, h.ends, update_self, getElem?_concat_length]
  · have apart : place tail i ≠ head := fun same => last (place_injective hi h.room (same.trans h.ends.symm))
    rw [update_of_ne apart, h.cells i hi]
    rcases Nat.lt_or_gt_of_ne last with before | after
    · rw [getElem?_append_left before]
    · rw [getElem?_eq_none (by omega), getElem?_eq_none (by simp; omega)]

theorem pop (h : Holds cell tail head (x :: xs)) : Holds (update cell tail none) (place tail 1) head xs := by
  have room : xs.length + 1 < n := h.room
  refine ⟨by omega, ?_, ?_⟩
  · rw [place_place, Nat.add_comm]
    exact h.ends
  · intro i hi
    rw [place_place, Nat.add_comm]
    by_cases last : i + 1 = n
    · rw [last, place_turn, update_self, getElem?_eq_none (by omega)]
    · have inside : i + 1 < n := by omega
      have apart : place tail (i + 1) ≠ tail := by
        intro same
        have := place_injective inside tail.pos (same.trans (place_zero tail).symm)
        omega
      rw [update_of_ne apart, h.cells _ inside, getElem?_cons_succ]

end Holds

@[irreducible] def scan (cell : Fin n → Option α) : List α := (List.finRange n).filterMap cell

@[irreducible] def first (cell : Fin n → Option α) : Option (Fin n) := (List.finRange n).find? fun i => (cell i).isSome

theorem scan_eq_nil_iff : scan cell = [] ↔ ∀ i, cell i = none := by
  simp [scan]

theorem finRange_split (i : Fin n) :
    ∃ below above, List.finRange n = below ++ i :: above ∧ (∀ j ∈ below, j < i) ∧ ∀ j ∈ above, i < j := by
  obtain ⟨below, above, split⟩ := append_of_mem (mem_finRange i)
  have sorted := pairwise_lt_finRange n
  rw [split, pairwise_append, pairwise_cons] at sorted
  exact ⟨below, above, split, fun j member => sorted.2.2 j member i mem_cons_self, sorted.2.1.1⟩

theorem scan_push {i : Fin n} (above : ∀ j, (cell j).isSome → j < i) (x : α) :
    scan (update cell i (some x)) = scan cell ++ [x] := by
  obtain ⟨low, high, split, lower, higher⟩ := finRange_split i
  have here : cell i = none := by
    by_contra full
    exact lt_irrefl i (above i (Option.isSome_iff_ne_none.mpr full))
  have low_same : low.filterMap (update cell i (some x)) = low.filterMap cell :=
    filterMap_congr fun j member => update_of_ne (lower j member).ne _ _
  have high_none : ∀ j ∈ high, cell j = none := by
    intro j member
    by_contra full
    exact lt_asymm (higher j member) (above j (Option.isSome_iff_ne_none.mpr full))
  have high_empty : high.filterMap (update cell i (some x)) = [] := by
    rw [filterMap_eq_nil_iff]
    intro j member
    rw [update_of_ne (higher j member).ne', high_none j member]
  simp only [scan, split, filterMap_append, filterMap_cons, update_self, here, low_same,
    high_empty, filterMap_eq_nil_iff.mpr high_none, append_nil]

theorem scan_pop {i : Fin n} (lowest : first cell = some i) :
    ∃ x, cell i = some x ∧ scan cell = x :: scan (update cell i none) := by
  rw [first] at lowest
  obtain ⟨full, low, high, split, empty⟩ := find?_eq_some_iff_append.mp lowest
  obtain ⟨x, here⟩ := Option.isSome_iff_exists.mp full
  have nodup := nodup_finRange n
  rw [split, nodup_append, nodup_cons] at nodup
  have low_none : ∀ j ∈ low, cell j = none := fun j member => by simpa using empty j member
  have low_empty : low.filterMap (update cell i none) = [] := by
    rw [filterMap_eq_nil_iff]
    intro j member
    rw [update_of_ne (nodup.2.2 j member i mem_cons_self), low_none j member]
  have high_same : high.filterMap (update cell i none) = high.filterMap cell :=
    filterMap_congr fun j member =>
      update_of_ne (fun same : j = i => nodup.2.1.1 (same ▸ member)) _ _
  refine ⟨x, here, ?_⟩
  simp only [scan, split, filterMap_append, filterMap_cons, update_self, here, low_empty,
    high_same, filterMap_eq_nil_iff.mpr low_none, nil_append]

/-- A ring whose cells keep what was written last; head and tail say which count. -/
structure Queue (n : Nat) (α : Type*) where
  head : Fin n
  tail : Fin n
  cells : Fin n → α

namespace Queue
variable (q : Queue n α)

def length : Nat := (q.head + (n - q.tail)) % n

def contents : List α := (List.range q.length).map fun i => q.cells (place q.tail i)

def push (x : α) : Option (Queue n α) :=
  if place q.head 1 = q.tail then none
  else some { q with head := place q.head 1, cells := update q.cells q.head x }

def pop : Option (α × Queue n α) :=
  if q.head = q.tail then none else some (q.cells q.tail, { q with tail := place q.tail 1 })

variable {q} {after : Queue n α}

theorem length_lt : q.length < n := Nat.mod_lt _ q.head.pos

theorem place_length : place q.tail q.length = q.head := by
  apply Fin.ext
  have := q.tail.isLt
  simp only [place, length, Nat.add_mod_mod]
  rw [show q.tail.val + (q.head.val + (n - q.tail.val)) = q.head.val + n by omega, Nat.add_mod_right,
    Nat.mod_eq_of_lt q.head.isLt]

theorem length_eq {k : Nat} (lt : k < n) (reaches : place q.tail k = q.head) : q.length = k :=
  place_injective length_lt lt (place_length.trans reaches.symm)

@[simp] theorem length_contents : q.contents.length = q.length := by
  rw [contents, length_map, length_range]

theorem length_eq_zero_iff : q.length = 0 ↔ q.head = q.tail := by
  constructor
  · intro zero
    rw [← place_length, zero, place_zero]
  · intro empty
    exact length_eq q.head.pos (by rw [place_zero, empty])

theorem full_iff : place q.head 1 = q.tail ↔ q.length + 1 = n := by
  have ends : place q.tail (q.length + 1) = place q.head 1 := by rw [← place_place, place_length]
  constructor
  · intro full
    by_contra room
    have fits : q.length + 1 < n := Nat.lt_of_le_of_ne length_lt room
    have := place_injective fits q.tail.pos (ends.trans (full.trans (place_zero q.tail).symm))
    omega
  · intro full
    rw [← ends, full, place_turn]

theorem contents_write (x : α) : { q with cells := update q.cells q.head x }.contents = q.contents := by
  refine map_congr_left fun i member => update_of_ne (fun same => ?_) _ _
  have below : i < q.length := mem_range.mp member
  have := place_injective (below.trans length_lt) length_lt (same.trans place_length.symm)
  omega

theorem contents_of_empty (empty : q.head = q.tail) : q.contents = [] := by
  rw [contents, length_eq q.head.pos (by rw [place_zero, empty])]
  rfl

theorem contents_push (pushed : q.push x = some after) : after.contents = q.contents ++ [x] := by
  rw [push] at pushed
  split at pushed
  · cases pushed
  · rename_i room
    cases pushed
    have ends : place q.tail (q.length + 1) = place q.head 1 := by rw [← place_place, place_length]
    have fits : q.length + 1 < n := by
      refine Nat.lt_of_le_of_ne length_lt fun full => room ?_
      rw [← ends, full, place_turn]
    rw [contents, length_eq fits ends, range_succ, map_append, map_singleton]
    congr 1
    · refine map_congr_left fun i member => update_of_ne (fun same => ?_) _ _
      have below := mem_range.mp member
      have := place_injective (by omega) length_lt (same.trans place_length.symm)
      omega
    · simp only [place_length, update_self]

theorem contents_pop (popped : q.pop = some (x, after)) : q.contents = x :: after.contents := by
  rw [pop] at popped
  split at popped
  · cases popped
  · rename_i nonempty
    cases popped
    obtain ⟨k, longer⟩ : ∃ k, q.length = k + 1 := by
      refine Nat.exists_eq_succ_of_ne_zero fun zero => nonempty ?_
      rw [← place_length, zero, place_zero]
    have bound := q.length_lt
    have rest : place (place q.tail 1) k = q.head := by rw [place_place, Nat.add_comm, ← longer, place_length]
    rw [contents, contents, length_eq (q := { q with tail := place q.tail 1 }) (by omega) rest, longer,
      range_succ_eq_map, map_cons, map_map, place_zero]
    congr 1
    refine map_congr_left fun i _ => ?_
    rw [comp_apply, place_place, Nat.add_comm]

theorem contents_advance (room : q.length + 1 < n) :
    { q with head := place q.head 1 }.contents = q.contents ++ [q.cells q.head] := by
  have notFull : place q.head 1 ≠ q.tail := fun full => absurd (full_iff.mp full) room.ne
  have pushed : q.push (q.cells q.head) = some { q with head := place q.head 1 } := by
    rw [push, if_neg notFull, update_eq_self]
  exact contents_push pushed

theorem length_advance (room : q.length + 1 < n) : { q with head := place q.head 1 }.length = q.length + 1 := by
  rw [← length_contents, contents_advance room, List.length_append, length_contents, List.length_singleton]

theorem contents_release (nonempty : 0 < q.length) :
    q.contents = q.cells q.tail :: { q with tail := place q.tail 1 }.contents := by
  have apart : q.head ≠ q.tail := fun empty => nonempty.ne' (length_eq_zero_iff.mpr empty)
  exact contents_pop (if_neg apart)

theorem length_release (nonempty : 0 < q.length) : { q with tail := place q.tail 1 }.length + 1 = q.length := by
  rw [← length_contents, ← length_contents, contents_release nonempty, List.length_cons]

/-- The loop that looks from `current` on for a cell that passes and stops at the head, with a bound on its rounds. -/
def seek (q : Queue n α) (p : α → Bool) : Nat → Fin n → Option (Fin n)
  | 0, _ => none
  | rounds + 1, current =>
    if current = q.head then none
    else if p (q.cells current) then some current
    else q.seek p rounds (place current 1)

theorem seek_place (p : α → Bool) (rounds : Nat) : ∀ k i, i + k = q.length → k < rounds →
    q.seek p rounds (place q.tail i) = ((List.range' i k).map (place q.tail)).find? fun c => p (q.cells c) := by
  induction rounds with
  | zero => exact fun k i _ few => absurd few (Nat.not_lt_zero k)
  | succ rounds ih =>
    intro k i sum few
    rw [seek]
    cases k with
    | zero =>
      rw [if_pos]
      · rfl
      · rw [← place_length, ← sum, Nat.add_zero]
    | succ k =>
      have inside : place q.tail i ≠ q.head := by
        intro ends
        have := length_eq (by have := q.length_lt; omega) ends
        omega
      rw [if_neg inside, List.range'_succ, map_cons, find?_cons, place_place, ih k (i + 1) (by omega) (by omega)]
      cases p (q.cells (place q.tail i)) <;> rfl

theorem seek_tail (p : α → Bool) :
    q.seek p n q.tail = ((List.range q.length).map (place q.tail)).find? fun c => p (q.cells c) := by
  have spec := seek_place (q := q) p n q.length 0 (Nat.zero_add _) length_lt
  rwa [place_zero, ← range_eq_range'] at spec

theorem map_seek (p : α → Bool) : (q.seek p n q.tail).map q.cells = q.contents.find? p := by
  have places : q.contents = ((List.range q.length).map (place q.tail)).map q.cells := (map_map).symm
  rw [seek_tail, places]
  exact find?_map.symm

end Queue

end RingBuffer
