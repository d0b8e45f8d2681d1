import Mathlib.Algebra.Ring.Nat
import Mathlib.Data.List.TakeWhile

/-! The free blocks of a range of addresses in their order. Taking is first fit; what is given back is joined with its
neighbours. -/
namespace FreeList
open List

structure Block where
  start : Nat
  size : Nat
deriving DecidableEq

namespace Block
variable (b : Block)

def stop : Nat := b.start + b.size

def Holds (x : Nat) : Prop := b.start ≤ x ∧ x < b.stop
deriving Decidable

end Block

structure Separated (bs : List Block) : Prop where
  gaps : bs.Pairwise fun a b => a.stop < b.start
  nonempty : ∀ b ∈ bs, 0 < b.size

def cover (bs : List Block) (x : Nat) : Nat := bs.countP fun b => b.Holds x

def total (bs : List Block) : Nat := (bs.map Block.size).sum

/-- Each address of the range is in one block, and no other in any. -/
def Partitions (bs : List Block) (lo hi : Nat) : Prop := ∀ x, cover bs x = if lo ≤ x ∧ x < hi then 1 else 0

theorem cover_cons (b : Block) (bs : List Block) (x : Nat) :
    cover (b :: bs) x = cover bs x + if b.Holds x then 1 else 0 := by
  simp only [cover, countP_cons, decide_eq_true_eq]

theorem cover_append (as bs : List Block) (x : Nat) : cover (as ++ bs) x = cover as x + cover bs x :=
  countP_append

theorem total_cons (b : Block) (bs : List Block) : total (b :: bs) = b.size + total bs := rfl

theorem total_append (as bs : List Block) : total (as ++ bs) = total as + total bs := by
  simp only [total, map_append, sum_append]

variable {b : Block} {bs after : List Block} {n : Nat}

theorem separated_cons : Separated (b :: bs) ↔ (∀ c ∈ bs, b.stop < c.start) ∧ 0 < b.size ∧ Separated bs := by
  constructor
  · rintro ⟨gaps, nonempty⟩
    obtain ⟨first, rest⟩ := pairwise_cons.mp gaps
    obtain ⟨here, others⟩ := forall_mem_cons.mp nonempty
    exact ⟨first, here, rest, others⟩
  · rintro ⟨first, here, rest, others⟩
    exact ⟨pairwise_cons.mpr ⟨first, rest⟩, forall_mem_cons.mpr ⟨here, others⟩⟩

theorem cover_pos_iff {x : Nat} : 0 < cover bs x ↔ ∃ b ∈ bs, b.Holds x := by
  simp only [cover, countP_pos_iff, decide_eq_true_eq]

theorem Partitions.bounds {lo hi : Nat} (partition : Partitions bs lo hi) (member : b ∈ bs)
    (nonempty : 0 < b.size) : lo ≤ b.start ∧ b.stop ≤ hi := by
  have inside (x : Nat) (holds : b.Holds x) : lo ≤ x ∧ x < hi := by
    have covered := cover_pos_iff.mpr ⟨b, member, holds⟩
    rw [partition x] at covered
    by_contra outside
    rw [if_neg outside] at covered
    omega
  have first := inside b.start ⟨Nat.le_refl _, by rw [Block.stop]; omega⟩
  have last := inside (b.stop - 1) ⟨by rw [Block.stop]; omega, by rw [Block.stop]; omega⟩
  omega

theorem Partitions.apart {as bs : List Block} {lo hi : Nat} (partition : Partitions (as ++ bs) lo hi) {a b : Block}
    (left : a ∈ as) (right : b ∈ bs) (nonempty : 0 < a.size) (nonempty' : 0 < b.size) :
    b.stop ≤ a.start ∨ a.stop ≤ b.start := by
  by_contra meet
  -- the later of the two starts is in both
  have here : a.Holds (max a.start b.start) ∧ b.Holds (max a.start b.start) := by
    simp only [Block.Holds, Block.stop] at meet ⊢
    omega
  have first := cover_pos_iff.mpr ⟨a, left, here.1⟩
  have second := cover_pos_iff.mpr ⟨b, right, here.2⟩
  have once := partition (max a.start b.start)
  rw [cover_append] at once
  split at once <;> omega

theorem Partitions.apart_of_ne {lo hi : Nat} (partition : Partitions bs lo hi) {a b : Block}
    (left : a ∈ bs) (right : b ∈ bs) (other : b ≠ a) (nonempty : 0 < a.size) (nonempty' : 0 < b.size) :
    b.stop ≤ a.start ∨ a.stop ≤ b.start := by
  have front : Partitions ([a] ++ bs.erase a) lo hi := fun x =>
    ((perm_cons_erase left).countP_eq _).symm.trans (partition x)
  exact front.apart mem_cons_self ((mem_erase_of_ne other).mpr right) nonempty nonempty'

def firstFit (n : Nat) : List Block → Option (Nat × List Block)
  | [] => none
  | b :: bs =>
    if n ≤ b.size then some (b.start, if b.size = n then bs else ⟨b.start + n, b.size - n⟩ :: bs)
    else (firstFit n bs).map fun taken => (taken.1, b :: taken.2)

theorem firstFit_eq_none_iff : firstFit n bs = none ↔ ∀ b ∈ bs, b.size < n := by
  induction bs with
  | nil => simp [firstFit]
  | cons b bs ih =>
    rw [firstFit]
    split
    · rename_i fits
      refine iff_of_false (fun some => by cases some) fun small => ?_
      have := small b mem_cons_self
      omega
    · rename_i small
      rw [Option.map_eq_none_iff, ih, forall_mem_cons, and_iff_right (by omega)]

theorem holds_split (fits : n ≤ b.size) (x : Nat) : (if b.Holds x then 1 else 0) =
      (if (⟨b.start + n, b.size - n⟩ : Block).Holds x then 1 else 0) +
        if (⟨b.start, n⟩ : Block).Holds x then 1 else 0 := by
  grind [Block.Holds, Block.stop]

structure Taken (n : Nat) (bs : List Block) (start : Nat) (rest : List Block) : Prop where
  from_ : ∃ b ∈ bs, b.start = start ∧ n ≤ b.size
  separated : Separated rest
  cover : ∀ x, cover bs x = FreeList.cover rest x + if (⟨start, n⟩ : Block).Holds x then 1 else 0
  total : total bs = n + FreeList.total rest
  later : ∀ c ∈ rest, ∃ b ∈ bs, b.start ≤ c.start

theorem firstFit_taken (positive : 0 < n) (separated : Separated bs) {start : Nat}
    {rest : List Block} (found : firstFit n bs = some (start, rest)) : Taken n bs start rest := by
  induction bs generalizing rest with
  | nil => cases found
  | cons b bs ih =>
    obtain ⟨gap, nonempty, others⟩ := separated_cons.mp separated
    rw [firstFit] at found
    split at found
    · rename_i fits
      obtain ⟨rfl, taken⟩ := Prod.mk.inj (Option.some.inj found)
      split at taken
      · rename_i whole
        subst taken whole
        refine ⟨⟨b, mem_cons_self, rfl, Nat.le_refl _⟩, others, fun x => cover_cons b bs x, total_cons b bs, ?_⟩
        exact fun c member => ⟨c, mem_cons_of_mem b member, Nat.le_refl _⟩
      · rename_i part
        subst taken
        refine ⟨⟨b, mem_cons_self, rfl, fits⟩, separated_cons.mpr ⟨?_, ?_, others⟩, fun x => ?_, ?_, ?_⟩
        · intro c member
          have := gap c member
          simp only [Block.stop] at this ⊢
          omega
        · show 0 < b.size - n
          omega
        · rw [cover_cons, cover_cons, holds_split fits, Nat.add_assoc]
        · simp only [total_cons]
          omega
        · refine forall_mem_cons.mpr ⟨⟨b, mem_cons_self, Nat.le_add_right _ _⟩, fun c member => ?_⟩
          exact ⟨c, mem_cons_of_mem b member, Nat.le_refl _⟩
    · obtain ⟨⟨start', rest'⟩, inner, same⟩ := Option.map_eq_some_iff.mp found
      rw [Prod.mk.injEq] at same
      obtain ⟨rfl, rfl⟩ : start' = start ∧ b :: rest' = rest := same
      have taken := ih others inner
      obtain ⟨c, member, at_, fits⟩ := taken.from_
      refine ⟨⟨c, mem_cons_of_mem b member, at_, fits⟩, separated_cons.mpr ⟨?_, nonempty, taken.separated⟩,
        fun x => ?_, ?_, ?_⟩
      · intro d inRest
        obtain ⟨e, inList, before⟩ := taken.later d inRest
        exact Nat.lt_of_lt_of_le (gap e inList) before
      · rw [cover_cons, cover_cons, taken.cover]
        omega
      · rw [total_cons, total_cons, taken.total]
        omega
      · refine forall_mem_cons.mpr ⟨⟨b, mem_cons_self, Nat.le_refl _⟩, fun d inRest => ?_⟩
        obtain ⟨e, inList, before⟩ := taken.later d inRest
        exact ⟨e, mem_cons_of_mem b inList, before⟩

def joinNext (b : Block) : List Block → Block × List Block
  | [] => (b, [])
  | c :: cs => if b.stop = c.start then (⟨b.start, b.size + c.size⟩, cs) else (b, c :: cs)

def joinPrev (b : Block) (after : List Block) : List Block → List Block
  | [] => b :: after
  | [p] => if p.stop = b.start then ⟨p.start, p.size + b.size⟩ :: after else p :: b :: after
  | p :: q :: ps => p :: joinPrev b after (q :: ps)

def giveBack (b : Block) (bs : List Block) : List Block :=
  let joined := joinNext b (bs.dropWhile fun c => c.start < b.start)
  joinPrev joined.1 joined.2 (bs.takeWhile fun c => c.start < b.start)

theorem holds_join {a b : Block} (touch : a.stop = b.start) (x : Nat) :
    (if (⟨a.start, a.size + b.size⟩ : Block).Holds x then 1 else 0) =
      (if a.Holds x then 1 else 0) + if b.Holds x then 1 else 0 := by
  grind [Block.Holds, Block.stop]

theorem joinNext_spec (nonempty : 0 < b.size) (separated : Separated after) (before : ∀ c ∈ after, b.stop ≤ c.start) :
    Separated ((joinNext b after).1 :: (joinNext b after).2) ∧ (joinNext b after).1.start = b.start ∧
      (∀ x, cover ((joinNext b after).1 :: (joinNext b after).2) x = cover (b :: after) x) ∧
      total ((joinNext b after).1 :: (joinNext b after).2) = total (b :: after) := by
  cases after with
  | nil =>
    refine ⟨separated_cons.mpr ⟨fun c none => ?_, nonempty, separated⟩, rfl, fun _ => rfl, rfl⟩
    cases none
  | cons c cs =>
    obtain ⟨gap, large, others⟩ := separated_cons.mp separated
    by_cases touch : b.stop = c.start
    · simp only [joinNext, if_pos touch]
      refine ⟨separated_cons.mpr ⟨fun d member => ?_, Nat.add_pos_left nonempty _, others⟩, trivial, fun x => ?_, ?_⟩
      · have := gap d member
        simp only [Block.stop] at touch this ⊢
        omega
      · rw [cover_cons, cover_cons, cover_cons, holds_join touch]
        omega
      · simp only [total_cons]
        omega
    · simp only [joinNext, if_neg touch]
      refine ⟨separated_cons.mpr ⟨?_, nonempty, separated⟩, trivial, fun _ => trivial, trivial⟩
      have first : b.stop < c.start := Nat.lt_of_le_of_ne (before c mem_cons_self) touch
      refine forall_mem_cons.mpr ⟨first, fun d member => ?_⟩
      have := gap d member
      rw [Block.stop] at this
      omega

theorem joinPrev_spec (separated : Separated (b :: after)) {before : List Block}
    (separated' : Separated before) (below : ∀ c ∈ before, c.stop ≤ b.start) :
    Separated (joinPrev b after before) ∧
      (∀ c ∈ joinPrev b after before, ∃ d ∈ before ++ b :: after, d.start = c.start) ∧
      (∀ x, cover (joinPrev b after before) x = cover (before ++ b :: after) x) ∧
      total (joinPrev b after before) = total (before ++ b :: after) := by
  obtain ⟨gap, nonempty, others⟩ := separated_cons.mp separated
  induction before with
  | nil => exact ⟨separated, fun c member => ⟨c, member, rfl⟩, fun _ => rfl, rfl⟩
  | cons p ps ih =>
  cases ps with
  | nil =>
    have large := separated'.nonempty p mem_cons_self
    have under := below p mem_cons_self
    rw [joinPrev]
    split
    · rename_i touch
      refine ⟨separated_cons.mpr ⟨fun c member => ?_, Nat.add_pos_left large _, others⟩, ?_, fun x => ?_, ?_⟩
      · have := gap c member
        simp only [Block.stop] at touch this ⊢
        omega
      · refine forall_mem_cons.mpr ⟨⟨p, mem_cons_self, rfl⟩, fun c member => ⟨c, ?_, rfl⟩⟩
        exact mem_cons_of_mem p (mem_cons_of_mem b member)
      · rw [singleton_append, cover_cons, cover_cons, cover_cons, holds_join touch]
        omega
      · simp only [singleton_append, total_cons]
        omega
    · rename_i apart
      refine ⟨separated_cons.mpr ⟨?_, large, separated⟩, fun c member => ⟨c, member, rfl⟩, fun _ => rfl, rfl⟩
      have first : p.stop < b.start := Nat.lt_of_le_of_ne under apart
      refine forall_mem_cons.mpr ⟨first, fun c member => ?_⟩
      have := gap c member
      rw [Block.stop] at this
      omega
  | cons q ps =>
    obtain ⟨gap', large, others'⟩ := separated_cons.mp separated'
    obtain ⟨joined, starts, covers, sizes⟩ := ih others' fun c member => below c (mem_cons_of_mem p member)
    rw [joinPrev]
    refine ⟨separated_cons.mpr ⟨fun c member => ?_, large, joined⟩, ?_, fun x => ?_, ?_⟩
    · obtain ⟨d, source, same⟩ := starts c member
      rw [← same]
      rcases mem_append.mp source with inBefore | inAfter
      · exact gap' d inBefore
      · -- `q` lies between `p` and all of these
        have next := gap' q mem_cons_self
        have under := below q (mem_cons_of_mem p mem_cons_self)
        have : q.start ≤ q.stop := Nat.le_add_right _ _
        rcases mem_cons.mp inAfter with rfl | inRest
        · omega
        · have := gap d inRest
          rw [Block.stop] at this
          omega
    · refine forall_mem_cons.mpr ⟨⟨p, mem_cons_self, rfl⟩, fun c member => ?_⟩
      obtain ⟨d, source, same⟩ := starts c member
      exact ⟨d, mem_cons_of_mem p source, same⟩
    · rw [cons_append, cover_cons, cover_cons, covers]
    · rw [cons_append, total_cons, total_cons, sizes]

theorem Separated.sublist {as bs : List Block} (separated : Separated bs) (sub : as.Sublist bs) : Separated as :=
  ⟨separated.gaps.sublist sub, fun b member => separated.nonempty b (sub.subset member)⟩

theorem le_of_mem_dropWhile (separated : Separated bs) (place : Nat) :
    ∀ c ∈ bs.dropWhile (fun c => c.start < place), place ≤ c.start := by
  induction bs with
  | nil => simp
  | cons b bs ih =>
    obtain ⟨gap, -, others⟩ := separated_cons.mp separated
    rw [dropWhile_cons]
    split
    · exact ih others
    · rename_i reached
      have here : place ≤ b.start := Nat.le_of_not_lt fun before => reached (decide_eq_true before)
      refine forall_mem_cons.mpr ⟨here, fun c member => ?_⟩
      have := gap c member
      rw [Block.stop] at this
      omega

theorem giveBack_spec (nonempty : 0 < b.size) (separated : Separated bs)
    (apart : ∀ c ∈ bs, b.stop ≤ c.start ∨ c.stop ≤ b.start) :
    Separated (giveBack b bs) ∧ (∀ x, cover (giveBack b bs) x = cover bs x + if b.Holds x then 1 else 0) ∧
      total (giveBack b bs) = b.size + total bs := by
  have whole : bs.takeWhile (fun c => c.start < b.start) ++ bs.dropWhile (fun c => c.start < b.start) = bs :=
    takeWhile_append_dropWhile
  have behind : ∀ c ∈ bs.dropWhile (fun c => c.start < b.start), b.stop ≤ c.start := by
    intro c member
    have := le_of_mem_dropWhile separated b.start c member
    have large := separated.nonempty c (dropWhile_subset _ member)
    rcases apart c (dropWhile_subset _ member) with after | before
    · exact after
    · rw [Block.stop] at before
      omega
  have ahead : ∀ c ∈ bs.takeWhile (fun c => c.start < b.start), c.stop ≤ b.start := by
    intro c member
    have lower := mem_takeWhile_imp member
    rw [decide_eq_true_eq] at lower
    rcases apart c (takeWhile_subset _ member) with after | before
    · rw [Block.stop] at after
      omega
    · exact before
  obtain ⟨joined, start, covers, sizes⟩ :=
    joinNext_spec nonempty (separated.sublist (dropWhile_sublist _)) behind
  obtain ⟨result, -, covers', sizes'⟩ := joinPrev_spec joined (separated.sublist (takeWhile_sublist _))
    (by rw [start]; exact ahead)
  refine ⟨result, fun x => ?_, ?_⟩
  · rw [giveBack, covers', cover_append, covers, cover_cons, ← Nat.add_assoc, ← cover_append, whole]
  · rw [giveBack, sizes', total_append, sizes, total_cons, Nat.add_left_comm, ← total_append, whole]

end FreeList
