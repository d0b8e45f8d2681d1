import Mathlib.Data.List.Pairwise
import Mathlib.Data.UInt
import CxlMemSim.Hdm.Decoder

/-! The linear scan of the ranges as they were added, and the binary search after `sort_ranges`, whose bounds are of
type `int`. -/
namespace CxlMemSim.Hdm
open HDMDecoder List UInt64

def searchRange32 (ranges : List HDMRange) (addr : UInt64) : Nat → Int32 → Int32 → DecodeResult
  | 0, _, _ => unmapped
  | turns + 1, lo, hi =>
    if lo ≤ hi then
      let mid := lo + (hi - lo) / 2
      match ranges[mid.toInt.toNat]? with
      | none => unmapped
      | some range =>
        if addr < range.baseAddr then searchRange32 ranges addr turns lo (mid - 1)
        else if range.baseAddr + range.size ≤ addr then searchRange32 ranges addr turns (mid + 1) hi
        else range.result addr
    else unmapped

namespace HDMDecoder

/-- Equal bases, which `std::sort` may leave in any order, do not occur below. -/
def sortRanges (d : HDMDecoder) : HDMDecoder :=
  { d with ranges := d.ranges.mergeSort fun a b => a.baseAddr ≤ b.baseAddr, rangesSorted := true }

def decodeRange32 (d : HDMDecoder) (addr : UInt64) : DecodeResult :=
  if d.rangesSorted then searchRange32 d.ranges addr d.ranges.length 0 (Int32.ofNat d.ranges.length - 1)
  else d.decodeRange addr

end HDMDecoder

namespace HDMRange

structure Proper (r : HDMRange) : Prop where
  nonempty : 0 < r.size.toNat
  fits : r.baseAddr.toNat + r.size.toNat < 2 ^ 64

def Apart (a b : HDMRange) : Prop := ∀ addr, ¬ (a.Contains addr ∧ b.Contains addr)

def Below (a b : HDMRange) : Prop := a.baseAddr.toNat + a.size.toNat ≤ b.baseAddr.toNat

variable {a b r : HDMRange} {addr : UInt64}

theorem Apart.symm (apart : a.Apart b) : b.Apart a := fun addr both => apart addr both.symm

instance : Std.Symm Apart := ⟨fun _ _ => Apart.symm⟩

theorem Proper.end_toNat (proper : r.Proper) : (r.baseAddr + r.size).toNat = r.baseAddr.toNat + r.size.toNat := by
  rw [UInt64.toNat_add, Nat.mod_eq_of_lt proper.fits]

theorem Proper.contains_iff (proper : r.Proper) :
    r.Contains addr ↔ r.baseAddr.toNat ≤ addr.toNat ∧ addr.toNat < r.baseAddr.toNat + r.size.toNat := by
  rw [Contains, le_iff_toNat_le, lt_iff_toNat_lt, proper.end_toNat]

theorem Proper.contains_base (proper : r.Proper) : r.Contains r.baseAddr := by
  rw [proper.contains_iff]
  have := proper.nonempty
  omega

theorem below_of_apart (properA : a.Proper) (properB : b.Proper) (apart : a.Apart b)
    (sorted : a.baseAddr ≤ b.baseAddr) : a.Below b := by
  by_contra overlap
  refine apart b.baseAddr ⟨properA.contains_iff.mpr ⟨le_iff_toNat_le.mp sorted, ?_⟩, properB.contains_base⟩
  exact Nat.lt_of_not_le overlap

theorem apart_of_below (properA : a.Proper) (properB : b.Proper) (below : a.Below b) : a.Apart b := by
  rintro addr ⟨inA, inB⟩
  have ends := (properA.contains_iff.mp inA).2
  have starts := (properB.contains_iff.mp inB).1
  simp only [Below] at below
  omega

end HDMRange

variable {r : HDMRange}

section
variable {ranges : List HDMRange} {addr : UInt64}

theorem below_getElem (sorted : ranges.Pairwise HDMRange.Below) {i j : Nat} {a b : HDMRange} (before : i < j)
    (here : ranges[i]? = some a) (there : ranges[j]? = some b) : a.Below b := by
  obtain ⟨hi, rfl⟩ := List.getElem?_eq_some_iff.mp here
  obtain ⟨hj, rfl⟩ := List.getElem?_eq_some_iff.mp there
  exact pairwise_iff_getElem.mp sorted i j hi hj before

theorem searchRange_found (proper : ∀ r ∈ ranges, r.Proper) (sorted : ranges.Pairwise HDMRange.Below) {k : Nat}
    (here : ranges[k]? = some r) (contains : r.Contains addr) {turns : Nat} {lo hi : Int}
    (low : 0 ≤ lo) (high : hi < ranges.length) (fromLo : lo ≤ k) (toHi : k ≤ hi) (enough : hi - lo < turns) :
    searchRange ranges addr turns lo hi = r.result addr := by
  have inside := (proper r (mem_of_getElem? here)).contains_iff.mp contains
  induction turns generalizing lo hi with
  | zero => omega
  | succ turns ih =>
    rw [searchRange, if_pos (by omega)]
    obtain ⟨mid, atMid⟩ : ∃ mid : Nat, lo + (hi - lo) / 2 = mid := ⟨(lo + (hi - lo) / 2).toNat, by omega⟩
    have found := getElem?_eq_getElem (show mid < ranges.length by omega)
    have properMid := proper _ (mem_of_getElem? found)
    have ends := properMid.end_toNat
    simp only [atMid, Int.toNat_natCast, found]
    -- a range on the wrong side of the one that contains the address would lie on its other side
    rcases Nat.lt_trichotomy mid k with before | rfl | after
    · have below : ranges[mid].Below r := below_getElem sorted before found here
      have nonempty := properMid.nonempty
      simp only [HDMRange.Below] at below
      rw [if_neg (by rw [lt_iff_toNat_lt]; omega), if_pos (by rw [le_iff_toNat_le]; omega)]
      exact ih (by omega) high (by omega) toHi (by omega)
    · have same : ranges[mid] = r := Option.some.inj (found.symm.trans here)
      rw [same] at ends
      rw [same, if_neg (by rw [lt_iff_toNat_lt]; omega), if_neg (by rw [le_iff_toNat_le]; omega)]
    · have below : r.Below ranges[mid] := below_getElem sorted after here found
      simp only [HDMRange.Below] at below
      rw [if_pos (by rw [lt_iff_toNat_lt]; omega)]
      exact ih low (by omega) fromLo (by omega) (by omega)

theorem searchRange_missed (none : ∀ r ∈ ranges, ¬ r.Contains addr) (turns : Nat) (lo hi : Int) :
    searchRange ranges addr turns lo hi = unmapped := by
  induction turns generalizing lo hi with
  | zero => rfl
  | succ turns ih =>
    rw [searchRange]
    split
    · cases found : ranges[(lo + (hi - lo) / 2).toNat]? with
      | none => simp only [found]
      | some range =>
        simp only [found]
        by_cases left : addr < range.baseAddr
        · rw [if_pos left, ih]
        · by_cases right : range.baseAddr + range.size ≤ addr
          · rw [if_neg left, if_pos right, ih]
          · have contains : range.Contains addr := ⟨UInt64.not_lt.mp left, UInt64.not_le.mp right⟩
            exact (none range (mem_of_getElem? found) contains).elim
    · rfl

theorem toInt_of_small {x : Int} (low : -2 ^ 31 ≤ x) (high : x < 2 ^ 31) : x.bmod (2 ^ 32) = x :=
  Int.bmod_eq_of_le (by omega) (by omega)

theorem searchRange32_eq (few : ranges.length < 2 ^ 31) (turns : Nat) (lo hi : Int32) (low : 0 ≤ lo.toInt)
    (most : lo.toInt ≤ ranges.length) (least : -1 ≤ hi.toInt) (high : hi.toInt < ranges.length) :
    searchRange32 ranges addr turns lo hi = searchRange ranges addr turns lo.toInt hi.toInt := by
  induction turns generalizing lo hi with
  | zero => rfl
  | succ turns ih =>
    rw [searchRange32, searchRange]
    by_cases more : lo ≤ hi
    · have more' : lo.toInt ≤ hi.toInt := Int32.le_iff_toInt_le.mp more
      have gap : (hi - lo).toInt = hi.toInt - lo.toInt := by
        rw [Int32.toInt_sub, toInt_of_small (by omega) (by omega)]
      have half : ((hi - lo) / 2).toInt = (hi.toInt - lo.toInt) / 2 := by
        rw [Int32.toInt_div, gap, show (2 : Int32).toInt = 2 from rfl, Int.tdiv_eq_ediv_of_nonneg (by omega),
          toInt_of_small (by omega) (by omega)]
      have mid : (lo + (hi - lo) / 2).toInt = lo.toInt + (hi.toInt - lo.toInt) / 2 := by
        rw [Int32.toInt_add, half, toInt_of_small (by omega) (by omega)]
      have next : (lo + (hi - lo) / 2 + 1).toInt = lo.toInt + (hi.toInt - lo.toInt) / 2 + 1 := by
        rw [Int32.toInt_add, mid, show (1 : Int32).toInt = 1 from rfl, toInt_of_small (by omega) (by omega)]
      have previous : (lo + (hi - lo) / 2 - 1).toInt = lo.toInt + (hi.toInt - lo.toInt) / 2 - 1 := by
        rw [Int32.toInt_sub, mid, show (1 : Int32).toInt = 1 from rfl, toInt_of_small (by omega) (by omega)]
      rw [if_pos more, if_pos more']
      simp only [mid]
      cases found : ranges[(lo.toInt + (hi.toInt - lo.toInt) / 2).toNat]? with
      | none => rfl
      | some range =>
        dsimp only
        rw [ih _ _ low most (by omega) (by omega), ih _ _ (by omega) (by omega) least high, next, previous]
    · rw [if_neg more, if_neg (fun h => more (Int32.le_iff_toInt_le.mpr h))]

end

variable {addr : UInt64}

namespace HDMDecoder
variable {d : HDMDecoder}

theorem sortRanges_perm (d : HDMDecoder) : d.sortRanges.ranges.Perm d.ranges := mergeSort_perm _ _

theorem mem_sortRanges : r ∈ d.sortRanges.ranges ↔ r ∈ d.ranges := d.sortRanges_perm.mem_iff

theorem pairwise_sortRanges (proper : ∀ r ∈ d.ranges, r.Proper) (disjoint : d.ranges.Pairwise HDMRange.Apart) :
    d.sortRanges.ranges.Pairwise HDMRange.Below := by
  have bases : d.sortRanges.ranges.Pairwise fun a b => a.baseAddr ≤ b.baseAddr := by
    have sorted := @List.pairwise_mergeSort HDMRange (fun a b => a.baseAddr ≤ b.baseAddr)
      (fun a b c ab bc => by
        simp only [decide_eq_true_eq, le_iff_toNat_le] at *
        omega)
      (fun a b => by
        simp only [Bool.or_eq_true, decide_eq_true_eq, le_iff_toNat_le]
        omega)
      d.ranges
    exact sorted.imp of_decide_eq_true
  have apart : d.sortRanges.ranges.Pairwise HDMRange.Apart :=
    (d.sortRanges_perm.symm.pairwise_iff HDMRange.Apart.symm).mp disjoint
  refine (bases.and apart).imp_of_mem fun {a b} memberA memberB both => ?_
  exact HDMRange.below_of_apart (proper a (mem_sortRanges.mp memberA)) (proper b (mem_sortRanges.mp memberB)) both.2
    both.1

theorem decodeRange_sorted_found (proper : ∀ r ∈ d.ranges, r.Proper) (disjoint : d.ranges.Pairwise HDMRange.Apart)
    (member : r ∈ d.ranges) (contains : r.Contains addr) :
    d.sortRanges.decodeRange addr = r.result addr := by
  obtain ⟨k, here⟩ := mem_iff_getElem?.mp (mem_sortRanges.mpr member)
  have short := (List.getElem?_eq_some_iff.mp here).1
  exact searchRange_found (fun r member => proper r (mem_sortRanges.mp member)) (pairwise_sortRanges proper disjoint)
    here contains (Int.le_refl 0) (by omega) (by omega) (by omega) (by omega)

theorem unique_of_apart (disjoint : d.ranges.Pairwise HDMRange.Apart) {r r' : HDMRange}
    (member : r ∈ d.ranges) (member' : r' ∈ d.ranges) (contains : r.Contains addr) (contains' : r'.Contains addr) :
    r = r' := by
  by_contra different
  exact disjoint.forall member member' different addr ⟨contains, contains'⟩

theorem decodeRange_unsorted (unsorted : d.rangesSorted = false) (addr : UInt64) :
    d.decodeRange addr =
      ((d.ranges.find? fun range => range.Contains addr).map fun range => range.result addr).getD unmapped := by
  rw [decodeRange, unsorted]
  rfl

theorem decodeRange_unsorted_found (unsorted : d.rangesSorted = false) (disjoint : d.ranges.Pairwise HDMRange.Apart)
    (member : r ∈ d.ranges) (contains : r.Contains addr) :
    d.decodeRange addr = r.result addr := by
  rw [decodeRange_unsorted unsorted]
  cases found : d.ranges.find? fun range => range.Contains addr with
  | none => exact absurd (decide_eq_true contains) (find?_eq_none.mp found r member)
  | some r' =>
    have contains' : r'.Contains addr := by simpa using find?_some found
    obtain rfl := unique_of_apart disjoint member (mem_of_find?_eq_some found) contains contains'
    rfl

theorem decodeRange_missed (none : ∀ r ∈ d.ranges, ¬ r.Contains addr) : d.decodeRange addr = unmapped := by
  rw [decodeRange]
  split
  · exact searchRange_missed none _ _ _
  · have missed : (d.ranges.find? fun range => range.Contains addr) = Option.none :=
      find?_eq_none.mpr fun r member passes => none r member (of_decide_eq_true passes)
    rw [missed]
    rfl

theorem decodeRange32_eq (few : d.ranges.length < 2 ^ 31) (addr : UInt64) :
    d.decodeRange32 addr = d.decodeRange addr := by
  rw [decodeRange32]
  split
  · rename_i sorted
    have last : (Int32.ofNat d.ranges.length - 1).toInt = d.ranges.length - 1 := by
      rw [Int32.toInt_sub, Int32.toInt_ofNat_of_lt few, show (1 : Int32).toInt = 1 from rfl,
        toInt_of_small (by omega) (by omega)]
    rw [searchRange32_eq few _ 0 (Int32.ofNat d.ranges.length - 1) (Int.le_refl 0) (Int.natCast_nonneg _) (by omega)
      (by omega), last, decodeRange, if_pos sorted]
    rfl
  · rfl

end HDMDecoder

/-- The scan of the ranges as added and the search after sorting both decide by the one range that contains the
address. -/
theorem decodeRange_by_containing_range (d : HDMDecoder) (unsorted : d.rangesSorted = false)
    (few : d.ranges.length < 2 ^ 31) (proper : ∀ r ∈ d.ranges, r.Proper)
    (disjoint : d.ranges.Pairwise HDMRange.Apart) (addr : UInt64) :
    (∀ r ∈ d.ranges, r.baseAddr.toNat ≤ addr.toNat ∧ addr.toNat < r.baseAddr.toNat + r.size.toNat →
      (∀ r' ∈ d.ranges, r'.baseAddr.toNat ≤ addr.toNat ∧ addr.toNat < r'.baseAddr.toNat + r'.size.toNat → r' = r) ∧
      d.decodeRange addr = r.result addr) ∧
    ((∀ r ∈ d.ranges, ¬ (r.baseAddr.toNat ≤ addr.toNat ∧ addr.toNat < r.baseAddr.toNat + r.size.toNat)) →
      d.decodeRange addr = unmapped) ∧
    d.sortRanges.decodeRange32 addr = d.decodeRange addr := by
  refine ⟨fun r member inside => ⟨fun r' member' inside' => ?_, ?_⟩, fun none => ?_, ?_⟩
  · exact unique_of_apart disjoint member' member ((proper r' member').contains_iff.mpr inside')
      ((proper r member).contains_iff.mpr inside)
  · exact decodeRange_unsorted_found unsorted disjoint member ((proper r member).contains_iff.mpr inside)
  · exact decodeRange_missed fun r member contains =>
      none r member ((proper r member).contains_iff.mp contains)
  · have fewSorted : d.sortRanges.ranges.length < 2 ^ 31 := by
      rw [d.sortRanges_perm.length_eq]
      exact few
    rw [decodeRange32_eq fewSorted]
    by_cases covered : ∃ r ∈ d.ranges, r.Contains addr
    · obtain ⟨r, member, contains⟩ := covered
      rw [decodeRange_sorted_found proper disjoint member contains,
        decodeRange_unsorted_found unsorted disjoint member contains]
    · have missed : ∀ r ∈ d.ranges, ¬ r.Contains addr := fun r member contains => covered ⟨r, member, contains⟩
      rw [decodeRange_missed missed, decodeRange_missed fun r member => missed r (mem_sortRanges.mp member)]

def twoNodes : HDMDecoder :=
  (({ mode := .rangeBased } : HDMDecoder).addRange 0x1000 0x2000 1 true).addRange 0 0x1000 0 false

theorem decodeRange_by_containing_range_twoNodes :
    twoNodes.decodeRange 0x1800 = ⟨1, 0x800, true, 1⟩ ∧
      twoNodes.sortRanges.decodeRange32 0x800 = twoNodes.decodeRange 0x800 := by
  have high : HDMRange.Proper ⟨0x1000, 0x2000, 1, true⟩ := ⟨by decide, by decide⟩
  have low : HDMRange.Proper ⟨0, 0x1000, 0, false⟩ := ⟨by decide, by decide⟩
  have proper : ∀ r ∈ twoNodes.ranges, r.Proper :=
    forall_mem_cons.mpr ⟨high, forall_mem_singleton.mpr low⟩
  have disjoint : twoNodes.ranges.Pairwise HDMRange.Apart :=
    pairwise_pair.mpr (HDMRange.apart_of_below low high (by decide : 0 + 0x1000 ≤ 0x1000)).symm
  have decides := decodeRange_by_containing_range twoNodes rfl (by decide) proper disjoint
  exact ⟨((decides 0x1800).1 ⟨0x1000, 0x2000, 1, true⟩ mem_cons_self (by decide)).2, (decides 0x800).2.2⟩

end CxlMemSim.Hdm
