import CxlMemSim.Endpoint.Insertion
import CxlMemSim.Endpoint.Interleave

/-! `FIFOPolicy` takes the entry with the smallest timestamp out of the cache. -/
namespace CxlMemSim.Endpoint
open List

def CacheOp.time : CacheOp → Option UInt64
  | .get _ timestamp | .put _ _ timestamp => some timestamp
  | .remove _ | .peek _ | .contains _ | .clear => none

namespace Residents
variable {l : Residents} {capacity : Nat}

/-- The most recently used entry has the latest timestamp, and so on down the list. -/
def Dated (l : Residents) : Prop := l.Pairwise fun e e' => e'.timestamp < e.timestamp
deriving Decidable

theorem makeRoom_sublist (l : Residents) (capacity : Nat) (key : UInt64) : (l.makeRoom capacity key).Sublist l := by
  rw [makeRoom]
  split_ifs
  · exact filter_sublist
  · exact dropLast_sublist l
  · exact Sublist.refl l

theorem step_shape (capacity : Nat) (l : Residents) (op : CacheOp) :
    ∃ kept : Residents, kept.Sublist l ∧ (step capacity l op = kept ∨
      ∃ e : LRUCacheEntry, op.time = some e.timestamp ∧ (e.key ∈ l.keys ∨ op.Puts e.key) ∧
        step capacity l op = e :: kept) := by
  cases op with
  | get key timestamp =>
    cases found : l.entry key with
    | none => exact ⟨l, Sublist.refl l, .inl (by rw [step, call, found]; rfl)⟩
    | some e =>
      have present : e.key ∈ l.keys := mem_map_of_mem (mem_of_find?_eq_some found)
      refine ⟨l.others key, filter_sublist, .inr ⟨{ e with timestamp }, rfl, .inl present, ?_⟩⟩
      rw [step, call, found]
      rfl
  | put key value timestamp =>
    exact ⟨_, makeRoom_sublist l capacity key, .inr ⟨⟨key, value, timestamp⟩, rfl, .inr rfl, rfl⟩⟩
  | remove key => exact ⟨l.others key, filter_sublist, .inl rfl⟩
  | peek | contains => exact ⟨l, Sublist.refl l, .inl rfl⟩
  | clear => exact ⟨[], nil_sublist l, .inl rfl⟩

theorem mem_keys_step {op : CacheOp} {key : UInt64} (there : key ∈ (step capacity l op).keys) :
    key ∈ l.keys ∨ op.Puts key := by
  obtain ⟨kept, sublist, same | ⟨e, -, own, front⟩⟩ := step_shape capacity l op
  · rw [same] at there
    exact .inl ((sublist.map _).subset there)
  · rw [front, keys, map_cons, mem_cons] at there
    rcases there with rfl | old
    · exact own
    · exact .inl ((sublist.map _).subset old)

theorem Dated.run {ops : List CacheOp} (dated : l.Dated) (increasing : (ops.filterMap CacheOp.time).Pairwise (· < ·))
    (earlier : ∀ e ∈ l, ∀ t ∈ ops.filterMap CacheOp.time, e.timestamp < t) :
    (ops.foldl (step capacity) l).Dated := by
  induction ops generalizing l with
  | nil => exact dated
  | cons op rest ih =>
    have later : (rest.filterMap CacheOp.time).Sublist ((op :: rest).filterMap CacheOp.time) :=
      (sublist_cons_self op rest).filterMap CacheOp.time
    obtain ⟨kept, sublist, same | ⟨e, time, -, front⟩⟩ := step_shape capacity l op
    · rw [foldl_cons, same]
      refine ih (dated.sublist sublist) (increasing.sublist later) fun e member t mem => ?_
      exact earlier e (sublist.subset member) t (later.subset mem)
    · rw [foldl_cons, front]
      rw [filterMap_cons_some time] at increasing earlier
      obtain ⟨next, increasing⟩ := pairwise_cons.mp increasing
      refine ih (pairwise_cons.mpr ⟨fun e' member => ?_, dated.sublist sublist⟩) increasing fun e' member t mem => ?_
      · exact earlier e' (sublist.subset member) e.timestamp mem_cons_self
      · rcases mem_cons.mp member with rfl | old
        · exact next t mem
        · exact earlier e' (sublist.subset old) t (mem_cons_of_mem _ mem)

end Residents

namespace CacheOp
variable (op : CacheOp) {l : Residents} {key : UInt64}

def entering (l : Residents) : List UInt64 :=
  match op with
  | .put key _ _ => if key ∈ l.keys then [] else [key]
  | _ => []

theorem mem_entering : key ∈ op.entering l ↔ op.Puts key ∧ key ∉ l.keys := by
  cases op with
  | put other _ _ =>
    rw [entering, Puts]
    split <;> grind
  | _ => simp [entering, Puts]

theorem nodup_entering (l : Residents) : (op.entering l).Nodup := by
  cases op with
  | put other _ _ =>
    rw [entering]
    split <;> simp
  | _ => exact nodup_nil

theorem mem_keys_of_puts (puts : op.Puts key) (capacity : Nat) (l : Residents) :
    key ∈ (Residents.step capacity l op).keys := by
  cases op with
  | put other _ _ =>
    obtain rfl : other = key := puts
    exact mem_cons_self
  | _ => cases puts

end CacheOp

namespace FIFOPolicy

abbrev Entry := Sigma fun _ : UInt64 => LRUCacheEntry

structure View where
  pageType : PageType
  capacity : Int32
  lruCache : LRUCache

def uint64Max : UInt64 := 0xffffffffffffffff

def turn (oldest : UInt64 × UInt64) (e : Entry) : UInt64 × UInt64 :=
  if e.2.timestamp < oldest.1 then (e.2.timestamp, e.1) else oldest

/-- The loop walks over the hash map in some `order`. -/
def computeOnce (v : View) (order : List Entry) : Option (Int × LRUCache) :=
  if v.capacity.toInt64.toUInt64 ≤ v.pageType.megabytes (.ofNat v.lruCache.size) then
    let oldestPhysAddr := (order.foldl turn (uint64Max, 0)).2
    if oldestPhysAddr ≠ 0 then (v.lruCache.remove oldestPhysAddr).map fun removed => (1, removed.2)
    else some (0, v.lruCache)
  else some (0, v.lruCache)

def Reached (pageType : PageType) (capacity : Int32) (size : Nat) : Prop :=
  capacity.toInt ≤ (size * pageType.perSize.toNat / 1024 / 1024 : Nat)
deriving Decidable

/-- The cache beside the keys that are in it, in the order in which they came in. -/
structure Arrivals where
  residents : Residents := []
  keys : List UInt64 := []
  distinct : keys.Nodup := by simp
  present : ∀ key, key ∈ keys ↔ key ∈ residents.keys := by simp [Residents.keys]

def Arrivals.step (a : Arrivals) (op : CacheOp) : Arrivals where
  residents := a.residents.step cacheCapacity op
  keys := a.keys.filter (· ∈ (a.residents.step cacheCapacity op).keys) ++ op.entering a.residents
  distinct := by
    refine nodup_append.mpr ⟨a.distinct.filter _, op.nodup_entering a.residents, ?_⟩
    rintro key old _ new rfl
    exact (op.mem_entering.mp new).2 ((a.present key).mp (mem_of_mem_filter old))
  present := by
    intro key
    rw [mem_append, mem_filter, decide_eq_true_iff, a.present, op.mem_entering]
    constructor
    · rintro (⟨-, there⟩ | ⟨puts, -⟩)
      · exact there
      · exact op.mem_keys_of_puts puts _ _
    · intro there
      rcases Residents.mem_keys_step there with old | puts
      · exact .inl ⟨old, there⟩
      · by_cases old : key ∈ a.residents.keys
        · exact .inl ⟨old, there⟩
        · exact .inr ⟨puts, old⟩

def firstIn (ops : List CacheOp) : Option UInt64 := (ops.foldl Arrivals.step {}).keys.head?

def Evicts (v : View) (first : Option UInt64) : Prop :=
  ∀ order : List Entry, order.Perm v.lruCache.cache.entries → ∃ answer cache,
    computeOnce v order = some (answer, cache) ∧
      (Reached v.pageType v.capacity v.lruCache.size → v.lruCache.size ≠ 0 → answer = 1) ∧
      (answer = 1 → ∃ key, first = some key ∧ v.lruCache.remove key = some (true, cache))

def EvictsFirstIn (pageType : PageType) (capacity : Int32) (ops : List CacheOp) : Prop :=
  ∃ answers lruCache, LRUCache.run { capacity := cacheCapacity } ops = some (answers, lruCache) ∧
    Evicts { pageType, capacity, lruCache } (firstIn ops)

end FIFOPolicy

namespace Residents
variable {l : Residents}

theorem entry_of_mem (distinct : l.keys.Nodup) {e : LRUCacheEntry} (member : e ∈ l) : l.entry e.key = some e := by
  have isSome : (l.entry e.key).isSome := by
    rw [isSome_entry, decide_eq_true_iff]
    exact mem_map_of_mem member
  obtain ⟨e', found⟩ := Option.isSome_iff_exists.mp isSome
  rw [found, inj_on_of_nodup_map distinct (mem_of_find?_eq_some found) member (key_of_entry found)]

end Residents

theorem LRUCache.Refines.mem_entries {capacity : Nat} {c : LRUCache} {l : Residents} (h : c.Refines capacity l)
    (e : FIFOPolicy.Entry) : e ∈ c.cache.entries ↔ e.2 ∈ l ∧ e.2.key = e.1 := by
  rw [← AList.mem_lookup_iff, h.lookup]
  constructor
  · exact fun found => ⟨mem_of_find?_eq_some found, Residents.key_of_entry found⟩
  · rintro ⟨member, own⟩
    rw [← own]
    exact Residents.entry_of_mem h.nodup member

namespace FIFOPolicy
variable {order : List Entry} {oldest : UInt64 × UInt64} {first : Entry}

theorem scan_of_le (least : ∀ e ∈ order, oldest.1 ≤ e.2.timestamp) : order.foldl turn oldest = oldest := by
  induction order with
  | nil => rfl
  | cons e rest ih =>
    rw [forall_mem_cons] at least
    rw [foldl_cons, turn, if_neg (UInt64.not_lt.mpr least.1)]
    exact ih least.2

theorem scan_of_least (member : first ∈ order) (below : first.2.timestamp < oldest.1)
    (least : ∀ e ∈ order, e = first ∨ first.2.timestamp < e.2.timestamp) :
    order.foldl turn oldest = (first.2.timestamp, first.1) := by
  induction order generalizing oldest with
  | nil => cases member
  | cons e rest ih =>
    rw [forall_mem_cons] at least
    rw [foldl_cons, turn]
    rcases least.1 with rfl | later
    · rw [if_pos below]
      refine scan_of_le fun e' there => ?_
      rcases least.2 e' there with rfl | later
      · exact UInt64.le_refl _
      · exact UInt64.le_of_lt later
    · have there : first ∈ rest := by
        rcases mem_cons.mp member with rfl | there
        · exact absurd later (UInt64.lt_irrefl _)
        · exact there
      split
      · exact ih there later least.2
      · exact ih there below least.2

def victim (l : Residents) : UInt64 := l.getLast?.elim 0 fun e => if e.timestamp = uint64Max then 0 else e.key

variable {capacity : Nat} {c : LRUCache} {l : Residents}

theorem le_uint64Max (t : UInt64) : t ≤ uint64Max := by
  have bound := t.toNat_lt
  rw [UInt64.le_iff_toNat_le, uint64Max]
  exact Nat.le_of_lt_succ bound

theorem scan_eq (h : c.Refines capacity l) (dated : l.Dated) (walked : order.Perm c.cache.entries) :
    (order.foldl turn (uint64Max, 0)).2 = victim l := by
  have mem_order (e : Entry) : e ∈ order ↔ e.2 ∈ l ∧ e.2.key = e.1 := walked.mem_iff.trans (h.mem_entries e)
  obtain rfl | ⟨init, last, split⟩ := eq_nil_or_concat l
  · have empty : order = [] := eq_nil_iff_forall_not_mem.mpr fun e member => by cases ((mem_order e).mp member).1
    rw [empty]
    rfl
  · rw [concat_eq_append] at split
    have lastOf : l.getLast? = some last := by rw [split, getLast?_concat]
    have least : ∀ e ∈ order, e = ⟨last.key, last⟩ ∨ last.timestamp < e.2.timestamp := by
      rintro ⟨key, e⟩ member
      obtain ⟨there, rfl⟩ : e ∈ l ∧ e.key = key := (mem_order _).mp member
      rw [split, mem_append, mem_singleton] at there
      rcases there with old | rfl
      · rw [Residents.Dated, split, pairwise_append] at dated
        exact .inr (dated.2.2 e old last (mem_singleton.mpr rfl))
      · exact .inl rfl
    rw [victim, lastOf, Option.elim_some]
    by_cases greatest : last.timestamp = uint64Max
    · rw [if_pos greatest, scan_of_le]
      intro e member
      rcases least e member with rfl | later
      · exact UInt64.le_of_eq greatest.symm
      · exact greatest ▸ UInt64.le_of_lt later
    · have member : (⟨last.key, last⟩ : Entry) ∈ order := (mem_order _).mpr ⟨by simp [split], rfl⟩
      rw [if_neg greatest, scan_of_least member (UInt64.lt_of_le_of_ne (le_uint64Max _) greatest) least]

theorem toNat_megabytes (pageType : PageType) {n : Nat} (small : n ≤ cacheCapacity) :
    (pageType.megabytes (.ofNat n)).toNat = n * pageType.perSize.toNat / 1024 / 1024 := by
  have page : pageType.perSize.toNat ≤ 2 ^ 30 := by cases pageType <;> decide
  have bytes : n * pageType.perSize.toNat ≤ cacheCapacity * 2 ^ 30 := Nat.mul_le_mul small page
  have below : cacheCapacity * 2 ^ 30 < 2 ^ 64 := by decide
  have entries : n < 2 ^ 64 := Nat.lt_of_le_of_lt small (by decide)
  rw [PageType.megabytes, UInt64.toNat_div, UInt64.toNat_div, UInt64.toNat_mul, UInt64.toNat_ofNat_of_lt' entries,
    Nat.mod_eq_of_lt (Nat.lt_of_le_of_lt bytes below)]
  rfl

theorem test_iff (pageType : PageType) (capacity : Int32) {n : Nat} (small : n ≤ cacheCapacity) :
    capacity.toInt64.toUInt64 ≤ pageType.megabytes (.ofNat n) ↔ 0 ≤ capacity.toInt ∧ Reached pageType capacity n := by
  have lower := capacity.le_toInt
  have upper := capacity.toInt_lt
  have signed : capacity.toInt64.toBitVec.toInt = capacity.toInt := capacity.toInt_toInt64
  have page : pageType.perSize.toNat ≤ 2 ^ 30 := by cases pageType <;> decide
  have bytes : n * pageType.perSize.toNat ≤ cacheCapacity * 2 ^ 30 := Nat.mul_le_mul small page
  have bound : cacheCapacity * 2 ^ 30 = 2 ^ 49 := by decide
  rw [BitVec.toInt_eq_toNat_cond] at signed
  rw [UInt64.le_iff_toNat_le, toNat_megabytes pageType small, Reached]
  change capacity.toInt64.toBitVec.toNat ≤ _ ↔ _
  split at signed <;> omega

theorem victim_eq {e : LRUCacheEntry} (last : l.getLast? = some e) :
    victim l = if e.timestamp = uint64Max then 0 else e.key := by
  rw [victim, last, Option.elim_some]

theorem remove_inj (h : c.Refines capacity l) {key key' : UInt64} {cache : LRUCache}
    (removed : c.remove key = some (true, cache)) (removed' : c.remove key' = some (true, cache)) : key = key' := by
  obtain ⟨_, same, refines⟩ := h.remove key
  obtain ⟨_, same', refines'⟩ := h.remove key'
  rw [removed] at same
  rw [removed'] at same'
  simp only [Option.some.injEq, Prod.mk.injEq] at same same'
  obtain ⟨present, rfl⟩ := same
  obtain ⟨-, rfl⟩ := same'
  have keys := refines.keys.symm.trans refines'.keys
  rw [Residents.keys_others, Residents.keys_others] at keys
  by_contra differ
  have member : key ∈ l.keys.filter (· ≠ key') := mem_filter.mpr ⟨of_decide_eq_true present.symm, decide_eq_true differ⟩
  rw [← keys, mem_filter] at member
  exact of_decide_eq_true member.2 rfl

variable {pageType : PageType} {bound : Int32}

def Due (pageType : PageType) (bound : Int32) (l : Residents) : Prop :=
  (0 ≤ bound.toInt ∧ Reached pageType bound l.length) ∧ victim l ≠ 0

section
variable (h : c.Refines cacheCapacity l) (dated : l.Dated) (walked : order.Perm c.cache.entries)
include h dated walked

theorem computeOnce_of_due (due : Due pageType bound l) :
    ∃ cache, c.remove (victim l) = some (true, cache) ∧ computeOnce ⟨pageType, bound, c⟩ order = some (1, cache) := by
  obtain ⟨full, found⟩ := due
  obtain ⟨cache, removed, -⟩ := h.remove (victim l)
  have member : victim l ∈ l.keys := by
    rw [victim] at found ⊢
    cases last : l.getLast? with
    | none => simp [last] at found
    | some e =>
      rw [last, Option.elim_some] at found
      have regular : e.timestamp ≠ uint64Max := fun greatest => found (if_pos greatest)
      rw [Option.elim_some, if_neg regular]
      exact mem_map_of_mem (mem_of_getLast? last)
  rw [decide_eq_true member] at removed
  refine ⟨cache, removed, ?_⟩
  rw [computeOnce]
  dsimp only
  rw [h.size, scan_eq h dated walked, if_pos ((test_iff pageType bound h.within).mpr full), if_pos found, removed]
  rfl

theorem computeOnce_of_not_due (notDue : ¬ Due pageType bound l) :
    computeOnce ⟨pageType, bound, c⟩ order = some (0, c) := by
  rw [computeOnce]
  dsimp only
  rw [h.size, scan_eq h dated walked]
  split
  · rename_i full
    exact if_neg fun found => notDue ⟨(test_iff pageType bound h.within).mp full, found⟩
  · rfl

end

theorem evicts_iff (h : c.Refines cacheCapacity l) (dated : l.Dated) (first : Option UInt64) :
    Evicts ⟨pageType, bound, c⟩ first ↔
      (Reached pageType bound l.length → ∀ e ∈ l.getLast?,
        0 ≤ bound.toInt ∧ e.key ≠ 0 ∧ e.timestamp ≠ uint64Max ∧ first = some e.key) := by
  rw [Evicts]
  dsimp only
  rw [h.size]
  constructor
  · intro evicts reached e last
    obtain ⟨answer, cache, computed, full, removes⟩ := evicts _ (Perm.refl _)
    have nonempty : l.length ≠ 0 := fun zero => by simp [length_eq_zero_iff.mp zero] at last
    obtain rfl := full reached nonempty
    by_cases due : Due pageType bound l
    · obtain ⟨cache', removed, returned⟩ := computeOnce_of_due h dated (Perm.refl _) due
      cases returned.symm.trans computed
      obtain ⟨key, rfl, removed'⟩ := removes rfl
      have found := due.2
      rw [victim_eq last] at found
      have regular : e.timestamp ≠ uint64Max := fun greatest => found (if_pos greatest)
      rw [if_neg regular] at found
      refine ⟨due.1.1, found, regular, congrArg some ?_⟩
      rw [remove_inj h removed' removed, victim_eq last, if_neg regular]
    · rw [computeOnce_of_not_due h dated (Perm.refl _) due] at computed
      cases computed
  · intro condition order walked
    by_cases due : Due pageType bound l
    · obtain ⟨cache, removed, returned⟩ := computeOnce_of_due h dated walked due
      refine ⟨1, cache, returned, fun _ _ => rfl, fun _ => ⟨victim l, ?_, removed⟩⟩
      cases last : l.getLast? with
      | none => exact absurd (by rw [victim, last]; rfl) due.2
      | some e =>
        obtain ⟨-, -, regular, isFirst⟩ := condition due.1.2 e last
        rw [isFirst, victim_eq last, if_neg regular]
    · refine ⟨0, c, computeOnce_of_not_due h dated walked due, fun reached nonempty => absurd ?_ due,
        fun one => by cases one⟩
      obtain ⟨e, last⟩ : ∃ e, l.getLast? = some e := by
        rw [← Option.isSome_iff_exists, getLast?_isSome]
        exact ne_nil_of_length_pos (Nat.pos_of_ne_zero nonempty)
      obtain ⟨nonneg, key, regular, -⟩ := condition reached e last
      refine ⟨⟨nonneg, reached⟩, ?_⟩
      rw [victim_eq last, if_neg regular]
      exact key

theorem dated_after {ops : List CacheOp} (increasing : (ops.filterMap CacheOp.time).Pairwise (· < ·)) :
    (Residents.after cacheCapacity ops).Dated :=
  Residents.Dated.run Pairwise.nil increasing fun _ => nofun

theorem evictsFirstIn_iff_evicts (pageType : PageType) (bound : Int32) (ops : List CacheOp) :
    ∃ c : LRUCache, c.Refines cacheCapacity (Residents.after cacheCapacity ops) ∧
      (EvictsFirstIn pageType bound ops ↔ Evicts ⟨pageType, bound, c⟩ (firstIn ops)) := by
  obtain ⟨c, ran, refines⟩ := (LRUCache.refines_empty cacheCapacity).run (by decide) ops
  refine ⟨c, refines, ?_, fun evicts => ⟨_, c, ran, evicts⟩⟩
  rintro ⟨_, c', ran', evicts⟩
  cases ran.symm.trans ran'
  exact evicts

/-- A full cache loses what came in first just if that is also the least recently used entry, has
another address than 0 and another time than the greatest one, and the capacity is not negative. -/
theorem evictsFirstIn_iff (pageType : PageType) (capacity : Int32) (ops : List CacheOp)
    (increasing : (ops.filterMap CacheOp.time).Pairwise (· < ·)) :
    EvictsFirstIn pageType capacity ops ↔
      (Reached pageType capacity (Residents.after cacheCapacity ops).length →
        ∀ e ∈ (Residents.after cacheCapacity ops).getLast?,
          0 ≤ capacity.toInt ∧ e.key ≠ 0 ∧ e.timestamp ≠ uint64Max ∧ firstIn ops = some e.key) := by
  obtain ⟨c, refines, same⟩ := evictsFirstIn_iff_evicts pageType capacity ops
  exact same.trans (evicts_iff refines (dated_after increasing) (firstIn ops))

theorem evictsFirstIn_iff_twoPuts : EvictsFirstIn .hugepage1G 1 [.put 1 10 1, .put 2 20 2] :=
  (evictsFirstIn_iff .hugepage1G 1 [.put 1 10 1, .put 2 20 2] (by decide)).mpr (by decide +kernel)

/-- The key 1 came in first and is used again, so that the key 2 goes; and the address 0 never goes. -/
theorem not_evictsFirstIn :
    ¬ EvictsFirstIn .hugepage1G 1 [.put 1 10 1, .put 2 20 2, .get 1 3] ∧
    ¬ EvictsFirstIn .hugepage1G 1 [.put 0 10 1] := by
  obtain ⟨c, refines, same⟩ := evictsFirstIn_iff_evicts .hugepage1G 1 [.put 1 10 1, .put 2 20 2, .get 1 3]
  obtain ⟨c', refines', same'⟩ := evictsFirstIn_iff_evicts .hugepage1G 1 [.put 0 10 1]
  rw [same, same', evicts_iff refines (dated_after (by decide)), evicts_iff refines' (dated_after (by decide))]
  decide +kernel

end FIFOPolicy

end CxlMemSim.Endpoint
