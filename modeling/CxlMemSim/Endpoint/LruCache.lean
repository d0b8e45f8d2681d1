import CxlMemSim.Lib.Recency
import Mathlib.Data.List.AList

/-! `LRUCache` keeps its entries in a hash map and their keys in a list, the most recently used first, with a map of
iterators into it. -/
namespace CxlMemSim.Endpoint
open List

structure LRUCacheEntry where
  key : UInt64
  value : UInt64
  timestamp : UInt64
deriving DecidableEq

/-- `lru_list` and `lru_map` together are `lru`. -/
structure LRUCache where
  capacity : Nat
  cache : AList (fun _ : UInt64 => LRUCacheEntry) := ∅
  lru : Recency UInt64 := {}

inductive CacheOp
  | get (key timestamp : UInt64)
  | put (key value timestamp : UInt64)
  | remove (key : UInt64)
  | peek (key : UInt64)
  | contains (key : UInt64)
  | clear

inductive CacheAnswer
  | value (value : Option UInt64)
  | flag (flag : Bool)
  | done

namespace LRUCache
variable (c : LRUCache)

def size : Nat := c.cache.entries.length

def contains (key : UInt64) : Bool := (c.cache.lookup key).isSome

def peek (key : UInt64) : Option UInt64 := (c.cache.lookup key).map LRUCacheEntry.value

def clear : LRUCache := { c with cache := ∅, lru := { c.lru with nodes := [], index := fun _ => none } }

/-- Undefined, as the calls below, where the iterator for the key is not one of the list. -/
def get (key timestamp : UInt64) : Option (Option UInt64 × LRUCache) :=
  match c.cache.lookup key with
  | none => some (none, c)
  | some entry => (c.lru.eraseNode key).map fun lru =>
    (some entry.value, { c with lru := lru.pushFront key, cache := c.cache.insert key { entry with timestamp } })

/-- The old place of the key, or the least recently used key of a full cache, is taken out. -/
def makeRoom (key : UInt64) : Option LRUCache :=
  if c.contains key then (c.lru.eraseNode key).map fun lru => { c with lru }
  else if c.capacity ≤ c.size then
    c.lru.evict.map fun (victim, lru) => { c with lru, cache := c.cache.erase victim }
  else some c

def put (key value timestamp : UInt64) : Option LRUCache :=
  (c.makeRoom key).map fun c =>
    { c with lru := c.lru.pushFront key, cache := c.cache.insert key ⟨key, value, timestamp⟩ }

def remove (key : UInt64) : Option (Bool × LRUCache) :=
  if c.contains key then
    (c.lru.eraseNode key).map fun lru => (true, { c with lru := lru.forget key, cache := c.cache.erase key })
  else some (false, c)

def call : CacheOp → Option (CacheAnswer × LRUCache)
  | .get key timestamp => (c.get key timestamp).map (Prod.map .value id)
  | .put key value timestamp => (c.put key value timestamp).map (Prod.mk .done)
  | .remove key => (c.remove key).map (Prod.map .flag id)
  | .peek key => some (.value (c.peek key), c)
  | .contains key => some (.flag (c.contains key), c)
  | .clear => some (.done, c.clear)

def run (c : LRUCache) : List CacheOp → Option (List CacheAnswer × LRUCache)
  | [] => some ([], c)
  | op :: rest => (c.call op).bind fun (answer, c) => (c.run rest).map (Prod.map (answer :: ·) id)

/-- The three structures have the same keys, each once. -/
structure SameKeys : Prop where
  list : c.lru.keys.Nodup
  cache : c.cache.keys.Perm c.lru.keys
  map : ∀ key, (c.lru.index key).isSome ↔ key ∈ c.lru.keys

end LRUCache

abbrev Residents := List LRUCacheEntry

namespace Residents
variable (l : Residents)

def keys : List UInt64 := l.map LRUCacheEntry.key

def entry (key : UInt64) : Option LRUCacheEntry := l.find? fun e => e.key = key

def others (key : UInt64) : Residents := l.filter fun e => e.key ≠ key

def value (key : UInt64) : Option UInt64 := (l.entry key).map LRUCacheEntry.value

def makeRoom (capacity : Nat) (key : UInt64) : Residents :=
  if key ∈ l.keys then l.others key else if capacity ≤ l.length then l.dropLast else l

def call (capacity : Nat) : CacheOp → CacheAnswer × Residents
  | .get key timestamp =>
    (.value (l.value key), (l.entry key).elim l fun e => { e with timestamp } :: l.others key)
  | .put key value timestamp => (.done, ⟨key, value, timestamp⟩ :: l.makeRoom capacity key)
  | .remove key => (.flag (key ∈ l.keys), l.others key)
  | .peek key => (.value (l.value key), l)
  | .contains key => (.flag (key ∈ l.keys), l)
  | .clear => (.done, [])

def step (capacity : Nat) (l : Residents) (op : CacheOp) : Residents := (l.call capacity op).2

def answers (capacity : Nat) : Residents → List CacheOp → List CacheAnswer
  | _, [] => []
  | l, op :: rest => (l.call capacity op).1 :: answers capacity (step capacity l op) rest

def Drops (capacity : Nat) (key : UInt64) : CacheOp → Prop
  | .remove other => other = key
  | .put other _ _ => other ∉ l.keys ∧ capacity ≤ l.length ∧ l.keys.getLast? = some key
  | .clear => True
  | _ => False

instance (capacity : Nat) (key : UInt64) (op : CacheOp) : Decidable (l.Drops capacity key op) := by
  cases op <;> unfold Drops <;> infer_instance

end Residents

def CacheOp.Puts (key : UInt64) : CacheOp → Prop
  | .put other _ _ => other = key
  | _ => False

namespace Residents
variable {l : Residents} {key : UInt64}

theorem entry_cons (e : LRUCacheEntry) (l : Residents) (key : UInt64) :
    entry (e :: l) key = if e.key = key then some e else l.entry key := by
  by_cases same : e.key = key <;> simp [entry, same]

theorem entry_others (l : Residents) (key other : UInt64) :
    (l.others key).entry other = if other = key then none else l.entry other := by
  by_cases same : other = key
  · subst same
    simp [entry, others]
  · rw [if_neg same, entry, others, find?_filter]
    refine congrArg (List.find? · l) (funext fun e => ?_)
    by_cases found : e.key = other <;> simp [found, same]

theorem isSome_entry (l : Residents) (key : UInt64) : (l.entry key).isSome = decide (key ∈ l.keys) := by
  rw [Bool.eq_iff_iff, decide_eq_true_iff]
  simp [entry, keys]

theorem keys_others (l : Residents) (key : UInt64) : (l.others key).keys = l.keys.filter (· ≠ key) := by
  rw [keys, keys, others, filter_map]
  rfl

theorem others_of_notMem (absent : key ∉ l.keys) : l.others key = l := by
  refine filter_eq_self.mpr fun e member => decide_eq_true fun same => absent ?_
  exact mem_map.mpr ⟨e, member, same⟩

theorem key_of_entry {e : LRUCacheEntry} (found : l.entry key = some e) : e.key = key := by
  have passes := find?_some found
  exact of_decide_eq_true passes

theorem entry_dropLast (distinct : l.keys.Nodup) {init : Residents} {last : LRUCacheEntry} (split : l = init ++ [last])
    (key : UInt64) : init.entry key = if key = last.key then none else l.entry key := by
  subst split
  by_cases same : key = last.key
  · rw [if_pos same, entry, find?_eq_none]
    intro e member found
    rw [keys, map_append, nodup_append] at distinct
    exact distinct.2.2 _ (mem_map_of_mem member) _ mem_cons_self ((of_decide_eq_true found).trans same)
  · rw [if_neg same, entry, entry, find?_append, find?_cons_of_neg (by simpa using Ne.symm same)]
    simp

end Residents

namespace LRUCache

structure Refines (capacity : Nat) (c : LRUCache) (l : Residents) : Prop where
  holds : c.capacity = capacity
  sound : c.lru.Sound
  keys : c.lru.keys = l.keys
  lookup : ∀ key, c.cache.lookup key = l.entry key
  within : l.length ≤ capacity

structure Room (capacity : Nat) (key : UInt64) (c : LRUCache) (l : Residents) : Prop where
  holds : c.capacity = capacity
  soundBut : c.lru.SoundBut key
  keys : c.lru.keys = l.keys
  lookup : ∀ other, other ≠ key → c.cache.lookup other = l.entry other
  within : l.length < capacity

variable {capacity : Nat} {c : LRUCache} {l : Residents} {key : UInt64}

theorem Room.front (h : c.Room capacity key l) {e : LRUCacheEntry} (own : e.key = key) :
    Refines capacity { c with lru := c.lru.pushFront key, cache := c.cache.insert key e } (e :: l) where
  holds := h.holds
  sound := h.soundBut.pushFront
  keys := congrArg₂ List.cons own.symm h.keys
  lookup := by
    intro other
    rw [Residents.entry_cons, own]
    by_cases same : key = other
    · rw [if_pos same, ← same]
      exact AList.lookup_insert c.cache
    · rw [if_neg same, ← h.lookup other (Ne.symm same)]
      exact AList.lookup_insert_ne (Ne.symm same)
  within := h.within

namespace Refines
variable (h : c.Refines capacity l)
include h

theorem nodup : l.keys.Nodup := h.keys ▸ h.sound.nodup_keys

theorem contains (key : UInt64) : c.contains key = decide (key ∈ l.keys) := by
  rw [LRUCache.contains, h.lookup, Residents.isSome_entry]

theorem sameKeys : c.SameKeys where
  list := h.sound.nodup_keys
  cache := by
    refine (perm_ext_iff_of_nodup c.cache.keys_nodup h.sound.nodup_keys).mpr fun key => ?_
    rw [h.keys, ← AList.mem_keys, ← AList.lookup_isSome, h.lookup, Residents.isSome_entry, decide_eq_true_iff]
  map := fun _ => h.sound.isSome_index

theorem size : c.size = l.length := by
  have same := h.sameKeys.cache.length_eq
  rw [h.keys, Residents.keys, length_map] at same
  rw [← same]
  exact (length_map _).symm

theorem taken (present : key ∈ l.keys) :
    ∃ lru, c.lru.eraseNode key = some lru ∧ Room capacity key { c with lru } (l.others key) := by
  obtain ⟨lru, erased, soundBut, keys⟩ := h.sound.eraseNode (h.keys ▸ present)
  refine ⟨lru, erased, h.holds, soundBut, ?_, fun other differs => ?_, ?_⟩
  · rw [keys, h.keys, Residents.keys_others]
  · rw [Residents.entry_others, if_neg differs]
    exact h.lookup other
  · obtain ⟨e, member, same⟩ := mem_map.mp present
    refine Nat.lt_of_lt_of_le (length_filter_lt_length_iff_exists.mpr ⟨e, member, ?_⟩) h.within
    simpa using same

theorem evicted (absent : key ∉ l.keys) (positive : 1 ≤ capacity) (full : capacity ≤ l.length) :
    ∃ victim lru, c.lru.evict = some (victim, lru) ∧
      Room capacity key { c with lru, cache := c.cache.erase victim } l.dropLast := by
  obtain rfl | ⟨init, last, split⟩ := eq_nil_or_concat l
  · exact absurd (Nat.le_trans positive full) (Nat.not_succ_le_zero 0)
  rw [concat_eq_append] at split
  have keys : l.keys = init.map LRUCacheEntry.key ++ [last.key] := by
    rw [split, Residents.keys, map_append, map_singleton]
  obtain ⟨victim, lru, evicted, sound, evictedKeys⟩ := h.sound.evict (by rw [h.keys, keys]; simp)
  obtain ⟨same, last'⟩ := append_inj' ((evictedKeys.symm.trans h.keys).trans keys) rfl
  obtain rfl := singleton_inj.mp last'
  have rest : l.dropLast = init := by rw [split, dropLast_concat]
  rw [rest]
  refine ⟨_, lru, evicted, h.holds, sound.soundBut fun member => ?_, same, fun other _ => ?_, ?_⟩
  · rw [same] at member
    exact absent (keys ▸ mem_append_left _ member)
  · rw [Residents.entry_dropLast h.nodup split, ← h.lookup]
    by_cases gone : other = last.key
    · rw [if_pos gone, gone]
      exact AList.lookup_erase _ _
    · rw [if_neg gone]
      exact AList.lookup_erase_ne gone
  · have within := h.within
    rw [split, length_append] at within
    exact within

theorem makeRoom (positive : 1 ≤ capacity) (key : UInt64) :
    ∃ c', c.makeRoom key = some c' ∧ c'.Room capacity key (l.makeRoom capacity key) := by
  have isFull : c.capacity ≤ c.size ↔ capacity ≤ l.length := by rw [h.holds, h.size]
  rw [LRUCache.makeRoom, h.contains, Residents.makeRoom]
  by_cases present : key ∈ l.keys
  · obtain ⟨lru, erased, room⟩ := h.taken present
    rw [if_pos (decide_eq_true present), if_pos present, erased]
    exact ⟨_, rfl, room⟩
  · rw [if_neg (by simpa using present), if_neg present]
    by_cases full : capacity ≤ l.length
    · obtain ⟨victim, lru, evicted, room⟩ := h.evicted present positive full
      rw [if_pos (isFull.mpr full), if_pos full, evicted]
      exact ⟨_, rfl, room⟩
    · rw [if_neg (mt isFull.mp full), if_neg full]
      exact ⟨c, rfl, h.holds, h.sound.soundBut (h.keys ▸ present), h.keys, fun other _ => h.lookup other,
        Nat.lt_of_not_le full⟩

theorem get (key timestamp : UInt64) :
    ∃ c', c.get key timestamp = some (l.value key, c') ∧
      c'.Refines capacity ((l.entry key).elim l fun e => { e with timestamp } :: l.others key) := by
  rw [LRUCache.get, h.lookup, Residents.value]
  cases found : l.entry key with
  | none => exact ⟨c, rfl, h⟩
  | some e =>
    have present : key ∈ l.keys := by
      rw [← decide_eq_true_iff (p := key ∈ l.keys), ← Residents.isSome_entry, found]
      rfl
    obtain ⟨lru, erased, room⟩ := h.taken present
    rw [erased]
    have own := Residents.key_of_entry found
    exact ⟨_, rfl, room.front own⟩

theorem put (positive : 1 ≤ capacity) (key value timestamp : UInt64) :
    ∃ c', c.put key value timestamp = some c' ∧
      c'.Refines capacity (⟨key, value, timestamp⟩ :: l.makeRoom capacity key) := by
  obtain ⟨c', made, room⟩ := h.makeRoom positive key
  rw [LRUCache.put, made]
  exact ⟨_, rfl, room.front rfl⟩

theorem remove (key : UInt64) :
    ∃ c', c.remove key = some (decide (key ∈ l.keys), c') ∧ c'.Refines capacity (l.others key) := by
  rw [LRUCache.remove, h.contains]
  by_cases present : key ∈ l.keys
  · obtain ⟨lru, erased, room⟩ := h.taken present
    rw [if_pos (decide_eq_true present), erased, decide_eq_true present]
    refine ⟨_, rfl, h.holds, room.soundBut.forget, room.keys, fun other => ?_, Nat.le_of_lt room.within⟩
    by_cases same : other = key
    · rw [Residents.entry_others, if_pos same, same]
      exact AList.lookup_erase key c.cache
    · rw [← room.lookup other same]
      exact AList.lookup_erase_ne same
  · rw [if_neg (by simpa using present), decide_eq_false present, Residents.others_of_notMem present]
    exact ⟨c, rfl, h⟩

theorem call (positive : 1 ≤ capacity) (op : CacheOp) :
    ∃ c', c.call op = some ((l.call capacity op).1, c') ∧ c'.Refines capacity (Residents.step capacity l op) := by
  cases op with
  | get key timestamp =>
    obtain ⟨c', answer, refines⟩ := h.get key timestamp
    exact ⟨c', by rw [LRUCache.call, answer]; rfl, refines⟩
  | put key value timestamp =>
    obtain ⟨c', answer, refines⟩ := h.put positive key value timestamp
    exact ⟨c', by rw [LRUCache.call, answer]; rfl, refines⟩
  | remove key =>
    obtain ⟨c', answer, refines⟩ := h.remove key
    exact ⟨c', by rw [LRUCache.call, answer]; rfl, refines⟩
  | peek key => exact ⟨c, by rw [LRUCache.call, peek, h.lookup]; rfl, h⟩
  | contains key => exact ⟨c, by rw [LRUCache.call, h.contains]; rfl, h⟩
  | clear =>
    refine ⟨c.clear, rfl, h.holds, ⟨nodup_nil, ?_, ?_⟩, rfl, fun _ => rfl, Nat.zero_le _⟩ <;> simp [clear]

theorem run (positive : 1 ≤ capacity) (ops : List CacheOp) :
    ∃ c', c.run ops = some (l.answers capacity ops, c') ∧
      c'.Refines capacity (ops.foldl (Residents.step capacity) l) := by
  induction ops generalizing c l with
  | nil => exact ⟨c, rfl, h⟩
  | cons op rest ih =>
    obtain ⟨c', answer, refines⟩ := h.call positive op
    obtain ⟨final, answers, refinesFinal⟩ := ih refines
    refine ⟨final, ?_, refinesFinal⟩
    rw [LRUCache.run, answer]
    exact congrArg (Option.map _) answers

end Refines

theorem refines_empty (capacity : Nat) : Refines capacity { capacity } [] :=
  ⟨rfl, Recency.Sound.empty, rfl, fun _ => rfl, Nat.zero_le _⟩

end LRUCache

namespace Residents
variable {capacity : Nat} {key : UInt64}

variable {l : Residents}

theorem entry_makeRoom (distinct : l.keys.Nodup) {k : UInt64} (differs : k ≠ key) (v timestamp : UInt64) :
    (l.makeRoom capacity k).entry key = if l.Drops capacity key (.put k v timestamp) then none else l.entry key := by
  rw [makeRoom]
  by_cases present : k ∈ l.keys
  · rw [if_pos present, if_neg fun drops => drops.1 present, entry_others, if_neg differs.symm]
  · rw [if_neg present]
    by_cases full : capacity ≤ l.length
    · rw [if_pos full]
      obtain rfl | ⟨init, last, split⟩ := eq_nil_or_concat l
      · simp [Drops, keys]
      · rw [concat_eq_append] at split
        have oldest : l.keys.getLast? = some last.key := by simp [keys, split]
        have rest : l.dropLast = init := by rw [split, dropLast_concat]
        rw [rest, entry_dropLast distinct split]
        simp [Drops, oldest, present, full, eq_comm]
    · simp [Drops, full]

theorem value_step (distinct : l.keys.Nodup) {op : CacheOp} (other : ¬ op.Puts key) :
    (step capacity l op).value key = if l.Drops capacity key op then none else l.value key := by
  cases op with
  | get k timestamp =>
    cases found : l.entry k with
    | none => simp [step, call, found, Drops]
    | some e =>
      by_cases same : k = key
      · subst same
        simp [step, call, value, found, entry_cons, key_of_entry found, Drops]
      · simp [step, call, value, found, entry_cons, key_of_entry found, entry_others, same, Ne.symm same, Drops]
  | put k v timestamp =>
    have differs : k ≠ key := other
    rw [value, step, call, entry_cons, if_neg differs, entry_makeRoom distinct differs v timestamp]
    exact apply_ite (Option.map LRUCacheEntry.value) _ _ _
  | remove k => by_cases same : key = k <;> simp [step, call, value, entry_others, Drops, same, eq_comm]
  | peek | contains | clear => rfl

def after (capacity : Nat) (ops : List CacheOp) : Residents := ops.foldl (step capacity) []

end Residents

namespace LRUCache
variable {capacity : Nat} {key : UInt64} {ops : List CacheOp}

theorem Refines.value_run (positive : 1 ≤ capacity) {c : LRUCache} (h : c.Refines capacity l)
    (others : ∀ op ∈ ops, ¬ op.Puts key) :
    (ops.foldl (Residents.step capacity) l).value key =
      if Run.EveryStep (Residents.step capacity) (fun l op => ¬ l.Drops capacity key op) l ops then l.value key
      else none := by
  induction ops generalizing c l with
  | nil => rfl
  | cons op rest ih =>
    obtain ⟨c', -, refines⟩ := h.call positive op
    rw [forall_mem_cons] at others
    rw [foldl_cons, ih refines others.2, Residents.value_step h.nodup others.1]
    by_cases drops : l.Drops capacity key op <;> simp [drops]

structure Serves (capacity : Nat) (ops : List CacheOp) (c : LRUCache) : Prop where
  /-- The value of the last put, unless the key was evicted or removed after it. -/
  last_put : ∀ before key value timestamp later, ops = before ++ .put key value timestamp :: later →
    (∀ op ∈ later, ¬ op.Puts key) → ∀ now, (c.get key now).map Prod.fst =
      some (if Run.EveryStep (Residents.step capacity) (fun l op => ¬ l.Drops capacity key op)
        (Residents.after capacity (before ++ [.put key value timestamp])) later then some value else none)
  never_put : ∀ key, (∀ op ∈ ops, ¬ op.Puts key) → ∀ now, (c.get key now).map Prod.fst = some none

theorem Refines.serves (positive : 1 ≤ capacity) {c : LRUCache}
    (h : c.Refines capacity (Residents.after capacity ops)) : c.Serves capacity ops where
  last_put := by
    rintro before key value timestamp later rfl others now
    obtain ⟨c', answer, -⟩ := h.get key now
    obtain ⟨_, -, refines⟩ := (refines_empty capacity).run positive (before ++ [.put key value timestamp])
    have run := refines.value_run positive others
    have start : (Residents.after capacity (before ++ [.put key value timestamp])).value key = some value := by
      rw [Residents.after, foldl_append]
      simp [Residents.step, Residents.call, Residents.value, Residents.entry_cons]
    have split : Residents.after capacity (before ++ .put key value timestamp :: later) =
        later.foldl (Residents.step capacity) (Residents.after capacity (before ++ [.put key value timestamp])) := by
      simp [Residents.after]
    rw [← Residents.after, start, ← split] at run
    rw [answer]
    exact congrArg some run
  never_put := by
    intro key others now
    obtain ⟨c', answer, -⟩ := h.get key now
    have run := (refines_empty capacity).value_run positive others
    rw [answer]
    refine congrArg some (run.trans ?_)
    exact ite_self _

/-- The cache refines a list of entries in the order of their last use. -/
theorem run_refines {capacity : Nat} (positive : 1 ≤ capacity) (ops : List CacheOp) :
    ∃ c, run { capacity } ops = some (Residents.answers capacity [] ops, c) ∧
      c.lru.keys = (Residents.after capacity ops).keys ∧
      (∀ key, c.cache.lookup key = (Residents.after capacity ops).entry key) ∧
      c.SameKeys ∧ c.size ≤ capacity ∧ c.Serves capacity ops := by
  obtain ⟨c, answers, refines⟩ := (refines_empty capacity).run positive ops
  exact ⟨c, answers, refines.keys, refines.lookup, refines.sameKeys, refines.size ▸ refines.within,
    refines.serves positive⟩

theorem run_refines_two :
    ∃ c, run { capacity := 2 } [.put 1 10 1, .put 2 20 2, .get 1 3, .put 3 30 4] =
        some ([.done, .done, .value (some 10), .done], c) ∧ c.lru.keys = [3, 1] := by
  obtain ⟨c, answers, keys, -⟩ := @run_refines 2 (by decide)
    [.put 1 10 1, .put 2 20 2, .get 1 3, .put 3 30 4]
  exact ⟨c, answers, keys⟩

end LRUCache

theorem Residents.length_others_lt {l : Residents} {key : UInt64} (present : key ∈ l.keys) :
    (l.others key).length < l.length := by
  obtain ⟨e, member, same⟩ := mem_map.mp present
  exact length_filter_lt_length_iff_exists.mpr ⟨e, member, by simpa using same⟩

/-- What a cache of one capacity has beside one with `spare` more places. -/
structure Included (spare : Nat) (small big : Residents) : Prop where
  sublist : small <+ big
  spare : big.length ≤ small.length + spare

namespace Included
variable {spare capacity : Nat} {small big : Residents} (h : Included spare small big)
include h

theorem keys : small.keys <+ big.keys := h.sublist.map _

theorem cons (e : LRUCacheEntry) : Included spare (e :: small) (e :: big) :=
  ⟨h.sublist.cons_cons e, by simpa [Nat.add_right_comm] using h.spare⟩

theorem entry (distinct : big.keys.Nodup) {key : UInt64} {e : LRUCacheEntry} (found : small.entry key = some e) :
    big.entry key = some e := by
  have member := h.sublist.subset (mem_of_find?_eq_some found)
  have present : (big.entry key).isSome := by
    rw [Residents.isSome_entry, decide_eq_true_iff]
    exact mem_map.mpr ⟨e, member, Residents.key_of_entry found⟩
  obtain ⟨e', found'⟩ := Option.isSome_iff_exists.mp present
  have same := (Residents.key_of_entry found').trans (Residents.key_of_entry found).symm
  rw [found', inj_on_of_nodup_map distinct (mem_of_find?_eq_some found') member same]

theorem others (key : UInt64) : Included spare (small.others key) (big.others key) := by
  refine ⟨h.sublist.filter _, ?_⟩
  have taken := (h.sublist.filter fun e => !decide (e.key ≠ key)).length_le
  have ofSmall := small.length_eq_length_filter_add fun e => e.key ≠ key
  have ofBig := big.length_eq_length_filter_add fun e => e.key ≠ key
  have spare := h.spare
  rw [Residents.others, Residents.others]
  omega

theorem makeRoom (key : UInt64) :
    Included spare (small.makeRoom capacity key) (big.makeRoom (capacity + spare) key) := by
  obtain ⟨sublist, spare⟩ := h.others key
  have before := h.spare
  rw [Residents.makeRoom, Residents.makeRoom]
  by_cases inSmall : key ∈ small.keys
  · rw [if_pos inSmall, if_pos (h.keys.subset inSmall)]
    exact ⟨sublist, spare⟩
  rw [if_neg inSmall]
  rw [Residents.others_of_notMem inSmall] at sublist
  by_cases inBig : key ∈ big.keys
  · have less := Residents.length_others_lt inBig
    rw [if_pos inBig]
    split_ifs
    · refine ⟨(dropLast_sublist _).trans sublist, ?_⟩
      rw [length_dropLast]
      omega
    · exact ⟨sublist, by omega⟩
  · rw [if_neg inBig]
    split_ifs
    · have ends := (reverse_sublist.mpr h.sublist).tail
      rw [tail_reverse, tail_reverse, reverse_sublist] at ends
      refine ⟨ends, ?_⟩
      rw [length_dropLast, length_dropLast]
      omega
    · refine ⟨(dropLast_sublist _).trans h.sublist, ?_⟩
      rw [length_dropLast]
      omega
    · omega
    · exact h

theorem step (distinct : big.keys.Nodup) (op : CacheOp) :
    Included spare (Residents.step capacity small op) (Residents.step (capacity + spare) big op) := by
  cases op with
  | get key timestamp =>
    rw [Residents.step, Residents.step, Residents.call, Residents.call]
    cases inSmall : small.entry key with
    | some e =>
      rw [h.entry distinct inSmall]
      exact (h.others key).cons _
    | none =>
      cases inBig : big.entry key with
      | none => exact h
      | some e =>
        have absent : key ∉ small.keys := by simpa [Residents.isSome_entry] using congrArg Option.isSome inSmall
        have present : key ∈ big.keys := by simpa [Residents.isSome_entry] using congrArg Option.isSome inBig
        have others := (h.others key).sublist
        rw [Residents.others_of_notMem absent] at others
        exact ⟨others.cons _, Nat.le_trans (Residents.length_others_lt present) h.spare⟩
  | put key value timestamp => exact (h.makeRoom key).cons _
  | remove key => exact h.others key
  | peek | contains => exact h
  | clear => exact ⟨nil_sublist _, Nat.zero_le _⟩

end Included

/-- Whatever the calls are, a larger cache has all that a smaller one has, in the same order. -/
theorem LRUCache.larger_includes (n spare : Nat) (ops : List CacheOp) :
    ∃ answers answers' c c', run { capacity := n + 1 } ops = some (answers, c) ∧
      run { capacity := n + 1 + spare } ops = some (answers', c') ∧ c.lru.keys <+ c'.lru.keys ∧
      ∀ key e, c.cache.lookup key = some e → c'.cache.lookup key = some e := by
  have runs := fun capacity => (refines_empty (capacity + 1)).run (Nat.le_add_left 1 capacity)
  have included : Included spare (Residents.after (n + 1) ops) (Residents.after (n + 1 + spare) ops) := by
    induction ops using List.reverseRecOn with
    | nil => exact ⟨nil_sublist _, Nat.zero_le _⟩
    | append_singleton ops op ih =>
      obtain ⟨_, -, refines⟩ := runs (n + spare) ops
      rw [Residents.after, Residents.after, foldl_append, foldl_append]
      exact ih.step (Nat.add_right_comm n 1 spare ▸ refines.nodup) op
  obtain ⟨c, isRun, refines⟩ := runs n ops
  obtain ⟨c', isRun', refines'⟩ := runs (n + spare) ops
  rw [Nat.add_right_comm n spare 1] at isRun' refines'
  refine ⟨_, _, c, c', isRun, isRun', ?_, fun key e found => ?_⟩
  · rw [refines.keys, refines'.keys]
    exact included.keys
  · rw [refines.lookup] at found
    rw [refines'.lookup]
    exact included.entry refines'.nodup found

end CxlMemSim.Endpoint
