import CxlMemSim.Lib.Recency

/-! A walk of `HugePagePolicy` looks its page up in the TLB of the page's size, cache lines in that of 4K pages, and
enters it there when it is missing. -/
namespace CxlMemSim.Endpoint
open Function List

inductive PageType
  | cacheline
  | page
  | hugepage2M
  | hugepage1G
deriving DecidableEq

structure TLBCache where
  capacity : Nat
  entries : Recency UInt64 := {}

namespace TLBCache
variable (tlb : TLBCache) (pageAddr : UInt64)

/-- Undefined, as `insert`, where the index has no iterator of the list. -/
def lookup : Option (Bool × TLBCache) :=
  if (tlb.entries.index pageAddr).isSome then
    (tlb.entries.eraseNode pageAddr).map fun entries => (true, { tlb with entries := entries.pushFront pageAddr })
  else some (false, tlb)

def insert : Option TLBCache :=
  let removed :=
    if (tlb.entries.index pageAddr).isSome then
      (tlb.entries.eraseNode pageAddr).map fun entries => entries.forget pageAddr
    else some tlb.entries
  let evicted := removed.bind fun entries =>
    if tlb.capacity ≤ entries.nodes.length then entries.evict.map Prod.snd else some entries
  evicted.map fun entries => { tlb with entries := entries.pushFront pageAddr }

structure Consistent : Prop where
  list : tlb.entries.keys.Nodup
  index : ∀ page, (tlb.entries.index page).isSome ↔ page ∈ tlb.entries.keys
  within : tlb.entries.keys.length ≤ tlb.capacity

end TLBCache

inductive TlbSize
  | size4k
  | size2m
  | size1g
deriving DecidableEq

namespace TlbSize

def capacity : TlbSize → Nat
  | size4k => 64
  | size2m => 32
  | size1g => 4

def bits : TlbSize → UInt64
  | size4k => 12
  | size2m => 21
  | size1g => 30

def ptwReduction : TlbSize → Nat
  | size4k => 4
  | size2m => 3
  | size1g => 2

def pageAddr (size : TlbSize) (virtAddr : UInt64) : UInt64 := virtAddr &&& ~~~((1 <<< size.bits) - 1)

end TlbSize

def PageType.tlb : PageType → TlbSize
  | cacheline | page => .size4k
  | hugepage2M => .size2m
  | hugepage1G => .size1g

/-- The fields of one size, `tlb_4k` or `tlb_hits_4k`, are the values at that size. -/
structure HugePagePolicy where
  ptwBaseLatencyLocal : Nat
  ptwBaseLatencyRemote : Nat
  vaPaCache : UInt64 → Option UInt64 := fun _ => none
  tlb : TlbSize → TLBCache := fun size => { capacity := size.capacity }
  tlbHits : TlbSize → UInt64 := fun _ => 0
  tlbMisses : TlbSize → UInt64 := fun _ => 0
  ptwCount : UInt64 := 0

structure Walk where
  virtAddr : UInt64
  physAddr : UInt64
  isRemote : Bool
  pageSize : PageType

def Walk.pageAddr (w : Walk) : UInt64 := w.pageSize.tlb.pageAddr w.virtAddr

namespace HugePagePolicy

def walk (p : HugePagePolicy) (w : Walk) : Nat × HugePagePolicy :=
  let baseLatency := if w.isRemote then p.ptwBaseLatencyRemote else p.ptwBaseLatencyLocal
  let reduced := baseLatency * w.pageSize.tlb.ptwReduction
  if (p.vaPaCache w.virtAddr).isSome then (reduced / (5 * 4), p)
  else
    (reduced / 4, { p with
      ptwCount := p.ptwCount + 1
      vaPaCache := update p.vaPaCache w.virtAddr (some w.physAddr) })

def missed (p : HugePagePolicy) (size : TlbSize) (tlb : TLBCache) : HugePagePolicy :=
  { p with
    tlb := update p.tlb size tlb
    tlbMisses := update p.tlbMisses size (p.tlbMisses size + 1) }

def checkPageTableWalk (p : HugePagePolicy) (w : Walk) : Option (Nat × HugePagePolicy) :=
  let size := w.pageSize.tlb
  ((p.tlb size).lookup w.pageAddr).bind fun (hit, tlb) =>
    if hit then
      some (0, { p with
        tlb := update p.tlb size tlb
        tlbHits := update p.tlbHits size (p.tlbHits size + 1) })
    else
      (tlb.insert w.pageAddr).map fun tlb => (p.missed size tlb).walk w

def run (p : HugePagePolicy) (history : List Walk) : Option HugePagePolicy :=
  history.foldl (fun p w => p.bind fun p => (p.checkPageTableWalk w).map Prod.snd) (some p)

end HugePagePolicy

def presented (history : List Walk) (size : TlbSize) : List UInt64 :=
  (history.filter fun w => w.pageSize.tlb = size).map Walk.pageAddr

namespace TLBCache

structure Has (tlb : TLBCache) (pages : List UInt64) : Prop where
  sound : tlb.entries.Sound
  keys : tlb.entries.keys = (Recency.recent pages).take tlb.capacity

namespace Has
variable {tlb : TLBCache} {pages : List UInt64} (h : tlb.Has pages) {page : UInt64}
include h

theorem consistent : tlb.Consistent where
  list := h.sound.nodup_keys
  index := fun _ => h.sound.isSome_index
  within := h.keys ▸ length_take_le _ _

theorem use (page : UInt64) :
    (Recency.recent (pages ++ [page])).take tlb.capacity =
      (page :: tlb.entries.keys.filter (· ≠ page)).take tlb.capacity := by
  rw [Recency.recent_append, h.keys]
  exact (Recency.take_use (Recency.nodup_recent pages) tlb.capacity page).symm

theorem lookup_hit (present : page ∈ tlb.entries.keys) :
    ∃ tlb', tlb.lookup page = some (true, tlb') ∧ tlb'.capacity = tlb.capacity ∧ tlb'.Has (pages ++ [page]) := by
  obtain ⟨entries, erased, soundBut, keys⟩ := h.sound.eraseNode present
  rw [lookup, if_pos (h.sound.isSome_index.mpr present), erased]
  refine ⟨_, rfl, rfl, soundBut.pushFront, ?_⟩
  have less : (tlb.entries.keys.filter (· ≠ page)).length < tlb.capacity :=
    Nat.lt_of_lt_of_le (length_filter_lt_length_iff_exists.mpr ⟨page, present, by simp⟩) h.consistent.within
  rw [h.use, take_of_length_le less]
  exact congrArg (page :: ·) keys

theorem insert_missing (positive : 0 < tlb.capacity) (absent : page ∉ tlb.entries.keys) :
    ∃ tlb', tlb.insert page = some tlb' ∧ tlb'.capacity = tlb.capacity ∧ tlb'.Has (pages ++ [page]) := by
  have same : tlb.entries.keys.filter (· ≠ page) = tlb.entries.keys :=
    filter_eq_self.mpr fun k member => decide_eq_true fun same => absent (same ▸ member)
  have within := h.consistent.within
  have length : tlb.entries.nodes.length = tlb.entries.keys.length := (length_map _).symm
  rw [insert, if_neg (mt h.sound.isSome_index.mp absent)]
  rw [Option.bind_some, length]
  by_cases full : tlb.capacity ≤ tlb.entries.keys.length
  · obtain ⟨victim, entries, evicted, sound, keys⟩ :=
      h.sound.evict (ne_nil_of_length_pos (Nat.lt_of_lt_of_le positive full))
    rw [if_pos full, evicted]
    refine ⟨_, rfl, rfl, (sound.soundBut fun member => ?_).pushFront, ?_⟩
    · exact absent (keys ▸ mem_append_left _ member)
    · rw [keys, length_append, length_singleton] at within full
      rw [h.use, same, keys, ← cons_append, take_left' (Nat.le_antisymm within full)]
      rfl
  · rw [if_neg full]
    refine ⟨_, rfl, rfl, (h.sound.soundBut absent).pushFront, ?_⟩
    rw [h.use, same, take_of_length_le (Nat.lt_of_not_le full)]
    rfl

end Has
end TLBCache

namespace HugePagePolicy

def Has (p : HugePagePolicy) (history : List Walk) : Prop :=
  ∀ size, (p.tlb size).capacity = size.capacity ∧ (p.tlb size).Has (presented history size)

theorem has_update {p : HugePagePolicy} {history : List Walk} (h : p.Has history) (w : Walk) {tlb : TLBCache}
    (capacity : tlb.capacity = w.pageSize.tlb.capacity)
    (has : tlb.Has (presented history w.pageSize.tlb ++ [w.pageAddr])) (size : TlbSize) :
    (update p.tlb w.pageSize.tlb tlb size).capacity = size.capacity ∧
      (update p.tlb w.pageSize.tlb tlb size).Has (presented (history ++ [w]) size) := by
  by_cases same : size = w.pageSize.tlb
  · subst same
    simpa [presented] using ⟨capacity, has⟩
  · simpa [presented, same, Ne.symm same] using h size

theorem walk_keeps (p : HugePagePolicy) (w : Walk) : (p.walk w).2.tlb = p.tlb ∧ (p.walk w).2.tlbHits = p.tlbHits := by
  by_cases cached : (p.vaPaCache w.virtAddr).isSome <;> simp [walk, cached]

theorem checkPageTableWalk_spec {p : HugePagePolicy} {history : List Walk} (h : p.Has history) (w : Walk) :
    ∃ latency p', p.checkPageTableWalk w = some (latency, p') ∧ p'.Has (history ++ [w]) ∧
      (latency = 0 ∧ p'.tlbHits w.pageSize.tlb = p.tlbHits w.pageSize.tlb + 1 ↔
        w.pageAddr ∈ (p.tlb w.pageSize.tlb).entries.keys) := by
  obtain ⟨capacity, has⟩ := h w.pageSize.tlb
  rw [checkPageTableWalk]
  by_cases present : w.pageAddr ∈ (p.tlb w.pageSize.tlb).entries.keys
  · obtain ⟨tlb, found, kept, has'⟩ := has.lookup_hit present
    rw [found]
    exact ⟨_, _, rfl, has_update h w (kept.trans capacity) has', by simp [present]⟩
  · have positive : 0 < (p.tlb w.pageSize.tlb).capacity := by
      rw [capacity]
      cases w.pageSize.tlb <;> decide
    obtain ⟨tlb, inserted, kept, has'⟩ := has.insert_missing positive present
    rw [TLBCache.lookup, if_neg (mt has.sound.isSome_index.mp present), Option.bind_some]
    dsimp only
    rw [if_neg Bool.false_ne_true, inserted]
    obtain ⟨tlbs, hits⟩ := walk_keeps (p.missed w.pageSize.tlb tlb) w
    refine ⟨((p.missed w.pageSize.tlb tlb).walk w).1, ((p.missed w.pageSize.tlb tlb).walk w).2, rfl, fun size => ?_,
      iff_of_false (fun counted => ?_) present⟩
    · rw [tlbs]
      exact has_update h w (kept.trans capacity) has' size
    · rw [hits] at counted
      exact absurd counted.2 (by simp [missed])

theorem run_has (localLatency remoteLatency : Nat) (history : List Walk) :
    ∃ p, run { ptwBaseLatencyLocal := localLatency, ptwBaseLatencyRemote := remoteLatency } history = some p ∧
      p.Has history := by
  induction history using List.reverseRecOn with
  | nil => exact ⟨_, rfl, fun size => ⟨rfl, Recency.Sound.empty, take_nil.symm⟩⟩
  | append_singleton history w ih =>
    obtain ⟨p, isRun, has⟩ := ih
    obtain ⟨latency, p', step, has', -⟩ := checkPageTableWalk_spec has w
    refine ⟨p', ?_, has'⟩
    rw [run, foldl_append, ← run, isRun]
    exact congrArg (Option.map Prod.snd) step

/-- After any history a walk hits its TLB just if fewer other pages than fit were presented to that TLB since the
page's last walk. -/
theorem hit_iff_recent (localLatency remoteLatency : Nat) (history : List Walk) (w : Walk) :
    ∃ p latency p',
      run { ptwBaseLatencyLocal := localLatency, ptwBaseLatencyRemote := remoteLatency } history = some p ∧
      p.checkPageTableWalk w = some (latency, p') ∧
      (latency = 0 ∧ p'.tlbHits w.pageSize.tlb = p.tlbHits w.pageSize.tlb + 1 ↔
        ∃ older newer, presented history w.pageSize.tlb = older ++ w.pageAddr :: newer ∧ w.pageAddr ∉ newer ∧
          newer.toFinset.card < w.pageSize.tlb.capacity) ∧
      ∀ size, (p.tlb size).Consistent ∧ (p.tlb size).capacity = size.capacity := by
  obtain ⟨p, isRun, has⟩ := run_has localLatency remoteLatency history
  obtain ⟨latency, p', step, -, hit⟩ := checkPageTableWalk_spec has w
  obtain ⟨capacity, tlb⟩ := has w.pageSize.tlb
  refine ⟨p, latency, p', isRun, step, ?_, fun size => ⟨(has size).2.consistent, (has size).1⟩⟩
  rw [hit, tlb.keys, capacity, Recency.mem_take_recent]

end HugePagePolicy

end CxlMemSim.Endpoint
