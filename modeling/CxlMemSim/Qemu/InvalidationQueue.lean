import CxlMemSim.Lib.RingBuffer
import CxlMemSim.Lib.Run
import CxlMemSim.Qemu.SimpleServer

/-! A device registers the new data of a line in a circular queue, and the hook on the reader's side looks there for the
line that it reads. -/
namespace CxlMemSim.Qemu
open List

def maxInvalidations : Nat := 1024

/-- `back_invalidation_t`, with the number of the registration that wrote it, which the source does not store. -/
structure BackInvalidation where
  physAddr : UInt64 := 0
  data : Line := fun _ => 0
  number : Nat := 0

def cachelineAddr (physAddr : UInt64) : UInt64 := physAddr &&& ~~~63

structure InvalidationQueue where
  head : Fin maxInvalidations := ⟨0, by decide⟩
  tail : Fin maxInvalidations := ⟨0, by decide⟩
  entries : Fin maxInvalidations → BackInvalidation := fun _ => {}

structure CheckArgs where
  physAddr : UInt64
  size : UInt64
  wantsData : Bool := true

structure RegisterArgs where
  physAddr : UInt64
  data : Option Line
  size : UInt64 := 64

namespace BackInvalidation

def onLine (physAddr : UInt64) (entry : BackInvalidation) : Bool :=
  cachelineAddr entry.physAddr = cachelineAddr physAddr

def bytes (entry : BackInvalidation) (args : CheckArgs) : List UInt8 :=
  if args.wantsData then
    let offset := args.physAddr &&& 63
    let copySize := if args.size + offset > 64 then 64 - offset else args.size
    ((List.ofFn entry.data).drop offset.toNat).take copySize.toNat
  else []

end BackInvalidation

namespace InvalidationQueue
open RingBuffer (place)
variable (q : InvalidationQueue)

abbrev ring : RingBuffer.Queue maxInvalidations BackInvalidation := ⟨q.tail, q.head, q.entries⟩

def checkAndApplyInvalidation (args : CheckArgs) : InvalidationQueue × Option (Nat × List UInt8) :=
  match q.ring.seek (BackInvalidation.onLine args.physAddr) maxInvalidations q.head with
  | some current =>
    (if current = q.head then { q with head := place q.head 1 } else q,
      some ((q.entries current).number, (q.entries current).bytes args))
  | none => (q, none)

def registerInvalidation (args : RegisterArgs) (number : Nat) : Option InvalidationQueue :=
  let nextTail := place q.tail 1
  if nextTail ≠ q.head then
    let old := (q.entries q.tail).data
    let data := match args.data with
      | some data => if args.size ≤ 64 then copyLine old data args.size else old
      | none => old
    some { q with
      tail := nextTail
      entries := Function.update q.entries q.tail ⟨args.physAddr, data, number⟩ }
  else none

end InvalidationQueue

inductive InvalidationCall where
  | register (args : RegisterArgs)
  | check (args : CheckArgs)

/-- The queue, how many registrations it has accepted, those that checks have applied, the last one first, and those of
them that were found behind the queue's head, which then stays where it is. -/
structure Invalidations where
  queue : InvalidationQueue := {}
  accepted : Nat := 0
  applied : List Nat := []
  behind : List Nat := []

namespace Invalidations
variable (s : Invalidations)

def step : InvalidationCall → Invalidations
  | .register args =>
    match s.queue.registerInvalidation args s.accepted with
    | some queue => { s with queue, accepted := s.accepted + 1 }
    | none => s
  | .check args =>
    match s.queue.checkAndApplyInvalidation args with
    | (queue, some (number, _)) => { s with
        queue
        applied := number :: s.applied
        behind := if queue.head = s.queue.head then number :: s.behind else s.behind }
    | (queue, none) => { s with queue }

def matching (physAddr : UInt64) : List BackInvalidation :=
  s.queue.ring.contents.filter (BackInvalidation.onLine physAddr)

def pending (physAddr : UInt64) : List BackInvalidation :=
  (s.matching physAddr).filter fun entry => entry.number ∉ s.applied

/-- A check that finds several registrations pending yields the last one, and no older one is left. -/
def YieldsNewest : InvalidationCall → Prop
  | .register _ => True
  | .check args => 2 ≤ (s.pending args.physAddr).length → ∃ newest ∈ (s.pending args.physAddr).getLast?,
      (s.queue.checkAndApplyInvalidation args).2 = some (newest.number, newest.bytes args) ∧
      ∀ left ∈ (s.step (.check args)).matching args.physAddr, ¬ left.number < newest.number

/-- A check finds no more than one registration of its line, and none that was found behind the head before. -/
def Guarded : InvalidationCall → Prop
  | .register _ => True
  | .check args => (s.matching args.physAddr).length ≤ 1 ∧
      ∀ entry ∈ s.matching args.physAddr, entry.number ∉ s.behind

end Invalidations

namespace InvalidationQueue
variable {q after : InvalidationQueue}

theorem contents_register {args : RegisterArgs} {number : Nat}
    (accepted : q.registerInvalidation args number = some after) :
    ∃ entry : BackInvalidation, entry.number = number ∧ after.ring.contents = q.ring.contents ++ [entry] := by
  rw [registerInvalidation] at accepted
  split at accepted
  · rename_i room
    cases accepted
    refine ⟨_, rfl, RingBuffer.Queue.contents_push (if_neg room)⟩
  · cases accepted

theorem result_check (q : InvalidationQueue) (args : CheckArgs) :
    (q.checkAndApplyInvalidation args).2 =
      (q.ring.contents.find? (BackInvalidation.onLine args.physAddr)).map
        fun entry => (entry.number, entry.bytes args) := by
  have found := RingBuffer.Queue.map_seek (q := q.ring) (BackInvalidation.onLine args.physAddr)
  rw [checkAndApplyInvalidation, ← found]
  split
  · rename_i current sought
    rw [sought]
    rfl
  · rename_i sought
    rw [sought]
    rfl

theorem contents_check (q : InvalidationQueue) (args : CheckArgs) :
    (q.checkAndApplyInvalidation args).1 = q ∨ ∃ entry, entry.onLine args.physAddr = true ∧
      q.ring.contents = entry :: (q.checkAndApplyInvalidation args).1.ring.contents := by
  have found := RingBuffer.Queue.map_seek (q := q.ring) (BackInvalidation.onLine args.physAddr)
  rw [checkAndApplyInvalidation]
  split
  · rename_i current sought
    rw [sought] at found
    split
    · rename_i front
      have nonempty : 0 < q.ring.contents.length :=
        length_pos_of_mem (mem_of_find?_eq_some found.symm)
      rw [RingBuffer.Queue.length_contents] at nonempty
      refine .inr ⟨_, ?_, RingBuffer.Queue.contents_release nonempty⟩
      rw [front] at found
      exact find?_some found.symm
    · exact .inl rfl
  · exact .inl rfl

end InvalidationQueue

namespace Invalidations
variable {s : Invalidations} {rest : List BackInvalidation} {args : CheckArgs}

/-- The registrations of a line are applied from the oldest on: one that was applied and is still in the queue is the
first of its line, and was behind the head. -/
structure Inv (s : Invalidations) : Prop where
  increasing : s.queue.ring.contents.Pairwise fun a b => a.number < b.number
  below : ∀ entry ∈ s.queue.ring.contents, entry.number < s.accepted
  appliedBelow : ∀ number ∈ s.applied, number < s.accepted
  first : s.queue.ring.contents.Pairwise fun a b =>
    cachelineAddr a.physAddr = cachelineAddr b.physAddr → b.number ∉ s.applied
  once : s.applied.Nodup
  behindApplied : s.behind ⊆ s.applied
  stays : ∀ entry ∈ s.queue.ring.contents, entry.number ∈ s.applied → entry.number ∈ s.behind

theorem inv_start : Inv {} := by
  have empty : ({} : Invalidations).queue.ring.contents = [] := RingBuffer.Queue.contents_of_empty rfl
  constructor
  · rw [empty]
    exact List.Pairwise.nil
  · rw [empty]
    exact fun _ member => by cases member
  · exact fun _ member => by cases member
  · rw [empty]
    exact List.Pairwise.nil
  · exact nodup_nil
  · exact fun _ member => member
  · exact fun _ _ member => member

theorem Inv.register (inv : s.Inv) (args : RegisterArgs) : (s.step (.register args)).Inv := by
  rw [step]
  split
  · rename_i queue accepted
    obtain ⟨entry, number, contents⟩ := InvalidationQueue.contents_register accepted
    constructor
    · rw [contents, pairwise_append]
      refine ⟨inv.increasing, pairwise_singleton _ _, fun a member b last => ?_⟩
      rw [mem_singleton.mp last, number]
      exact inv.below a member
    · intro a member
      rw [contents, mem_append, mem_singleton] at member
      rcases member with member | rfl
      · exact Nat.lt_succ_of_lt (inv.below a member)
      · rw [number]
        exact Nat.lt_succ_self _
    · exact fun n member => Nat.lt_succ_of_lt (inv.appliedBelow n member)
    · rw [contents, pairwise_append]
      refine ⟨inv.first, pairwise_singleton _ _, fun a _ b last _ applied => ?_⟩
      rw [mem_singleton.mp last, number] at applied
      exact Nat.lt_irrefl _ (inv.appliedBelow _ applied)
    · exact inv.once
    · exact inv.behindApplied
    · intro a member applied
      rw [contents, mem_append, mem_singleton] at member
      rcases member with member | rfl
      · exact inv.stays a member applied
      · rw [number] at applied
        exact absurd (inv.appliedBelow _ applied) (Nat.lt_irrefl _)
  · exact inv

section Found
variable {physAddr : UInt64} {entry : BackInvalidation}

theorem Inv.oldest (inv : s.Inv) (found : s.queue.ring.contents.find? (BackInvalidation.onLine physAddr) = some entry)
    {a : BackInvalidation} (member : a ∈ s.queue.ring.contents) (same : a.onLine physAddr = true) :
    ¬ a.number < entry.number := by
  obtain ⟨-, before, after, split, others⟩ := find?_eq_some_iff_append.mp found
  have increasing := inv.increasing
  rw [split] at member increasing
  rw [mem_append, mem_cons] at member
  rcases member with member | rfl | member
  · have other := others a member
    rw [same] at other
    cases other
  · exact Nat.lt_irrefl _
  · exact Nat.lt_asymm ((pairwise_cons.mp (pairwise_append.mp increasing).2.1).1 a member)

theorem Inv.first_found (inv : s.Inv)
    (found : s.queue.ring.contents.find? (BackInvalidation.onLine physAddr) = some entry) :
    s.queue.ring.contents.Pairwise fun a b =>
      cachelineAddr a.physAddr = cachelineAddr b.physAddr → b.number ∉ entry.number :: s.applied := by
  have here := mem_of_find?_eq_some found
  have onLine := find?_some found
  have unique : (s.queue.ring.contents.map BackInvalidation.number).Nodup :=
    pairwise_map.mpr (inv.increasing.imp Nat.ne_of_lt)
  refine (inv.increasing.and inv.first).imp_of_mem fun {a b} memberA memberB both sameLine applied => ?_
  rcases mem_cons.mp applied with isEntry | applied
  · obtain rfl := inj_on_of_nodup_map unique memberB here isEntry
    refine inv.oldest found memberA ?_ both.1
    rw [BackInvalidation.onLine, decide_eq_true_iff] at onLine ⊢
    rw [sameLine, onLine]
  · exact both.2 sameLine applied

end Found

theorem find_eq_head (s : Invalidations) (physAddr : UInt64) :
    s.queue.ring.contents.find? (BackInvalidation.onLine physAddr) = (s.matching physAddr).head? :=
  head?_filter.symm

theorem step_check (s : Invalidations) (args : CheckArgs) :
    s.step (.check args) = { s with
      queue := (s.queue.checkAndApplyInvalidation args).1
      applied := (s.matching args.physAddr).head?.elim s.applied fun entry => entry.number :: s.applied
      behind := (s.matching args.physAddr).head?.elim s.behind fun entry =>
        if (s.queue.checkAndApplyInvalidation args).1.head = s.queue.head then entry.number :: s.behind
        else s.behind } := by
  have result := s.queue.result_check args
  rw [find_eq_head] at result
  rw [step]
  cases oldest : (s.matching args.physAddr).head? with
  | none =>
    rw [oldest] at result
    split
    · rename_i queue number bytes checked
      rw [checked] at result
      cases result
    · rename_i queue checked
      rw [checked]
      rfl
  | some entry =>
    rw [oldest] at result
    split
    · rename_i queue number bytes checked
      rw [checked] at result
      rw [checked, (Prod.mk.inj (Option.some.inj result)).1]
      rfl
    · rename_i queue checked
      rw [checked] at result
      cases result

theorem Inv.new (inv : s.Inv) {entry : BackInvalidation} (member : entry ∈ s.matching args.physAddr)
    (unseen : entry.number ∉ s.behind) : entry.number ∉ s.applied :=
  fun applied => unseen (inv.stays entry (mem_of_mem_filter member) applied)

theorem sublist_check (s : Invalidations) (args : CheckArgs) :
    (s.queue.checkAndApplyInvalidation args).1.ring.contents.Sublist s.queue.ring.contents := by
  rcases s.queue.contents_check args with same | ⟨entry, -, contents⟩
  · rw [same]
  · rw [contents]
    exact sublist_cons_self _ _

/-- A registration that was at the head is no longer in the queue. -/
theorem Inv.behind_found (inv : s.Inv) {found entry : BackInvalidation}
    (first : s.queue.ring.contents.find? (BackInvalidation.onLine args.physAddr) = some found)
    (member : entry ∈ (s.queue.checkAndApplyInvalidation args).1.ring.contents)
    (applied : entry.number ∈ found.number :: s.applied) :
    entry.number ∈ if (s.queue.checkAndApplyInvalidation args).1.head = s.queue.head then found.number :: s.behind
      else s.behind := by
  have old : entry.number ∈ s.applied → entry.number ∈ s.behind :=
    inv.stays entry ((s.sublist_check args).subset member)
  split
  · rcases mem_cons.mp applied with same | before
    · exact same ▸ mem_cons_self
    · exact mem_cons_of_mem _ (old before)
  · rename_i moved
    refine old ((mem_cons.mp applied).resolve_left fun same => ?_)
    rcases s.queue.contents_check args with unchanged | ⟨front, onLine, contents⟩
    · exact moved (congrArg InvalidationQueue.head unchanged)
    · have increasing := inv.increasing
      rw [contents, find?_cons_of_pos onLine] at first
      rw [contents, Option.some.inj first, pairwise_cons] at increasing
      exact Nat.ne_of_gt (increasing.1 entry member) same

theorem Inv.check (inv : s.Inv) (guarded : s.Guarded (.check args)) : (s.step (.check args)).Inv := by
  have fewer := s.sublist_check args
  have below := fun entry member => inv.below entry (fewer.subset member)
  rw [step_check]
  cases oldest : (s.matching args.physAddr).head? with
  | none =>
    exact ⟨inv.increasing.sublist fewer, below, inv.appliedBelow, inv.first.sublist fewer, inv.once, inv.behindApplied,
      fun entry member => inv.stays entry (fewer.subset member)⟩
  | some entry =>
    have found := (s.find_eq_head args.physAddr).trans oldest
    have here := mem_of_head? oldest
    refine ⟨inv.increasing.sublist fewer, below, fun number member => ?_, (inv.first_found found).sublist fewer,
      nodup_cons.mpr ⟨inv.new here (guarded.2 entry here), inv.once⟩, ?_, fun _ => inv.behind_found found⟩
    · rcases mem_cons.mp member with rfl | member
      · exact inv.below entry (mem_of_find?_eq_some found)
      · exact inv.appliedBelow number member
    · dsimp only [Option.elim_some]
      split
      · exact cons_subset_cons _ inv.behindApplied
      · exact subset_cons_of_subset _ inv.behindApplied

theorem Inv.step (inv : s.Inv) {call : InvalidationCall} (guarded : s.Guarded call) : (s.step call).Inv := by
  cases call with
  | register args => exact inv.register args
  | check args => exact inv.check guarded

theorem Inv.pending_eq (inv : s.Inv) {physAddr : UInt64} {entry : BackInvalidation}
    (several : s.matching physAddr = entry :: rest) (new : entry.number ∉ s.applied) :
    s.pending physAddr = entry :: rest := by
  have first := inv.first.filter (BackInvalidation.onLine physAddr)
  rw [← matching, several, pairwise_cons] at first
  have onLine : ∀ a ∈ entry :: rest, cachelineAddr a.physAddr = cachelineAddr physAddr := by
    intro a member
    rw [← several, matching, mem_filter] at member
    exact of_decide_eq_true member.2
  rw [pending, several, filter_eq_self]
  intro a member
  rw [decide_eq_true_iff]
  rcases mem_cons.mp member with rfl | later
  · exact new
  · refine first.1 a later ?_
    rw [onLine entry mem_cons_self, onLine a member]

theorem Inv.not_yieldsNewest (inv : s.Inv) {entry next : BackInvalidation}
    (several : s.matching args.physAddr = entry :: next :: rest)
    (new : entry.number ∉ s.applied) : ¬ s.YieldsNewest (.check args) := by
  intro yields
  have pending := inv.pending_eq several new
  obtain ⟨newest, last, result, -⟩ := yields (by rw [pending]; exact Nat.le_add_left 2 _)
  rw [pending, getLast?_cons_cons, Option.mem_def] at last
  rw [InvalidationQueue.result_check, find_eq_head, several, head?_cons, Option.map_some] at result
  have same : entry.number = newest.number := (Prod.mk.inj (Option.some.inj result)).1
  have increasing := inv.increasing.filter (BackInvalidation.onLine args.physAddr)
  rw [← matching, several, pairwise_cons] at increasing
  exact Nat.ne_of_lt (increasing.1 newest (mem_of_getLast? last)) same

theorem Inv.guarded_iff (inv : s.Inv) (call : InvalidationCall) :
    ((s.step call).applied.Nodup ∧ s.YieldsNewest call) ↔ s.Guarded call := by
  cases call with
  | register args => exact ⟨fun _ => trivial, fun _ => ⟨(inv.register args).once, trivial⟩⟩
  | check args =>
    constructor
    · rintro ⟨once, yields⟩
      rw [step_check] at once
      cases found : s.matching args.physAddr with
      | nil =>
        rw [Guarded, found]
        exact ⟨Nat.zero_le 1, fun _ member => by cases member⟩
      | cons entry rest =>
        rw [found] at once
        have new : entry.number ∉ s.applied := (nodup_cons.mp once).1
        cases rest with
        | nil =>
          rw [Guarded, found]
          refine ⟨Nat.le_refl 1, fun a member => ?_⟩
          rw [mem_singleton.mp member]
          exact fun seen => new (inv.behindApplied seen)
        | cons next rest => exact absurd yields (inv.not_yieldsNewest found new)
    · intro guarded
      refine ⟨(inv.check guarded).once, fun several => ?_⟩
      have few : (s.pending args.physAddr).length ≤ 1 := (length_filter_le _ _).trans guarded.1
      omega

/-- Each registration is applied once at most, and the last of several, just if each check finds one registration of
its line at most, and none that was found behind the head. -/
theorem applied_once_iff (calls : List InvalidationCall) :
    ((∀ before, before <+: calls → (before.foldl step {}).applied.Nodup) ∧ Run.EveryStep step YieldsNewest {} calls) ↔
      Run.EveryStep step Guarded {} calls := by
  rw [Run.forall_prefix_iff_everyStep (Q := fun s : Invalidations => s.applied.Nodup),
    and_iff_right (nodup_nil), ← Run.everyStep_and_iff]
  refine Run.everyStep_congr_of_invariant inv_start ?_ ?_
  · intro s call _ inv guarded
    exact inv.step guarded
  · intro s call _ inv
    exact inv.guarded_iff call

def behindAnother : List InvalidationCall :=
  [.register ⟨0x1000, some fun _ => 1, 64⟩, .register ⟨0x2000, some fun _ => 2, 64⟩, .check ⟨0x2000, 8, true⟩,
    .check ⟨0x2000, 8, true⟩]

def registeredTwice : List InvalidationCall :=
  [.register ⟨0x1000, some fun _ => 1, 64⟩, .register ⟨0x1000, some fun _ => 2, 64⟩, .check ⟨0x1000, 8, true⟩]

/-- The one registration is applied by both checks; of the two, the check yields the older. -/
theorem not_applied_once :
    ¬ (behindAnother.foldl step {}).applied.Nodup ∧ ¬ Run.EveryStep step YieldsNewest {} registeredTwice := by
  refine ⟨by decide +kernel, fun all => ?_⟩
  obtain ⟨newest, last, result, -⟩ := all.2.2.1 (by decide +kernel)
  have second : (((registeredTwice.take 2).foldl step {}).pending 0x1000).getLast?.map BackInvalidation.number =
      some 1 := by decide +kernel
  have first : (((registeredTwice.take 2).foldl step {}).queue.checkAndApplyInvalidation ⟨0x1000, 8, true⟩).2 =
      some (0, List.replicate 8 1) := by decide +kernel
  have isOne : newest.number = 1 :=
    Option.some.inj ((congrArg (Option.map BackInvalidation.number) last).symm.trans second)
  have isZero : newest.number = 0 := (Prod.mk.inj (Option.some.inj (result.symm.trans first))).1
  rw [isOne] at isZero
  cases isZero

end Invalidations
end CxlMemSim.Qemu
