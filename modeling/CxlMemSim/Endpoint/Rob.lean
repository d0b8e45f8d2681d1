import CxlMemSim.Lib.Run

/-! `insert_one` adds a record to the counts of its thread and takes old records out again while the thread has more
than `ROB_SIZE` instructions. -/
namespace CxlMemSim.Endpoint
open Function List

abbrev Tid := UInt64

def robSize : Int := 512

/-- `to` is not read, `from` marks the end of a batch. -/
structure Lbr where
  fromAddr : UInt64
  flags : UInt64
deriving DecidableEq

def Lbr.llcmCount (lbr : Lbr) : Nat := ((lbr.flags &&& 0x3) >>> 0).toNat

def Lbr.insCount (lbr : Lbr) : Nat := ((lbr.flags &&& 0xfffffff0000) >>> 16).toNat

/-- `thread_info` with its `rob_info`; `mCount` has an entry for each type of miss seen. -/
structure ThreadInfo where
  mCount : List (Int × Int) := []
  llcmBase : Int := 0
  llcmCount : Int := 0
  insCount : Int := 0
  llcmType : List Int := []
  llcmTypeRob : List Int := []

def bump (kind delta : Int) : List (Int × Int) → List (Int × Int)
  | [] => [(kind, delta)]
  | (k, n) :: rest => if k = kind then (k, n + delta) :: rest else (k, n) :: bump kind delta rest

def entriesTotal : List (Int × Int) → Int
  | [] => 0
  | (_, n) :: rest => n + entriesTotal rest

namespace ThreadInfo

def countMiss (t : ThreadInfo) : ThreadInfo :=
  let kind := t.llcmType.headD 0
  { t with
    mCount := bump kind 1 t.mCount
    llcmTypeRob := t.llcmTypeRob ++ [kind]
    llcmType := t.llcmType.tail }

def countMisses : Nat → ThreadInfo → ThreadInfo
  | 0, t => t
  | n + 1, t => countMisses n t.countMiss

/-- Undefined where the queue of types is empty. -/
def retireMisses : Nat → ThreadInfo → Option ThreadInfo
  | 0, t => some t
  | n + 1, t =>
    match t.llcmTypeRob with
    | [] => none
    | kind :: rest => retireMisses n { t with mCount := bump kind (-1) t.mCount, llcmTypeRob := rest }

def takeIn (t : ThreadInfo) (lbr : Lbr) : ThreadInfo :=
  let t := countMisses lbr.llcmCount t
  { t with llcmCount := t.llcmCount + lbr.llcmCount, insCount := t.insCount + lbr.insCount }

def retire (t : ThreadInfo) (old : Lbr) : Option ThreadInfo :=
  retireMisses old.llcmCount { t with
    insCount := t.insCount - old.insCount
    llcmCount := t.llcmCount - old.llcmCount
    llcmBase := t.llcmBase + old.llcmCount }

end ThreadInfo

/-- The eviction loop over the queue of records, undefined where it reads an empty queue. -/
def evict : List Lbr → ThreadInfo → Option (List Lbr × ThreadInfo)
  | [], t => if robSize < t.insCount then none else some ([], t)
  | old :: rest, t =>
    if robSize < t.insCount then (t.retire old).bind fun t => evict rest t else some (old :: rest, t)

structure Rob where
  ringBuffer : List Lbr := []
  threadMap : Tid → ThreadInfo := fun _ => {}

def Rob.insertOne (rob : Rob) (tid : Tid) (lbr : Lbr) : Option Rob :=
  (evict (rob.ringBuffer ++ [lbr]) ((rob.threadMap tid).takeIn lbr)).map fun (ringBuffer, t) =>
    { ringBuffer, threadMap := update rob.threadMap tid t }

inductive RobEvent
  | record (tid : Tid) (lbr : Lbr)
  /-- An access of the controller's other `insert`: 0 for a local, 1 for a remote one. -/
  | access (tid : Tid) (kind : Int)

def batch (tid : Tid) (lbrs : List Lbr) : List RobEvent :=
  ((lbrs.take 32).takeWhile fun lbr => lbr.fromAddr ≠ 0).map (RobEvent.record tid)

structure Traced where
  rob : Rob := {}
  pushed : List (Tid × Lbr) := []

namespace Traced

def step (s : Option Traced) : RobEvent → Option Traced
  | .record tid lbr => s.bind fun s => (s.rob.insertOne tid lbr).map fun rob => ⟨rob, s.pushed ++ [(tid, lbr)]⟩
  | .access tid kind => s.map fun s =>
    let t := s.rob.threadMap tid
    { s with rob.threadMap := update s.rob.threadMap tid { t with llcmType := t.llcmType ++ [kind] } }

def kept (s : Traced) : List (Tid × Lbr) := s.pushed.drop (s.pushed.length - s.rob.ringBuffer.length)

end Traced

def total (weight : Lbr → Nat) (tid : Tid) : List (Tid × Lbr) → Nat
  | [] => 0
  | (owner, lbr) :: rest => (if owner = tid then weight lbr else 0) + total weight tid rest

structure ThreadInfo.Accounts (t : ThreadInfo) (tid : Tid) (window : List (Tid × Lbr)) : Prop where
  ins : t.insCount = total Lbr.insCount tid window
  llcm : t.llcmCount = total Lbr.llcmCount tid window
  misses : entriesTotal t.mCount = total Lbr.llcmCount tid window
  bounds : 0 ≤ t.insCount ∧ t.insCount ≤ robSize

def Traced.Sound (s : Traced) : Prop := ∀ tid, (s.rob.threadMap tid).Accounts tid s.kept

def sumOf (weight : Lbr → Nat) : List (Tid × Lbr) → Nat
  | [] => 0
  | (_, lbr) :: rest => weight lbr + sumOf weight rest

/-- Enough of the oldest records for the thread to be back within the buffer's
size are its own, or count for nothing. -/
def Traced.Fits (s : Traced) : RobEvent → Prop
  | .record tid lbr => ∃ oldest newer, s.kept ++ [(tid, lbr)] = oldest ++ newer ∧
      (∀ entry ∈ oldest, entry.1 = tid ∨ (entry.2.insCount = 0 ∧ entry.2.llcmCount = 0)) ∧
      (s.rob.threadMap tid).insCount + lbr.insCount - sumOf Lbr.insCount oldest ≤ robSize
  | .access _ _ => True

theorem entriesTotal_bump (kind delta : Int) (entries : List (Int × Int)) :
    entriesTotal (bump kind delta entries) = entriesTotal entries + delta := by
  induction entries with
  | nil => simp [bump, entriesTotal]
  | cons entry rest ih =>
    unfold bump
    split
    · simp only [entriesTotal]
      omega
    · simp only [entriesTotal, ih]
      omega

theorem total_append (weight : Lbr → Nat) (tid : Tid) (first second : List (Tid × Lbr)) :
    total weight tid (first ++ second) = total weight tid first + total weight tid second := by
  induction first with
  | nil => simp [total]
  | cons entry rest ih => simp only [cons_append, total, ih, Nat.add_assoc]

variable {tid : Tid} {t t' : ThreadInfo} {entries : List (Tid × Lbr)} {weight : Lbr → Nat}

theorem total_eq_zero : total weight tid entries = 0 ↔ ∀ entry ∈ entries, entry.1 = tid → weight entry.2 = 0 := by
  induction entries with
  | nil => simp [total]
  | cons entry rest ih =>
    simp only [total, Nat.add_eq_zero_iff, ih, forall_mem_cons, ite_eq_right_iff]

theorem total_eq_sumOf (own : ∀ entry ∈ entries, entry.1 = tid ∨ weight entry.2 = 0) :
    total weight tid entries = sumOf weight entries := by
  induction entries with
  | nil => rfl
  | cons entry rest ih =>
    rw [total, sumOf, ih fun other member => own other (mem_cons_of_mem entry member)]
    rcases own entry mem_cons_self with same | nothing
    · rw [if_pos same]
    · rw [nothing, ite_self]

namespace ThreadInfo

theorem countMisses_spec (n : Nat) (t : ThreadInfo) :
    (countMisses n t).insCount = t.insCount ∧ (countMisses n t).llcmCount = t.llcmCount ∧
      entriesTotal (countMisses n t).mCount = entriesTotal t.mCount + n ∧
      (countMisses n t).llcmTypeRob.length = t.llcmTypeRob.length + n := by
  induction n generalizing t with
  | zero => exact ⟨rfl, rfl, (Int.add_zero _).symm, rfl⟩
  | succ n ih =>
    obtain ⟨ins, llcm, misses, types⟩ := ih t.countMiss
    refine ⟨ins, llcm, ?_, ?_⟩
    · rw [countMisses, misses, countMiss, entriesTotal_bump]
      omega
    · rw [countMisses, types, countMiss, length_append, length_singleton]
      omega

theorem retireMisses_spec {n : Nat} (retired : retireMisses n t = some t') :
    t'.insCount = t.insCount ∧ t'.llcmCount = t.llcmCount ∧
      entriesTotal t'.mCount + n = entriesTotal t.mCount ∧ t'.llcmTypeRob.length + n = t.llcmTypeRob.length := by
  induction n generalizing t with
  | zero =>
    cases retired
    exact ⟨rfl, rfl, Int.add_zero _, rfl⟩
  | succ n ih =>
    cases types : t.llcmTypeRob with
    | nil => simp [retireMisses, types] at retired
    | cons kind rest =>
      simp only [retireMisses, types] at retired
      obtain ⟨ins, llcm, misses, left⟩ := ih retired
      rw [entriesTotal_bump] at misses
      change _ = rest.length at left
      refine ⟨ins, llcm, ?_, ?_⟩
      · push_cast
        omega
      · rw [length_cons]
        omega

theorem exists_retireMisses {n : Nat} (enough : n ≤ t.llcmTypeRob.length) : ∃ t', retireMisses n t = some t' := by
  induction n generalizing t with
  | zero => exact ⟨t, rfl⟩
  | succ n ih =>
    cases types : t.llcmTypeRob with
    | nil => simp [types] at enough
    | cons kind rest =>
      simp only [retireMisses, types]
      refine ih ?_
      rw [types] at enough
      exact Nat.le_of_succ_le_succ enough

structure Less (t t' : ThreadInfo) (i m : Nat) : Prop where
  ins : t'.insCount + i = t.insCount
  llcm : t'.llcmCount + m = t.llcmCount
  misses : entriesTotal t'.mCount + m = entriesTotal t.mCount
  types : t'.llcmTypeRob.length + m = t.llcmTypeRob.length

theorem Less.trans {t'' : ThreadInfo} {i m j n : Nat} (first : Less t t' i m) (second : Less t' t'' j n) :
    Less t t'' (i + j) (m + n) := by
  obtain ⟨ins, llcm, misses, types⟩ := first
  obtain ⟨ins', llcm', misses', types'⟩ := second
  constructor <;> omega

theorem retire_less {old : Lbr} (retired : t.retire old = some t') : Less t t' old.insCount old.llcmCount := by
  obtain ⟨ins, llcm, misses, types⟩ := retireMisses_spec retired
  exact ⟨by rw [ins]; exact Int.sub_add_cancel _ _, by rw [llcm]; exact Int.sub_add_cancel _ _, misses, types⟩

theorem exists_retire {old : Lbr} (enough : old.llcmCount ≤ t.llcmTypeRob.length) :
    ∃ t', t.retire old = some t' := exists_retireMisses enough

end ThreadInfo

open ThreadInfo (Less)

theorem evict_spec {window : List (Tid × Lbr)} {ring : List Lbr}
    (evicted : evict (window.map Prod.snd) t = some (ring, t')) :
    ∃ popped left, window = popped ++ left ∧ left.map Prod.snd = ring ∧
      Less t t' (sumOf Lbr.insCount popped) (sumOf Lbr.llcmCount popped) ∧ t'.insCount ≤ robSize := by
  have stops : ∀ {t : ThreadInfo}, ¬ robSize < t.insCount →
      Less t t 0 0 ∧ t.insCount ≤ robSize := by
    intro t within
    exact ⟨⟨by simp, by simp, by simp, rfl⟩, Int.not_lt.mp within⟩
  induction window generalizing t with
  | nil =>
    by_cases exceeds : robSize < t.insCount
    · simp [evict, exceeds] at evicted
    · simp only [map_nil, evict, if_neg exceeds, Option.some.injEq, Prod.mk.injEq] at evicted
      obtain ⟨rfl, rfl⟩ := evicted
      exact ⟨[], [], rfl, rfl, stops exceeds⟩
  | cons entry rest ih =>
    rw [map_cons, evict] at evicted
    by_cases exceeds : robSize < t.insCount
    · rw [if_pos exceeds] at evicted
      obtain ⟨middle, retired, evicted⟩ := Option.bind_eq_some_iff.mp evicted
      obtain ⟨popped, left, rfl, ring, less, within⟩ := ih evicted
      exact ⟨entry :: popped, left, rfl, ring, (ThreadInfo.retire_less retired).trans less, within⟩
    · rw [if_neg exceeds] at evicted
      cases evicted
      exact ⟨[], entry :: rest, rfl, rfl, stops exceeds⟩

theorem exists_evict (oldest newer : List (Tid × Lbr)) (suffice : t.insCount - sumOf Lbr.insCount oldest ≤ robSize)
    (types : sumOf Lbr.llcmCount oldest ≤ t.llcmTypeRob.length) :
    ∃ popped left t', oldest = popped ++ left ∧
      evict ((oldest ++ newer).map Prod.snd) t = some ((left ++ newer).map Prod.snd, t') := by
  induction oldest generalizing t with
  | nil =>
    have within : ¬ robSize < t.insCount := by simpa [sumOf] using suffice
    refine ⟨[], [], t, rfl, ?_⟩
    cases newer with
    | nil | cons => simp [evict, within]
  | cons entry rest ih =>
    by_cases exceeds : robSize < t.insCount
    · simp only [sumOf] at suffice types
      obtain ⟨middle, retired⟩ := @ThreadInfo.exists_retire t entry.2 (by omega)
      have less := ThreadInfo.retire_less retired
      have ins := less.ins
      have left := less.types
      obtain ⟨popped, left, t', rfl, evicted⟩ := ih (t := middle) (by push_cast at suffice; omega) (by omega)
      refine ⟨entry :: popped, left, t', rfl, ?_⟩
      rw [cons_append, map_cons, evict, if_pos exceeds, retired]
      exact evicted
    · refine ⟨[], entry :: rest, t, rfl, ?_⟩
      rw [cons_append, map_cons, evict, if_neg exceeds]

/-- The queue is the last part of what was pushed, and each thread has the types of the misses it counts. -/
structure Traced.Linked (s : Traced) : Prop where
  ring : s.kept.map Prod.snd = s.rob.ringBuffer
  types : ∀ tid, ((s.rob.threadMap tid).llcmTypeRob.length : Int) = entriesTotal (s.rob.threadMap tid).mCount

variable {s : Traced}

namespace Traced

theorem kept_eq {gone window : List (Tid × Lbr)} (pushed : s.pushed = gone ++ window)
    (ring : window.map Prod.snd = s.rob.ringBuffer) : s.kept = window := by
  have length := congrArg List.length ring
  rw [length_map] at length
  rw [kept, pushed, ← length, length_append, Nat.add_sub_cancel, drop_left]

theorem start_linked : ({} : Traced).Linked := ⟨rfl, fun _ => rfl⟩

structure Recorded (s : Traced) (tid : Tid) (lbr : Lbr) (s' : Traced) (popped : List (Tid × Lbr)) (t : ThreadInfo) :
    Prop where
  window : s.kept ++ [(tid, lbr)] = popped ++ s'.kept
  ring : s'.kept.map Prod.snd = s'.rob.ringBuffer
  threads : s'.rob.threadMap = update s.rob.threadMap tid t
  less : Less ((s.rob.threadMap tid).takeIn lbr) t (sumOf Lbr.insCount popped) (sumOf Lbr.llcmCount popped)
  within : t.insCount ≤ robSize

theorem Linked.recorded {s s' : Traced} (linked : s.Linked) {lbr : Lbr}
    (stepped : step (some s) (.record tid lbr) = some s') : ∃ popped t, Recorded s tid lbr s' popped t := by
  obtain ⟨rob, inserted, rfl⟩ := Option.map_eq_some_iff.mp stepped
  obtain ⟨⟨ring, t⟩, evicted, rfl⟩ := Option.map_eq_some_iff.mp inserted
  have window : (s.kept ++ [(tid, lbr)]).map Prod.snd = s.rob.ringBuffer ++ [lbr] := by
    rw [map_append, linked.ring]
    rfl
  rw [← window] at evicted
  obtain ⟨popped, left, split, kept, less, within⟩ := evict_spec evicted
  have keeps : Traced.kept ⟨⟨ring, update s.rob.threadMap tid t⟩, s.pushed ++ [(tid, lbr)]⟩ = left := by
    have pushed : s.pushed ++ [(tid, lbr)] =
        s.pushed.take (s.pushed.length - s.rob.ringBuffer.length) ++ popped ++ left := by
      rw [append_assoc, ← split, ← append_assoc, Traced.kept, take_append_drop]
    exact kept_eq pushed kept
  refine ⟨popped, t, ?_, ?_, rfl, less, within⟩
  · rw [keeps]
    exact split
  · rw [keeps]
    exact kept

end Traced

theorem ThreadInfo.takeIn_spec (t : ThreadInfo) (lbr : Lbr) :
    (t.takeIn lbr).insCount = t.insCount + lbr.insCount ∧ (t.takeIn lbr).llcmCount = t.llcmCount + lbr.llcmCount ∧
      entriesTotal (t.takeIn lbr).mCount = entriesTotal t.mCount + lbr.llcmCount ∧
      (t.takeIn lbr).llcmTypeRob.length = t.llcmTypeRob.length + lbr.llcmCount := by
  obtain ⟨ins, llcm, misses, types⟩ := countMisses_spec lbr.llcmCount t
  exact ⟨congrArg (· + (lbr.insCount : Int)) ins, congrArg (· + (lbr.llcmCount : Int)) llcm, misses, types⟩

namespace Traced

theorem access_kept (s : Traced) (tid : Tid) (kind : Int) :
    ∃ s', step (some s) (.access tid kind) = some s' ∧ s'.kept = s.kept ∧
      s'.rob.ringBuffer = s.rob.ringBuffer ∧
      ∀ other, ∃ types, s'.rob.threadMap other = { s.rob.threadMap other with llcmType := types } := by
  refine ⟨_, rfl, rfl, rfl, fun other => ?_⟩
  by_cases same : other = tid
  · subst same
    exact ⟨_, update_self other _ _⟩
  · exact ⟨_, update_of_ne same _ _⟩

theorem Linked.step {s s' : Traced} (linked : s.Linked) {event : RobEvent}
    (stepped : Traced.step (some s) event = some s') : s'.Linked := by
  cases event with
  | record tid lbr =>
    obtain ⟨popped, t, recorded⟩ := linked.recorded stepped
    refine ⟨recorded.ring, fun other => ?_⟩
    rw [recorded.threads]
    by_cases same : other = tid
    · subst same
      rw [update_self]
      have types := linked.types other
      obtain ⟨_, _, misses, admitted⟩ := (s.rob.threadMap other).takeIn_spec lbr
      obtain ⟨_, _, lessMisses, lessTypes⟩ := recorded.less
      omega
    · rw [update_of_ne same]
      exact linked.types other
  | access tid kind =>
    obtain ⟨next, reached, kept, ring, threads⟩ := access_kept s tid kind
    obtain rfl := Option.some.inj (stepped.symm.trans reached)
    refine ⟨by rw [kept, ring]; exact linked.ring, fun other => ?_⟩
    obtain ⟨types, eq⟩ := threads other
    rw [eq]
    exact linked.types other

section Record

variable {s' : Traced} {lbr : Lbr} {popped : List (Tid × Lbr)} (recorded : Recorded s tid lbr s' popped t)
include recorded

theorem Recorded.totals (weight : Lbr → Nat) (other : Tid) :
    total weight other s.kept + (if tid = other then weight lbr else 0) =
      total weight other popped + total weight other s'.kept := by
  have both := congrArg (total weight other) recorded.window
  rw [total_append, total_append] at both
  exact both

theorem Recorded.sound_after_iff (sound : s.Sound) :
    s'.Sound ↔ ∀ entry ∈ popped, entry.1 = tid ∨ (entry.2.insCount = 0 ∧ entry.2.llcmCount = 0) := by
  constructor
  · intro after entry member
    by_cases same : entry.1 = tid
    · exact Or.inl same
    · have before := sound entry.1
      have unchanged := after entry.1
      rw [recorded.threads, update_of_ne same] at unchanged
      have ins := recorded.totals Lbr.insCount entry.1
      have llcm := recorded.totals Lbr.llcmCount entry.1
      rw [if_neg (Ne.symm same)] at ins llcm
      have noIns : total Lbr.insCount entry.1 popped = 0 := by
        have := before.ins
        have := unchanged.ins
        omega
      have noLlcm : total Lbr.llcmCount entry.1 popped = 0 := by
        have := before.llcm
        have := unchanged.llcm
        omega
      exact Or.inr ⟨total_eq_zero.mp noIns entry member rfl, total_eq_zero.mp noLlcm entry member rfl⟩
  · intro own other
    have ins := recorded.totals Lbr.insCount other
    have llcm := recorded.totals Lbr.llcmCount other
    have before := sound other
    rw [recorded.threads]
    by_cases same : other = tid
    · subst same
      rw [update_self]
      rw [if_pos rfl, total_eq_sumOf fun entry member => (own entry member).imp_right And.left] at ins
      rw [if_pos rfl, total_eq_sumOf fun entry member => (own entry member).imp_right And.right] at llcm
      obtain ⟨admittedIns, admittedLlcm, admittedMisses, _⟩ := (s.rob.threadMap other).takeIn_spec lbr
      obtain ⟨lessIns, lessLlcm, lessMisses, _⟩ := recorded.less
      obtain ⟨beforeIns, beforeLlcm, beforeMisses, _⟩ := before
      have now : t.insCount = total Lbr.insCount other s'.kept := by omega
      refine ⟨now, by omega, by omega, ?_, recorded.within⟩
      rw [now]
      exact Int.natCast_nonneg _
    · have nothing : ∀ weight : Lbr → Nat, (∀ entry ∈ popped, entry.1 = tid ∨ weight entry.2 = 0) →
          total weight other popped = 0 := by
        intro weight blank
        refine total_eq_zero.mpr fun entry member owner => ?_
        exact (blank entry member).resolve_left fun isTid => same (owner.symm.trans isTid)
      rw [if_neg (Ne.symm same), nothing _ fun entry member => (own entry member).imp_right And.left] at ins
      rw [if_neg (Ne.symm same), nothing _ fun entry member => (own entry member).imp_right And.right] at llcm
      rw [update_of_ne same]
      obtain ⟨beforeIns, beforeLlcm, beforeMisses, bounds⟩ := before
      exact ⟨by omega, by omega, by omega, bounds⟩

theorem Recorded.fits (sound : s.Sound) (after : s'.Sound) : s.Fits (.record tid lbr) := by
  refine ⟨popped, s'.kept, recorded.window, (recorded.sound_after_iff sound).mp after, ?_⟩
  have less := recorded.less.ins
  have within := recorded.within
  rw [((s.rob.threadMap tid).takeIn_spec lbr).1] at less
  omega

end Record

theorem Linked.exists_recorded (linked : s.Linked) (sound : s.Sound) {lbr : Lbr}
    (fits : s.Fits (.record tid lbr)) : ∃ s', Traced.step (some s) (.record tid lbr) = some s' ∧ s'.Sound := by
  obtain ⟨oldest, newer, window, own, suffice⟩ := fits
  obtain ⟨admittedIns, _, _, admittedTypes⟩ := (s.rob.threadMap tid).takeIn_spec lbr
  have types : sumOf Lbr.llcmCount oldest ≤ ((s.rob.threadMap tid).takeIn lbr).llcmTypeRob.length := by
    rw [← total_eq_sumOf fun entry member => (own entry member).imp_right And.right]
    have all := congrArg (total Lbr.llcmCount tid) window
    have misses := (sound tid).misses
    have linkedTypes := linked.types tid
    simp only [total_append, total, if_true, Nat.add_zero] at all
    omega
  obtain ⟨popped, left, t, rfl, evicted⟩ := exists_evict oldest newer (by rw [admittedIns]; exact suffice) types
  rw [← window, map_append, linked.ring] at evicted
  have reached : Traced.step (some s) (.record tid lbr) =
      some ⟨⟨(left ++ newer).map Prod.snd, update s.rob.threadMap tid t⟩, s.pushed ++ [(tid, lbr)]⟩ := by
    rw [Traced.step, Option.bind_some, Rob.insertOne]
    exact congrArg (fun result => Option.map _ (Option.map _ result)) evicted
  obtain ⟨popped', t', recorded⟩ := linked.recorded reached
  refine ⟨_, reached, (recorded.sound_after_iff sound).mpr fun entry member => own entry ?_⟩
  have ring := congrArg List.length recorded.ring
  have both := recorded.window.symm.trans window
  have shorter : popped'.length ≤ popped.length := by
    have lengths := congrArg List.length both
    simp only [length_append, length_map] at lengths ring
    omega
  have start : popped' <+: popped ++ left ++ newer := ⟨_, both⟩
  rw [append_assoc] at start
  have within : popped' <+: popped := prefix_of_prefix_length_le start (prefix_append _ _) shorter
  exact mem_append_left left (within.mem member)

def Holds (s : Option Traced) : Prop := ∃ r, s = some r ∧ r.Linked ∧ r.Sound

theorem Holds.step_iff {s : Option Traced} (holds : Holds s) (event : RobEvent) :
    Holds (step s event) ↔ Run.Before Fits s event := by
  obtain ⟨r, rfl, linked, sound⟩ := holds
  have fits : Run.Before Fits (some r) event ↔ r.Fits event :=
    ⟨fun before => before r rfl, fun fits x member => Option.some.inj member ▸ fits⟩
  rw [fits]
  cases event with
  | record tid lbr =>
    constructor
    · rintro ⟨next, stepped, _, after⟩
      obtain ⟨popped, t, recorded⟩ := linked.recorded stepped
      exact recorded.fits sound after
    · intro fits
      obtain ⟨next, stepped, after⟩ := linked.exists_recorded sound fits
      exact ⟨next, stepped, linked.step stepped, after⟩
  | access tid kind =>
    refine iff_of_true ?_ trivial
    obtain ⟨next, reached, kept, _, threads⟩ := access_kept r tid kind
    refine ⟨next, reached, linked.step reached, fun other => ?_⟩
    obtain ⟨types, eq⟩ := threads other
    rw [kept, eq]
    obtain ⟨ins, llcm, misses, bounds⟩ := sound other
    exact ⟨ins, llcm, misses, bounds⟩

theorem start_sound : ({} : Traced).Sound := fun _ => ⟨rfl, rfl, rfl, Int.le_refl 0, Int.natCast_nonneg 512⟩

theorem linked_of_run {events : List RobEvent} (reached : events.foldl step (some {}) = some s) : s.Linked := by
  have keep : ∀ (o : Option Traced) event, (∀ r ∈ o, r.Linked) → ∀ r ∈ step o event, r.Linked := by
    intro o event linked r member
    cases o with
    | none => cases event <;> simp [step] at member
    | some before => exact (linked before rfl).step member
  exact Run.invariant keep (fun r member => Option.some.inj member ▸ start_linked) events s reached

theorem Sound.fits_of_own (sound : s.Sound) (own : ∀ entry ∈ s.pushed, entry.1 = tid)
    (lbr : Lbr) : s.Fits (.record tid lbr) := by
  -- taking out everything leaves the thread with no instructions at all
  have all : ∀ entry ∈ s.kept ++ [(tid, lbr)], entry.1 = tid := by
    intro entry member
    rcases mem_append.mp member with old | new
    · exact own entry (mem_of_mem_drop old)
    · rw [mem_singleton.mp new]
  refine ⟨s.kept ++ [(tid, lbr)], [], (append_nil _).symm, fun entry member => Or.inl (all entry member), ?_⟩
  rw [← total_eq_sumOf fun entry member => Or.inl (all entry member), total_append, (sound tid).ins]
  simp [total, robSize]

/-- The batches of one thread alone are always accounted for. -/
theorem accounts_of_batches (tid : Tid) (batches : List (List Lbr)) :
    Holds ((batches.flatMap (batch tid)).foldl step (some {})) := by
  let Own := fun o : Option Traced => Holds o ∧ ∀ s ∈ o, ∀ entry ∈ s.pushed, entry.1 = tid
  have keep : ∀ (o : Option Traced) (event : RobEvent), Own o → (∃ lbr, event = .record tid lbr) →
      Own (step o event) := by
    rintro o _ ⟨holds, own⟩ ⟨lbr, rfl⟩
    obtain ⟨r, rfl, linked, sound⟩ := holds
    have after := (Holds.step_iff ⟨r, rfl, linked, sound⟩ (.record tid lbr)).mpr
      fun x member => Option.some.inj member ▸ sound.fits_of_own (own r rfl) lbr
    refine ⟨after, fun s reached entry member => ?_⟩
    obtain ⟨rob, _, rfl⟩ := Option.map_eq_some_iff.mp reached
    rcases mem_append.mp member with old | new
    · exact own r rfl entry old
    · rw [mem_singleton.mp new]
  have records : ∀ event ∈ batches.flatMap (batch tid), ∃ lbr, event = RobEvent.record tid lbr := by
    intro event member
    obtain ⟨lbrs, _, inBatch⟩ := mem_flatMap.mp member
    obtain ⟨lbr, _, rfl⟩ := mem_map.mp inBatch
    exact ⟨lbr, rfl⟩
  have start : Own (some {}) := by
    refine ⟨⟨_, rfl, start_linked, start_sound⟩, fun s member => ?_⟩
    rw [← Option.some.inj member]
    exact fun entry none => absurd none not_mem_nil
  exact (Run.invariant_of_everyStep keep start (Run.everyStep_of_forall fun event member _ => records event member)).1

/-- The counts are right after every call, and no call reads an empty queue, just if
no call has to take out records of another thread. -/
theorem accounts_iff_fits (events : List RobEvent) :
    (∀ before, before <+: events → ∃ s, before.foldl step (some {}) = some s ∧ s.Sound) ↔
      Run.EveryStep step (Run.Before Fits) (some {}) events := by
  have start : Holds (some {}) := ⟨_, rfl, start_linked, start_sound⟩
  refine Iff.trans ?_ (Run.forall_prefix_iff (I := Holds) (fun _ event holds => holds.step_iff event) start events)
  refine forall₂_congr fun before _ => exists_congr fun s => ?_
  exact and_congr_right fun reached => (and_iff_right (linked_of_run reached)).symm

/-- A record of 600 instructions for thread 2 takes out thread 1's ten, with a miss that thread 2 never had or
without. -/
theorem other_thread_evicted :
    ([RobEvent.record 1 ⟨1, 0xA0001⟩, .record 2 ⟨1, 0x2580000⟩].foldl step (some {})).isNone = true ∧
      ∃ s, [RobEvent.record 1 ⟨1, 0x2000000⟩, .record 2 ⟨1, 0x2580000⟩].foldl step (some {}) = some s ∧
        (s.rob.threadMap 2).insCount = 88 ∧ total Lbr.insCount 2 s.kept = 600 ∧ ¬ s.Sound := by
  refine ⟨by decide +kernel, ?_⟩
  have counts : ([RobEvent.record 1 ⟨1, 0x2000000⟩, .record 2 ⟨1, 0x2580000⟩].foldl step (some {})).map
      (fun s => ((s.rob.threadMap 2).insCount, total Lbr.insCount 2 s.kept)) = some (88, 600) := by
    decide +kernel
  obtain ⟨s, reached, both⟩ := Option.map_eq_some_iff.mp counts
  obtain ⟨count, window⟩ := Prod.mk.inj both
  refine ⟨s, reached, count, window, fun sound => ?_⟩
  have equal := (sound 2).ins
  rw [count, window] at equal
  exact absurd equal (by decide)

end Traced

end CxlMemSim.Endpoint
