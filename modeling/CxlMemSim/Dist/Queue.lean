import CxlMemSim.Lib.RingBuffer
import CxlMemSim.Lib.Run
import Mathlib.Data.Fintype.Basic

/-! `enqueue_message` and `dequeue_message` of one producer and one consumer, at the granularity of single loads, stores
and atomic additions. -/
namespace CxlMemSim.Dist
open Function RingBuffer Queue

abbrev MessageBytes (w : Nat) := Fin w → UInt8

structure NodeQueue (n w : Nat) where
  ring : Queue n (MessageBytes w)
  msgCount : UInt32 := 0
  totalSent : UInt64 := 0
  totalReceived : UInt64 := 0
  totalDropped : UInt64 := 0

variable {n w : Nat}

inductive Producer (n w : Nat)
  | idle
  | loadedHead (msg : MessageBytes w) (head : Fin n)
  | full
  | copying (msg : MessageBytes w) (head : Fin n) (copied : List (Fin w))
  | storedHead (msg : MessageBytes w)
  | counted (msg : MessageBytes w)

inductive Consumer (n w : Nat)
  | idle
  | loadedHead (msg : MessageBytes w) (head : Fin n)
  | copying (msg : MessageBytes w) (tail : Fin n) (copied : List (Fin w))
  | storedTail (msg : MessageBytes w)
  | counted (msg : MessageBytes w)

structure Session (n w : Nat) where
  queue : NodeQueue n w
  producer : Producer n w := .idle
  consumer : Consumer n w := .idle
  enqueued : List (MessageBytes w) := []
  rejected : Nat := 0
  dequeued : List (MessageBytes w) := []

/-- A party that is between calls starts one with `msg`; one that copies does byte `i`. -/
inductive Turn (w : Nat)
  | producer (msg : MessageBytes w) (i : Fin w)
  | consumer (msg : MessageBytes w) (i : Fin w)

namespace Session

def enqueueStep (s : Session n w) (msg : MessageBytes w) (i : Fin w) : Session n w :=
  match s.producer with
  | .idle => { s with producer := .loadedHead msg s.queue.ring.head }
  | .loadedHead msg head =>
    if place head 1 = s.queue.ring.tail then { s with producer := .full }
    else { s with producer := .copying msg head [] }
  | .full => { s with
      queue.totalDropped := s.queue.totalDropped + 1
      producer := .idle
      rejected := s.rejected + 1 }
  | .copying msg head copied =>
    if ∀ i, i ∈ copied then { s with
      queue.ring.head := place head 1
      producer := .storedHead msg }
    else { s with
      queue.ring.cells := update s.queue.ring.cells head
        (update (s.queue.ring.cells head) i (msg i))
      producer := .copying msg head (i :: copied) }
  | .storedHead msg => { s with
      queue.msgCount := s.queue.msgCount + 1
      producer := .counted msg }
  | .counted msg => { s with
      queue.totalSent := s.queue.totalSent + 1
      producer := .idle
      enqueued := s.enqueued ++ [msg] }

def dequeueStep (s : Session n w) (msg : MessageBytes w) (i : Fin w) : Session n w :=
  match s.consumer with
  | .idle => { s with consumer := .loadedHead msg s.queue.ring.head }
  | .loadedHead msg head =>
    if head = s.queue.ring.tail then { s with consumer := .idle }
    else { s with consumer := .copying msg s.queue.ring.tail [] }
  | .copying msg tail copied =>
    if ∀ i, i ∈ copied then { s with
      queue.ring.tail := place tail 1
      consumer := .storedTail msg }
    else { s with consumer := .copying (update msg i (s.queue.ring.cells tail i)) tail (i :: copied) }
  | .storedTail msg => { s with
      queue.msgCount := s.queue.msgCount - 1
      consumer := .counted msg }
  | .counted msg => { s with
      queue.totalReceived := s.queue.totalReceived + 1
      consumer := .idle
      dequeued := s.dequeued ++ [msg] }

def step (s : Session n w) : Turn w → Session n w
  | .producer msg i => s.enqueueStep msg i
  | .consumer msg i => s.dequeueStep msg i

end Session

/-- A message whose call has stored the head, so that it can only return true. -/
def Producer.accepted : Producer n w → List (MessageBytes w)
  | .storedHead msg | .counted msg => [msg]
  | _ => []

def Consumer.taken : Consumer n w → List (MessageBytes w)
  | .storedTail msg | .counted msg => [msg]
  | _ => []

def Producer.Undecided : Producer n w → Prop
  | .idle | .loadedHead _ _ | .full => True
  | _ => False

def Turn.isConsumer : Turn w → Bool
  | .producer _ _ => false
  | .consumer _ _ => true

structure Session.Contract (s : Session n w) : Prop where
  fifo : s.dequeued <+: s.enqueued ++ s.producer.accepted
  /-- The call under way whose message counts there returns true as well. -/
  returns : ∀ turns : List (Turn w), (turns.foldl Session.step s).producer = .idle →
    s.enqueued ++ s.producer.accepted <+: (turns.foldl Session.step s).enqueued
  bounded : ∃ queued, s.enqueued ++ s.producer.accepted = s.dequeued ++ s.consumer.taken ++ queued ∧
    queued.length ≤ n - 1 ∧ queued = s.queue.ring.contents
  counts : s.producer = .idle → s.consumer = .idle →
    s.queue.msgCount.toNat = s.queue.ring.contents.length ∧
      (s.queue.totalSent - s.queue.totalReceived).toNat = s.queue.ring.contents.length
  dropped : s.queue.totalDropped = UInt64.ofNat s.rejected
  /-- While the producer's calls are rejected, the queue and the consumer are as without them. -/
  rejects : ∀ turns, Run.EveryStep Session.step (fun s turn => turn.isConsumer = false → s.producer.Undecided) s turns →
    let after := turns.foldl Session.step s
    let without := (turns.filter Turn.isConsumer).foldl Session.step s
    after.queue = { without.queue with totalDropped := after.queue.totalDropped } ∧
      after.consumer = without.consumer ∧ after.dequeued = without.dequeued

def Session.start (n w : Nat) [NeZero n] : Session n w := { queue := { ring := ⟨0, 0, fun _ _ => 0⟩ } }

def Producer.Ready (ring : Queue n (MessageBytes w)) : Producer n w → Prop
  | .loadedHead _ head => head = ring.head
  | .copying msg head copied =>
    head = ring.head ∧ ring.length + 1 < n ∧ ∀ i ∈ copied, ring.cells ring.head i = msg i
  | _ => True

def Consumer.Ready (ring : Queue n (MessageBytes w)) : Consumer n w → Prop
  | .loadedHead _ head => ∃ k ≤ ring.length, place ring.tail k = head
  | .copying msg tail copied =>
    tail = ring.tail ∧ 0 < ring.length ∧ ∀ i ∈ copied, msg i = ring.cells ring.tail i
  | _ => True

def Producer.added : Producer n w → Nat
  | .counted _ => 1
  | _ => 0

def Consumer.subtracted : Consumer n w → Nat
  | .counted _ => 1
  | _ => 0

namespace Session

structure Inv (s : Session n w) : Prop where
  fifo : s.enqueued ++ s.producer.accepted = s.dequeued ++ s.consumer.taken ++ s.queue.ring.contents
  producer : s.producer.Ready s.queue.ring
  consumer : s.consumer.Ready s.queue.ring
  msgCount : s.queue.msgCount + UInt32.ofNat (s.dequeued.length + s.consumer.subtracted) =
    UInt32.ofNat (s.enqueued.length + s.producer.added)
  sent : s.queue.totalSent = UInt64.ofNat s.enqueued.length
  received : s.queue.totalReceived = UInt64.ofNat s.dequeued.length
  dropped : s.queue.totalDropped = UInt64.ofNat s.rejected

theorem start_inv [NeZero n] : (start n w).Inv where
  fifo := (contents_of_empty rfl).symm
  producer := trivial
  consumer := trivial
  msgCount := rfl
  sent := rfl
  received := rfl
  dropped := rfl

end Session

section Ring

variable {ring : Queue n (MessageBytes w)} {c : Consumer n w}

theorem Consumer.Ready.write (ready : c.Ready ring) (msg : MessageBytes w) :
    c.Ready { ring with cells := update ring.cells ring.head msg } := by
  cases c with
  | copying buffer tail copied =>
    obtain ⟨atTail, nonempty, same⟩ := ready
    have apart : ring.tail ≠ ring.head := fun empty =>
      nonempty.ne' (length_eq_zero_iff.mpr empty.symm)
    refine ⟨atTail, nonempty, fun i member => (same i member).trans ?_⟩
    exact (congrFun (update_of_ne apart msg ring.cells) i).symm
  | idle | storedTail | counted => trivial
  | loadedHead buffer head => exact ready

theorem Consumer.Ready.advance (ready : c.Ready ring) (room : ring.length + 1 < n) :
    c.Ready { ring with head := place ring.head 1 } := by
  cases c with
  | loadedHead buffer head =>
    obtain ⟨k, within, reaches⟩ := ready
    refine ⟨k, ?_, reaches⟩
    rw [length_advance room]
    exact Nat.le_succ_of_le within
  | copying buffer tail copied =>
    obtain ⟨atTail, nonempty, same⟩ := ready
    refine ⟨atTail, ?_, same⟩
    rw [length_advance room]
    exact Nat.succ_pos _
  | idle | storedTail | counted => trivial

theorem Producer.Ready.release {p : Producer n w} (ready : p.Ready ring) (nonempty : 0 < ring.length) :
    p.Ready { ring with tail := place ring.tail 1 } := by
  cases p with
  | copying msg head copied =>
    obtain ⟨atHead, room, same⟩ := ready
    have shorter := length_release nonempty
    exact ⟨atHead, by omega, same⟩
  | idle | full | storedHead | counted => trivial
  | loadedHead msg head => exact ready

end Ring

variable {s : Session n w}

namespace Session

theorem Inv.enqueueStep (inv : s.Inv) (msg : MessageBytes w) (i : Fin w) : (s.enqueueStep msg i).Inv := by
  obtain ⟨queue, producer, consumer, enqueued, rejected, dequeued⟩ := s
  obtain ⟨fifo, ready, other, msgCount, sent, received, dropped⟩ := inv
  dsimp only at fifo ready other msgCount sent received dropped
  cases producer with
  | idle => exact ⟨fifo, rfl, other, msgCount, sent, received, dropped⟩
  | loadedHead msg head =>
    obtain rfl : head = queue.ring.head := ready
    by_cases full : place queue.ring.head 1 = queue.ring.tail
    · simp only [Session.enqueueStep, if_pos full]
      exact ⟨fifo, trivial, other, msgCount, sent, received, dropped⟩
    · simp only [Session.enqueueStep, if_neg full]
      have room : queue.ring.length + 1 < n :=
        Nat.lt_of_le_of_ne length_lt fun last => full (full_iff.mpr last)
      exact ⟨fifo, ⟨rfl, room, fun _ none => absurd none List.not_mem_nil⟩, other, msgCount, sent, received, dropped⟩
  | full =>
    refine ⟨fifo, trivial, other, msgCount, sent, received, ?_⟩
    exact (congrArg (· + 1) dropped).trans (UInt64.ofNat_add rejected 1).symm
  | copying msg head copied =>
    obtain ⟨rfl, room, same⟩ := ready
    by_cases done : ∀ i, i ∈ copied
    · simp only [Session.enqueueStep, if_pos done]
      have whole : queue.ring.cells queue.ring.head = msg := funext fun i => same i (done i)
      refine ⟨?_, trivial, other.advance room, msgCount, sent, received, dropped⟩
      dsimp only at fifo ⊢
      rw [contents_advance room, whole, ← List.append_assoc, ← fifo]
      exact congrArg (· ++ [msg]) (List.append_nil enqueued).symm
    · simp only [Session.enqueueStep, if_neg done]
      refine ⟨?_, ⟨rfl, room, fun j member => ?_⟩, other.write _, msgCount, sent, received, dropped⟩
      · dsimp only
        rw [contents_write]
        exact fifo
      · dsimp only
        rw [update_self]
        by_cases here : j = i
        · rw [here, update_self]
        · rw [update_of_ne here]
          exact same j ((List.mem_cons.mp member).resolve_left here)
  | storedHead msg =>
    refine ⟨fifo, trivial, other, ?_, sent, received, dropped⟩
    change queue.msgCount + 1 + UInt32.ofNat (dequeued.length + consumer.subtracted) =
      UInt32.ofNat (enqueued.length + 1)
    change _ = UInt32.ofNat enqueued.length at msgCount
    rw [UInt32.ofNat_add enqueued.length, ← msgCount, UInt32.add_assoc, UInt32.add_comm 1, ← UInt32.add_assoc]
    rfl
  | counted msg =>
    refine ⟨?_, trivial, other, ?_, ?_, received, dropped⟩
    · exact (List.append_nil _).trans fifo
    · change _ = UInt32.ofNat ((enqueued ++ [msg]).length + 0)
      rw [List.length_append]
      exact msgCount
    · change queue.totalSent + 1 = UInt64.ofNat (enqueued ++ [msg]).length
      rw [List.length_append, UInt64.ofNat_add]
      exact congrArg (· + 1) sent

theorem Inv.dequeueStep (inv : s.Inv) (msg : MessageBytes w) (i : Fin w) : (s.dequeueStep msg i).Inv := by
  obtain ⟨queue, producer, consumer, enqueued, rejected, dequeued⟩ := s
  obtain ⟨fifo, other, ready, msgCount, sent, received, dropped⟩ := inv
  dsimp only at fifo other ready msgCount sent received dropped
  cases consumer with
  | idle =>
    have reaches : ∃ k ≤ queue.ring.length, place queue.ring.tail k = queue.ring.head :=
      ⟨_, Nat.le_refl _, place_length⟩
    exact ⟨fifo, other, reaches, msgCount, sent, received, dropped⟩
  | loadedHead msg head =>
    by_cases empty : head = queue.ring.tail
    · simp only [Session.dequeueStep, if_pos empty]
      exact ⟨fifo, other, trivial, msgCount, sent, received, dropped⟩
    · simp only [Session.dequeueStep, if_neg empty]
      obtain ⟨k, within, reaches⟩ := ready
      have nonempty : 0 < queue.ring.length := by
        refine Nat.lt_of_lt_of_le (Nat.pos_of_ne_zero fun zero => empty ?_) within
        rw [← reaches, zero, place_zero]
      refine ⟨fifo, other, ⟨rfl, nonempty, fun _ none => ?_⟩, msgCount, sent, received, dropped⟩
      exact absurd none List.not_mem_nil
  | copying msg tail copied =>
    obtain ⟨rfl, nonempty, same⟩ := ready
    by_cases done : ∀ i, i ∈ copied
    · simp only [Session.dequeueStep, if_pos done]
      have whole : msg = queue.ring.cells queue.ring.tail := funext fun i => same i (done i)
      refine ⟨?_, other.release nonempty, trivial, msgCount, sent, received, dropped⟩
      dsimp only at fifo ⊢
      rw [fifo, contents_release nonempty, ← whole]
      simp only [Consumer.taken, List.append_nil, List.append_assoc, List.singleton_append]
    · simp only [Session.dequeueStep, if_neg done]
      refine ⟨fifo, other, ⟨rfl, nonempty, fun j member => ?_⟩, msgCount, sent, received, dropped⟩
      by_cases here : j = i
      · rw [here, update_self]
      · rw [update_of_ne here]
        exact same j ((List.mem_cons.mp member).resolve_left here)
  | storedTail msg =>
    refine ⟨fifo, other, trivial, ?_, sent, received, dropped⟩
    change queue.msgCount - 1 + UInt32.ofNat (dequeued.length + 1) = _
    rw [UInt32.ofNat_add, UInt32.add_comm (UInt32.ofNat dequeued.length), ← UInt32.add_assoc]
    exact (congrArg (· + _) (UInt32.sub_add_cancel _ 1)).trans msgCount
  | counted msg =>
    refine ⟨?_, other, trivial, ?_, sent, ?_, dropped⟩
    · change _ = dequeued ++ [msg] ++ [] ++ queue.ring.contents
      rw [List.append_nil]
      exact fifo
    · change _ + UInt32.ofNat ((dequeued ++ [msg]).length + 0) = _
      rw [List.length_append]
      exact msgCount
    · change queue.totalReceived + 1 = UInt64.ofNat (dequeued ++ [msg]).length
      rw [List.length_append, UInt64.ofNat_add]
      exact congrArg (· + 1) received

theorem Inv.step (inv : s.Inv) (turn : Turn w) : (s.step turn).Inv := by
  cases turn with
  | producer msg i => exact inv.enqueueStep msg i
  | consumer msg i => exact inv.dequeueStep msg i

theorem accepted_step (s : Session n w) (turn : Turn w) :
    s.enqueued ++ s.producer.accepted <+: (s.step turn).enqueued ++ (s.step turn).producer.accepted := by
  obtain ⟨queue, producer, consumer, enqueued, rejected, dequeued⟩ := s
  cases turn with
  | producer msg i =>
    dsimp only [step, Session.enqueueStep]
    cases producer with
    | loadedHead msg head =>
      dsimp only
      split <;> exact List.prefix_refl _
    | copying msg head copied =>
      dsimp only
      split
      · exact List.prefix_append_right_inj enqueued |>.mpr List.nil_prefix
      · exact List.prefix_refl _
    | counted msg =>
      change enqueued ++ [msg] <+: enqueued ++ [msg] ++ []
      rw [List.append_nil]
    | idle | full | storedHead => exact List.prefix_refl _
  | consumer msg i =>
    dsimp only [step, Session.dequeueStep]
    cases consumer with
    | loadedHead | copying =>
      dsimp only
      split <;> exact List.prefix_refl _
    | idle | storedTail | counted => exact List.prefix_refl _

theorem accepted_run (s : Session n w) (turns : List (Turn w)) :
    s.enqueued ++ s.producer.accepted <+:
      (turns.foldl step s).enqueued ++ (turns.foldl step s).producer.accepted := by
  refine Run.invariant
    (I := fun r : Session n w => s.enqueued ++ s.producer.accepted <+: r.enqueued ++ r.producer.accepted)
    (fun r turn kept => ?_) (List.prefix_refl _) turns
  exact kept.trans (accepted_step r turn)

def SameButDropped (s without : Session n w) : Prop :=
  ∃ totalDropped producer enqueued rejected,
    s = { without with queue.totalDropped := totalDropped, producer, enqueued, rejected }

theorem SameButDropped.refl (s : Session n w) : SameButDropped s s := ⟨_, _, _, _, rfl⟩

theorem SameButDropped.dequeueStep {s without : Session n w} (same : SameButDropped s without) (msg : MessageBytes w)
    (i : Fin w) : SameButDropped (s.dequeueStep msg i) (without.dequeueStep msg i) := by
  obtain ⟨totalDropped, producer, enqueued, rejected, rfl⟩ := same
  refine ⟨totalDropped, producer, enqueued, rejected, ?_⟩
  unfold Session.dequeueStep
  dsimp only
  cases without.consumer with
  | idle | storedTail | counted => rfl
  | loadedHead | copying =>
    dsimp only
    split <;> rfl

theorem SameButDropped.enqueueStep {s without : Session n w} (same : SameButDropped s without)
    (undecided : s.producer.Undecided) (msg : MessageBytes w) (i : Fin w) :
    SameButDropped (s.enqueueStep msg i) without := by
  obtain ⟨totalDropped, producer, enqueued, rejected, rfl⟩ := same
  cases producer with
  | idle | full => exact ⟨_, _, _, _, rfl⟩
  | loadedHead msg head =>
    unfold Session.enqueueStep
    dsimp only
    split <;> exact ⟨_, _, _, _, rfl⟩
  | copying | storedHead | counted => exact undecided.elim

theorem SameButDropped.run {s without : Session n w} (same : SameButDropped s without) {turns : List (Turn w)}
    (undecided : Run.EveryStep step (fun s turn => turn.isConsumer = false → s.producer.Undecided) s turns) :
    SameButDropped (turns.foldl step s) ((turns.filter Turn.isConsumer).foldl step without) := by
  induction turns generalizing s without with
  | nil => exact same
  | cons turn turns ih =>
    cases turn with
    | producer msg i => exact ih (same.enqueueStep (undecided.1 rfl) msg i) undecided.2
    | consumer msg i => exact ih (same.dequeueStep msg i) undecided.2

theorem Inv.contract (inv : s.Inv) (small : n ≤ 2 ^ 32) : s.Contract where
  fifo := by
    rw [inv.fifo, List.append_assoc]
    exact List.prefix_append _ _
  returns := by
    intro turns idle
    have kept := accepted_run s turns
    rw [idle] at kept
    exact kept.trans (List.append_nil _ ▸ List.prefix_refl _)
  bounded := by
    have within := s.queue.ring.length_lt
    exact ⟨_, inv.fifo, by rw [length_contents]; omega, rfl⟩
  counts := by
    intro producer consumer
    have fifo := congrArg List.length inv.fifo
    have msgCount := inv.msgCount
    rw [producer, consumer] at fifo msgCount
    have lengths : s.enqueued.length = s.dequeued.length + s.queue.ring.contents.length := by
      simpa [Producer.accepted, Consumer.taken] using fifo
    have within : s.queue.ring.contents.length < 2 ^ 32 := by
      rw [length_contents]
      exact s.queue.ring.length_lt.trans_le small
    constructor
    · have count : s.queue.msgCount = UInt32.ofNat s.queue.ring.contents.length := by
        change _ + UInt32.ofNat s.dequeued.length = UInt32.ofNat s.enqueued.length at msgCount
        rw [lengths, Nat.add_comm, UInt32.ofNat_add] at msgCount
        exact (UInt32.add_left_inj _).mp msgCount
      rw [count]
      exact UInt32.toNat_ofNat_of_lt within
    · rw [inv.sent, inv.received, lengths, UInt64.ofNat_add, UInt64.add_comm, UInt64.add_sub_cancel]
      exact UInt64.toNat_ofNat_of_lt (within.trans (by decide))
  dropped := inv.dropped
  rejects := by
    intro turns undecided
    obtain ⟨totalDropped, producer, enqueued, rejected, same⟩ := (SameButDropped.refl s).run undecided
    intro after without
    rw [show after = _ from same]
    exact ⟨rfl, rfl, rfl⟩

def queueCapacity : Nat := 4096

instance : NeZero queueCapacity := ⟨by decide⟩

theorem interleaving_contract (turns : List (Turn w)) : (turns.foldl step (start queueCapacity w)).Contract := by
  have inv : (turns.foldl step (start queueCapacity w)).Inv :=
    Run.invariant (I := Inv) (fun _ turn inv => inv.step turn) start_inv turns
  exact inv.contract (by decide)

end Session

end CxlMemSim.Dist
