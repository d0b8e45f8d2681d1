import CxlMemSim.Mpi.Alloc

/-! A ring of 1024 message slots, with counters that only grow: messages lie between `tail` and `head`. -/
namespace CxlMemSim.Mpi
open Function List

inductive MsgState where
  | empty | ready | reading | consumed
deriving DecidableEq

/-- `data` is `inline_data`, or the block that `data_rptr` points to. -/
structure CxlMsg where
  state : MsgState := .empty
  sourceRank : Nat := 0
  tag : Nat := 0
  dataSize : Nat := 0
  isInline : Bool := false
  data : List UInt8 := []
  /-- The number of the message, for the proofs: the code has no such field. -/
  number : Nat := 0

structure Mailbox where
  head : Nat := 0
  tail : Nat := 0
  messages : Nat → CxlMsg := fun _ => {}

def cxlMsgMaxInlineSize : Nat := 4096

def queueSize : Nat := cxlMsgQueueSize.toNat

theorem queueSize_eq : queueSize = 1024 := rfl

namespace Mailbox
variable (box : Mailbox)

def msg (i : Nat) : CxlMsg := box.messages (i % queueSize)

def setMsg (i : Nat) (msg : CxlMsg) : Mailbox :=
  { box with messages := update box.messages (i % queueSize) msg }

def setState (i : Nat) (state : MsgState) : Mailbox := box.setMsg i { box.msg i with state }

def push (msg : CxlMsg) : Mailbox :=
  { box.setMsg box.head { msg with state := .ready } with head := box.head + 1 }

end Mailbox

/-- The filters of a receive; a negative one lets everything pass. -/
def CxlMsg.selected (source tag : Int) (msg : CxlMsg) : Bool :=
  (source < 0 || (msg.sourceRank : Int) = source) && (tag < 0 || (msg.tag : Int) = tag)

def CxlMsg.isReady (msg : CxlMsg) : Bool := msg.state = .ready

namespace Mailbox
variable (box : Mailbox)

def advanceTail : Nat → Mailbox → Mailbox
  | 0, box => box
  | steps + 1, box =>
    if (box.msg box.tail).state = .consumed then
      advanceTail steps { box.setState box.tail .empty with tail := box.tail + 1 }
    else box

def window : List Nat := List.range' box.tail (box.head - box.tail)

def cxlRecv (source tag : Int) : Mailbox × Option CxlMsg :=
  match box.window.find? fun i => (box.msg i).isReady && (box.msg i).selected source tag with
  | none => (box, none)
  | some i =>
    (if i = box.tail then advanceTail (box.head - box.tail) (box.setState i .consumed) else box.setState i .consumed,
      some (box.msg i))

end Mailbox

def CxlMsg.copied (msg : CxlMsg) (maxSize : Nat) : List UInt8 := msg.data.take (min msg.dataSize maxSize)

namespace Mailbox

def pending (box : Mailbox) : List CxlMsg := (box.window.map box.msg).filter CxlMsg.isReady

structure Ring (box : Mailbox) : Prop where
  order : box.tail ≤ box.head
  room : box.head ≤ box.tail + queueSize
  inside : ∀ i, box.tail ≤ i → i < box.head → (box.msg i).state = .ready ∨ (box.msg i).state = .consumed
  outside : ∀ i, box.head ≤ i → i < box.tail + queueSize → (box.msg i).state = .empty

structure Inv (box : Mailbox) : Prop extends Ring box where
  front : box.tail < box.head → (box.msg box.tail).state = .ready

variable {box : Mailbox} {i : Nat}

theorem mem_window : i ∈ box.window ↔ box.tail ≤ i ∧ i < box.head := by
  rw [window, mem_range'_1]
  omega

@[simp] theorem msg_setMsg_self (box : Mailbox) (i : Nat) (msg : CxlMsg) : (box.setMsg i msg).msg i = msg :=
  update_self _ _ _

theorem msg_turn (box : Mailbox) (i : Nat) : box.msg (i + queueSize) = box.msg i := by
  rw [msg, msg, Nat.add_mod_right]

theorem msg_setMsg_other (msg : CxlMsg) {j start : Nat} (hi : start ≤ i ∧ i < start + queueSize)
    (hj : start ≤ j ∧ j < start + queueSize) (differ : j ≠ i) : (box.setMsg i msg).msg j = box.msg j := by
  refine update_of_ne ?_ _ _
  rw [queueSize_eq] at *
  omega

theorem pending_congr {box' : Mailbox} (tail : box'.tail = box.tail) (head : box'.head = box.head)
    (same : ∀ i, box.tail ≤ i → i < box.head → box'.msg i = box.msg i) : box'.pending = box.pending := by
  rw [pending, pending, window, window, tail, head]
  congr 1
  refine map_congr_left fun i member => ?_
  have bounds := mem_window.mp (show i ∈ box.window from member)
  exact same i bounds.1 bounds.2

theorem Inv.msg_setHead (inv : Inv box) (room : box.head - box.tail < queueSize) (msg : CxlMsg)
    (low : box.tail ≤ i) (high : i < box.tail + queueSize) (differ : i ≠ box.head) :
    (box.setMsg box.head msg).msg i = box.msg i := by
  have order := inv.order
  have bound : box.head < box.tail + queueSize := by omega
  exact msg_setMsg_other _ ⟨order, bound⟩ ⟨low, high⟩ differ

theorem Inv.push (inv : Inv box) (room : box.head - box.tail < queueSize) (msg : CxlMsg) :
    Inv (box.push msg) ∧ (box.push msg).pending = box.pending ++ [{ msg with state := .ready }] := by
  have order := inv.order
  have here : (box.push msg).msg box.head = { msg with state := .ready } := msg_setMsg_self _ _ _
  have others : ∀ i, box.tail ≤ i → i < box.tail + queueSize → i ≠ box.head → (box.push msg).msg i = box.msg i :=
    fun i low high differ => inv.msg_setHead room _ low high differ
  constructor
  · refine ⟨⟨?_, ?_, ?_, ?_⟩, ?_⟩
    · exact Nat.le_succ_of_le order
    · change box.head + 1 ≤ box.tail + queueSize
      omega
    · intro i low high
      change i < box.head + 1 at high
      by_cases last : i = box.head
      · subst last
        rw [here]
        exact .inl rfl
      · rw [others i low (by omega) last]
        exact inv.inside i low (by omega)
    · intro i low high
      change box.head + 1 ≤ i at low
      rw [others i (by omega) high (by omega)]
      exact inv.outside i (by omega) high
    · intro _
      change ((box.push msg).msg box.tail).state = .ready
      by_cases first : box.tail = box.head
      · rw [first, here]
      · rw [others box.tail (Nat.le_refl _) (by omega) first]
        exact inv.front (by omega)
  · have old : box.window.map (box.push msg).msg = box.window.map box.msg := by
      refine map_congr_left fun i member => ?_
      have bounds := mem_window.mp member
      exact others i bounds.1 (by omega) (by omega)
    have new : (box.push msg).window = box.window ++ [box.head] := by
      change List.range' box.tail (box.head + 1 - box.tail) = _
      rw [show box.head + 1 - box.tail = box.head - box.tail + 1 by omega, List.range'_1_concat,
        show box.tail + (box.head - box.tail) = box.head by omega]
      rfl
    rw [pending, new, map_append, old, filter_append, map_singleton, here]
    rfl

theorem Inv.scribble (inv : Inv box) (room : box.head - box.tail < queueSize) (msg : CxlMsg)
    (empty : msg.state = .empty) :
    Inv (box.setMsg box.head msg) ∧ (box.setMsg box.head msg).pending = box.pending := by
  have order := inv.order
  constructor
  · refine ⟨⟨order, inv.room, ?_, ?_⟩, ?_⟩
    · intro i low high
      change i < box.head at high
      rw [inv.msg_setHead room msg low (by omega) (by omega)]
      exact inv.inside i low high
    · intro i low high
      by_cases last : i = box.head
      · subst last
        rw [msg_setMsg_self]
        exact empty
      · rw [inv.msg_setHead room msg (Nat.le_trans order low) high last]
        exact inv.outside i low high
    · intro some
      change box.tail < box.head at some
      change ((box.setMsg box.head msg).msg box.tail).state = .ready
      rw [inv.msg_setHead room msg (Nat.le_refl _) (by omega) (by omega)]
      exact inv.front some
  · exact pending_congr rfl rfl fun i low high => inv.msg_setHead room msg low (by omega) (by omega)

theorem pending_tail (some : box.tail < box.head) :
    box.pending = ((box.msg box.tail :: (List.range' (box.tail + 1) (box.head - box.tail - 1)).map box.msg)).filter
      CxlMsg.isReady := by
  obtain ⟨length, split⟩ : ∃ length, box.head - box.tail = length + 1 := ⟨box.head - box.tail - 1, by omega⟩
  rw [pending, window, split, List.range'_succ, map_cons, Nat.add_sub_cancel]

theorem Ring.dropTail (ring : Ring box) (some : box.tail < box.head) (consumed : (box.msg box.tail).state = .consumed) :
    Ring { box.setState box.tail .empty with tail := box.tail + 1 } ∧
      pending { box.setState box.tail .empty with tail := box.tail + 1 } = box.pending := by
  have room := ring.room
  have others : ∀ i, box.tail + 1 ≤ i → i < box.tail + queueSize →
      (box.setState box.tail .empty).msg i = box.msg i := by
    intro i low high
    exact msg_setMsg_other _ ⟨Nat.le_refl _, by omega⟩ ⟨Nat.le_of_succ_le low, high⟩ (by omega)
  constructor
  · refine ⟨some, ?_, ?_, ?_⟩
    · change box.head ≤ box.tail + 1 + queueSize
      omega
    · intro i low high
      change box.tail + 1 ≤ i at low
      change i < box.head at high
      change ((box.setState box.tail .empty).msg i).state = _ ∨ ((box.setState box.tail .empty).msg i).state = _
      rw [others i low (by omega)]
      exact ring.inside i (by omega) high
    · intro i low high
      change box.head ≤ i at low
      change i < box.tail + 1 + queueSize at high
      change ((box.setState box.tail .empty).msg i).state = _
      -- the slot that the tail leaves is the last one before the next round
      by_cases around : i = box.tail + queueSize
      · rw [around, msg_turn, setState, msg_setMsg_self]
      · rw [others i (by omega) (by omega)]
        exact ring.outside i low (by omega)
  · rw [pending_tail some, filter_cons_of_neg (by rw [CxlMsg.isReady, consumed]; decide)]
    have rest : ∀ i ∈ List.range' (box.tail + 1) (box.head - box.tail - 1),
        (box.setState box.tail .empty).msg i = box.msg i := by
      intro i member
      rw [mem_range'_1] at member
      exact others i member.1 (by omega)
    change ((List.range' (box.tail + 1) (box.head - (box.tail + 1))).map (box.setState box.tail .empty).msg).filter
      _ = _
    rw [Nat.sub_add_eq, map_congr_left rest]

theorem Ring.advanceTail {steps : Nat} (ring : Ring box) (all : steps = box.head - box.tail) :
    Inv (advanceTail steps box) ∧ (advanceTail steps box).pending = box.pending := by
  induction steps generalizing box with
  | zero =>
    have order := ring.order
    exact ⟨⟨ring, fun some => by change box.tail < box.head at some; omega⟩, rfl⟩
  | succ steps ih =>
    rw [Mailbox.advanceTail]
    split
    · rename_i consumed
      obtain ⟨ring', same⟩ := ring.dropTail (by omega) consumed
      obtain ⟨inv, same'⟩ := ih ring' (by change steps = box.head - (box.tail + 1); omega)
      exact ⟨inv, same'.trans same⟩
    · rename_i going
      exact ⟨⟨ring, fun some => (ring.inside box.tail (Nat.le_refl _) some).resolve_right going⟩, rfl⟩

theorem filter_map_eraseP {ι α : Type} {places : List ι} {f g : ι → α} {ready p : α → Bool} {i : ι}
    (nodup : places.Nodup) (found : places.find? (fun j => ready (f j) && p (f j)) = some i)
    (gone : ready (g i) = false) (same : ∀ j ∈ places, j ≠ i → g j = f j) :
    (places.map g).filter ready = ((places.map f).filter ready).eraseP p := by
  induction places with
  | nil => cases found
  | cons j places ih =>
    obtain ⟨absent, nodup⟩ := nodup_cons.mp nodup
    obtain ⟨here, others⟩ := forall_mem_cons.mp same
    rw [map_cons, map_cons]
    by_cases hit : (ready (f j) && p (f j)) = true
    · obtain rfl : j = i := by
        simp only [find?_cons, hit] at found
        exact Option.some.inj found
      obtain ⟨isReady, selected⟩ := Bool.and_eq_true_iff.mp hit
      have rest : places.map g = places.map f :=
        map_congr_left fun k member => others k member fun eq => absent (eq ▸ member)
      rw [filter_cons_of_neg (by rw [gone]; exact Bool.false_ne_true), filter_cons_of_pos isReady,
        eraseP_cons_of_pos selected, rest]
    · simp only [find?_cons, Bool.not_eq_true _ ▸ hit] at found
      have differ : j ≠ i := fun eq => absent (eq ▸ mem_of_find?_eq_some found)
      rw [here differ]
      by_cases isReady : ready (f j) = true
      · have unselected : ¬ p (f j) = true := fun selected => hit (Bool.and_eq_true_iff.mpr ⟨isReady, selected⟩)
        rw [filter_cons_of_pos isReady, filter_cons_of_pos isReady, eraseP_cons_of_neg unselected,
          ih nodup found others]
      · rw [filter_cons_of_neg isReady, filter_cons_of_neg isReady, ih nodup found others]

theorem find_pending (box : Mailbox) (source tag : Int) :
    box.pending.find? (CxlMsg.selected source tag) =
      (box.window.find? fun i => (box.msg i).isReady && (box.msg i).selected source tag).map box.msg := by
  simp only [pending, find?_filter, find?_map, comp_def, Bool.decide_and, Bool.decide_eq_true]

theorem Inv.consume (inv : Inv box) (low : box.tail ≤ i) (high : i < box.head) :
    Ring (box.setState i .consumed) ∧
      ∀ j, box.tail ≤ j → j < box.tail + queueSize → j ≠ i → (box.setState i .consumed).msg j = box.msg j := by
  have room := inv.room
  have others : ∀ j, box.tail ≤ j → j < box.tail + queueSize → j ≠ i →
      (box.setState i .consumed).msg j = box.msg j := by
    intro j low' high' differ
    exact msg_setMsg_other _ ⟨low, by omega⟩ ⟨low', high'⟩ differ
  refine ⟨⟨inv.order, inv.room, ?_, ?_⟩, others⟩
  · intro j low' high'
    change j < box.head at high'
    by_cases here : j = i
    · subst here
      rw [setState, msg_setMsg_self]
      exact .inr rfl
    · rw [others j low' (by omega) here]
      exact inv.inside j low' high'
  · intro j low' high'
    change box.head ≤ j at low'
    rw [others j (by omega) high' (by omega)]
    exact inv.outside j low' high'

theorem Inv.cxlRecv (inv : Inv box) (source tag : Int) :
    (box.cxlRecv source tag).1.Inv ∧ (box.cxlRecv source tag).2 = box.pending.find? (CxlMsg.selected source tag) ∧
      (box.cxlRecv source tag).1.pending = box.pending.eraseP (CxlMsg.selected source tag) := by
  have view := find_pending box source tag
  rw [Mailbox.cxlRecv]
  cases found : box.window.find? fun i => (box.msg i).isReady && (box.msg i).selected source tag with
  | none =>
    rw [found] at view
    refine ⟨inv, view.symm, (eraseP_of_forall_not ?_).symm⟩
    simpa using view
  | some i =>
    rw [found] at view
    have bounds := mem_window.mp (mem_of_find?_eq_some found)
    obtain ⟨ring, others⟩ := inv.consume bounds.1 bounds.2
    have erased : (box.setState i .consumed).pending = box.pending.eraseP (CxlMsg.selected source tag) := by
      refine filter_map_eraseP (f := box.msg) nodup_range' found ?_ ?_
      · rw [setState, msg_setMsg_self]
        rfl
      · intro j member differ
        have inside := mem_window.mp (show j ∈ box.window from member)
        have room := inv.room
        exact others j inside.1 (by omega) differ
    refine ⟨?_, view.symm, ?_⟩
    · dsimp only
      split
      · exact (ring.advanceTail rfl).1
      · rename_i behind
        refine ⟨ring, fun some => ?_⟩
        have positive : 0 < queueSize := by decide
        change ((box.setState i .consumed).msg box.tail).state = .ready
        rw [others box.tail (Nat.le_refl _) (by omega) (Ne.symm behind)]
        exact inv.front some
    · dsimp only
      split
      · exact (ring.advanceTail rfl).2.trans erased
      · exact erased

end Mailbox
end CxlMemSim.Mpi
