import CxlMemSim.Mpi.RankMailbox
import Mathlib.Data.List.Find

/-! The steps of several `cxl_send` calls to one rank, in any order, with receives of the rank in between. -/
namespace CxlMemSim.Mpi
open Function Run RankMailbox

/-- Where a call to `cxl_send` is, with the `head` that it has loaded; `returned none` is the result -1. -/
inductive SendPc where
  | start
  | headLoaded (head : UInt64)
  | waiting (head : UInt64) (retries : Nat)
  | checking (head : UInt64)
  | filling (head : UInt64) (fields : Nat)
  | marking (head : UInt64)
  | advancing (head : UInt64)
  | returned (result : Option UInt64)
deriving DecidableEq

namespace SendPc

def advance (letter : Letter) (allocated : Bool) (number : Nat) (box : RankMailbox) : SendPc → RankMailbox × SendPc
  | .start => (box, .headLoaded box.head)
  | .headLoaded head =>
    (box, if cxlMsgQueueSize ≤ head - box.tail then .returned none else .waiting head 0)
  | .waiting head retries =>
    (box, if (box.slot head).state ≠ .empty ∧ retries < 10000 then .waiting head (retries + 1) else .checking head)
  | .checking head => (box, if (box.slot head).state ≠ .empty then .returned none else .filling head 0)
  | .filling head 0 =>
    (box.setSlot head { box.slot head with sourceRank := letter.source.toUInt32.toNat }, .filling head 1)
  | .filling head 1 =>
    (box.setSlot head { box.slot head with tag := letter.tag.toUInt32.toNat }, .filling head 2)
  | .filling head 2 =>
    (box.setSlot head { box.slot head with dataSize := letter.data.length }, .filling head 3)
  | .filling head (_ + 3) =>
    if letter.data.length ≤ cxlMsgMaxInlineSize then
      (box.setSlot head { box.slot head with data := letter.data, isInline := true }, .marking head)
    else if allocated then
      (box.setSlot head { box.slot head with data := letter.data, isInline := false }, .marking head)
    else (box, .returned none)
  | .marking head => (box.setSlot head { box.slot head with state := .ready }, .advancing head)
  | .advancing head => ((box.setSlot head { box.slot head with number }).advanceHead, .returned (some head))
  | .returned result => (box, .returned result)

def busy : SendPc → Bool
  | .filling .. | .marking _ | .advancing _ => true
  | .start | .headLoaded _ | .waiting .. | .checking _ | .returned _ => false

end SendPc

/-- The mailbox, the calls to it, and the numbers of the messages that its rank has received. -/
structure Senders (n : Nat) where
  box : RankMailbox
  pc : Fin n → SendPc := fun _ => .start
  received : List Nat := []

inductive SendStep (n : Nat) where
  | call (k : Fin n)
  | recv (source tag : Int32) (maxSize : Nat)

namespace Senders
variable {n : Nat} (letters : Fin n → Letter) (allocated : Fin n → Bool)

def step (s : Senders n) : SendStep n → Senders n
  | .call k =>
    { s with
      box := ((s.pc k).advance (letters k) (allocated k) k s.box).1
      pc := update s.pc k ((s.pc k).advance (letters k) (allocated k) k s.box).2 }
  | .recv source tag maxSize =>
    { s with
      box := (s.box.cxlRecv source tag maxSize).1
      received := s.received ++ ((s.box.counted.cxlRecv source.toInt tag.toInt).2.map (·.number)).toList }

def start (leftover : Nat → CxlMsg) : Senders n := { box := (Post.registered leftover).box }

/-- No two calls that returned 0 went on with the same head, and the message of each is ready in a slot of its own
until it is received. -/
structure Delivered (s : Senders n) : Prop where
  apart : ∀ j k head, s.pc j = .returned (some head) → s.pc k = .returned (some head) → j = k
  kept : ∀ k head, s.pc k = .returned (some head) → k.val ∉ s.received →
    ∃ i, s.box.tail.toNat ≤ i ∧ i < s.box.head.toNat ∧ (s.box.messages (i % queueSize)).state = .ready ∧
      (s.box.messages (i % queueSize)).number = k ∧ (s.box.messages (i % queueSize)).fields = (letters k).fields

/-- A call that finds its slot empty has loaded the current head, which can be counted up, and is the only one that
goes on to fill a slot. -/
def Sole (s : Senders n) : SendStep n → Prop
  | .call k =>
    match s.pc k with
    | .checking head => (s.box.slot head).state = .empty →
        head = s.box.head ∧ head.toNat + 1 < 2 ^ 64 ∧ ∀ j, (s.pc j).busy = false
    | _ => True
  | .recv .. => True

instance (s : Senders n) (c : SendStep n) : Decidable (s.Sole c) := by
  unfold Sole
  repeat' split
  all_goals infer_instance

end Senders
namespace Mailbox
variable {box : Mailbox}

theorem setMsg_comm {i j start : Nat} (hi : start ≤ i ∧ i < start + queueSize) (hj : start ≤ j ∧ j < start + queueSize)
    (differ : i ≠ j) (msg msg' : CxlMsg) : (box.setMsg i msg).setMsg j msg' = (box.setMsg j msg').setMsg i msg := by
  have slots : i % queueSize ≠ j % queueSize := by
    rw [queueSize_eq] at *
    omega
  simp only [setMsg, update_comm slots]

theorem setState_setMsg {i j start : Nat} (hi : start ≤ i ∧ i < start + queueSize)
    (hj : start ≤ j ∧ j < start + queueSize) (differ : i ≠ j) (state : MsgState) (msg : CxlMsg) :
    (box.setMsg j msg).setState i state = (box.setState i state).setMsg j msg := by
  rw [setState, setState, msg_setMsg_other msg hj hi differ, setMsg_comm hj hi differ.symm]

theorem advanceTail_setMsg {steps j : Nat} (msg : CxlMsg) (before : box.tail + steps ≤ j)
    (inRing : j < box.tail + queueSize) :
    advanceTail steps (box.setMsg j msg) = (advanceTail steps box).setMsg j msg := by
  induction steps generalizing box with
  | zero => rfl
  | succ steps ih =>
    have here : box.tail ≤ box.tail ∧ box.tail < box.tail + queueSize := ⟨Nat.le_refl _, by omega⟩
    have there : box.tail ≤ j ∧ j < box.tail + queueSize := ⟨by omega, inRing⟩
    have same : (box.setMsg j msg).msg box.tail = box.msg box.tail := msg_setMsg_other msg there here (by omega)
    rw [advanceTail, advanceTail]
    change (if ((box.setMsg j msg).msg box.tail).state = .consumed then
      advanceTail steps { (box.setMsg j msg).setState box.tail .empty with tail := box.tail + 1 }
      else box.setMsg j msg) = _
    rw [same, setState_setMsg here there (by omega)]
    split
    · have next : box.tail + 1 + steps ≤ j ∧ j < box.tail + 1 + queueSize := by omega
      exact @ih { box.setState box.tail .empty with tail := box.tail + 1 } next.1 next.2
    · rfl

theorem cxlRecv_setHead (order : box.tail ≤ box.head) (room : box.head < box.tail + queueSize) (msg : CxlMsg)
    (source tag : Int) :
    (box.setMsg box.head msg).cxlRecv source tag =
      ((box.cxlRecv source tag).1.setMsg box.head msg, (box.cxlRecv source tag).2) := by
  have same : ∀ i ∈ box.window, (box.setMsg box.head msg).msg i = box.msg i := by
    intro i member
    have bounds := mem_window.mp member
    exact msg_setMsg_other msg ⟨order, room⟩ ⟨bounds.1, by omega⟩ (by omega)
  have found : (box.setMsg box.head msg).window.find?
      (fun i => ((box.setMsg box.head msg).msg i).isReady && ((box.setMsg box.head msg).msg i).selected source tag) =
      box.window.find? fun i => (box.msg i).isReady && (box.msg i).selected source tag := by
    refine List.find?_congr fun i member => ?_
    rw [same i member]
  rw [cxlRecv, cxlRecv, found]
  cases hit : box.window.find? fun i => (box.msg i).isReady && (box.msg i).selected source tag with
  | none => rfl
  | some i =>
    have member := List.mem_of_find?_eq_some hit
    have bounds := mem_window.mp member
    dsimp only
    rw [same i member, setState_setMsg ⟨bounds.1, by omega⟩ ⟨order, room⟩ (by omega)]
    change (if i = box.tail then advanceTail (box.head - box.tail) ((box.setState i .consumed).setMsg box.head msg)
      else (box.setState i .consumed).setMsg box.head msg, _) = _
    split
    · have reached : (box.setState i .consumed).tail + (box.head - box.tail) ≤ box.head := by
        change box.tail + (box.head - box.tail) ≤ box.head
        omega
      rw [advanceTail_setMsg msg reached room]
    · rfl

end Mailbox
namespace RankMailbox
variable {box : RankMailbox}

theorem slot_setSlot_self (i : UInt64) (msg : CxlMsg) : (box.setSlot i msg).slot i = msg := update_self ..

theorem setSlot_setSlot (i : UInt64) (msg msg' : CxlMsg) : (box.setSlot i msg).setSlot i msg' = box.setSlot i msg' := by
  simp only [setSlot, update_idem]

theorem setSlot_slot (i : UInt64) : box.setSlot i (box.slot i) = box := by
  simp only [setSlot, slot, update_eq_self]

variable (inv : box.counted.Inv) (room : box.head - box.tail < cxlMsgQueueSize)
include inv room

theorem head_lt : box.counted.head < box.counted.tail + queueSize := by
  have order := inv.order
  have bound := (room_iff inv).mp room
  omega

omit room in
theorem room_of_empty (isEmpty : (box.slot box.head).state = .empty) : box.head - box.tail < cxlMsgQueueSize := by
  have order := inv.order
  have most := inv.room
  by_contra full
  rw [room_iff inv] at full
  have around : box.counted.head = box.counted.tail + queueSize := by omega
  have front := inv.front (by rw [around, queueSize_eq]; omega)
  rw [slot_eq] at isEmpty
  change (box.counted.msg box.counted.head).state = .empty at isEmpty
  rw [around, Mailbox.msg_turn, front] at isEmpty
  cases isEmpty

theorem take_setHead (msg : CxlMsg) (source tag : Int) :
    (box.setSlot box.head msg).take source tag =
      ((box.take source tag).1.setSlot box.head msg, (box.take source tag).2) := by
  have frame := Mailbox.cxlRecv_setHead inv.order (head_lt inv room) msg source tag
  have counted : (box.setSlot box.head msg).counted = box.counted.setMsg box.counted.head msg := counted_setSlot _ _
  rw [take, counted, frame]
  simp only [Mailbox.setMsg, setSlot, take, slot_index]
  rfl

omit room in
theorem take_inv (source tag : Int) : (box.take source tag).1.counted.Inv := by
  rw [counted_take inv]
  exact (inv.cxlRecv source tag).1

theorem slot_take (source tag : Int) : (box.take source tag).1.slot box.head = box.slot box.head := by
  have frame := congrArg Prod.fst (take_setHead inv room (box.slot box.head) source tag)
  rw [setSlot_slot] at frame
  rw [frame, slot_setSlot_self]

theorem take_room (source tag : Int) :
    (box.take source tag).1.head - (box.take source tag).1.tail < cxlMsgQueueSize := by
  refine room_of_empty (take_inv inv source tag) ?_
  have isEmpty := head_empty inv room
  rw [← slot_take inv room source tag] at isEmpty
  exact isEmpty

variable {msg : CxlMsg}

theorem scribble (isEmpty : msg.state = .empty) :
    (box.setSlot box.head msg).counted.Inv ∧ (box.setSlot box.head msg).counted.pending = box.counted.pending := by
  rw [counted_setSlot]
  exact inv.scribble ((room_iff inv).mp room) msg isEmpty

end RankMailbox
structure Written (letter : Letter) (fields : Nat) (msg : CxlMsg) : Prop where
  source : 0 < fields → msg.sourceRank = letter.source.toUInt32.toNat
  tag : 1 < fields → msg.tag = letter.tag.toUInt32.toNat
  size : 2 < fields → msg.dataSize = letter.data.length

theorem written_none (letter : Letter) (msg : CxlMsg) : Written letter 0 msg where
  source some := absurd some (by decide)
  tag some := absurd some (by decide)
  size some := absurd some (by decide)

namespace Written
variable {letter : Letter} {msg : CxlMsg}

theorem source_field : Written letter 1 { msg with sourceRank := letter.source.toUInt32.toNat } where
  source _ := rfl
  tag some := absurd some (by decide)
  size some := absurd some (by decide)

theorem tag_field (written : Written letter 1 msg) :
    Written letter 2 { msg with tag := letter.tag.toUInt32.toNat } where
  source _ := written.source (by decide)
  tag _ := rfl
  size some := absurd some (by decide)

theorem size_field (written : Written letter 2 msg) : Written letter 3 { msg with dataSize := letter.data.length } where
  source _ := written.source (by decide)
  tag _ := written.tag (by decide)
  size _ := rfl

variable {fields : Nat}

theorem fields_eq (written : Written letter (fields + 3) msg) (isInline : Bool) :
    CxlMsg.fields { msg with data := letter.data, isInline } = letter.fields := by
  simp only [CxlMsg.fields, Letter.fields, written.source (by omega), written.tag (by omega), written.size (by omega)]

end Written

/-- What a busy call knows: the slot at the head is its own. `base` is the mailbox without a slot that is marked before
the head is counted up. -/
def SendPc.Holding (letter : Letter) (box base : RankMailbox) : SendPc → Prop
  | .filling head fields => head = base.head ∧ head.toNat + 1 < 2 ^ 64 ∧ base.head - base.tail < cxlMsgQueueSize ∧
      box = base ∧ Written letter fields (box.slot head)
  | .marking head => head = base.head ∧ head.toNat + 1 < 2 ^ 64 ∧ base.head - base.tail < cxlMsgQueueSize ∧
      box = base ∧ (box.slot head).fields = letter.fields
  | .advancing head => head = base.head ∧ head.toNat + 1 < 2 ^ 64 ∧ base.head - base.tail < cxlMsgQueueSize ∧
      ∃ msg, msg.state = .ready ∧ msg.fields = letter.fields ∧ box = base.setSlot base.head msg
  | .start | .headLoaded _ | .waiting .. | .checking _ | .returned _ => True

theorem holding_of_idle {letter : Letter} {box base : RankMailbox} {pc : SendPc} (idle : pc.busy = false) :
    pc.Holding letter box base := by
  cases pc with
  | filling | marking | advancing => cases idle
  | start | headLoaded | waiting | checking | returned => trivial

/-- The mailbox while calls to it are under way, at most one of which holds a slot. -/
structure Tended {ι : Type} (letters : ι → Letter) (pc : ι → SendPc) (box base : RankMailbox) : Prop where
  inv : base.counted.Inv
  single : ∀ j k, (pc j).busy = true → (pc k).busy = true → j = k
  quiet : (∀ k, (pc k).busy = false) → box = base
  holding : ∀ k, (pc k).Holding (letters k) box base

def Solely {ι : Type} (pc : ι → SendPc) (box : RankMailbox) (j : ι) : Prop :=
  ∀ head, pc j = .checking head → (box.slot head).state = .empty →
    head = box.head ∧ head.toNat + 1 < 2 ^ 64 ∧ ∀ k, (pc k).busy = false

structure Keeps (pc pc' : SendPc) (base base' : RankMailbox) : Prop where
  returned : ∀ head, pc' = .returned (some head) → pc = .returned (some head)
  head_eq : base'.head = base.head
  pending_eq : base'.counted.pending = base.counted.pending

structure Bears (letter : Letter) (number : Nat) (msg : CxlMsg) : Prop where
  number_eq : msg.number = number
  fields : msg.fields = letter.fields

structure Publishes (letter : Letter) (number : Nat) (pc pc' : SendPc) (base base' : RankMailbox) : Prop where
  advancing : pc = .advancing base.head
  returned : pc' = .returned (some base.head)
  head_eq : base'.head.toNat = base.head.toNat + 1
  appended : ∃ msg, Bears letter number msg ∧ base'.counted.pending = base.counted.pending ++ [msg]

def Leads {ι : Type} [DecidableEq ι] (letters : ι → Letter) (pc : ι → SendPc) (j : ι) (number : Nat)
    (base : RankMailbox) (next : RankMailbox × SendPc) : Prop :=
  ∃ base', Tended letters (update pc j next.2) next.1 base' ∧
    (Keeps (pc j) next.2 base base' ∨ Publishes (letters j) number (pc j) next.2 base base')

namespace Tended
variable {ι : Type} {letters : ι → Letter} {pc : ι → SendPc} {box base : RankMailbox}
  (tended : Tended letters pc box base)
include tended

theorem congr {letters' : ι → Letter} {pc' : ι → SendPc}
    (same : ∀ k, pc' k = pc k ∧ letters' k = letters k ∨ (pc k).busy = false ∧ (pc' k).busy = false) :
    Tended letters' pc' box base := by
  have busy (k : ι) : (pc' k).busy = (pc k).busy := by
    rcases same k with ⟨same, -⟩ | ⟨before, after⟩
    · rw [same]
    · rw [before, after]
  refine ⟨tended.inv, ?_, fun all => tended.quiet fun k => (busy k).symm.trans (all k), fun k => ?_⟩
  · exact fun j k first second => tended.single j k ((busy j).symm.trans first) ((busy k).symm.trans second)
  · rcases same k with ⟨pc, letter⟩ | ⟨-, after⟩
    · rw [pc, letter]
      exact tended.holding k
    · exact holding_of_idle after

theorem box_cases : box = base ∨ base.head - base.tail < cxlMsgQueueSize ∧ ∃ msg, box = base.setSlot base.head msg := by
  by_cases all : ∀ k, (pc k).busy = false
  · exact .inl (tended.quiet all)
  · obtain ⟨k, busy⟩ := not_forall.mp all
    have holding := tended.holding k
    cases at_ : pc k with
    | start | headLoaded | waiting | checking | returned =>
      rw [at_] at busy
      exact absurd rfl busy
    | filling | marking =>
      rw [at_] at holding
      exact .inl holding.2.2.2.1
    | advancing head =>
      rw [at_] at holding
      obtain ⟨-, -, room, msg, -, -, box⟩ := holding
      exact .inr ⟨room, msg, box⟩

theorem same : box.tail = base.tail ∧ box.head = base.head ∧
    ∀ i, base.counted.tail ≤ i → i < base.counted.head → box.counted.msg i = base.counted.msg i := by
  rcases tended.box_cases with same | ⟨room, msg, marked⟩
  · rw [same]
    exact ⟨rfl, rfl, fun _ _ _ => rfl⟩
  · have bound := head_lt tended.inv room
    rw [marked, counted_setSlot]
    refine ⟨rfl, rfl, fun i low high => ?_⟩
    exact tended.inv.msg_setHead ((room_iff tended.inv).mp room) msg low (by omega) high.ne

theorem pending_eq : box.counted.pending = base.counted.pending := by
  obtain ⟨tail, head, slots⟩ := tended.same
  exact Mailbox.pending_congr (congrArg UInt64.toNat tail) (congrArg UInt64.toNat head) slots

theorem take (source tag : Int) : Tended letters pc (box.take source tag).1 (base.take source tag).1 ∧
    (box.take source tag).2 = base.counted.pending.find? (CxlMsg.selected source tag) ∧
    (base.take source tag).1.counted.pending = base.counted.pending.eraseP (CxlMsg.selected source tag) := by
  have alike (same : box = base) : (box.take source tag).1 = (base.take source tag).1 := by
    rw [same]
  obtain ⟨-, found, erased⟩ := tended.inv.cxlRecv source tag
  refine ⟨⟨take_inv tended.inv source tag, tended.single, fun all => alike (tended.quiet all), fun k => ?_⟩, ?_, ?_⟩
  · have holding := tended.holding k
    cases at_ : pc k with
    | start | headLoaded | waiting | checking | returned => trivial
    | filling head fields =>
      rw [at_] at holding
      obtain ⟨here, countable, room, same, written⟩ := holding
      refine ⟨here, countable, take_room tended.inv room source tag, alike same, ?_⟩
      rw [alike same, here, slot_take tended.inv room]
      rw [same, here] at written
      exact written
    | marking head =>
      rw [at_] at holding
      obtain ⟨here, countable, room, same, filled⟩ := holding
      refine ⟨here, countable, take_room tended.inv room source tag, alike same, ?_⟩
      rw [alike same, here, slot_take tended.inv room]
      rw [same, here] at filled
      exact filled
    | advancing head =>
      rw [at_] at holding
      obtain ⟨here, countable, room, msg, isReady, filled, marked⟩ := holding
      refine ⟨here, countable, take_room tended.inv room source tag, msg, isReady, filled, ?_⟩
      rw [marked, take_setHead tended.inv room]
      rfl
  · rcases tended.box_cases with same | ⟨room, msg, marked⟩
    · rw [same]
      exact found
    · rw [marked, take_setHead tended.inv room]
      exact found
  · rw [counted_take tended.inv, erased]

variable [DecidableEq ι] {j : ι} {pc' : SendPc} {box' base' : RankMailbox} {head : UInt64} {msg : CxlMsg}
  {fields number : Nat}

omit [DecidableEq ι] in
theorem others (busy : (pc j).busy = true) (k : ι) (other : k ≠ j) : (pc k).busy = false :=
  Bool.eq_false_iff.mpr fun busy' => other (tended.single k j busy' busy)

omit tended in
theorem own (others : ∀ k, k ≠ j → (pc k).busy = false) (inv : base'.counted.Inv)
    (holding : pc'.Holding (letters j) box' base') (quiet : pc'.busy = false → box' = base') :
    Tended letters (update pc j pc') box' base' := by
  refine ⟨inv, ?_, ?_, ?_⟩
  · have only (k : ι) (busy : (update pc j pc' k).busy = true) : k = j := by
      by_contra other
      rw [update_of_ne other, others k other] at busy
      cases busy
    exact fun k l first second => (only k first).trans (only l second).symm
  · exact fun all => quiet ((forall_update_iff pc fun _ q => q.busy = false).mp all).1
  · refine (forall_update_iff pc fun k q => q.Holding (letters k) box' base').mpr ⟨holding, fun k other => ?_⟩
    exact holding_of_idle (others k other)

theorem idle (before : (pc j).busy = false) (after : pc'.busy = false)
    (returned : ∀ head, pc' = .returned (some head) → pc j = .returned (some head)) :
    Leads letters pc j number base (box, pc') := by
  refine ⟨base, tended.congr fun k => ?_, .inl ⟨returned, rfl, rfl⟩⟩
  by_cases here : k = j
  · subst here
    rw [update_self]
    exact .inr ⟨before, after⟩
  · exact .inl ⟨update_of_ne here _ _, rfl⟩

theorem write (busy : (pc j).busy = true) (room : base.head - base.tail < cxlMsgQueueSize)
    (isEmpty : msg.state = .empty)
    (holding : pc'.Holding (letters j) (base.setSlot base.head msg) (base.setSlot base.head msg))
    (unreturned : ∀ head, pc' ≠ .returned (some head)) :
    Leads letters pc j number base (base.setSlot base.head msg, pc') := by
  obtain ⟨inv, pending⟩ := scribble tended.inv room isEmpty
  exact ⟨_, own (tended.others busy) inv holding fun _ => rfl,
    .inl ⟨fun head back => absurd back (unreturned head), rfl, pending⟩⟩

theorem writeField (busy : (pc j).busy = true) (room : base.head - base.tail < cxlMsgQueueSize)
    (countable : base.head.toNat + 1 < 2 ^ 64) (written : Written (letters j) fields msg)
    (isEmpty : msg.state = .empty) :
    Leads letters pc j number base (base.setSlot base.head msg, .filling base.head fields) := by
  refine tended.write busy room isEmpty ⟨rfl, countable, room, rfl, ?_⟩ nofun
  rw [slot_setSlot_self]
  exact written

theorem writeData (busy : (pc j).busy = true) (room : base.head - base.tail < cxlMsgQueueSize)
    (countable : base.head.toNat + 1 < 2 ^ 64) (filled : msg.fields = (letters j).fields)
    (isEmpty : msg.state = .empty) :
    Leads letters pc j number base (base.setSlot base.head msg, .marking base.head) := by
  refine tended.write busy room isEmpty ⟨rfl, countable, room, rfl, ?_⟩ nofun
  rw [slot_setSlot_self]
  exact filled

theorem publish (allocated : Bool) (number : Nat) (at_ : pc j = .advancing head) :
    Leads letters pc j number base ((SendPc.advancing head).advance (letters j) allocated number box) := by
  have holding := tended.holding j
  rw [at_] at holding
  obtain ⟨rfl, countable, room, msg, isReady, filled, rfl⟩ := holding
  obtain ⟨inv, appended⟩ := tended.inv.push ((room_iff tended.inv).mp room) { msg with number }
  have counted : (base.setSlot base.head { msg with number }).advanceHead.counted =
      base.counted.push { msg with number } := counted_publish isReady countable
  have same : { msg with state := MsgState.ready, number } = { msg with number } := by rw [← isReady]
  rw [← counted, same] at appended
  rw [← counted] at inv
  rw [SendPc.advance, slot_setSlot_self, setSlot_setSlot]
  refine ⟨_, own (tended.others (by rw [at_]; rfl)) inv trivial fun _ => rfl, .inr ⟨at_, rfl, ?_, _, ?_, appended⟩⟩
  · exact congrArg Mailbox.head counted
  · exact ⟨rfl, filled⟩

theorem check (isEmpty : (box.slot head).state = .empty) (here : head = box.head) (countable : head.toNat + 1 < 2 ^ 64)
    (idle : ∀ k, (pc k).busy = false) : Leads letters pc j number base (box, .filling head 0) := by
  have same := tended.quiet idle
  rw [here, same] at isEmpty
  rw [same] at here
  refine ⟨base, own (fun k _ => idle k) tended.inv ?_ nofun,
    .inl ⟨nofun, rfl, rfl⟩⟩
  exact ⟨here, countable, room_of_empty tended.inv isEmpty, same, written_none ..⟩

theorem fill (allocated : Bool) (number : Nat) (at_ : pc j = .filling head fields) :
    Leads letters pc j number base ((SendPc.filling head fields).advance (letters j) allocated number box) := by
  have busy : (pc j).busy = true := by
    rw [at_]
    rfl
  have holding := tended.holding j
  rw [at_] at holding
  obtain ⟨rfl, countable, room, rfl, written⟩ := holding
  have isEmpty := head_empty tended.inv room
  obtain rfl | rfl | rfl | ⟨m, rfl⟩ : fields = 0 ∨ fields = 1 ∨ fields = 2 ∨ ∃ m, fields = m + 3 := by
    rcases fields with _ | _ | _ | m
    · exact .inl rfl
    · exact .inr (.inl rfl)
    · exact .inr (.inr (.inl rfl))
    · exact .inr (.inr (.inr ⟨m, rfl⟩))
  · exact tended.writeField busy room countable Written.source_field isEmpty
  · exact tended.writeField busy room countable written.tag_field isEmpty
  · exact tended.writeField busy room countable written.size_field isEmpty
  · rw [SendPc.advance]
    split
    · exact tended.writeData busy room countable (written.fields_eq true) isEmpty
    · split
      · exact tended.writeData busy room countable (written.fields_eq false) isEmpty
      · exact ⟨_, own (tended.others busy) tended.inv trivial fun _ => rfl,
          .inl ⟨nofun, rfl, rfl⟩⟩

theorem advance (allocated : Bool) (number : Nat) (j : ι) (sole : Solely pc box j) :
    Leads letters pc j number base ((pc j).advance (letters j) allocated number box) := by
  have holding := tended.holding j
  cases at_ : pc j with
  | start => exact tended.idle (by rw [at_]; rfl) rfl nofun
  | headLoaded | waiting =>
    refine tended.idle (by rw [at_]; rfl) ?_ ?_
    · split <;> rfl
    · split <;> exact nofun
  | checking head =>
    rw [SendPc.advance]
    split
    · exact tended.idle (by rw [at_]; rfl) rfl nofun
    · rename_i isEmpty
      obtain ⟨here, countable, idle⟩ := sole head at_ (not_not.mp isEmpty)
      exact tended.check (not_not.mp isEmpty) here countable idle
  | returned result => exact tended.idle (by rw [at_]; rfl) rfl fun _ same => at_.trans same
  | advancing head => exact tended.publish allocated number at_
  | marking head =>
    rw [at_] at holding
    obtain ⟨rfl, countable, room, rfl, filled⟩ := holding
    refine ⟨_, own (tended.others (by rw [at_]; rfl)) tended.inv ?_ nofun,
      .inl ⟨nofun, rfl, rfl⟩⟩
    exact ⟨rfl, countable, room, { box.slot box.head with state := .ready }, rfl, filled, rfl⟩
  | filling head fields => exact tended.fill allocated number at_

end Tended

namespace Senders
variable {n : Nat} (letters : Fin n → Letter)

structure Safe (s : Senders n) (base : RankMailbox) : Prop extends Tended letters s.pc s.box base where
  below : ∀ k head, s.pc k = .returned (some head) → head.toNat < base.head.toNat
  apart : ∀ j k head, s.pc j = .returned (some head) → s.pc k = .returned (some head) → j = k
  kept : ∀ k head, s.pc k = .returned (some head) → k.val ∉ s.received →
    ∃ msg ∈ base.counted.pending, Bears (letters k) k msg

variable {letters} {s : Senders n} {base : RankMailbox}

section
variable (safe : s.Safe letters base) {j : Fin n}
include safe

theorem Safe.recv (allocated : Fin n → Bool) (source tag : Int32) (maxSize : Nat) :
    (s.step letters allocated (.recv source tag maxSize)).Safe letters (base.cxlRecv source tag maxSize).1 := by
  obtain ⟨tended, received, erased⟩ := safe.toTended.take source.toInt tag.toInt
  refine ⟨tended, safe.below, safe.apart, fun k head back unreceived => ?_⟩
  change ∃ msg ∈ (base.take source.toInt tag.toInt).1.counted.pending, _
  rw [erased]
  change k.val ∉ s.received ++ ((s.box.take source.toInt tag.toInt).2.map (·.number)).toList at unreceived
  rw [received, List.mem_append, not_or] at unreceived
  obtain ⟨msg, member, bears⟩ := safe.kept k head back unreceived.1
  refine ⟨msg, ?_, bears⟩
  cases found : base.counted.pending.find? (CxlMsg.selected source.toInt tag.toInt) with
  | none =>
    rw [List.eraseP_of_forall_not (List.find?_eq_none.mp found)]
    exact member
  | some first =>
    refine mem_eraseP_of_find member found ?_
    rintro rfl
    rw [found] at unreceived
    exact unreceived.2 (by simp [bears.number_eq])

theorem Safe.call (allocated : Fin n → Bool) (sole : s.Sole (.call j)) :
    ∃ base', (s.step letters allocated (.call j)).Safe letters base' := by
  obtain ⟨base', tended, outcome⟩ := safe.toTended.advance (allocated j) j j fun head at_ isEmpty => by
    rw [Sole, at_] at sole
    exact sole isEmpty
  have grows : base.head.toNat ≤ base'.head.toNat := by
    rcases outcome with keeps | publishes
    · rw [keeps.head_eq]
    · rw [publishes.head_eq]
      exact Nat.le_succ _
  have stays : ∀ msg ∈ base.counted.pending, msg ∈ base'.counted.pending := by
    intro msg member
    rcases outcome with keeps | publishes
    · rw [keeps.pending_eq]
      exact member
    · obtain ⟨new, -, appended⟩ := publishes.appended
      rw [appended]
      exact List.mem_append_left _ member
  have returned : ∀ {k h}, (s.step letters allocated (.call j)).pc k = .returned (some h) →
      s.pc k = .returned (some h) ∨ k = j ∧ h = base.head ∧ base.head.toNat < base'.head.toNat ∧
        ∃ msg ∈ base'.counted.pending, Bears (letters k) k msg := by
    intro k h back
    change update s.pc j _ k = _ at back
    by_cases own : k = j
    · subst own
      rw [update_self] at back
      rcases outcome with keeps | publishes
      · exact .inl (keeps.returned h back)
      · obtain ⟨msg, bears, appended⟩ := publishes.appended
        have same := back.symm.trans publishes.returned
        cases same
        refine .inr ⟨rfl, rfl, by rw [publishes.head_eq]; exact Nat.lt_succ_self _, msg, ?_, bears⟩
        rw [appended]
        exact List.mem_append_right _ (List.mem_singleton.mpr rfl)
    · rw [update_of_ne own] at back
      exact .inl back
  refine ⟨base', tended, ?_, ?_, ?_⟩
  · intro k h back
    rcases returned back with before | ⟨-, rfl, more, -⟩
    · exact Nat.lt_of_lt_of_le (safe.below k h before) grows
    · exact more
  · intro k l h back back'
    rcases returned back with before | ⟨own, new, -⟩
    · rcases returned back' with before' | ⟨-, new, -⟩
      · exact safe.apart k l h before before'
      · exact absurd (safe.below k h before) (new ▸ Nat.lt_irrefl _)
    · rcases returned back' with before' | ⟨own', -⟩
      · exact absurd (safe.below l h before') (new ▸ Nat.lt_irrefl _)
      · rw [own, own']
  · intro k h back unreceived
    rcases returned back with before | ⟨-, -, -, found⟩
    · obtain ⟨old, member, bears⟩ := safe.kept k h before unreceived
      exact ⟨old, stays old member, bears⟩
    · exact found

theorem Safe.step (allocated : Fin n → Bool) {c : SendStep n} (sole : s.Sole c) :
    ∃ base', (s.step letters allocated c).Safe letters base' := by
  cases c with
  | call j => exact safe.call allocated sole
  | recv source tag maxSize => exact ⟨_, safe.recv allocated source tag maxSize⟩

end

theorem start_safe (letters : Fin n → Letter) (leftover : Nat → CxlMsg) :
    (start leftover).Safe letters (Post.registered leftover).box where
  inv := (Post.registered_sound leftover).inv
  single _ _ busy := by cases busy
  quiet _ := rfl
  holding _ := trivial
  below _ _ returned := by cases returned
  apart _ _ _ returned := by cases returned
  kept _ _ returned := by cases returned

theorem Safe.delivered (safe : s.Safe letters base) : s.Delivered letters := by
  refine ⟨safe.apart, fun k head returned unreceived => ?_⟩
  obtain ⟨msg, member, bears⟩ := safe.kept k head returned unreceived
  obtain ⟨place, isReady⟩ := List.mem_filter.mp member
  obtain ⟨i, inside, rfl⟩ := List.mem_map.mp place
  have bounds := Mailbox.mem_window.mp inside
  obtain ⟨tail, head, slots⟩ := safe.toTended.same
  have slot := slots i bounds.1 bounds.2
  change s.box.messages (i % queueSize) = _ at slot
  refine ⟨i, ?_⟩
  rw [slot, tail, head]
  exact ⟨bounds.1, bounds.2, of_decide_eq_true isReady, bears.number_eq, bears.fields⟩

/-- In every interleaving in which a call that finds its slot empty is the only one to go on, at the current head, the
messages of the calls that returned 0 lie each in a slot of its own until they are received. -/
theorem sends_delivered (letters : Fin n → Letter) (allocated : Fin n → Bool) (leftover : Nat → CxlMsg)
    (steps : List (SendStep n)) (sole : EveryStep (step letters allocated) Sole (start leftover) steps) :
    ∀ before, before <+: steps → (before.foldl (step letters allocated) (start leftover)).Delivered letters := by
  rintro before ⟨after, rfl⟩
  have safe := invariant_of_everyStep (I := fun s : Senders n => ∃ base, s.Safe letters base)
    (fun s c safe sole => safe.elim fun _ safe => safe.step allocated sole) ⟨_, start_safe letters leftover⟩
    sole.of_append
  exact safe.elim fun _ safe => safe.delivered

def twoLetters (_ : Fin 2) : Letter := Post.emptyLetter

def inTurn : List (SendStep 2) := List.replicate 10 (.call 0) ++ List.replicate 10 (.call 1)

def inStep : List (SendStep 2) := (List.replicate 10 [.call 0, .call 1]).flatten

theorem sends_delivered_inTurn :
    (inTurn.foldl (step twoLetters fun _ => true) (start fun _ => {})).Delivered twoLetters :=
  sends_delivered twoLetters (fun _ => true) (fun _ => {}) inTurn (by decide +kernel) inTurn List.prefix_rfl

/-- Step by step in turn, both calls find the same slot empty, fill it and return 0. -/
theorem not_delivered_sameHead :
    ¬(inStep.foldl (step twoLetters fun _ => true) (start fun _ => {})).Delivered twoLetters := by
  intro delivered
  have same := delivered.apart 0 1 0 (by decide +kernel) (by decide +kernel)
  exact absurd same (by decide)

end Senders
end CxlMemSim.Mpi
