import CxlMemSim.Mpi.Mailbox

/-! `cxl_send` and `cxl_recv` with the counters as the code has them, of 64 bits. -/
namespace CxlMemSim.Mpi
open Function Run List

structure Letter where
  source : Int32
  tag : Int32
  data : List UInt8

structure RankMailbox where
  head : UInt64 := 0
  tail : UInt64 := 0
  messages : Nat → CxlMsg := fun _ => {}

namespace RankMailbox
variable (box : RankMailbox)

def slot (i : UInt64) : CxlMsg := box.messages (i % cxlMsgQueueSize).toNat

def setSlot (i : UInt64) (msg : CxlMsg) : RankMailbox :=
  { box with messages := update box.messages (i % cxlMsgQueueSize).toNat msg }

def advanceHead : RankMailbox := { box with head := box.head + 1 }

def cxlSend (letter : Letter) (allocated : Bool) : RankMailbox × Bool :=
  if cxlMsgQueueSize ≤ box.head - box.tail then (box, false)
  else if (box.slot box.head).state ≠ .empty then (box, false)
  else
    let msg := { box.slot box.head with
      sourceRank := letter.source.toUInt32.toNat, tag := letter.tag.toUInt32.toNat, dataSize := letter.data.length }
    if letter.data.length ≤ cxlMsgMaxInlineSize then
      ((box.setSlot box.head { msg with isInline := true, data := letter.data, state := .ready }).advanceHead, true)
    else if allocated then
      ((box.setSlot box.head { msg with isInline := false, data := letter.data, state := .ready }).advanceHead, true)
    else (box.setSlot box.head msg, false)

def counted : Mailbox where
  head := box.head.toNat
  tail := box.tail.toNat
  messages := box.messages

/-- As `cxl_recv` compares the counters, it is the receive of the mailbox with its counters as numbers. -/
def take (source tag : Int) : RankMailbox × Option CxlMsg :=
  ({ head := box.head
     tail := UInt64.ofNat (box.counted.cxlRecv source tag).1.tail
     messages := (box.counted.cxlRecv source tag).1.messages },
    (box.counted.cxlRecv source tag).2)

def cxlRecv (source tag : Int32) (maxSize : Nat) : RankMailbox × Option (List UInt8 × Nat) :=
  ((box.take source.toInt tag.toInt).1,
    (box.take source.toInt tag.toInt).2.map fun msg => (msg.copied maxSize, msg.dataSize))

end RankMailbox

def Letter.selected (source tag : Int32) (letter : Letter) : Bool :=
  (source < 0 || letter.source = source) && (tag < 0 || letter.tag = tag)

/-- The mailbox beside the letters that have been sent and not received, oldest first, and the number of all that have
been sent. -/
structure Post where
  box : RankMailbox := {}
  letters : List Letter := []
  sent : Nat := 0

inductive PostCall where
  | send (letter : Letter) (allocated : Bool)
  | recv (source tag : Int32) (maxSize : Nat)

namespace Post

def step (post : Post) : PostCall → Post
  | .send letter allocated =>
    { box := (post.box.cxlSend letter allocated).1
      letters := if (post.box.cxlSend letter allocated).2 then post.letters ++ [letter] else post.letters
      sent := if (post.box.cxlSend letter allocated).2 then post.sent + 1 else post.sent }
  | .recv source tag maxSize =>
    { post with
      box := (post.box.cxlRecv source tag maxSize).1, letters := post.letters.eraseP (·.selected source tag) }

/-- The slots between tail and head are used, the one at the tail is ready; the others are empty. -/
structure Slots (post : Post) : Prop where
  inside : ∀ i, post.box.tail.toNat ≤ i → i < post.box.head.toNat →
    (post.box.messages (i % queueSize)).state = .ready ∨ (post.box.messages (i % queueSize)).state = .consumed
  front : post.box.tail < post.box.head → (post.box.slot post.box.tail).state = .ready
  others : ∀ s, s < queueSize → (∀ i, post.box.tail.toNat ≤ i → i < post.box.head.toNat → i % queueSize ≠ s) →
    (post.box.messages s).state = .empty

/-- A send fails only for want of room or memory; a receive gets the earliest letter that it selects. -/
def Answers (post : Post) : PostCall → Prop
  | .send letter allocated => (post.box.cxlSend letter allocated).2 = false →
      post.box.head - post.box.tail = cxlMsgQueueSize ∨
        cxlMsgMaxInlineSize < letter.data.length ∧ allocated = false
  | .recv source tag maxSize => (post.box.cxlRecv source tag maxSize).2 =
      (post.letters.find? (·.selected source tag)).map fun letter =>
        (letter.data.take (min letter.data.length maxSize), letter.data.length)

def Countable (post : Post) : PostCall → Prop
  | .send letter allocated =>
    post.box.head - post.box.tail < cxlMsgQueueSize →
      letter.data.length ≤ cxlMsgMaxInlineSize ∨ allocated = true → post.sent + 1 < 2 ^ 64
  | .recv .. => True

end Post

namespace RankMailbox
variable {box : RankMailbox}

theorem slot_index (i : UInt64) : (i % cxlMsgQueueSize).toNat = i.toNat % queueSize := UInt64.toNat_mod ..

theorem slot_eq (i : UInt64) : box.slot i = box.counted.msg i.toNat := by
  rw [slot, slot_index]
  rfl

theorem counted_setSlot (i : UInt64) (msg : CxlMsg) : (box.setSlot i msg).counted = box.counted.setMsg i.toNat msg := by
  rw [setSlot, slot_index]
  rfl

theorem counted_publish {msg : CxlMsg} (isReady : msg.state = .ready) (countable : box.head.toNat + 1 < 2 ^ 64) :
    (box.setSlot box.head msg).advanceHead.counted = box.counted.push msg := by
  have head : (box.head + 1).toNat = box.head.toNat + 1 := by
    have one : (1 : UInt64).toNat = 1 := rfl
    rw [UInt64.toNat_add, one, Nat.mod_eq_of_lt countable]
  have same : { msg with state := .ready } = msg := by rw [← isReady]
  rw [Mailbox.push, same, setSlot, slot_index]
  simp only [counted, advanceHead, head, Mailbox.setMsg]

theorem waiting_toNat (inv : box.counted.Inv) : (box.head - box.tail).toNat = box.head.toNat - box.tail.toNat :=
  UInt64.toNat_sub_of_le _ _ (UInt64.le_iff_toNat_le.mpr inv.order)

theorem room_iff (inv : box.counted.Inv) :
    box.head - box.tail < cxlMsgQueueSize ↔ box.counted.head - box.counted.tail < queueSize := by
  rw [UInt64.lt_iff_toNat_lt, waiting_toNat inv]
  rfl

theorem head_empty (inv : box.counted.Inv) (room : box.head - box.tail < cxlMsgQueueSize) :
    (box.slot box.head).state = .empty := by
  have order := inv.order
  have bound := (room_iff inv).mp room
  rw [slot_eq]
  exact inv.outside _ (Nat.le_refl _) (by change box.counted.head < _; omega)

end RankMailbox

namespace Mailbox

theorem head_advanceTail (steps : Nat) (box : Mailbox) : (advanceTail steps box).head = box.head := by
  induction steps generalizing box with
  | zero => rfl
  | succ steps ih =>
    rw [advanceTail]
    split
    · exact ih _
    · rfl

theorem head_cxlRecv (box : Mailbox) (source tag : Int) : (box.cxlRecv source tag).1.head = box.head := by
  rw [cxlRecv]
  split
  · rfl
  · dsimp only
    split
    · exact head_advanceTail _ _
    · rfl

end Mailbox

namespace RankMailbox
variable {box : RankMailbox}

theorem counted_take (inv : box.counted.Inv) (source tag : Int) :
    (box.take source tag).1.counted = (box.counted.cxlRecv source tag).1 := by
  have head := box.counted.head_cxlRecv source tag
  have order := (inv.cxlRecv source tag).1.order
  have small := box.head.toNat_lt
  have tail : (UInt64.ofNat (box.counted.cxlRecv source tag).1.tail).toNat =
      (box.counted.cxlRecv source tag).1.tail := by
    rw [head] at order
    refine UInt64.toNat_ofNat_of_lt' (Nat.lt_of_le_of_lt order ?_)
    exact small
  rw [counted, take, tail]
  exact Mailbox.mk.injEq .. ▸ ⟨head.symm, rfl, rfl⟩

end RankMailbox

def Letter.address (letter : Letter) (old : CxlMsg) : CxlMsg :=
  { old with
    sourceRank := letter.source.toUInt32.toNat, tag := letter.tag.toUInt32.toNat, dataSize := letter.data.length }

def Letter.message (letter : Letter) (old : CxlMsg) : CxlMsg :=
  { letter.address old with
    isInline := decide (letter.data.length ≤ cxlMsgMaxInlineSize), data := letter.data, state := .ready }

namespace RankMailbox
variable {box : RankMailbox} {letter : Letter} {allocated : Bool}

theorem cxlSend_full (full : cxlMsgQueueSize ≤ box.head - box.tail) : box.cxlSend letter allocated = (box, false) := by
  rw [cxlSend, if_pos full]

theorem cxlSend_sent (room : box.head - box.tail < cxlMsgQueueSize) (isEmpty : (box.slot box.head).state = .empty)
    (carried : letter.data.length ≤ cxlMsgMaxInlineSize ∨ allocated = true) :
    box.cxlSend letter allocated =
      ((box.setSlot box.head (letter.message (box.slot box.head))).advanceHead, true) := by
  rw [cxlSend, if_neg (UInt64.not_le.mpr room), if_neg (not_not.mpr isEmpty)]
  by_cases short : letter.data.length ≤ cxlMsgMaxInlineSize
  · simp only [Letter.message, Letter.address, short, decide_true, if_true]
  · have allocated := carried.resolve_left short
    simp only [Letter.message, Letter.address, short, allocated, decide_false, if_false, if_true]

theorem cxlSend_unallocated (room : box.head - box.tail < cxlMsgQueueSize)
    (isEmpty : (box.slot box.head).state = .empty)
    (dropped : ¬(letter.data.length ≤ cxlMsgMaxInlineSize ∨ allocated = true)) :
    box.cxlSend letter allocated = (box.setSlot box.head (letter.address (box.slot box.head)), false) := by
  obtain ⟨long, unallocated⟩ := not_or.mp dropped
  rw [cxlSend, if_neg (UInt64.not_le.mpr room), if_neg (not_not.mpr isEmpty)]
  simp only [if_neg long, if_neg unallocated]
  rfl

end RankMailbox

def CxlMsg.fields (msg : CxlMsg) : Nat × Nat × Nat × List UInt8 := (msg.sourceRank, msg.tag, msg.dataSize, msg.data)

def Letter.fields (letter : Letter) : Nat × Nat × Nat × List UInt8 :=
  (letter.source.toUInt32.toNat, letter.tag.toUInt32.toNat, letter.data.length, letter.data)

def delivery (maxSize : Nat) (fields : Nat × Nat × Nat × List UInt8) : List UInt8 × Nat :=
  (fields.2.2.2.take (min fields.2.2.1 maxSize), fields.2.2.1)

theorem filter_passes (filter given : Int32) :
    (decide (filter.toInt < 0) || decide ((given.toUInt32.toNat : Int) = filter.toInt)) =
      (decide (filter < 0) || decide (given = filter)) := by
  have negative : filter < 0 ↔ filter.toInt < 0 := Int32.lt_iff_toInt_lt
  have value : filter.toInt = if 2 * filter.toUInt32.toNat < 2 ^ 32 then (filter.toUInt32.toNat : Int)
      else filter.toUInt32.toNat - 2 ^ 32 := BitVec.toInt_eq_toNat_cond _
  have bound := filter.toUInt32.toNat_lt
  have equal : given = filter ↔ given.toUInt32.toNat = filter.toUInt32.toNat := by
    rw [UInt32.toNat_inj]
    exact ⟨congrArg Int32.toUInt32, fun same => by cases given; cases filter; cases same; rfl⟩
  rw [← Bool.decide_or, ← Bool.decide_or, decide_eq_decide, negative, equal, value]
  split <;> omega

theorem selected_congr {msg : CxlMsg} {letter : Letter} (same : msg.fields = letter.fields) (source tag : Int32) :
    msg.selected source.toInt tag.toInt = letter.selected source tag := by
  simp only [CxlMsg.fields, Letter.fields, Prod.mk.injEq] at same
  rw [CxlMsg.selected, Letter.selected, same.1, same.2.1, filter_passes, filter_passes]

theorem find_eraseP_congr {α β γ : Type} {f : α → γ} {g : β → γ} {p : α → Bool} {q : β → Bool}
    (agree : ∀ a b, f a = g b → p a = q b) {as : List α} {bs : List β} (same : as.map f = bs.map g) :
    (as.find? p).map f = (bs.find? q).map g ∧ (as.eraseP p).map f = (bs.eraseP q).map g := by
  induction as generalizing bs with
  | nil =>
    obtain rfl : bs = [] := map_eq_nil_iff.mp same.symm
    exact ⟨rfl, rfl⟩
  | cons a as ih =>
    cases bs with
    | nil => cases same
    | cons b bs =>
      obtain ⟨first, rest⟩ := List.cons.inj same
      have here := agree a b first
      cases hit : p a with
      | true =>
        rw [hit] at here
        rw [find?_cons_of_pos hit, find?_cons_of_pos here.symm, eraseP_cons_of_pos hit, eraseP_cons_of_pos here.symm]
        exact ⟨congrArg some first, rest⟩
      | false =>
        rw [hit] at here
        have miss : ¬p a = true := Bool.eq_false_iff.mp hit
        have miss' : ¬q b = true := Bool.eq_false_iff.mp here.symm
        rw [find?_cons_of_neg miss, find?_cons_of_neg miss', eraseP_cons_of_neg miss,
          eraseP_cons_of_neg miss', map_cons, map_cons, first, (ih rest).2]
        exact ⟨(ih rest).1, rfl⟩

theorem mem_eraseP_of_find {α : Type} {l : List α} {p : α → Bool} {x first : α} (member : x ∈ l)
    (found : l.find? p = some first) (other : x ≠ first) : x ∈ l.eraseP p := by
  induction l with
  | nil => cases member
  | cons a l ih =>
    cases hit : p a with
    | true =>
      rw [find?_cons_of_pos hit] at found
      cases found
      rw [eraseP_cons_of_pos hit]
      exact (mem_cons.mp member).resolve_left other
    | false =>
      have miss := Bool.eq_false_iff.mp hit
      rw [find?_cons_of_neg miss] at found
      rw [eraseP_cons_of_neg miss]
      rcases mem_cons.mp member with rfl | member
      · exact mem_cons_self
      · exact mem_cons_of_mem _ (ih member found)

namespace Post
variable {post : Post}

structure Sound (post : Post) : Prop where
  inv : post.box.counted.Inv
  represents : post.box.counted.pending.map CxlMsg.fields = post.letters.map Letter.fields
  counts : post.box.head.toNat = post.sent

section
variable (sound : post.Sound)
include sound

theorem Sound.slots : post.Slots where
  inside := sound.inv.inside
  front some := by
    rw [RankMailbox.slot_eq]
    exact sound.inv.front (UInt64.lt_iff_toNat_lt.mp some)
  others s inRing unused := by
    -- the position of the slot in the round that starts at the tail
    obtain ⟨i, low, high, here⟩ : ∃ i, post.box.tail.toNat ≤ i ∧ i < post.box.tail.toNat + queueSize ∧
        i % queueSize = s := by
      rw [queueSize_eq] at *
      exact ⟨post.box.tail.toNat + (s + 1024 - post.box.tail.toNat % 1024) % 1024, by omega, by omega, by omega⟩
    have past : post.box.head.toNat ≤ i := Nat.le_of_not_lt fun below => unused i low below here
    rw [← here]
    exact sound.inv.outside i past high

theorem Sound.send (letter : Letter) (allocated : Bool)
    (countable : post.Countable (.send letter allocated)) : (post.step (.send letter allocated)).Sound := by
  by_cases room : post.box.head - post.box.tail < cxlMsgQueueSize
  · have isEmpty := RankMailbox.head_empty sound.inv room
    have bound := (RankMailbox.room_iff sound.inv).mp room
    by_cases carried : letter.data.length ≤ cxlMsgMaxInlineSize ∨ allocated = true
    · have sent := RankMailbox.cxlSend_sent room isEmpty carried
      obtain ⟨kept, appended⟩ := sound.inv.push bound (letter.message (post.box.slot post.box.head))
      have counted : (post.step (.send letter allocated)).box.counted =
          post.box.counted.push (letter.message (post.box.slot post.box.head)) := by
        rw [step, sent]
        exact RankMailbox.counted_publish rfl (sound.counts ▸ countable room carried)
      have log : (post.step (.send letter allocated)).letters = post.letters ++ [letter] ∧
          (post.step (.send letter allocated)).sent = post.sent + 1 := by
        rw [step, sent]
        exact ⟨rfl, rfl⟩
      constructor
      · rw [counted]
        exact kept
      · rw [counted, log.1, appended, map_append, map_append, sound.represents]
        rfl
      · rw [log.2, ← sound.counts]
        exact congrArg Mailbox.head counted
    · have failed := RankMailbox.cxlSend_unallocated room isEmpty carried
      obtain ⟨kept, same⟩ := sound.inv.scribble bound (letter.address (post.box.slot post.box.head)) isEmpty
      have counted : (post.step (.send letter allocated)).box.counted =
          post.box.counted.setMsg post.box.counted.head (letter.address (post.box.slot post.box.head)) := by
        rw [step, failed]
        exact RankMailbox.counted_setSlot _ _
      have log : (post.step (.send letter allocated)).letters = post.letters ∧
          (post.step (.send letter allocated)).sent = post.sent := by
        rw [step, failed]
        exact ⟨rfl, rfl⟩
      constructor
      · rw [counted]
        exact kept
      · rw [counted, log.1, same, sound.represents]
      · rw [log.2, ← sound.counts]
        exact congrArg Mailbox.head counted
  · have refused : post.box.cxlSend letter allocated = (post.box, false) :=
      RankMailbox.cxlSend_full (UInt64.not_lt.mp room)
    have same : post.step (.send letter allocated) = post := by
      rw [step, refused]
      rfl
    rw [same]
    exact sound

theorem Sound.recv (source tag : Int32) (maxSize : Nat) : (post.step (.recv source tag maxSize)).Sound := by
  obtain ⟨kept, -, erased⟩ := sound.inv.cxlRecv source.toInt tag.toInt
  have counted : (post.step (.recv source tag maxSize)).box.counted = _ :=
    RankMailbox.counted_take sound.inv source.toInt tag.toInt
  constructor
  · rw [counted]
    exact kept
  · rw [counted, erased]
    exact (find_eraseP_congr (fun _ _ same => selected_congr same source tag) sound.represents).2
  · exact sound.counts

theorem Sound.step {c : PostCall} (countable : post.Countable c) : (post.step c).Sound := by
  cases c with
  | send letter allocated => exact sound.send letter allocated countable
  | recv source tag maxSize => exact sound.recv source tag maxSize

theorem Sound.answers (c : PostCall) : post.Answers c := by
  cases c with
  | send letter allocated =>
    intro failed
    by_cases room : post.box.head - post.box.tail < cxlMsgQueueSize
    · right
      by_contra held
      have carried : letter.data.length ≤ cxlMsgMaxInlineSize ∨ allocated = true := by
        by_contra dropped
        obtain ⟨long, unallocated⟩ := not_or.mp dropped
        exact held ⟨Nat.lt_of_not_le long, Bool.eq_false_iff.mpr unallocated⟩
      rw [RankMailbox.cxlSend_sent room (RankMailbox.head_empty sound.inv room) carried] at failed
      cases failed
    · left
      have order := sound.inv.order
      have most := sound.inv.room
      apply UInt64.toNat_inj.mp
      rw [UInt64.lt_iff_toNat_lt, RankMailbox.waiting_toNat sound.inv] at room
      rw [RankMailbox.waiting_toNat sound.inv]
      change post.box.head.toNat ≤ post.box.tail.toNat + cxlMsgQueueSize.toNat at most
      omega
  | recv source tag maxSize =>
    obtain ⟨found, -⟩ := find_eraseP_congr (fun _ _ same => selected_congr same source tag) sound.represents
    have received := (sound.inv.cxlRecv source.toInt tag.toInt).2.1
    have delivered := congrArg (Option.map (delivery maxSize)) found
    rw [Option.map_map, Option.map_map] at delivered
    rw [Answers, RankMailbox.cxlRecv, RankMailbox.take, received]
    exact delivered

theorem Sound.countable_of_slots {c : PostCall} (after : (post.step c).Slots) : post.Countable c := by
  cases c with
  | recv => trivial
  | send letter allocated =>
    intro room carried
    by_contra wraps
    rw [← sound.counts] at wraps
    have sent := RankMailbox.cxlSend_sent room (RankMailbox.head_empty sound.inv room) carried
    have small := post.box.head.toNat_lt
    have head : (post.box.head + 1).toNat = 0 := by
      have one : (1 : UInt64).toNat = 1 := rfl
      rw [UInt64.toNat_add, one]
      omega
    have others := after.others (post.box.head % cxlMsgQueueSize).toNat
    rw [Post.step, sent] at others
    have inRing : (post.box.head % cxlMsgQueueSize).toNat < queueSize := by
      rw [RankMailbox.slot_index]
      exact Nat.mod_lt _ (by decide)
    have empty := others inRing fun i _ below => by
      change i < (post.box.head + 1).toNat at below
      omega
    change (update post.box.messages (post.box.head % cxlMsgQueueSize).toNat _ _).state = _ at empty
    rw [update_self] at empty
    cases empty

theorem Sound.slots_iff_countable (calls : List PostCall) :
    (∀ before, before <+: calls → (before.foldl Post.step post).Slots) ↔ EveryStep Post.step Countable post calls :=
  forall_prefix_iff_of_invariant (fun _ sound => sound.slots) sound (fun _ _ _ sound => sound.step)
    fun _ _ _ sound => sound.countable_of_slots

end

def registered (leftover : Nat → CxlMsg) : Post :=
  { box := { messages := fun s => { leftover s with state := .empty } } }

theorem registered_sound (leftover : Nat → CxlMsg) : (registered leftover).Sound where
  inv :=
    { order := Nat.le_refl _
      room := Nat.zero_le _
      inside := fun _ _ below => absurd below (Nat.not_lt_zero _)
      outside := fun _ _ _ => rfl
      front := fun below => absurd below (Nat.lt_irrefl _) }
  represents := rfl
  counts := rfl

/-- The mailbox is a list with selective removal just as long as the letters that have been sent can be counted. -/
theorem mailbox_list_iff (leftover : Nat → CxlMsg) (calls : List PostCall) :
    (∀ before, before <+: calls → (before.foldl step (registered leftover)).Slots) ∧
        EveryStep step Answers (registered leftover) calls ↔
      EveryStep step Countable (registered leftover) calls := by
  have sound := registered_sound leftover
  constructor
  · rintro ⟨slots, -⟩
    exact (sound.slots_iff_countable calls).mp slots
  · intro countable
    refine ⟨(sound.slots_iff_countable calls).mpr countable, ?_⟩
    exact EveryStep.mono (fun post c sound countable => sound.step countable) (fun post c sound _ => sound.answers c)
      sound countable

def emptyLetter : Letter := ⟨0, 0, []⟩

def exchanges : Nat → List PostCall
  | 0 => []
  | n + 1 => exchanges n ++ [.send emptyLetter true, .recv (-1) (-1) 0]

theorem Sound.tail_eq_head (sound : post.Sound) (unsent : post.letters = []) : post.box.tail = post.box.head := by
  have empty : post.box.counted.pending = [] := by
    have represents := sound.represents
    rw [unsent] at represents
    exact map_eq_nil_iff.mp represents
  have order := sound.inv.order
  apply UInt64.toNat_inj.mp
  by_contra apart
  have some : post.box.counted.tail < post.box.counted.head := lt_of_le_of_ne order apart
  have isReady : (post.box.counted.msg post.box.counted.tail).isReady = true := by
    rw [CxlMsg.isReady, sound.inv.front some]
    rfl
  rw [Mailbox.pending_tail some, filter_cons_of_pos isReady] at empty
  cases empty

theorem Sound.send_first (sound : post.Sound) (unsent : post.letters = []) :
    (post.step (.send emptyLetter true)).letters = [emptyLetter] ∧
      (post.step (.send emptyLetter true)).box.head = post.box.head + 1 := by
  have room : post.box.head - post.box.tail < cxlMsgQueueSize := by
    rw [sound.tail_eq_head unsent, UInt64.sub_self]
    decide
  have sent : post.box.cxlSend emptyLetter true = _ :=
    RankMailbox.cxlSend_sent room (RankMailbox.head_empty sound.inv room) (.inr rfl)
  rw [Post.step, sent, unsent]
  exact ⟨rfl, rfl⟩

theorem exchanges_spec (leftover : Nat → CxlMsg) {n : Nat} (small : n < 2 ^ 64) :
    ((exchanges n).foldl step (registered leftover)).Sound ∧
      ((exchanges n).foldl step (registered leftover)).letters = [] ∧
      ((exchanges n).foldl step (registered leftover)).box.head.toNat = n := by
  induction n with
  | zero => exact ⟨registered_sound leftover, rfl, rfl⟩
  | succ n ih =>
    obtain ⟨sound, unsent, head⟩ := ih (Nat.lt_of_succ_lt small)
    rw [exchanges, foldl_append]
    generalize (exchanges n).foldl step (registered leftover) = post at sound unsent head
    obtain ⟨letters, next⟩ := sound.send_first unsent
    have sound' := sound.send emptyLetter true fun _ _ => by
      rw [← sound.counts]
      omega
    refine ⟨sound'.recv (-1) (-1) 0, ?_, ?_⟩
    · change (post.step (.send emptyLetter true)).letters.eraseP _ = []
      rw [letters]
      rfl
    · have one : (1 : UInt64).toNat = 1 := rfl
      change (post.step (.send emptyLetter true)).box.head.toNat = n + 1
      rw [next, UInt64.toNat_add, head, one, Nat.mod_eq_of_lt small]

theorem cxlRecv_of_head_le {box : RankMailbox} (wrapped : box.head.toNat ≤ box.tail.toNat) (source tag : Int32)
    (maxSize : Nat) : (box.cxlRecv source tag maxSize).2 = none := by
  have window : box.counted.window = [] := by
    have length : box.counted.head - box.counted.tail = 0 := Nat.sub_eq_zero_of_le wrapped
    rw [Mailbox.window, length]
    rfl
  rw [RankMailbox.cxlRecv, RankMailbox.take, Mailbox.cxlRecv, window]
  rfl

theorem not_answers_exchanges {n : Nat} (last : n + 1 = 2 ^ 64) (leftover : Nat → CxlMsg) :
    ¬EveryStep step Answers (registered leftover)
      (exchanges n ++ [.send emptyLetter true, .recv (-1) (-1) 0]) := by
  intro answers
  obtain ⟨sound, unsent, head⟩ := exchanges_spec leftover (n := n) (by omega)
  obtain ⟨-, received, -⟩ := answers.of_append_right
  generalize (exchanges n).foldl step (registered leftover) = post at sound unsent head received
  obtain ⟨letters, next⟩ := sound.send_first unsent
  have wrapped : (post.step (.send emptyLetter true)).box.head.toNat = 0 := by
    have one : (1 : UInt64).toNat = 1 := rfl
    rw [next, UInt64.toNat_add, head, one, last, Nat.mod_self]
  rw [Answers, cxlRecv_of_head_le (by omega), letters] at received
  cases received

/-- The letter number 2 ^ 64 is sent and cannot be received. -/
theorem not_answers_wrapped :
    ¬EveryStep step Answers (registered fun _ => {})
      (exchanges (2 ^ 64 - 1) ++ [.send emptyLetter true, .recv (-1) (-1) 0]) :=
  not_answers_exchanges (by decide) fun _ => {}

end Post
end CxlMemSim.Mpi
