import CxlMemSim.Mpi.Registration

/-! A registration sets the two counters of the mailbox, and leaves the states of its slots as an earlier run left them.
-/
namespace CxlMemSim.Mpi
open Function RankMailbox

structure RecvArgs where
  source : Int32
  tag : Int32
  maxSize : Nat

def Letter.matches (letter : Letter) (args : RecvArgs) : Bool := letter.selected args.source args.tag

namespace RankEntry

def register (entry : RankEntry) : RankEntry :=
  { mailbox := { entry.mailbox with head := 0, tail := 0 }, active := 1 }

/-- It is what three steps of `cxl_register_rank` do. -/
theorem setEntry_register (worldSize : UInt32) (rank : Nat) (shm : CxlShm) :
    (fun s => RegisterPc.advance worldSize rank s.1 s.2)^[3] (shm, .settingHead) =
      (shm.setEntry rank (shm.mailboxes rank).register, .counting) := by
  simp [RegisterPc.advance, CxlShm.setEntry, register]

variable (commEnabled : Bool)

def cxlSend (entry : RankEntry) (letter : Letter) (allocated : Bool) : RankEntry × Bool :=
  if !commEnabled || entry.active = 0 then (entry, false)
  else
    ({ entry with mailbox := (entry.mailbox.cxlSend letter allocated).1 }, (entry.mailbox.cxlSend letter allocated).2)

def cxlRecv (entry : RankEntry) (args : RecvArgs) : RankEntry × Option (List UInt8 × Nat) :=
  if !commEnabled then (entry, none)
  else
    ({ entry with mailbox := (entry.mailbox.cxlRecv args.source args.tag args.maxSize).1 },
      (entry.mailbox.cxlRecv args.source args.tag args.maxSize).2)

def receives (entry : RankEntry) (calls : List RecvArgs) : RankEntry :=
  calls.foldl (fun entry args => (entry.cxlRecv commEnabled args).1) entry

/-- The mailbox is empty, takes the next short letter, and gives it to the first receive that it matches. -/
structure Usable (entry : RankEntry) : Prop where
  silent : ∀ before args, ((entry.receives commEnabled before).cxlRecv commEnabled args).2 = none
  sends : ∀ before letter allocated, letter.data.length ≤ cxlMsgMaxInlineSize →
    ((entry.receives commEnabled before).cxlSend commEnabled letter allocated).2 = true
  next : ∀ before letter allocated, letter.data.length ≤ cxlMsgMaxInlineSize → ∀ misses,
    (∀ args ∈ misses, letter.matches args = false) → ∀ args,
      ((((entry.receives commEnabled before).cxlSend commEnabled letter allocated).1.receives commEnabled
        misses).cxlRecv commEnabled args).2 =
      if letter.matches args then some (letter.data.take (min letter.data.length args.maxSize), letter.data.length)
      else none

end RankEntry

namespace RankMailbox
variable {box : RankMailbox}

theorem cxlRecv_empty (empty : box.head = box.tail) (source tag : Int32) (maxSize : Nat) :
    box.cxlRecv source tag maxSize = (box, none) := by
  have window : box.counted.window = [] := by
    rw [Mailbox.window, counted, empty, Nat.sub_self, List.range'_zero]
  have nothing : box.counted.cxlRecv source.toInt tag.toInt = (box.counted, none) := by
    rw [Mailbox.cxlRecv, window]
    rfl
  rw [cxlRecv, take, nothing]
  simp [counted]

structure HoldsOne (box : RankMailbox) (letter : Letter) : Prop where
  head : box.head = 1
  tail : box.tail = 0
  ready : (box.messages 0).state = .ready
  fields : (box.messages 0).fields = letter.fields

namespace HoldsOne
variable {letter : Letter}

theorem found (holds : box.HoldsOne letter) (source tag : Int32) :
    (box.counted.window.find? fun i =>
      (box.counted.msg i).isReady && (box.counted.msg i).selected source.toInt tag.toInt) =
      if letter.selected source tag then some 0 else none := by
  have window : box.counted.window = [0] := by
    rw [Mailbox.window, counted, holds.head, holds.tail]
    rfl
  have ready : (box.counted.msg 0).isReady = true := decide_eq_true holds.ready
  have fields : (box.counted.msg 0).fields = letter.fields := holds.fields
  rw [window, List.find?_singleton, ready, Bool.true_and, selected_congr fields]

theorem cxlRecv (holds : box.HoldsOne letter) (source tag : Int32) (maxSize : Nat) :
    (box.cxlRecv source tag maxSize).2 =
      if letter.selected source tag then some (letter.data.take (min letter.data.length maxSize), letter.data.length)
      else none := by
  have fields := holds.fields
  simp only [CxlMsg.fields, Letter.fields, Prod.mk.injEq] at fields
  rw [RankMailbox.cxlRecv, take, Mailbox.cxlRecv, holds.found]
  cases letter.selected source tag with
  | false => rfl
  | true =>
    have first : box.counted.msg 0 = box.messages 0 := rfl
    simp only [if_true, Option.map_some, first, CxlMsg.copied, fields]

theorem cxlRecv_miss (holds : box.HoldsOne letter) {source tag : Int32} (miss : letter.selected source tag = false)
    (maxSize : Nat) : (box.cxlRecv source tag maxSize).1 = box := by
  rw [RankMailbox.cxlRecv, take, Mailbox.cxlRecv, holds.found, miss]
  simp [counted]

end HoldsOne

theorem holdsOne_cxlSend (head : box.head = 0) (tail : box.tail = 0) (isEmpty : (box.messages 0).state = .empty)
    {letter : Letter} (short : letter.data.length ≤ cxlMsgMaxInlineSize) (allocated : Bool) :
    (box.cxlSend letter allocated).2 = true ∧ (box.cxlSend letter allocated).1.HoldsOne letter := by
  have slot : (box.slot box.head).state = .empty := by
    rw [head]
    exact isEmpty
  have room : box.head - box.tail < cxlMsgQueueSize := by
    rw [head, tail]
    decide
  have index : (box.head % cxlMsgQueueSize).toNat = 0 := by
    rw [head]
    rfl
  rw [cxlSend_sent room slot (.inl short)]
  refine ⟨rfl, ?_, tail, ?_, ?_⟩
  · rw [advanceHead, setSlot]
    dsimp only
    rw [head]
    rfl
  · rw [advanceHead, setSlot]
    dsimp only
    rw [index, update_self]
    rfl
  · rw [advanceHead, setSlot]
    dsimp only
    rw [index, update_self]
    rfl

theorem cxlSend_refused (head : box.head = 0) (used : (box.messages 0).state ≠ .empty) (letter : Letter)
    (allocated : Bool) : (box.cxlSend letter allocated).2 = false := by
  have slot : (box.slot box.head).state ≠ .empty := by
    rw [head]
    exact used
  rw [cxlSend, if_pos slot]
  split <;> rfl

end RankMailbox

namespace RankEntry

theorem receives_register (left : RankEntry) (calls : List RecvArgs) :
    left.register.receives true calls = left.register := by
  induction calls with
  | nil => rfl
  | cons args calls ih =>
    have same : (left.register.cxlRecv true args).1 = left.register := by
      rw [cxlRecv, if_neg (by decide), cxlRecv_empty rfl]
    rw [receives, List.foldl_cons, same]
    exact ih

theorem receives_misses {entry : RankEntry} {letter : Letter} (holds : entry.mailbox.HoldsOne letter)
    {misses : List RecvArgs} (all : ∀ args ∈ misses, letter.matches args = false) :
    entry.receives true misses = entry := by
  induction misses with
  | nil => rfl
  | cons args misses ih =>
    have same : (entry.cxlRecv true args).1 = entry := by
      rw [cxlRecv, if_neg (by decide), holds.cxlRecv_miss (all args List.mem_cons_self)]
    rw [receives, List.foldl_cons, same]
    exact ih fun later member => all later (List.mem_cons_of_mem _ member)

theorem cxlSend_register (left : RankEntry) (letter : Letter) (allocated : Bool) :
    left.register.cxlSend true letter allocated =
      ({ left.register with mailbox := (left.register.mailbox.cxlSend letter allocated).1 },
        (left.register.mailbox.cxlSend letter allocated).2) := by
  rw [cxlSend, if_neg (by simp [register])]

theorem register_refused (left : RankEntry) (used : (left.mailbox.messages 0).state ≠ .empty) (letter : Letter)
    (allocated : Bool) : (left.register.mailbox.cxlSend letter allocated).2 = false := by
  have head : left.register.mailbox.head = 0 := rfl
  exact cxlSend_refused head used letter allocated

theorem usable_register {left : RankEntry} (isEmpty : (left.register.mailbox.messages 0).state = .empty) :
    left.register.Usable true where
  silent before args := by
    rw [receives_register, cxlRecv, if_neg (by decide), cxlRecv_empty rfl]
  sends before letter allocated short := by
    rw [receives_register, cxlSend_register]
    exact (holdsOne_cxlSend rfl rfl isEmpty short allocated).1
  next before letter allocated short misses all args := by
    obtain ⟨-, holds⟩ := holdsOne_cxlSend rfl rfl isEmpty short allocated
    rw [receives_register, cxlSend_register, receives_misses holds all, cxlRecv, if_neg (by decide)]
    exact holds.cxlRecv args.source args.tag args.maxSize

/-- Whatever earlier runs left, the mailbox is usable after a registration just if direct communication is on and its
first slot was left empty. -/
theorem register_usable_iff (commEnabled : Bool) (left : RankEntry) :
    left.register.Usable commEnabled ↔ commEnabled = true ∧ (left.mailbox.messages 0).state = .empty := by
  constructor
  · intro usable
    have sent := usable.sends [] ⟨0, 0, []⟩ false (Nat.zero_le _)
    cases commEnabled with
    | false => cases sent
    | true =>
      refine ⟨rfl, ?_⟩
      by_contra used
      have refused := left.register_refused used ⟨0, 0, []⟩ false
      rw [receives_register, cxlSend_register, refused] at sent
      cases sent
  · rintro ⟨rfl, isEmpty⟩
    exact usable_register isEmpty

def unreceived : RankEntry where
  mailbox := { head := 1, messages := update (fun _ => {}) 0 { state := .ready } }
  active := 0

theorem not_usable_unreceived : ¬unreceived.register.Usable true := by
  intro usable
  have sent := usable.sends [] ⟨0, 0, []⟩ false (Nat.zero_le _)
  have refused := unreceived.register_refused (by decide) ⟨0, 0, []⟩ false
  rw [receives_register, cxlSend_register, refused] at sent
  cases sent

end RankEntry
end CxlMemSim.Mpi
