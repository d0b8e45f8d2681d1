import CxlMemSim.Lib.Run
import CxlMemSim.Type2.P2pTruthful

/-! A submit puts a copy of the caller's descriptor in the queue; a synchronous one then performs the transfer at the
head of the queue. -/
namespace CxlMemSim.Type2.P2p
open Run

/-- Where a descriptor lies: with a caller, or in a block that `g_new` has given to the queue. -/
inductive DescPtr where
  | caller (n : Nat)
  | block (n : Nat)
deriving DecidableEq

def CXLP2PDescriptor.queued (desc : CXLP2PDescriptor) : CXLP2PDescriptor := { desc with status := .pending }

def CXLP2PDescriptor.request (desc : CXLP2PDescriptor) : CXLP2PDescriptor :=
  { desc with status := .idle, errorCode := 0 }

def CXLP2PDescriptor.report (desc outcome : CXLP2PDescriptor) : CXLP2PDescriptor :=
  { desc with status := outcome.status, errorCode := outcome.errorCode }

variable {desc : CXLP2PDescriptor} {junk : Nat → UInt8}

namespace Host
variable (host : Host) {rest : List CXLP2PDescriptor} {after : Host} {head : CXLP2PDescriptor}

def accepts : Bool := host.engine.enabled && decide (host.engine.pendingTransfers.length < queueDepth)

def withPending (pending : List CXLP2PDescriptor) : Host :=
  { host with engine := { host.engine with pendingTransfers := pending } }

theorem withPending_self {pending : List CXLP2PDescriptor} (same : host.engine.pendingTransfers = pending) :
    host.withPending pending = host := by
  subst same
  rfl

def push (desc : CXLP2PDescriptor) : Host := host.withPending (host.engine.pendingTransfers ++ [desc.queued])

def complete (desc : CXLP2PDescriptor) : Host :=
  { host with engine := { host.engine with completedTransfers := host.engine.completedTransfers ++ [desc] } }

/-- `cxl_p2p_dma_abort`, where `links` are the pointers in the queue; the flag is whether the caller's descriptor
became `CXL_P2P_STATUS_ABORTED`. -/
def dmaAbort (links : List DescPtr) (desc : DescPtr) : Host × Bool :=
  match links.findIdx? (· = desc) with
  | some i =>
    ({ host with engine := { host.engine with pendingTransfers := host.engine.pendingTransfers.eraseIdx i } }, true)
  | none => (host, false)

def pop (head : CXLP2PDescriptor) (rest : List CXLP2PDescriptor) (junk : Nat → UInt8) :
    Host × CXLP2PDescriptor :=
  let result := (host.withPending rest).performP2pTransfer head junk
  (result.1.complete result.2, result.2)

theorem performHead_eq
    (queue : host.engine.pendingTransfers = head :: rest) (desc : CXLP2PDescriptor) (junk : Nat → UInt8) :
    host.performHead desc junk = ((host.pop head rest junk).1, desc.report (host.pop head rest junk).2) := by
  rw [performHead, queue]
  rfl

theorem dmaSubmit_refused (refused : host.accepts = false) (desc : CXLP2PDescriptor) (junk : Nat → UInt8) :
    host.dmaSubmit desc junk = (host, desc, -1) := by
  rw [accepts, Bool.and_eq_false_iff] at refused
  rw [dmaSubmit]
  rcases refused with disabled | full
  · rw [disabled]
    rfl
  · rw [if_pos (c := queueDepth ≤ _) (Nat.not_lt.mp (of_decide_eq_false full)), ite_self]

theorem dmaSubmit_accepted (accepted : host.accepts = true) (desc : CXLP2PDescriptor) (junk : Nat → UInt8) :
    host.dmaSubmit desc junk =
      if desc.sync then
        (((host.push desc).performHead desc junk).1, ((host.push desc).performHead desc junk).2, 0)
      else (host.push desc, desc, 0) := by
  rw [accepts, Bool.and_eq_true, decide_eq_true_eq] at accepted
  rw [dmaSubmit, accepted.1, if_neg (by decide), if_neg (Nat.not_le.mpr accepted.2)]
  rfl

theorem dmaSubmit_async (accepted : host.accepts = true) (async : desc.sync = false)
    (junk : Nat → UInt8) : host.dmaSubmit desc junk = (host.push desc, desc, 0) := by
  rw [dmaSubmit_accepted host accepted, async, if_neg Bool.false_ne_true]

theorem dmaSubmit_sync (accepted : host.accepts = true) (sync : desc.sync = true)
    (queue : host.engine.pendingTransfers ++ [desc.queued] = head :: rest) (junk : Nat → UInt8) :
    host.dmaSubmit desc junk = ((host.pop head rest junk).1, desc.report (host.pop head rest junk).2, 0) := by
  rw [dmaSubmit_accepted host accepted, if_pos sync, performHead_eq (host.push desc) queue]
  rfl

end Host

structure Queued where
  block : Nat
  caller : Nat
  desc : CXLP2PDescriptor

def Queued.ptr (entry : Queued) : DescPtr := .block entry.block

/-- The host, the links of its queue, the blocks given out, and the entries whose transfer was performed. -/
structure Dma where
  host : Host
  queue : List Queued := []
  accepted : Nat := 0
  performed : List Queued := []

inductive DmaCall where
  | submit (caller : Nat) (desc : CXLP2PDescriptor) (junk : Nat → UInt8)
  | abort (caller : Nat)

namespace Dma

def start (ct2d : CXLType2State) (type3 : CXLType3Dev → Segment) (peers : Vector (Option CXLP2PPeer) maxPeers)
    (ownerPeerId : UInt32) (enabled : Bool) : Dma :=
  { host := { ct2d, type3, engine := { peers, ownerPeerId, enabled } } }

def entry (dma : Dma) (caller : Nat) (desc : CXLP2PDescriptor) : Queued := ⟨dma.accepted, caller, desc.queued⟩

def step (dma : Dma) : DmaCall → Dma
  | .submit caller desc junk =>
    let host := (dma.host.dmaSubmit desc junk).1
    if dma.host.accepts then
      let queue := dma.queue ++ [dma.entry caller desc]
      if desc.sync then
        { host, queue := queue.tail, accepted := dma.accepted + 1, performed := dma.performed ++ queue.take 1 }
      else { dma with host, queue, accepted := dma.accepted + 1 }
    else { dma with host }
  | .abort caller =>
    { dma with
      host := (dma.host.dmaAbort (dma.queue.map (·.ptr)) (.caller caller)).1
      queue := dma.queue.eraseP (·.ptr = .caller caller) }

/-- The links are those of the engine's queue, and what was performed is what the engine has put among the completed
transfers. -/
structure Linked (dma : Dma) : Prop where
  pending : dma.host.engine.pendingTransfers = dma.queue.map (·.desc)
  completed : dma.host.engine.completedTransfers.map (·.request) = dma.performed.map (·.desc.request)

structure Once (dma : Dma) : Prop where
  nodup : ((dma.performed ++ dma.queue).map (·.block)).Nodup
  given : ∀ entry ∈ dma.performed ++ dma.queue, entry.block < dma.accepted

/-- A synchronous submit returns, performs its own descriptor and reports its outcome; an abort takes every copy of the
caller's descriptor out of the queue, and none is performed later. -/
def Served (dma : Dma) : DmaCall → Prop
  | .submit caller desc junk => dma.host.accepts = true → desc.sync = true →
      (dma.step (.submit caller desc junk)).host.ct2d.barCoherency.lock.relocked = false ∧
      (dma.step (.submit caller desc junk)).performed = dma.performed ++ [dma.entry caller desc] ∧
      (dma.step (.submit caller desc junk)).host =
        (dma.host.performP2pTransfer desc.queued junk).1.complete (dma.host.performP2pTransfer desc.queued junk).2 ∧
      (dma.host.dmaSubmit desc junk).2.1 = desc.report (dma.host.performP2pTransfer desc.queued junk).2
  | .abort caller => ∀ entry ∈ dma.queue, entry.caller = caller →
      entry ∉ (dma.step (.abort caller)).queue ∧
      ∀ later : List DmaCall, entry ∉ (later.foldl step (dma.step (.abort caller))).performed

/-- A synchronous submit finds an empty queue and does not take the coherency lock twice, and an abort finds no copy
of its descriptor. -/
def Prompt (dma : Dma) : DmaCall → Prop
  | .submit _ desc _ => dma.host.accepts = true → desc.sync = true → dma.queue = [] ∧ ¬ dma.host.Relocks desc.queued
  | .abort caller => ∀ entry ∈ dma.queue, entry.caller ≠ caller

section Steps
variable {dma : Dma} {rest : List Queued} {head : Queued}

theorem step_abort (caller : Nat) : dma.step (.abort caller) = dma := by
  have missing : (dma.queue.map (·.ptr)).findIdx? (· = DescPtr.caller caller) = none := by
    rw [List.findIdx?_eq_none_iff]
    intro ptr member
    obtain ⟨entry, -, rfl⟩ := List.mem_map.mp member
    rfl
  have kept : dma.queue.eraseP (fun entry => decide (entry.ptr = .caller caller)) = dma.queue :=
    List.eraseP_of_forall_not fun entry _ => by simp [Queued.ptr]
  simp only [step, Host.dmaAbort, missing, kept]

theorem step_refused (refused : dma.host.accepts = false) (caller : Nat) (desc : CXLP2PDescriptor)
    (junk : Nat → UInt8) : dma.step (.submit caller desc junk) = dma := by
  simp only [step, refused, dma.host.dmaSubmit_refused refused desc junk]
  rfl

theorem step_async (accepted : dma.host.accepts = true) (caller : Nat)
    (async : desc.sync = false) (junk : Nat → UInt8) :
    dma.step (.submit caller desc junk) =
      { dma with
        host := dma.host.push desc
        queue := dma.queue ++ [dma.entry caller desc]
        accepted := dma.accepted + 1 } := by
  simp only [step, accepted, async, dma.host.dmaSubmit_async accepted async junk]
  rfl

abbrev pop (dma : Dma) (head : Queued) (rest : List Queued) (junk : Nat → UInt8) : Host × CXLP2PDescriptor :=
  dma.host.pop head.desc (rest.map (·.desc)) junk

section
variable (linked : dma.Linked) (accepted : dma.host.accepts = true) {caller : Nat} (sync : desc.sync = true)
  (queue : dma.queue ++ [dma.entry caller desc] = head :: rest) (junk : Nat → UInt8)
include linked accepted sync queue

theorem dmaSubmit_sync : dma.host.dmaSubmit desc junk =
      ((dma.pop head rest junk).1, desc.report (dma.pop head rest junk).2, 0) := by
  have pending : dma.host.engine.pendingTransfers ++ [desc.queued] = head.desc :: rest.map (·.desc) := by
    have descs := congrArg (List.map (·.desc)) queue
    rw [List.map_append] at descs
    rw [linked.pending]
    exact descs
  exact dma.host.dmaSubmit_sync accepted sync pending junk

theorem step_sync : dma.step (.submit caller desc junk) =
      { host := (dma.pop head rest junk).1
        queue := rest
        accepted := dma.accepted + 1
        performed := dma.performed ++ [head] } := by
  simp only [step, accepted, sync, dmaSubmit_sync linked accepted sync queue junk, queue]
  rfl

end

theorem Linked.push (linked : dma.Linked) (caller : Nat) (desc : CXLP2PDescriptor) :
    Linked { dma with
      host := dma.host.push desc, queue := dma.queue ++ [dma.entry caller desc], accepted := dma.accepted + 1 } where
  pending := by
    rw [List.map_append, ← linked.pending]
    rfl
  completed := linked.completed

theorem Linked.pop (linked : dma.Linked) (head : Queued) (rest : List Queued) (junk : Nat → UInt8)
    (accepted : Nat) :
    Linked ⟨(dma.pop head rest junk).1, rest, accepted, dma.performed ++ [head]⟩ := by
  obtain ⟨engine, ⟨status, errorCode, request⟩, -⟩ :=
    (dma.host.withPending (rest.map (·.desc))).performP2pTransfer_frame head.desc junk
  constructor
  · rw [Dma.pop, Host.pop, Host.complete, engine]
    rfl
  · rw [Dma.pop, Host.pop, Host.complete, engine, List.map_append, List.map_append,
      ← linked.completed, List.map_singleton, request]
    rfl

theorem Once.push (once : dma.Once) (host : Host) (caller : Nat) (desc : CXLP2PDescriptor) :
    Once { dma with host, queue := dma.queue ++ [dma.entry caller desc], accepted := dma.accepted + 1 } := by
  constructor
  · rw [← List.append_assoc, List.map_append, List.map_singleton, List.nodup_append]
    refine ⟨once.nodup, List.nodup_singleton _, ?_⟩
    intro block member other last
    obtain ⟨entry, inside, rfl⟩ := List.mem_map.mp member
    rw [List.mem_singleton.mp last]
    exact (once.given entry inside).ne
  · intro entry member
    rw [← List.append_assoc, List.mem_append, List.mem_singleton] at member
    rcases member with old | rfl
    · exact Nat.lt_succ_of_lt (once.given entry old)
    · exact Nat.lt_succ_self _

theorem Once.pop (once : dma.Once) (queue : dma.queue = head :: rest)
    (host : Host) : Once { dma with host, queue := rest, performed := dma.performed ++ [head] } := by
  have moved : dma.performed ++ [head] ++ rest = dma.performed ++ dma.queue := by
    rw [queue, List.append_assoc]
    rfl
  constructor
  · rw [moved]
    exact once.nodup
  · rw [moved]
    exact once.given

theorem step_keeps (linked : dma.Linked) (once : dma.Once) (c : DmaCall) : (dma.step c).Linked ∧ (dma.step c).Once := by
  cases c with
  | abort caller =>
    rw [step_abort]
    exact ⟨linked, once⟩
  | submit caller desc junk =>
    cases accepted : dma.host.accepts with
    | false =>
      rw [step_refused accepted]
      exact ⟨linked, once⟩
    | true =>
      cases sync : desc.sync with
      | false =>
        rw [step_async accepted caller sync]
        exact ⟨linked.push caller desc, once.push _ caller desc⟩
      | true =>
        obtain ⟨head, rest, queue⟩ : ∃ head rest, dma.queue ++ [dma.entry caller desc] = head :: rest :=
          List.exists_cons_of_ne_nil (by simp)
        rw [step_sync linked accepted sync queue]
        exact ⟨linked.pop head rest junk _, (once.push dma.host caller desc).pop queue _⟩

theorem step_alone (linked : dma.Linked) (accepted : dma.host.accepts = true) (sync : desc.sync = true)
    (empty : dma.queue = []) (caller : Nat) (junk : Nat → UInt8) :
    dma.step (.submit caller desc junk) =
      { host := (dma.host.performP2pTransfer desc.queued junk).1.complete
          (dma.host.performP2pTransfer desc.queued junk).2
        queue := []
        accepted := dma.accepted + 1
        performed := dma.performed ++ [dma.entry caller desc] } ∧
      (dma.host.dmaSubmit desc junk).2.1 = desc.report (dma.host.performP2pTransfer desc.queued junk).2 := by
  have queue : dma.queue ++ [dma.entry caller desc] = dma.entry caller desc :: [] := by
    rw [empty, List.nil_append]
  have host : dma.host.withPending [] = dma.host := by
    refine dma.host.withPending_self ?_
    rw [linked.pending, empty]
    rfl
  have returned := dmaSubmit_sync linked accepted sync queue junk
  rw [pop, Host.pop, List.map_nil, host] at returned
  rw [step_sync linked accepted sync queue, pop, Host.pop, List.map_nil, host, returned]
  exact ⟨rfl, rfl⟩

theorem step_unlocked (linked : dma.Linked) (unlocked : dma.host.ct2d.barCoherency.lock = {}) {c : DmaCall}
    (prompt : dma.Prompt c) : (dma.step c).host.ct2d.barCoherency.lock = {} := by
  cases c with
  | abort caller =>
    rw [step_abort]
    exact unlocked
  | submit caller desc junk =>
    cases accepted : dma.host.accepts with
    | false =>
      rw [step_refused accepted]
      exact unlocked
    | true =>
      cases sync : desc.sync with
      | false =>
        rw [step_async accepted caller sync]
        exact unlocked
      | true =>
        obtain ⟨empty, once⟩ := prompt accepted sync
        rw [(step_alone linked accepted sync empty caller junk).1]
        exact (dma.host.performP2pTransfer_locks (by rw [unlocked]) desc.queued junk).once unlocked once

theorem served_iff_prompt (linked : dma.Linked) (once : dma.Once) (unlocked : dma.host.ct2d.barCoherency.lock = {})
    (c : DmaCall) : dma.Served c ↔ dma.Prompt c := by
  cases c with
  | abort caller =>
    rw [Served, Prompt, step_abort]
    constructor
    · intro served entry member same
      exact (served entry member same).1 member
    · intro prompt entry member same
      exact absurd same (prompt entry member)
  | submit caller desc junk =>
    refine forall_congr' fun accepted => forall_congr' fun sync => ?_
    have locks := dma.host.performP2pTransfer_locks (by rw [unlocked]) desc.queued junk
    constructor
    · rintro ⟨returns, own, -⟩
      have empty : dma.queue = [] := by
        by_contra waiting
        obtain ⟨head, rest, queue⟩ := List.exists_cons_of_ne_nil waiting
        rw [step_sync linked accepted sync (by rw [queue, List.cons_append])] at own
        have same : head = dma.entry caller desc := List.singleton_injective (List.append_cancel_left own)
        -- the head's block was given out before
        have before := once.given head (by simp [queue])
        rw [same] at before
        exact absurd before (Nat.lt_irrefl _)
      rw [(step_alone linked accepted sync empty caller junk).1] at returns
      exact ⟨empty, (locks.relocked_iff unlocked).mp returns⟩
    · rintro ⟨empty, once⟩
      obtain ⟨alone, reported⟩ := step_alone linked accepted sync empty caller junk
      rw [alone]
      exact ⟨(locks.relocked_iff unlocked).mpr once, rfl, rfl, reported⟩

end Steps

theorem start_keeps (ct2d : CXLType2State) (type3 : CXLType3Dev → Segment)
    (peers : Vector (Option CXLP2PPeer) maxPeers) (ownerPeerId : UInt32) (enabled : Bool) :
    (start ct2d type3 peers ownerPeerId enabled).Linked ∧ (start ct2d type3 peers ownerPeerId enabled).Once :=
  ⟨⟨rfl, rfl⟩, ⟨List.nodup_nil, by simp [start]⟩⟩

/-- No descriptor is performed twice in any run; and submits and aborts are served just if no synchronous submit
finds another transfer waiting or takes the coherency lock twice, and no abort finds a copy of its descriptor. -/
theorem dma_served_iff (ct2d : CXLType2State) (unlocked : ct2d.barCoherency.lock = {})
    (type3 : CXLType3Dev → Segment) (peers : Vector (Option CXLP2PPeer) maxPeers) (ownerPeerId : UInt32)
    (enabled : Bool) (calls : List DmaCall) :
    (calls.foldl step (start ct2d type3 peers ownerPeerId enabled)).Linked ∧
    (calls.foldl step (start ct2d type3 peers ownerPeerId enabled)).Once ∧
    (EveryStep step Served (start ct2d type3 peers ownerPeerId enabled) calls ↔
      EveryStep step Prompt (start ct2d type3 peers ownerPeerId enabled) calls) := by
  have started := start_keeps ct2d type3 peers ownerPeerId enabled
  have kept : (calls.foldl step (start ct2d type3 peers ownerPeerId enabled)).Linked ∧
      (calls.foldl step (start ct2d type3 peers ownerPeerId enabled)).Once :=
    invariant (I := fun dma : Dma => dma.Linked ∧ dma.Once) (fun dma c keeps => step_keeps keeps.1 keeps.2 c)
      started calls
  refine ⟨kept.1, kept.2, ?_⟩
  refine everyStep_congr_of_invariant (I := fun dma : Dma => (dma.Linked ∧ dma.Once) ∧
    dma.host.ct2d.barCoherency.lock = {}) ⟨started, unlocked⟩ ?_ ?_
  · rintro dma c - ⟨⟨linked, once⟩, unlocked⟩ prompt
    exact ⟨step_keeps linked once c, step_unlocked linked unlocked prompt⟩
  · rintro dma c - ⟨⟨linked, once⟩, unlocked⟩
    exact served_iff_prompt linked once unlocked c

def oneLine (sync : Bool) : CXLP2PDescriptor :=
  { srcAddr := 0, dstAddr := 0, size := 64, srcPeerId := 1, dstPeerId := 2, sync, coherent := true }

def idleEngine : Dma :=
  start (realize { deviceMemSize := 4096, cacheSize := 4096 }) (fun _ _ => 0) (Vector.replicate maxPeers none) 0 true

theorem dma_served_oneCaller :
    EveryStep step Served idleEngine
      [.submit 0 (oneLine true) (fun _ => 0), .submit 1 (oneLine false) (fun _ => 0)] := by
  refine (dma_served_iff _ rfl _ _ _ _ _).2.2.mpr ⟨fun _ _ => ⟨rfl, ?_⟩, fun _ sync => ?_, trivial⟩
  · rintro ⟨src, dst, srcPeer, -⟩
    cases srcPeer
  · cases sync

/-- The second caller's submit performs the first caller's transfer, whose abort has done nothing; its own is left in
the queue. -/
theorem not_served_waiting :
    ¬EveryStep step Served idleEngine [.submit 0 (oneLine false) (fun _ => 0), .submit 1 (oneLine true) (fun _ => 0)] ∧
    ¬EveryStep step Served idleEngine [.submit 0 (oneLine false) (fun _ => 0), .abort 0] ∧
    ([.submit 0 (oneLine false) (fun _ => 0), .abort 0, .submit 1 (oneLine true) (fun _ => 0)].foldl step
      idleEngine).performed.map (·.caller) = [0] ∧
    ([.submit 0 (oneLine false) (fun _ => 0), .abort 0, .submit 1 (oneLine true) (fun _ => 0)].foldl step
      idleEngine).queue.map (·.caller) = [1] := by
  refine ⟨?_, ?_, rfl, rfl⟩
  · rintro ⟨-, served, -⟩
    have own := congrArg (List.map (·.block)) (served rfl rfl).2.1
    exact absurd own (by decide)
  · rintro ⟨-, served, -⟩
    exact (served ⟨0, 0, (oneLine false).queued⟩ (List.mem_singleton.mpr rfl) rfl).1 (List.mem_singleton.mpr rfl)

end Dma
end CxlMemSim.Type2.P2p
