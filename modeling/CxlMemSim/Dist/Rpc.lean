import CxlMemSim.Dist.Manager
import CxlMemSim.Lib.Run

/-! The managers of all nodes over one header: threads inside `send_message_wait_response`, workers with a message in
hand and senders that do not wait. -/
namespace CxlMemSim.Dist
open Function Run List

/-- The parts of `dist_message_t` that the manager looks at; `body` is the rest. -/
structure Message (β : Type) where
  msgType : DistMsgType
  msgId : UInt32
  srcNodeId : UInt32
  body : β
deriving DecidableEq

instance {β : Type} [Inhabited β] : Inhabited (Message β) := ⟨⟨.none, 0, 0, default⟩⟩

structure Packet (β : Type) where
  msg : Message β
  origin : Node
  seq : Nat
  isReply : Bool
deriving DecidableEq

instance {β : Type} [Inhabited β] : Inhabited (Packet β) := ⟨⟨default, 0, 0, false⟩⟩

inductive Phase where
  | composed | registered | waiting | failed | timedOut | woken | returned (result : Bool)
deriving DecidableEq

/-- A call of `send_message_wait_response`; `response` is there once `completed` is set. -/
structure Call (β : Type) where
  dst : UInt32
  request : Message β
  phase : Phase := .composed
  response : Option (Message β) := none
deriving DecidableEq

structure Handled (β : Type) where
  node : Node
  request : Packet β
  response : Message β
deriving DecidableEq

def nodeId (n : Node) : UInt32 := UInt32.ofNat n.val

def msgIdOf (j : Nat) : UInt32 := UInt32.ofNat (j + 1)

structure System (σ β : Type) where
  header : DistShmHeader (Packet β)
  nextMsgId : Node → UInt32
  drawn : Node → Nat
  calls : Node × Nat → Option (Call β)
  pendingRequests : Node × UInt32 → Option Nat
  outbox : Node → List (UInt32 × Packet β)
  taken : Node → List (Packet β)
  dispatching : Node → List (Packet β)
  server : Node → σ
  processed : List (Node × Packet β)
  handled : List (Handled β)

inductive Step (σ β : Type) where
  | request (n : Node) (dst : UInt32) (msgType : DistMsgType) (body : β)
  | register (n : Node) (j : Nat)
  | send (n : Node) (j : Nat)
  | wake (n : Node) (j : Nat)
  | timeout (n : Node) (j : Nat)
  | erase (n : Node) (j : Nat)
  | post (n : Node) (dsts : List UInt32) (msgType : DistMsgType) (body : β)
  | take (n src : Node)
  | lookup (n : Node) (k : Nat)
  | dispatch (n : Node) (k : Nat)
  | flush (n : Node) (k : Nat)
  | status (n : Node) (status : DistNodeStatus)
  | serverStep (n : Node) (state : σ)

variable {σ β : Type}

def Step.draws : Step σ β → Option Node
  | .request n _ _ _ | .post n _ _ _ => some n
  | _ => none

def Step.ends : Step σ β → Option (Node × Nat)
  | .erase n j => some (n, j)
  | _ => none

def Call.packet (n : Node) (j : Nat) (c : Call β) : Packet β := ⟨c.request, n, j, false⟩

def Phase.isReturned : Phase → Bool
  | .returned _ => true
  | _ => false

def Phase.isOpen : Phase → Bool
  | .woken | .returned _ => false
  | _ => true

def Call.Finished (c : Call β) : Prop := c.phase.isReturned

def Call.Complete (c : Call β) : Prop := c.phase = .woken ∨ c.phase = .returned true → c.response.isSome

namespace System
variable (s : System σ β)

def start [Inhabited β] (nodes : Node → DistNodeStatus) (server : Node → σ) : System σ β where
  header := { DistShmHeader.blank 0 with nodes }
  nextMsgId _ := 1
  drawn _ := 0
  calls _ := none
  pendingRequests _ := none
  outbox _ := []
  taken _ := []
  dispatching _ := []
  server := server
  processed := []
  handled := []

def setCall (n : Node) (j : Nat) (c : Call β) : System σ β :=
  { s with calls := update s.calls (n, j) (some c) }

def generateMsgId (n : Node) : System σ β :=
  { s with
    nextMsgId := update s.nextMsgId n (s.nextMsgId n + 1)
    drawn := update s.drawn n (s.drawn n + 1) }

def compose (n : Node) (dst : UInt32) (msgType : DistMsgType) (body : β) : System σ β :=
  (s.generateMsgId n).setCall n (s.drawn n) { dst, request := ⟨msgType, s.nextMsgId n, nodeId n, body⟩ }

/-- `send_message` and `broadcast_message` of a new message, up to the rings. -/
def post (n : Node) (dsts : List UInt32) (msgType : DistMsgType) (body : β) : System σ β :=
  { s.generateMsgId n with
    outbox := update s.outbox n (s.outbox n ++ dsts.map fun dst =>
      (dst, ⟨⟨msgType, s.nextMsgId n, nodeId n, body⟩, n, s.drawn n, false⟩)) }

def registerPending (n : Node) (j : Nat) (c : Call β) : System σ β :=
  { s.setCall n j { c with phase := .registered } with
    pendingRequests := update s.pendingRequests (n, c.request.msgId) (some j) }

def sendRequest (n : Node) (j : Nat) (c : Call β) : System σ β :=
  match s.header.enqueueMessage n c.dst (c.packet n j) with
  | some header => { s.setCall n j { c with phase := .waiting } with header }
  | none => s.setCall n j { c with phase := .failed }

def erasePending (n : Node) (j : Nat) (c : Call β) (result : Bool) : System σ β :=
  { s.setCall n j { c with phase := .returned result } with
    pendingRequests := update s.pendingRequests (n, c.request.msgId) none }

def lookup (n : Node) (k : Nat) (p : Packet β) : System σ β :=
  let s := { s with
    taken := update s.taken n ((s.taken n).eraseIdx k)
    processed := s.processed ++ [(n, p)] }
  match (s.pendingRequests (n, p.msg.msgId)).bind fun j => (s.calls (n, j)).map fun c => (j, c) with
  | some (j, c) => s.setCall n j { c with response := some p.msg }
  | none => { s with dispatching := update s.dispatching n (s.dispatching n ++ [p]) }

def dispatch (serve : Node → σ → Message β → σ × β) (n : Node) (k : Nat) (p : Packet β) : System σ β :=
  let s := { s with dispatching := update s.dispatching n ((s.dispatching n).eraseIdx k) }
  match setupMessageHandlers p.msg.msgType with
  | none => s
  | some responseType =>
    let (state, body) := serve n (s.server n) p.msg
    let response : Message β := ⟨responseType, p.msg.msgId, nodeId n, body⟩
    { s with
      server := update s.server n state
      handled := s.handled ++ [⟨n, p, response⟩]
      outbox :=
        if responseType = .none then s.outbox
        else update s.outbox n
          (s.outbox n ++ [(p.msg.srcNodeId, ⟨response, p.origin, p.seq, true⟩)]) }

def flush (n : Node) (k : Nat) (entry : UInt32 × Packet β) : System σ β :=
  { s with
    outbox := update s.outbox n ((s.outbox n).eraseIdx k)
    header := (s.header.enqueueMessage n entry.1 entry.2).getD s.header }

def callIn (n : Node) (j : Nat) (phase : Phase) : Option (Call β) :=
  (s.calls (n, j)).filter fun c => c.phase = phase

def attempt (serve : Node → σ → Message β → σ × β) : Step σ β → Option (System σ β)
  | .request n dst msgType body => some (s.compose n dst msgType body)
  | .register n j => (s.callIn n j .composed).map (s.registerPending n j)
  | .send n j => (s.callIn n j .registered).map (s.sendRequest n j)
  | .wake n j => ((s.callIn n j .waiting).filter fun c => c.response.isSome).map fun c =>
    s.setCall n j { c with phase := .woken }
  | .timeout n j => ((s.callIn n j .waiting).filter fun c => c.response.isNone).map fun c =>
    s.setCall n j { c with phase := .timedOut }
  | .erase n j => (s.calls (n, j)).bind fun c =>
    match c.phase with
    | .woken => some (s.erasePending n j c true)
    | .failed | .timedOut => some (s.erasePending n j c false)
    | _ => none
  | .post n dsts msgType body => some (s.post n dsts msgType body)
  | .take n src =>
    if src ≠ n ∧ s.header.isNodeActive src then
      (s.header.dequeueMessage src n).map fun (p, header) =>
        { s with header, taken := update s.taken n (s.taken n ++ [p]) }
    else none
  | .lookup n k => (s.taken n)[k]?.map (s.lookup n k)
  | .dispatch n k => (s.dispatching n)[k]?.map (s.dispatch serve n k)
  | .flush n k => (s.outbox n)[k]?.map (s.flush n k)
  | .status n status => some { s with header := { s.header with nodes := update s.header.nodes n status } }
  | .serverStep n state => some { s with server := update s.server n state }

end System

def step (serve : Node → σ → Message β → σ × β) (s : System σ β) (i : Step σ β) : System σ β :=
  (s.attempt serve i).getD s

def run (serve : Node → σ → Message β → σ × β) (s : System σ β) (steps : List (Step σ β)) : System σ β :=
  steps.foldl (step serve) s

namespace System

variable {n : Node} {c : Call β}

theorem callIn_eq_some {s : System σ β} {j : Nat} {phase : Phase} :
    s.callIn n j phase = some c ↔ s.calls (n, j) = some c ∧ c.phase = phase := by
  simp only [callIn, Option.filter_eq_some_iff, decide_eq_true_eq]

def processing (s : System σ β) (n : Node) (k : Nat) (q : Packet β) : System σ β :=
  { s with
    taken := update s.taken n ((s.taken n).eraseIdx k)
    processed := s.processed ++ [(n, q)] }

def response (serve : Node → σ → Message β → σ × β) (s : System σ β) (n : Node) (q : Packet β)
    (responseType : DistMsgType) : Message β :=
  ⟨responseType, q.msg.msgId, nodeId n, (serve n (s.server n) q.msg).2⟩

inductive Stepped (serve : Node → σ → Message β → σ × β) (s : System σ β) : Step σ β → System σ β → Prop
  | request (n dst msgType body) : Stepped serve s (.request n dst msgType body) (s.compose n dst msgType body)
  | register {n j c} (call : s.calls (n, j) = some c) (phase : c.phase = .composed) :
      Stepped serve s (.register n j) (s.registerPending n j c)
  | sent {n j c} (call : s.calls (n, j) = some c) (phase : c.phase = .registered) {header}
      (sent : s.header.enqueueMessage n c.dst (c.packet n j) = some header) :
      Stepped serve s (.send n j) { s.setCall n j { c with phase := .waiting } with header }
  | sendFailed {n j c} (call : s.calls (n, j) = some c) (phase : c.phase = .registered) :
      Stepped serve s (.send n j) (s.setCall n j { c with phase := .failed })
  | wake {n j c} (call : s.calls (n, j) = some c) (phase : c.phase = .waiting) (completed : c.response.isSome) :
      Stepped serve s (.wake n j) (s.setCall n j { c with phase := .woken })
  | timeout {n j c} (call : s.calls (n, j) = some c) (phase : c.phase = .waiting) :
      Stepped serve s (.timeout n j) (s.setCall n j { c with phase := .timedOut })
  | erase {n j c} (call : s.calls (n, j) = some c) (running : c.phase.isReturned = false) (result)
      (woken : result = true → c.phase = .woken) :
      Stepped serve s (.erase n j) (s.erasePending n j c result)
  | post (n dsts msgType body) : Stepped serve s (.post n dsts msgType body) (s.post n dsts msgType body)
  | take {n src q header} (received : s.header.dequeueMessage src n = some (q, header)) :
      Stepped serve s (.take n src) { s with header, taken := update s.taken n (s.taken n ++ [q]) }
  | matched {n k q j c} (held : (s.taken n)[k]? = some q) (pending : s.pendingRequests (n, q.msg.msgId) = some j)
      (call : s.calls (n, j) = some c) :
      Stepped serve s (.lookup n k) ((s.processing n k q).setCall n j { c with response := some q.msg })
  | unmatched {n k q} (held : (s.taken n)[k]? = some q) :
      Stepped serve s (.lookup n k) { s.processing n k q with
        dispatching := update s.dispatching n (s.dispatching n ++ [q]) }
  | unhandled {n k q} (held : (s.dispatching n)[k]? = some q)
      (unregistered : setupMessageHandlers q.msg.msgType = none) :
      Stepped serve s (.dispatch n k)
        { s with dispatching := update s.dispatching n ((s.dispatching n).eraseIdx k) }
  | handled {n k q r} (held : (s.dispatching n)[k]? = some q)
      (registered : setupMessageHandlers q.msg.msgType = some r) :
      Stepped serve s (.dispatch n k)
        { s with
          dispatching := update s.dispatching n ((s.dispatching n).eraseIdx k)
          server := update s.server n (serve n (s.server n) q.msg).1
          handled := s.handled ++ [⟨n, q, s.response serve n q r⟩]
          outbox :=
            if r = .none then s.outbox
            else update s.outbox n
              (s.outbox n ++ [(q.msg.srcNodeId, ⟨s.response serve n q r, q.origin, q.seq, true⟩)]) }
  | flush {n k entry} (held : (s.outbox n)[k]? = some entry) : Stepped serve s (.flush n k) (s.flush n k entry)
  | status (n status) : Stepped serve s (.status n status)
      { s with header := { s.header with nodes := update s.header.nodes n status } }
  | serverStep (n state) :
      Stepped serve s (.serverStep n state) { s with server := update s.server n state }

variable {serve : Node → σ → Message β → σ × β} {s after : System σ β} {i : Step σ β} {q : Packet β} {b : Node}

variable {k : Nat} {p : Packet β}

theorem stepped_lookup (held : (s.taken n)[k]? = some q) : Stepped serve s (.lookup n k) (s.lookup n k q) := by
  unfold lookup
  simp only
  split
  · rename_i j c found
    obtain ⟨j', pending, rest⟩ := Option.bind_eq_some_iff.mp found
    obtain ⟨c', call, same⟩ := Option.map_eq_some_iff.mp rest
    cases same
    exact .matched held pending call
  · exact .unmatched held

theorem stepped_dispatch (held : (s.dispatching n)[k]? = some q) :
    Stepped serve s (.dispatch n k) (s.dispatch serve n k q) := by
  unfold dispatch
  simp only
  split
  · rename_i unregistered
    exact .unhandled held unregistered
  · rename_i r registered
    exact .handled held registered

theorem stepped_of_attempt (taken : s.attempt serve i = some after) : Stepped serve s i after := by
  cases i with
  | request n dst msgType body => exact Option.some.inj taken ▸ .request n dst msgType body
  | post n dsts msgType body => exact Option.some.inj taken ▸ .post n dsts msgType body
  | status n status => exact Option.some.inj taken ▸ .status n status
  | serverStep n state => exact Option.some.inj taken ▸ .serverStep n state
  | register n j =>
    obtain ⟨c, here, rfl⟩ := Option.map_eq_some_iff.mp taken
    obtain ⟨call, phase⟩ := callIn_eq_some.mp here
    exact .register call phase
  | send n j =>
    obtain ⟨c, here, rfl⟩ := Option.map_eq_some_iff.mp taken
    obtain ⟨call, phase⟩ := callIn_eq_some.mp here
    unfold sendRequest
    split
    · rename_i header sent
      exact .sent call phase sent
    · exact .sendFailed call phase
  | wake n j =>
    obtain ⟨c, here, rfl⟩ := Option.map_eq_some_iff.mp taken
    obtain ⟨waiting, completed⟩ := Option.filter_eq_some_iff.mp here
    obtain ⟨call, phase⟩ := callIn_eq_some.mp waiting
    exact .wake call phase completed
  | timeout n j =>
    obtain ⟨c, here, rfl⟩ := Option.map_eq_some_iff.mp taken
    obtain ⟨call, phase⟩ := callIn_eq_some.mp (Option.filter_eq_some_iff.mp here).1
    exact .timeout call phase
  | erase n j =>
    obtain ⟨c, call, erased⟩ := Option.bind_eq_some_iff.mp taken
    split at erased
    · rename_i phase
      cases erased
      exact .erase call (by rw [phase]; rfl) true fun _ => phase
    · rename_i phase
      cases erased
      exact .erase call (by rw [phase]; rfl) false fun h => (Bool.false_ne_true h).elim
    · rename_i phase
      cases erased
      exact .erase call (by rw [phase]; rfl) false fun h => (Bool.false_ne_true h).elim
    · cases erased
  | take n src =>
    rw [attempt] at taken
    split at taken
    · obtain ⟨⟨q, header⟩, received, rfl⟩ := Option.map_eq_some_iff.mp taken
      exact .take received
    · cases taken
  | lookup n k =>
    obtain ⟨q, held, rfl⟩ := Option.map_eq_some_iff.mp taken
    exact stepped_lookup held
  | dispatch n k =>
    obtain ⟨q, held, rfl⟩ := Option.map_eq_some_iff.mp taken
    exact stepped_dispatch held
  | flush n k =>
    obtain ⟨entry, held, rfl⟩ := Option.map_eq_some_iff.mp taken
    exact .flush held

def InFlight (s : System σ β) (dst : UInt32) (p : Packet β) : Prop :=
  (∃ a b, p ∈ s.header.queued a b ∧ dst = nodeId b) ∨
  (∃ b, (p ∈ s.taken b ∨ p ∈ s.dispatching b) ∧ dst = nodeId b) ∨
  ∃ a, (dst, p) ∈ s.outbox a

def Created (serve : Node → σ → Message β → σ × β) (s : System σ β) (dst : UInt32) (p : Packet β) :
    Step σ β → Prop
  | .send n j => ∃ c, s.calls (n, j) = some c ∧ c.phase = .registered ∧ dst = c.dst ∧ p = c.packet n j
  | .post n dsts msgType body =>
    dst ∈ dsts ∧ p = ⟨⟨msgType, s.nextMsgId n, nodeId n, body⟩, n, s.drawn n, false⟩
  | .dispatch n k => ∃ q r, (s.dispatching n)[k]? = some q ∧ setupMessageHandlers q.msg.msgType = some r ∧
      dst = q.msg.srcNodeId ∧ p = ⟨s.response serve n q r, q.origin, q.seq, true⟩
  | _ => False

theorem nodeId_toNat (n : Node) : (nodeId n).toNat = n.val := by
  have : n.val < 16 := n.isLt
  simp only [nodeId, UInt32.toNat_ofNat']
  omega

theorem nodeId_injective {a : Node} (same : nodeId a = nodeId b) : a = b :=
  Fin.ext (by rw [← nodeId_toNat a, same, nodeId_toNat])

theorem mem_queued_enqueueMessage {header after : DistShmHeader (Packet β)} {dst : UInt32}
    (sent : header.enqueueMessage n dst q = some after) {a : Node}
    (member : p ∈ after.queued a b) : p ∈ header.queued a b ∨ (nodeId b = dst ∧ p = q) := by
  rw [DistShmHeader.queued_enqueueMessage sent] at member
  split at member
  · rename_i here
    rcases mem_append.mp member with old | new
    · exact .inl old
    · exact .inr ⟨UInt32.toNat_inj.mp ((nodeId_toNat b).trans here.2), mem_singleton.mp new⟩
  · exact .inl member

theorem mem_queued_dequeueMessage {header after : DistShmHeader (Packet β)} {src : Node}
    (received : header.dequeueMessage src n = some (q, after)) :
    q ∈ header.queued src n ∧ ∀ {a b p}, p ∈ after.queued a b → p ∈ header.queued a b := by
  obtain ⟨first, others⟩ := DistShmHeader.queued_dequeueMessage received
  refine ⟨first ▸ mem_cons_self, fun {a b p} member => ?_⟩
  by_cases same : (a, b) = (src, n)
  · cases same
    rw [first]
    exact mem_cons_of_mem q member
  · rwa [others a b same] at member

theorem mem_update_append {α : Type} {f : Node → List α} {l : List α} {x : α}
    (member : x ∈ update f n (f n ++ l) b) : x ∈ f b ∨ (b = n ∧ x ∈ l) := by
  by_cases same : b = n
  · subst same
    rw [update_self] at member
    exact (mem_append.mp member).imp_right fun new => ⟨rfl, new⟩
  · rw [update_of_ne same] at member
    exact .inl member

theorem mem_update_eraseIdx {α : Type} {f : Node → List α} {x : α}
    (member : x ∈ update f n ((f n).eraseIdx k) b) : x ∈ f b := by
  by_cases same : b = n
  · subst same
    rw [update_self] at member
    exact mem_of_mem_eraseIdx member
  · rwa [update_of_ne same] at member

theorem inFlight_stepped (stepped : Stepped serve s i after) {dst : UInt32}
    (flies : after.InFlight dst p) : s.InFlight dst p ∨ Created serve s dst p i := by
  cases stepped with
  | request | register | sendFailed | wake | timeout | erase | status | serverStep => exact .inl flies
  | sent call phase sent =>
    rcases flies with ⟨a, b, member, rfl⟩ | rest
    · rcases mem_queued_enqueueMessage sent member with old | new
      · exact .inl (.inl ⟨a, b, old, rfl⟩)
      · exact .inr ⟨_, call, phase, new⟩
    · exact .inl (.inr rest)
  | post n dsts msgType body =>
    rcases flies with queued | held | ⟨a, member⟩
    · exact .inl (.inl queued)
    · exact .inl (.inr (.inl held))
    · rcases mem_update_append member with old | ⟨rfl, new⟩
      · exact .inl (.inr (.inr ⟨a, old⟩))
      · obtain ⟨x, listed, same⟩ := mem_map.mp new
        cases same
        exact .inr ⟨listed, rfl⟩
  | take received =>
    obtain ⟨first, others⟩ := mem_queued_dequeueMessage received
    left
    rcases flies with ⟨a, b, member, rfl⟩ | ⟨b, member | member, rfl⟩ | sent
    · exact .inl ⟨a, b, others member, rfl⟩
    · rcases mem_update_append member with old | ⟨rfl, new⟩
      · exact .inr (.inl ⟨b, .inl old, rfl⟩)
      · exact .inl ⟨_, b, mem_singleton.mp new ▸ first, rfl⟩
    · exact .inr (.inl ⟨b, .inr member, rfl⟩)
    · exact .inr (.inr sent)
  | matched held pending call =>
    left
    rcases flies with queued | ⟨b, member | member, rfl⟩ | sent
    · exact .inl queued
    · exact .inr (.inl ⟨b, .inl (mem_update_eraseIdx member), rfl⟩)
    · exact .inr (.inl ⟨b, .inr member, rfl⟩)
    · exact .inr (.inr sent)
  | unmatched held =>
    left
    rcases flies with queued | ⟨b, member | member, rfl⟩ | sent
    · exact .inl queued
    · exact .inr (.inl ⟨b, .inl (mem_update_eraseIdx member), rfl⟩)
    · rcases mem_update_append member with old | ⟨rfl, new⟩
      · exact .inr (.inl ⟨b, .inr old, rfl⟩)
      · exact .inr (.inl ⟨b, .inl (mem_singleton.mp new ▸ mem_of_getElem? held), rfl⟩)
    · exact .inr (.inr sent)
  | unhandled held unregistered =>
    left
    rcases flies with queued | ⟨b, member | member, rfl⟩ | sent
    · exact .inl queued
    · exact .inr (.inl ⟨b, .inl member, rfl⟩)
    · exact .inr (.inl ⟨b, .inr (mem_update_eraseIdx member), rfl⟩)
    · exact .inr (.inr sent)
  | handled held registered =>
    rcases flies with queued | ⟨b, member | member, rfl⟩ | ⟨a, member⟩
    · exact .inl (.inl queued)
    · exact .inl (.inr (.inl ⟨b, .inl member, rfl⟩))
    · exact .inl (.inr (.inl ⟨b, .inr (mem_update_eraseIdx member), rfl⟩))
    · simp only at member
      split at member
      · exact .inl (.inr (.inr ⟨a, member⟩))
      · rcases mem_update_append member with old | ⟨rfl, new⟩
        · exact .inl (.inr (.inr ⟨a, old⟩))
        · obtain ⟨rfl, rfl⟩ := Prod.mk.inj (mem_singleton.mp new)
          exact .inr ⟨_, _, held, registered, rfl, rfl⟩
  | @flush n k entry held =>
    left
    rcases flies with ⟨a, b, member, rfl⟩ | at_node | ⟨a, member⟩
    · cases sent : s.header.enqueueMessage n entry.1 entry.2 with
      | none =>
        simp only [System.flush, sent, Option.getD_none] at member
        exact .inl ⟨a, b, member, rfl⟩
      | some header =>
        simp only [System.flush, sent, Option.getD_some] at member
        rcases mem_queued_enqueueMessage sent member with old | ⟨same, rfl⟩
        · exact .inl ⟨a, b, old, rfl⟩
        · exact .inr (.inr ⟨n, same ▸ mem_of_getElem? held⟩)
    · exact .inr (.inl at_node)
    · exact .inr (.inr ⟨a, mem_update_eraseIdx member⟩)

structure Follows (s : System σ β) (i : Step σ β) (n : Node) (j : Nat) (c c' : Call β) : Prop where
  dst : c'.dst = c.dst
  request : c'.request = c.request
  stays : c.Finished → c'.Finished
  finished : c'.Finished → c.Finished ∨ i.ends = some (n, j)
  complete : c.Complete → c'.Complete
  response : c'.response = c.response ∨ ∃ k q, i = .lookup n k ∧ (s.taken n)[k]? = some q ∧
    s.pendingRequests (n, q.msg.msgId) = some j ∧ c'.response = some q.msg

def CallStep (s after : System σ β) (i : Step σ β) (n : Node) (j : Nat) : Prop :=
  after.calls (n, j) = s.calls (n, j) ∨
  (∃ dst msgType body, i = .request n dst msgType body ∧ j = s.drawn n ∧
    after.calls (n, j) = some { dst, request := ⟨msgType, s.nextMsgId n, nodeId n, body⟩ }) ∨
  ∃ c c', s.calls (n, j) = some c ∧ after.calls (n, j) = some c' ∧ Follows s i n j c c'

theorem callStep_update {m : Node} {l : Nat} {c' : Call β}
    (call : s.calls (m, l) = some c) (updated : after.calls = update s.calls (m, l) (some c'))
    (follows : Follows s i m l c c') (n : Node) (j : Nat) : CallStep s after i n j := by
  by_cases same : (n, j) = (m, l)
  · cases same
    refine .inr (.inr ⟨c, c', call, ?_, follows⟩)
    rw [updated, update_self]
  · refine .inl ?_
    rw [updated, update_of_ne same]

theorem follows_phase {j : Nat} (running : c.phase.isReturned = false) (phase : Phase)
    (going : phase.isReturned = false ∨ i.ends = some (n, j))
    (complete : c.Complete → { c with phase }.Complete) : Follows s i n j c { c with phase } where
  dst := rfl
  request := rfl
  stays returned := absurd returned (ne_true_of_eq_false running)
  finished returned := by
    rcases going with running | erased
    · exact absurd returned (ne_true_of_eq_false running)
    · exact .inr erased
  complete := complete
  response := .inl rfl

theorem complete_of_isOpen (isOpen : c.phase.isOpen) : c.Complete := by
  rintro (h | h) <;> rw [h] at isOpen <;> cases isOpen

variable (stepped : Stepped serve s i after)
include stepped

theorem callStep_stepped (n : Node) (j : Nat) : CallStep s after i n j := by
  cases stepped with
  | request m dst msgType body =>
    by_cases same : (n, j) = (m, s.drawn m)
    · cases same
      exact .inr (.inl ⟨dst, msgType, body, rfl, rfl, update_self ..⟩)
    · exact .inl (update_of_ne same ..)
  | register call phase | sent call phase | sendFailed call phase | timeout call phase =>
    have running := congrArg Phase.isReturned phase
    exact callStep_update call rfl (follows_phase running _ (.inl rfl) fun _ => complete_of_isOpen rfl) n j
  | wake call phase completed =>
    have running := congrArg Phase.isReturned phase
    exact callStep_update call rfl (follows_phase running .woken (.inl rfl) fun _ _ => completed) n j
  | erase call running result woken =>
    refine callStep_update call rfl (follows_phase running _ (.inr rfl) fun complete ended => ?_) n j
    rcases ended with this | this
    · cases this
    · exact complete (.inl (woken (Phase.returned.inj this)))
  | @matched m k q l c held pending call =>
    have follows : Follows s (.lookup m k) m l c { c with response := some q.msg } :=
      ⟨rfl, rfl, id, .inl, fun _ _ => rfl, .inr ⟨k, q, rfl, held, pending, rfl⟩⟩
    exact callStep_update call rfl follows n j
  | _ => exact .inl rfl

theorem pendingRequests_stepped : (i.ends = none ∧ after.pendingRequests = s.pendingRequests) ∨
    (∃ n j c, i = .register n j ∧ s.calls (n, j) = some c ∧ c.phase = .composed ∧
      after.pendingRequests = update s.pendingRequests (n, c.request.msgId) (some j)) ∨
    ∃ n j c, i = .erase n j ∧ s.calls (n, j) = some c ∧
      after.pendingRequests = update s.pendingRequests (n, c.request.msgId) none := by
  cases stepped with
  | register call phase => exact .inr (.inl ⟨_, _, _, rfl, call, phase, rfl⟩)
  | erase call => exact .inr (.inr ⟨_, _, _, rfl, call, rfl⟩)
  | _ => exact .inl ⟨rfl, rfl⟩

theorem drawn_stepped : (i.draws = none ∧ after.drawn = s.drawn ∧ after.nextMsgId = s.nextMsgId) ∨
    ∃ n, i.draws = some n ∧ after.drawn = update s.drawn n (s.drawn n + 1) ∧
      after.nextMsgId = update s.nextMsgId n (s.nextMsgId n + 1) := by
  cases stepped with
  | request n | post n => exact .inr ⟨n, rfl, rfl, rfl⟩
  | _ => exact .inl ⟨rfl, rfl, rfl⟩

theorem handled_stepped {r : Handled β} (member : r ∈ s.handled) : r ∈ after.handled := by
  cases stepped with
  | handled => exact mem_append_left _ member
  | _ => exact member

omit stepped in
theorem mem_handled_dispatch (stepped : Stepped serve s (.dispatch n k) after)
    (held : (s.dispatching n)[k]? = some q) {r : DistMsgType}
    (registered : setupMessageHandlers q.msg.msgType = some r) :
    ⟨n, q, s.response serve n q r⟩ ∈ after.handled := by
  cases stepped with
  | unhandled held' unregistered =>
    obtain rfl := Option.some.inj (held.symm.trans held')
    cases registered.symm.trans unregistered
  | handled held' registered' =>
    obtain rfl := Option.some.inj (held.symm.trans held')
    obtain rfl := Option.some.inj (registered.symm.trans registered')
    exact mem_append_right _ mem_cons_self

omit stepped in
theorem mem_of_update_eraseIdx {α : Type} {f : Node → List α} (n : Node) (k : Nat) {x : α}
    (member : x ∈ f b) : x ∈ update f n ((f n).eraseIdx k) b ∨ (b = n ∧ (f n)[k]? = some x) := by
  by_cases same : b = n
  · subst same
    rw [update_self, mem_eraseIdx_iff_getElem?]
    obtain ⟨l, here⟩ := mem_iff_getElem?.mp member
    by_cases at_k : l = k
    · exact .inr ⟨rfl, at_k ▸ here⟩
    · exact .inl ⟨l, at_k, here⟩
  · rw [update_of_ne same]
    exact .inl member

omit stepped in
theorem mem_of_update_append {α : Type} {f : Node → List α} (n : Node) (l : List α) {x : α}
    (member : x ∈ f b) : x ∈ update f n (f n ++ l) b := by
  by_cases same : b = n
  · subst same
    rw [update_self]
    exact mem_append_left l member
  · rwa [update_of_ne same]

theorem dispatching_stepped (waits : q ∈ s.dispatching n) (registered : (setupMessageHandlers q.msg.msgType).isSome) :
    q ∈ after.dispatching n ∨ ∃ r ∈ after.handled, r.node = n ∧ r.request = q := by
  cases stepped with
  | unmatched => exact .inl (mem_of_update_append _ _ waits)
  | @unhandled m k q' held unregistered =>
    rcases mem_of_update_eraseIdx m k waits with stays | ⟨-, here⟩
    · exact .inl stays
    · obtain rfl := Option.some.inj (here.symm.trans held)
      rw [unregistered] at registered
      cases registered
  | @handled m k q' r held =>
    rcases mem_of_update_eraseIdx m k waits with stays | ⟨rfl, here⟩
    · exact .inl stays
    · obtain rfl := Option.some.inj (here.symm.trans held)
      exact .inr ⟨_, mem_append_right _ mem_cons_self, rfl, rfl⟩
  | _ => exact .inl waits

theorem processed_stepped (member : (n, q) ∈ after.processed) :
    (n, q) ∈ s.processed ∨ ∃ k, i = .lookup n k ∧ (s.taken n)[k]? = some q ∧
      (q ∈ after.dispatching n ∨ ∃ j, s.pendingRequests (n, q.msg.msgId) = some j) := by
  cases stepped with
  | @matched m k q' j c held pending call =>
    rcases mem_append.mp member with old | new
    · exact .inl old
    · obtain ⟨rfl, rfl⟩ := Prod.mk.inj (mem_singleton.mp new)
      exact .inr ⟨k, rfl, held, .inr ⟨j, pending⟩⟩
  | @unmatched m k q' held =>
    rcases mem_append.mp member with old | new
    · exact .inl old
    · obtain ⟨rfl, rfl⟩ := Prod.mk.inj (mem_singleton.mp new)
      refine .inr ⟨k, rfl, held, .inl ?_⟩
      simp only [update_self]
      exact mem_append_right _ mem_cons_self
  | _ => exact .inl member

end System
end CxlMemSim.Dist
