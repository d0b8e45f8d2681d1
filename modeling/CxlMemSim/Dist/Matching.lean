import CxlMemSim.Dist.Rpc

/-! `process_message` takes any message whose id is pending for a response. -/
namespace CxlMemSim.Dist
open Function Run

variable {σ β : Type}

variable {n : Node} {j : Nat} {c' : Call β} {m : Message β}

namespace System

/-- The destination's handler has run for the request of a call, and produced `m`. -/
def Answered (s : System σ β) (n : Node) (j : Nat) (c : Call β) (m : Message β) : Prop :=
  ∃ r ∈ s.handled, nodeId r.node = c.dst ∧ r.request = c.packet n j ∧ r.response = m

structure Faithful (s : System σ β) : Prop where
  matched : ∀ n j c, s.calls (n, j) = some c → c.phase = .returned true →
    ∃ m, c.response = some m ∧ s.Answered n j c m
  dispatched : ∀ n q, (n, q) ∈ s.processed → q.isReply = false → (setupMessageHandlers q.msg.msgType).isSome →
    q ∈ s.dispatching n ∨ ∃ r ∈ s.handled, r.node = n ∧ r.request = q

def Live (s : System σ β) (n : Node) (j : Nat) : Prop :=
  (∃ c, s.calls (n, j) = some c ∧ ¬ c.Finished) ∨ ∃ dst p, s.InFlight dst p ∧ p.origin = n ∧ p.seq = j

/-- No request is looked up where its id is pending, and no node takes a number that an exchange of
its own still has. -/
def Apart (s : System σ β) : Step σ β → Prop
  | .lookup n k => ∀ q, (s.taken n)[k]? = some q → q.isReply = false → s.pendingRequests (n, q.msg.msgId) = none
  | .request n _ _ _ | .post n _ _ _ => ∀ j < s.drawn n, s.Live n j → msgIdOf j ≠ s.nextMsgId n
  | _ => True

/-- A request in flight is on its way to the call's destination; a response is on its way back, and
the handler has produced it. -/
structure Genuine (s : System σ β) (dst : UInt32) (p : Packet β) : Prop where
  id : p.msg.msgId = msgIdOf p.seq
  drawn : p.seq < s.drawn p.origin
  request : p.isReply = false → p.msg.srcNodeId = nodeId p.origin ∧
    ∀ c, s.calls (p.origin, p.seq) = some c → dst = c.dst ∧ p = c.packet p.origin p.seq
  reply : p.isReply = true → dst = nodeId p.origin ∧ setupMessageHandlers p.msg.msgType = none ∧
    ∀ c, s.calls (p.origin, p.seq) = some c → s.Answered p.origin p.seq c p.msg

structure Sound (s : System σ β) : Prop where
  numbers : ∀ n, s.nextMsgId n = msgIdOf (s.drawn n)
  calls : ∀ n j c, s.calls (n, j) = some c →
    j < s.drawn n ∧ c.request.msgId = msgIdOf j ∧ c.request.srcNodeId = nodeId n ∧ c.Complete
  pending : ∀ n id j, s.pendingRequests (n, id) = some j →
    ∃ c, s.calls (n, j) = some c ∧ c.request.msgId = id ∧ ¬ c.Finished
  genuine : ∀ dst p, s.InFlight dst p → s.Genuine dst p
  distinct : ∀ n j j', s.Live n j → s.Live n j' → msgIdOf j = msgIdOf j' → j = j'
  answered : ∀ n j c m, s.calls (n, j) = some c → c.response = some m → s.Answered n j c m
  dispatched : ∀ n q, (n, q) ∈ s.processed → q.isReply = false → (setupMessageHandlers q.msg.msgType).isSome →
    q ∈ s.dispatching n ∨ ∃ r ∈ s.handled, r.node = n ∧ r.request = q

theorem Sound.faithful {s : System σ β} (sound : s.Sound) : s.Faithful := by
  refine ⟨fun n j c call returned => ?_, sound.dispatched⟩
  obtain ⟨m, response⟩ := Option.isSome_iff_exists.mp ((sound.calls n j c call).2.2.2 (.inr returned))
  exact ⟨m, response, sound.answered n j c m call response⟩

theorem sound_start [Inhabited β] (nodes : Node → DistNodeStatus) (server : Node → σ) :
    (start nodes server : System σ β).Sound := by
  have none_flies : ∀ {dst p}, ¬ (start nodes server : System σ β).InFlight dst p := by
    rintro dst p (⟨a, b, member, -⟩ | ⟨b, member | member, -⟩ | ⟨a, member⟩)
    · have empty : (start nodes server : System σ β).header.queued a b = [] := DistShmHeader.queued_blank 0 a b
      rw [empty] at member
      exact List.not_mem_nil member
    · exact List.not_mem_nil member
    · exact List.not_mem_nil member
    · exact List.not_mem_nil member
  have none_lives : ∀ {n j}, ¬ (start nodes server : System σ β).Live n j := by
    rintro n j (⟨c, call, -⟩ | ⟨dst, p, flies, -⟩)
    · cases call
    · exact none_flies flies
  refine ⟨fun n => rfl, ?_, ?_, fun dst p flies => (none_flies flies).elim, fun n j j' lives => (none_lives lives).elim,
    ?_, fun n q member => (List.not_mem_nil member).elim⟩
  · intro n j c call
    cases call
  · intro n id j pending
    cases pending
  · intro n j c m call
    cases call

variable {serve : Node → σ → Message β → σ × β} {s after : System σ β} {i : Step σ β} {c : Call β} {q p : Packet β}

section
variable (stepped : Stepped serve s i after)
include stepped

theorem drawn_le (n : Node) : s.drawn n ≤ after.drawn n := by
  rcases drawn_stepped stepped with ⟨-, drawn, -⟩ | ⟨m, -, drawn, -⟩
  · rw [drawn]
  · rw [drawn, update_apply]
    split
    · rename_i same
      rw [same]
      exact Nat.le_succ _
    · exact Nat.le_refl _

theorem numbers_stepped (numbers : ∀ n, s.nextMsgId n = msgIdOf (s.drawn n))
    (n : Node) : after.nextMsgId n = msgIdOf (after.drawn n) := by
  rcases drawn_stepped stepped with ⟨-, drawn, next⟩ | ⟨m, -, drawn, next⟩
  · rw [drawn, next, numbers]
  · rw [drawn, next, update_apply, update_apply]
    split
    · rw [numbers, msgIdOf, msgIdOf, UInt32.ofNat_add (s.drawn m + 1) 1]
      rfl
    · exact numbers n

theorem calls_back (call : after.calls (n, j) = some c') :
    (∃ c, s.calls (n, j) = some c ∧ (c' = c ∨ Follows s i n j c c')) ∨
    (i.draws = some n ∧ j = s.drawn n ∧ c'.phase = .composed ∧ c'.response = none ∧
      c'.request.msgId = s.nextMsgId n ∧ c'.request.srcNodeId = nodeId n) := by
  rcases callStep_stepped stepped n j with same | ⟨dst, msgType, body, rfl, rfl, opened⟩ | ⟨c, d, old, new, follows⟩
  · exact .inl ⟨c', same ▸ call, .inl rfl⟩
  · obtain rfl := Option.some.inj (call.symm.trans opened)
    exact .inr ⟨rfl, rfl, rfl, rfl, rfl, rfl⟩
  · obtain rfl := Option.some.inj (call.symm.trans new)
    exact .inl ⟨c, old, .inr follows⟩

omit stepped in
theorem same_request {c' : Call β} (goes : c' = c ∨ Follows s i n j c c') :
    c'.dst = c.dst ∧ c'.request = c.request := by
  rcases goes with rfl | follows
  · exact ⟨rfl, rfl⟩
  · exact ⟨follows.dst, follows.request⟩

theorem calls_old (old : j < s.drawn n) (call : after.calls (n, j) = some c') :
    ∃ c, s.calls (n, j) = some c ∧ c'.dst = c.dst ∧ c'.request = c.request := by
  rcases calls_back stepped call with ⟨c, before, goes⟩ | ⟨-, new, -⟩
  · exact ⟨c, before, same_request goes⟩
  · exact (Nat.lt_irrefl _ (new ▸ old)).elim

theorem Answered.mono {c' : Call β}
    (answered : s.Answered n j c m) (dst : c'.dst = c.dst) (request : c'.request = c.request) :
    after.Answered n j c' m := by
  obtain ⟨r, member, node, req, response⟩ := answered
  refine ⟨r, handled_stepped stepped member, node.trans dst.symm, ?_, response⟩
  rw [req, Call.packet, Call.packet, request]

theorem Genuine.mono {dst : UInt32} (genuine : s.Genuine dst p) :
    after.Genuine dst p where
  id := genuine.id
  drawn := genuine.drawn.trans_le (drawn_le stepped _)
  request isRequest := by
    obtain ⟨src, same⟩ := genuine.request isRequest
    refine ⟨src, fun c' call => ?_⟩
    obtain ⟨c, before, same_dst, request⟩ := calls_old stepped genuine.drawn call
    obtain ⟨here, packet⟩ := same c before
    refine ⟨here.trans same_dst.symm, packet.trans ?_⟩
    rw [Call.packet, Call.packet, request]
  reply isReply := by
    obtain ⟨back, unhandled, answered⟩ := genuine.reply isReply
    refine ⟨back, unhandled, fun c' call => ?_⟩
    obtain ⟨c, before, same_dst, request⟩ := calls_old stepped genuine.drawn call
    exact (answered c before).mono stepped same_dst request

end

theorem Sound.genuine_call (sound : s.Sound) (call : s.calls (n, j) = some c) : s.Genuine c.dst (c.packet n j) := by
  obtain ⟨drawn, id, src, -⟩ := sound.calls n j c call
  refine ⟨id, drawn, fun _ => ⟨src, fun d here => ?_⟩, fun isReply => (Bool.false_ne_true isReply).elim⟩
  obtain rfl := Option.some.inj (call.symm.trans here)
  exact ⟨rfl, rfl⟩

theorem Sound.genuine_post (sound : s.Sound) {dsts : List UInt32} {msgType : DistMsgType} {body : β}
    (stepped : Stepped serve s (.post n dsts msgType body) after) (dst : UInt32) :
    after.Genuine dst ⟨⟨msgType, s.nextMsgId n, nodeId n, body⟩, n, s.drawn n, false⟩ := by
  cases stepped
  refine ⟨sound.numbers n, ?_, fun _ => ⟨rfl, fun c call => ?_⟩, fun isReply => (Bool.false_ne_true isReply).elim⟩
  · simp only [post, generateMsgId, update_self]
    exact Nat.lt_succ_self _
  · exact (Nat.lt_irrefl _ (sound.calls n _ c call).1).elim

theorem Sound.genuine_reply (sound : s.Sound) {k : Nat} (stepped : Stepped serve s (.dispatch n k) after)
    (held : (s.dispatching n)[k]? = some q) {r : DistMsgType}
    (registered : setupMessageHandlers q.msg.msgType = some r) :
    after.Genuine q.msg.srcNodeId ⟨s.response serve n q r, q.origin, q.seq, true⟩ := by
  have genuine : s.Genuine (nodeId n) q :=
    sound.genuine _ q (.inr (.inl ⟨n, .inr (List.mem_of_getElem? held), rfl⟩))
  have isRequest : q.isReply = false := by
    cases isReply : q.isReply with
    | false => rfl
    | true => cases registered.symm.trans (genuine.reply isReply).2.1
  obtain ⟨src, same⟩ := genuine.request isRequest
  refine ⟨genuine.id, genuine.drawn.trans_le (drawn_le stepped _), fun h => (Bool.false_ne_true h.symm).elim,
    fun _ => ⟨src, setupMessageHandlers_response registered, fun c' call => ?_⟩⟩
  obtain ⟨c, before, same_dst, request⟩ := calls_old stepped genuine.drawn call
  obtain ⟨here, packet⟩ := same c before
  refine ⟨_, mem_handled_dispatch stepped held registered, here.trans same_dst.symm, packet.trans ?_, rfl⟩
  rw [Call.packet, Call.packet, request]

theorem Sound.genuine_stepped (sound : s.Sound) (stepped : Stepped serve s i after) {dst : UInt32}
    (flies : after.InFlight dst p) : after.Genuine dst p := by
  rcases inFlight_stepped stepped flies with old | created
  · exact (sound.genuine dst p old).mono stepped
  · cases i with
    | send n j =>
      obtain ⟨c, call, -, rfl, rfl⟩ := created
      exact (sound.genuine_call call).mono stepped
    | post n dsts msgType body =>
      obtain ⟨-, rfl⟩ := created
      exact sound.genuine_post stepped dst
    | dispatch n k =>
      obtain ⟨q, r, held, registered, rfl, rfl⟩ := created
      exact sound.genuine_reply stepped held registered
    | _ =>
      exact created.elim

theorem live_stepped (stepped : Stepped serve s i after)
    (lives : after.Live n j) : s.Live n j ∨ (i.draws = some n ∧ j = s.drawn n) := by
  rcases lives with ⟨c', call, going⟩ | ⟨dst, p, flies, rfl, rfl⟩
  · rcases calls_back stepped call with ⟨c, before, rfl | follows⟩ | ⟨draws, new, -⟩
    · exact .inl (.inl ⟨c', before, going⟩)
    · exact .inl (.inl ⟨c, before, fun finished => going (follows.stays finished)⟩)
    · exact .inr ⟨draws, new⟩
  · rcases inFlight_stepped stepped flies with old | created
    · exact .inl (.inr ⟨dst, p, old, rfl, rfl⟩)
    · cases i with
      | send n j =>
        obtain ⟨c, call, registered, rfl, rfl⟩ := created
        refine .inl (.inl ⟨c, call, fun finished => ?_⟩)
        rw [Call.Finished, registered] at finished
        cases finished
      | post n dsts msgType body =>
        obtain ⟨-, rfl⟩ := created
        exact .inr ⟨rfl, rfl⟩
      | dispatch n k =>
        obtain ⟨q, r, held, -, -, rfl⟩ := created
        exact .inl (.inr ⟨_, q, .inr (.inl ⟨n, .inr (List.mem_of_getElem? held), rfl⟩), rfl, rfl⟩)
      | _ =>
        exact created.elim

variable (sound : s.Sound)
include sound

section
variable (stepped : Stepped serve s i after)
include stepped

theorem Sound.distinct_stepped (apart : s.Apart i)
    {j j' : Nat} (lives : after.Live n j) (lives' : after.Live n j') (same : msgIdOf j = msgIdOf j') : j = j' := by
  have fresh : ∀ {l}, s.Live n l → i.draws = some n → msgIdOf l ≠ msgIdOf (s.drawn n) := by
    intro l old draws
    rw [← sound.numbers]
    have below : l < s.drawn n := by
      rcases old with ⟨c, call, -⟩ | ⟨dst, p, flies, rfl, rfl⟩
      · exact (sound.calls n l c call).1
      · exact (sound.genuine dst p flies).drawn
    cases i with
    | request m | post m =>
      cases draws
      exact apart l below old
    | _ => cases draws
  rcases live_stepped stepped lives with old | ⟨draws, rfl⟩
  · rcases live_stepped stepped lives' with old' | ⟨draws, rfl⟩
    · exact sound.distinct n j j' old old' same
    · exact (fresh old draws same).elim
  · rcases live_stepped stepped lives' with old' | ⟨-, rfl⟩
    · exact (fresh old' draws same.symm).elim
    · rfl

theorem Sound.calls_stepped (call : after.calls (n, j) = some c') :
    j < after.drawn n ∧ c'.request.msgId = msgIdOf j ∧ c'.request.srcNodeId = nodeId n ∧ c'.Complete := by
  rcases calls_back stepped call with ⟨c, before, goes⟩ | ⟨draws, rfl, composed, -, id, src⟩
  · obtain ⟨drawn, id, src, complete⟩ := sound.calls n j c before
    refine ⟨drawn.trans_le (drawn_le stepped n), ?_, ?_, ?_⟩
    · rw [(same_request goes).2, id]
    · rw [(same_request goes).2, src]
    · rcases goes with rfl | follows
      · exact complete
      · exact follows.complete complete
  · refine ⟨?_, id.trans (sound.numbers n), src, complete_of_isOpen (by rw [composed]; rfl)⟩
    rcases drawn_stepped stepped with ⟨none, -⟩ | ⟨m, some, drawn, -⟩
    · cases draws.symm.trans none
    · obtain rfl := Option.some.inj (draws.symm.trans some)
      rw [drawn, update_self]
      exact Nat.lt_succ_self _

theorem Sound.calls_going (call : s.calls (n, j) = some c) (going : ¬ c.Finished) (not_ended : i.ends ≠ some (n, j)) :
    ∃ c', after.calls (n, j) = some c' ∧ c'.request = c.request ∧ ¬ c'.Finished := by
  rcases callStep_stepped stepped n j with same | ⟨dst, msgType, body, -, rfl, -⟩ | ⟨d, c', old, new, follows⟩
  · exact ⟨c, same.trans call, rfl, going⟩
  · exact (Nat.lt_irrefl _ (sound.calls n _ c call).1).elim
  · obtain rfl := Option.some.inj (call.symm.trans old)
    exact ⟨c', new, follows.request, fun finished => (follows.finished finished).elim going not_ended⟩

theorem Sound.pending_stepped {id : UInt32} (pending : after.pendingRequests (n, id) = some j) :
    ∃ c, after.calls (n, j) = some c ∧ c.request.msgId = id ∧ ¬ c.Finished := by
  have goes : s.pendingRequests (n, id) = some j → i.ends ≠ some (n, j) →
      ∃ c, after.calls (n, j) = some c ∧ c.request.msgId = id ∧ ¬ c.Finished := by
    intro old not_ended
    obtain ⟨c, call, same, going⟩ := sound.pending n id j old
    obtain ⟨c', new, request, going'⟩ := sound.calls_going stepped call going not_ended
    exact ⟨c', new, request ▸ same, going'⟩
  rcases pendingRequests_stepped stepped with ⟨none, same⟩ | ⟨m, l, c, rfl, call, composed, updated⟩ |
    ⟨m, l, c, rfl, call, updated⟩
  · exact goes (same ▸ pending) (none ▸ (Option.some_ne_none _).symm)
  · rw [updated] at pending
    by_cases here : (n, id) = (m, c.request.msgId)
    · cases here
      rw [update_self] at pending
      cases pending
      have going : ¬ c.Finished := by
        rw [Call.Finished, composed]
        exact Bool.false_ne_true
      obtain ⟨c', new, request, going'⟩ := sound.calls_going stepped call going (Option.some_ne_none _).symm
      exact ⟨c', new, by rw [request], going'⟩
    · rw [update_of_ne here] at pending
      exact goes pending (Option.some_ne_none _).symm
  · rw [updated] at pending
    by_cases here : (n, id) = (m, c.request.msgId)
    · rw [here, update_self] at pending
      cases pending
    · rw [update_of_ne here] at pending
      refine goes pending fun ended => here ?_
      obtain ⟨rfl, rfl⟩ := Prod.mk.inj (Option.some.inj ended)
      obtain ⟨d, call', same, -⟩ := sound.pending m id l pending
      obtain rfl := Option.some.inj (call.symm.trans call')
      rw [same]

omit stepped in
theorem Sound.answered_lookup {k : Nat} (apart : s.Apart (.lookup n k))
    (held : (s.taken n)[k]? = some q) (pending : s.pendingRequests (n, q.msg.msgId) = some j)
    (call : s.calls (n, j) = some c) : s.Answered n j c q.msg := by
  have flies : s.InFlight (nodeId n) q := .inr (.inl ⟨n, .inl (List.mem_of_getElem? held), rfl⟩)
  have genuine := sound.genuine _ q flies
  have isReply : q.isReply = true := by
    cases isReply : q.isReply with
    | false => cases pending.symm.trans (apart q held isReply)
    | true => rfl
  obtain ⟨back, -, answered⟩ := genuine.reply isReply
  obtain rfl := nodeId_injective back
  obtain ⟨d, here, id, going⟩ := sound.pending q.origin _ j pending
  obtain rfl := Option.some.inj (call.symm.trans here)
  have same : msgIdOf j = msgIdOf q.seq := by
    rw [← (sound.calls q.origin j c call).2.1, id, genuine.id]
  obtain rfl := sound.distinct q.origin j q.seq (.inl ⟨c, call, going⟩) (.inr ⟨_, q, flies, rfl, rfl⟩) same
  exact answered c call

theorem Sound.answered_stepped (apart : s.Apart i)
    (call : after.calls (n, j) = some c') (response : c'.response = some m) :
    after.Answered n j c' m := by
  rcases calls_back stepped call with ⟨c, before, rfl | follows⟩ | ⟨-, -, -, none, -⟩
  · exact (sound.answered n j c' m before response).mono stepped rfl rfl
  · rcases follows.response with same | ⟨k, q, rfl, held, pending, new⟩
    · exact (sound.answered n j c m before (same ▸ response)).mono stepped follows.dst follows.request
    · obtain rfl := Option.some.inj (response.symm.trans new)
      exact (sound.answered_lookup apart held pending before).mono stepped follows.dst follows.request
  · cases response.symm.trans none

theorem Sound.dispatched_stepped (apart : s.Apart i)
    (member : (n, q) ∈ after.processed) (isRequest : q.isReply = false)
    (registered : (setupMessageHandlers q.msg.msgType).isSome) :
    q ∈ after.dispatching n ∨ ∃ r ∈ after.handled, r.node = n ∧ r.request = q := by
  have kept : (n, q) ∈ s.processed → q ∈ after.dispatching n ∨ ∃ r ∈ after.handled, r.node = n ∧ r.request = q := by
    intro old
    rcases sound.dispatched n q old isRequest registered with waits | ⟨r, here, same⟩
    · exact dispatching_stepped stepped waits registered
    · exact .inr ⟨r, handled_stepped stepped here, same⟩
  rcases processed_stepped stepped member with old | ⟨k, rfl, held, waits | ⟨j, pending⟩⟩
  · exact kept old
  · exact .inl waits
  · cases pending.symm.trans (apart q held isRequest)

theorem sound_stepped (apart : s.Apart i) : after.Sound where
  numbers := numbers_stepped stepped sound.numbers
  calls _ _ _ call := sound.calls_stepped stepped call
  pending _ _ _ pending := sound.pending_stepped stepped pending
  genuine _ _ flies := sound.genuine_stepped stepped flies
  distinct _ _ _ lives lives' same := sound.distinct_stepped stepped apart lives lives' same
  answered _ _ _ _ call response := sound.answered_stepped stepped apart call response
  dispatched _ _ member isRequest registered := sound.dispatched_stepped stepped apart member isRequest registered

end

theorem sound_step (apart : s.Apart i) : (step serve s i).Sound := by
  rw [step]
  cases taken : s.attempt serve i with
  | none => exact sound
  | some after => exact sound_stepped sound (stepped_of_attempt taken) apart

end System

/-- In a run whose steps are apart, a call returns true with the response of the destination's handler
to its very request, and every request that a node looks up goes to the handler. -/
theorem responses_match_requests [Inhabited β] (serve : Node → σ → Message β → σ × β)
    (nodes : Node → DistNodeStatus) (server : Node → σ) (steps : List (Step σ β))
    (apart : EveryStep (step serve) System.Apart (.start nodes server) steps) :
    (run serve (.start nodes server) steps).Faithful :=
  (invariant_of_everyStep (fun _ _ => System.sound_step) (System.sound_start nodes server) apart).faithful

def countingServe (n : Node) (count : Nat) (m : Message Nat) : Nat × Nat := (count + 1, m.body + 100 * n.val + count)

def allReady (_ : Node) : DistNodeStatus := { state := .ready }

def readAndHeartbeat : List (Step Nat Nat) :=
  [.post 1 [0] .nodeHeartbeat 5, .request 0 1 .readReq 7, .register 0 0, .flush 1 0, .send 0 0, .take 1 0,
   .lookup 1 0, .dispatch 1 0, .flush 1 0, .take 0 1, .take 0 1, .lookup 0 1, .wake 0 0, .erase 0 0, .lookup 0 0]

theorem responses_match_requests_readAndHeartbeat :
    (run countingServe (.start allReady fun _ => 0) readAndHeartbeat).Faithful ∧
    (run countingServe (.start allReady fun _ => 0) readAndHeartbeat).calls (0, 0) =
      some ⟨1, ⟨.readReq, 1, 0, 7⟩, .returned true, some ⟨.readResp, 1, 1, 107⟩⟩ := by
  refine ⟨responses_match_requests countingServe allReady (fun _ => 0) readAndHeartbeat ?_, by decide +kernel⟩
  refine ⟨fun j below => (Nat.not_lt_zero j below).elim, fun j below => (Nat.not_lt_zero j below).elim, trivial,
    trivial, trivial, trivial, ?_, trivial, trivial, trivial, trivial, ?_, trivial, trivial, ?_, trivial⟩
  · intro q held isRequest
    cases held
    decide +kernel
  · intro q held isRequest
    cases held
    cases isRequest
  · intro q held isRequest
    cases held
    decide +kernel

def crossingReads : List (Step Nat Nat) :=
  [.request 0 1 .readReq 7, .register 0 0, .send 0 0, .request 1 0 .readReq 8, .register 1 0, .send 1 0, .take 0 1,
   .lookup 0 0, .wake 0 0, .erase 0 0]

/-- The read of node 0 returns true with the request of node 1, which no handler has seen. -/
theorem request_taken_for_response :
    (run countingServe (.start allReady fun _ => 0) crossingReads).calls (0, 0) =
      some ⟨1, ⟨.readReq, 1, 0, 7⟩, .returned true, some ⟨.readReq, 1, 1, 8⟩⟩ ∧
    (0, ⟨⟨.readReq, 1, 1, 8⟩, 1, 0, false⟩) ∈
      (run countingServe (.start allReady fun _ => 0) crossingReads).processed ∧
    (run countingServe (.start allReady fun _ => 0) crossingReads).dispatching 0 = [] ∧
    (run countingServe (.start allReady fun _ => 0) crossingReads).handled = [] ∧
    ¬ (run countingServe (.start allReady fun _ => 0) crossingReads).Faithful := by
  refine ⟨by decide +kernel, by decide +kernel, by decide +kernel, by decide +kernel, fun faithful => ?_⟩
  obtain ⟨m, -, r, member, -⟩ := faithful.matched 0 0 _ rfl rfl
  exact List.not_mem_nil member

end CxlMemSim.Dist
