import CxlMemSim.Lib.InfiniteRun
import CxlMemSim.Lib.SharedRing
import CxlMemSim.Dist.Membership

/-! Two workers of every node poll, and its other threads send or leave the cluster. -/
namespace CxlMemSim.Dist
open Function RingBuffer Run SharedRing

/-- Where `poll_messages` is: at the next source, at the bound of the inner loop, or in `dequeue_message`. -/
inductive PollStage where
  | source | loop | dequeue
deriving DecidableEq

structure Poll where
  todo : List Node
  processed : Nat
  stage : PollStage
  suffix : todo <:+ List.finRange distMaxNodes
  room : stage = .dequeue → processed < 100

namespace Poll

def start : Poll where
  todo := List.finRange distMaxNodes
  processed := 0
  stage := .source
  suffix := List.suffix_refl _
  room := nofun

variable (p : Poll)

def next : Poll where
  todo := p.todo.tail
  processed := p.processed
  stage := .source
  suffix := (List.tail_suffix _).trans p.suffix
  room := nofun

def enter : Poll := { p with stage := .loop, room := nofun }

def call (below : p.processed < 100) : Poll := { p with stage := .dequeue, room := fun _ => below }

def count : Poll := { p with processed := p.processed + 1, stage := .loop, room := nofun }

end Poll

inductive Job where
  | free
  | leaving
  | polling (p : Poll)

def Job.DequeuesFrom (src : Node) : Job → Prop
  | .polling p => p.stage = .dequeue ∧ p.todo.head? = some src
  | _ => False

structure Thread (μ : Type) where
  outbox : List (Node × μ) := []
  job : Job := .free

structure Managers (μ : Type) where
  header : DistShmHeader μ
  calls : Node × Node → Calls 4096 Nat μ := fun _ => {}
  threads : Node → Nat → Thread μ

inductive ManagerStep (μ : Type) where
  | send (n : Node) (k : Nat) (msgs : List (Node × μ))
  | leave (n : Node) (k : Nat) (msg : μ)
  | run (n : Node) (k : Nat) (responses : List (Node × μ))

namespace Managers
variable {μ : Type}

def start (header : DistShmHeader μ) : Managers μ where
  header := header
  threads _ k := if k < 2 then { job := .polling Poll.start } else {}

variable (m : Managers μ) {rest : List (Node × μ)}

def channel (c : Node × Node) : SharedRing 4096 Nat μ := { toCalls := m.calls c, ring := m.header.queues c }

def setChannel (c : Node × Node) (ch : SharedRing 4096 Nat μ) : Managers μ :=
  { m with
    header := { m.header with queues := update m.header.queues c ch.ring }
    calls := update m.calls c ch.toCalls }

def setThread (n : Node) (k : Nat) (th : Thread μ) : Managers μ :=
  { m with threads := update m.threads n (update (m.threads n) k th) }

def setJob (n : Node) (k : Nat) (job : Job) : Managers μ := m.setThread n k { m.threads n k with job := job }

def enqueueMessage (n : Node) (k : Nat) (dst : Node) (msg : μ) (rest : List (Node × μ)) : Managers μ :=
  let (ch, result) := (m.channel (n, dst)).put k msg
  let m := m.setChannel (n, dst) ch
  match result with
  | none => m
  | some _ => m.setThread n k { m.threads n k with outbox := rest }

def dequeueMessage (n : Node) (k : Nat) (src : Node) (p : Poll) (responses : List (Node × μ)) : Managers μ :=
  let (ch, result) := (m.channel (src, n)).take k
  let m := m.setChannel (src, n) ch
  match result with
  | none => m
  | some none => m.setJob n k (.polling p.next)
  | some (some _) => m.setThread n k { outbox := responses, job := .polling p.count }

def pollMessages (n : Node) (k : Nat) (p : Poll) (responses : List (Node × μ)) : Managers μ :=
  match p.todo with
  | [] => m.setJob n k (.polling Poll.start)
  | src :: _ =>
    match p.stage with
    | .source =>
      if p.processed < 100 then
        if src = n ∨ ¬ m.header.isNodeActive src then m.setJob n k (.polling p.next)
        else m.setJob n k (.polling p.enter)
      else m.setJob n k (.polling Poll.start)
    | .loop =>
      if below : p.processed < 100 then m.setJob n k (.polling (p.call below))
      else m.setJob n k (.polling p.next)
    | .dequeue => m.dequeueMessage n k src p responses

def deregisterNode (n : Node) : Managers μ :=
  { m with header := (m.header.deregisterNode (nodeId n)).getD m.header }

def run (n : Node) (k : Nat) (responses : List (Node × μ)) : Managers μ :=
  match (m.threads n k).outbox, (m.threads n k).job with
  | (dst, msg) :: rest, _ => m.enqueueMessage n k dst msg rest
  | [], .free => m
  | [], .leaving => (m.deregisterNode n).setJob n k .free
  | [], .polling p => m.pollMessages n k p responses

def assign (n : Node) (k : Nat) (th : Thread μ) : Managers μ :=
  match (m.threads n k).outbox, (m.threads n k).job with
  | [], .free => m.setThread n k th
  | _, _ => m

def step : ManagerStep μ → Managers μ
  | .send n k msgs => m.assign n k { outbox := msgs }
  | .leave n k msg =>
    m.assign n k { outbox := (m.header.getActiveNodes.filter (· ≠ n)).map (·, msg), job := .leaving }
  | .run n k responses => m.run n k responses

abbrev afterPut (n dst : Node) (k : Nat) (msg : μ) : Managers μ :=
  m.setChannel (n, dst) ((m.channel (n, dst)).put k msg).1

abbrev afterTake (src n : Node) (k : Nat) : Managers μ := m.setChannel (src, n) ((m.channel (src, n)).take k).1

inductive PollMove (n : Node) (p : Poll) : Poll → Prop where
  | finish (todo : p.todo = []) : PollMove n p Poll.start
  | restart (stage : p.stage = .source) (above : 100 ≤ p.processed) : PollMove n p Poll.start
  | skip {src : Node} {rest : List Node} (todo : p.todo = src :: rest) (stage : p.stage = .source)
      (skipped : src = n ∨ m.header.isNodeActive src = false) : PollMove n p p.next
  | enter {src : Node} {rest : List Node} (todo : p.todo = src :: rest) (stage : p.stage = .source)
      (active : m.header.isNodeActive src = true) : PollMove n p p.enter
  | call {src : Node} {rest : List Node} (todo : p.todo = src :: rest) (stage : p.stage = .loop)
      (below : p.processed < 100) : PollMove n p (p.call below)
  | limit {src : Node} {rest : List Node} (todo : p.todo = src :: rest) (stage : p.stage = .loop)
      (above : 100 ≤ p.processed) : PollMove n p p.next

inductive Effect (n : Node) (k : Nat) (responses : List (Node × μ)) : Managers μ → Prop where
  | none (job : (m.threads n k).job = .free) : Effect n k responses m
  | putting {dst : Node} {msg : μ} {rest : List (Node × μ)} (outbox : (m.threads n k).outbox = (dst, msg) :: rest)
      (goes : ((m.channel (n, dst)).put k msg).2 = Option.none) :
      Effect n k responses (m.afterPut n dst k msg)
  | sent {dst : Node} {msg : μ} {rest : List (Node × μ)} (outbox : (m.threads n k).outbox = (dst, msg) :: rest)
      {accepted : Bool} (ends : ((m.channel (n, dst)).put k msg).2 = some accepted) :
      Effect n k responses ((m.afterPut n dst k msg).setThread n k
        { m.threads n k with outbox := rest })
  | deregistered (outbox : (m.threads n k).outbox = []) (job : (m.threads n k).job = .leaving) :
      Effect n k responses ((m.deregisterNode n).setJob n k .free)
  | polled {p q : Poll} (outbox : (m.threads n k).outbox = []) (job : (m.threads n k).job = .polling p)
      (moves : m.PollMove n p q) : Effect n k responses (m.setJob n k (.polling q))
  | taking {p : Poll} {src : Node} {rest : List Node} (outbox : (m.threads n k).outbox = [])
      (job : (m.threads n k).job = .polling p) (todo : p.todo = src :: rest) (stage : p.stage = .dequeue)
      (goes : ((m.channel (src, n)).take k).2 = Option.none) :
      Effect n k responses (m.afterTake src n k)
  | empty {p : Poll} {src : Node} {rest : List Node} (outbox : (m.threads n k).outbox = [])
      (job : (m.threads n k).job = .polling p) (todo : p.todo = src :: rest) (stage : p.stage = .dequeue)
      (ends : ((m.channel (src, n)).take k).2 = some Option.none) :
      Effect n k responses ((m.afterTake src n k).setJob n k (.polling p.next))
  | processed {p : Poll} {src : Node} {rest : List Node} {msg : μ} (outbox : (m.threads n k).outbox = [])
      (job : (m.threads n k).job = .polling p) (todo : p.todo = src :: rest) (stage : p.stage = .dequeue)
      (ends : ((m.channel (src, n)).take k).2 = some (some msg)) :
      Effect n k responses ((m.afterTake src n k).setThread n k
        { outbox := responses, job := .polling p.count })

theorem enqueueMessage_effect {n : Node} {k : Nat} {dst : Node} {msg : μ}
    (outbox : (m.threads n k).outbox = (dst, msg) :: rest) (responses : List (Node × μ)) :
    m.Effect n k responses (m.enqueueMessage n k dst msg rest) := by
  rw [enqueueMessage]
  cases result : ((m.channel (n, dst)).put k msg).2 with
  | none =>
    simp only [result]
    exact .putting outbox result
  | some accepted =>
    simp only [result]
    exact .sent outbox result

theorem pollMessages_effect {n : Node} {k : Nat} {p : Poll} (outbox : (m.threads n k).outbox = [])
    (job : (m.threads n k).job = .polling p) (responses : List (Node × μ)) :
    m.Effect n k responses (m.pollMessages n k p responses) := by
  rw [pollMessages]
  split
  · rename_i todo
    exact .polled outbox job (.finish todo)
  · rename_i src rest todo
    split
    · rename_i stage
      split
      · split
        · rename_i skipped
          exact .polled outbox job (.skip todo stage (by simpa using skipped))
        · rename_i entered
          have active : m.header.isNodeActive src = true := by
            by_contra inactive
            exact entered (.inr inactive)
          exact .polled outbox job (.enter todo stage active)
      · rename_i above
        exact .polled outbox job (.restart stage (Nat.le_of_not_lt above))
    · rename_i stage
      split
      · rename_i below
        exact .polled outbox job (.call todo stage below)
      · rename_i above
        exact .polled outbox job (.limit todo stage (Nat.le_of_not_lt above))
    · rename_i stage
      rw [dequeueMessage]
      cases result : ((m.channel (src, n)).take k).2 with
      | none =>
        simp only [result]
        exact .taking outbox job todo stage result
      | some found =>
        cases found with
        | none =>
          simp only [result]
          exact .empty outbox job todo stage result
        | some msg =>
          simp only [result]
          exact .processed outbox job todo stage result

theorem run_effect (n : Node) (k : Nat) (responses : List (Node × μ)) :
    m.Effect n k responses (m.run n k responses) := by
  rw [run]
  split
  · rename_i outbox
    exact enqueueMessage_effect m outbox responses
  · rename_i job
    exact .none job
  · rename_i outbox job
    exact .deregistered outbox job
  · rename_i outbox job
    exact pollMessages_effect m outbox job responses

/-- An enqueue starts at an active node towards another one, with no other thread in one towards it and no message there
from a node with a higher number; a dequeue starts while the other worker is in none from the same node; and a node is
deregistered when all it has sent is taken. -/
def Meets : ManagerStep μ → Prop
  | .run n k _ =>
    match (m.threads n k).outbox, (m.threads n k).job with
    | (dst, _) :: _, _ =>
      (m.channel (n, dst)).PutAlone k ∧
        ((m.channel (n, dst)).puts k = .idle →
          dst ≠ n ∧ m.header.isNodeActive n ∧ ∀ i, n < i → m.header.queued i dst = [])
    | [], .polling p => p.stage = .dequeue → ∀ src ∈ p.todo.head?, (m.channel (src, n)).TakeAlone k
    | [], .leaving => ∀ dst, m.header.queued n dst = [] ∧ ∀ j, (m.channel (n, dst)).puts j = .idle
    | [], .free => True
  | _ => True

structure Sound (m : Managers μ) : Prop where
  channel : ∀ c, (m.channel c).Sound
  sender : ∀ s d, (m.channel (s, d)).waiting ≠ 0 → d ≠ s ∧ m.header.isNodeActive s
  worker : ∀ n k, k < 2 → ∃ p, (m.threads n k).job = .polling p
  taker : ∀ n k src, (m.channel (src, n)).takes k ≠ .idle → (m.threads n k).job.DequeuesFrom src

variable {m} {n : Node} {k : Nat} {th : Thread μ} {ch : SharedRing 4096 Nat μ} {responses : List (Node × μ)}

@[simp] theorem channel_setChannel (c : Node × Node) (ch : SharedRing 4096 Nat μ) :
    (m.setChannel c ch).channel = update m.channel c ch := by
  funext d
  by_cases same : d = c
  · subst same
    simp only [channel, setChannel, update_self]
  · simp only [channel, setChannel, update_of_ne same]

theorem forall_setChannel {P : Node × Node → SharedRing 4096 Nat μ → Prop} {c : Node × Node}
    (here : P c ch) (others : ∀ d, P d (m.channel d)) (d : Node × Node) :
    P d ((m.setChannel c ch).channel d) := by
  rw [channel_setChannel]
  by_cases same : d = c
  · rwa [same, update_self]
  · rw [update_of_ne same]
    exact others d

@[simp] theorem channel_setThread (n : Node) (k : Nat) (th : Thread μ) : (m.setThread n k th).channel = m.channel := rfl

@[simp] theorem channel_deregisterNode (n : Node) : (m.deregisterNode n).channel = m.channel := by
  simp only [deregisterNode, DistShmHeader.deregisterNode]
  split <;> rfl

theorem isNodeActive_deregisterNode {n s : Node} (other : s ≠ n) :
    (m.deregisterNode n).header.isNodeActive s = m.header.isNodeActive s := by
  simp only [deregisterNode, DistShmHeader.deregisterNode]
  split
  · rename_i valid
    have apart : s ≠ ⟨(nodeId n).toNat, valid⟩ := fun same => other (same.trans (Fin.ext (System.nodeId_toNat n)))
    simp only [Option.getD_some, DistShmHeader.isNodeActive, update_of_ne apart]
  · rfl

theorem isNodeActive_deregisterNode_self (n : Node) : (m.deregisterNode n).header.isNodeActive n = false := by
  have own : (⟨(nodeId n).toNat, valid_node n⟩ : Node) = n := Fin.ext (System.nodeId_toNat n)
  simp [deregisterNode, DistShmHeader.deregisterNode, valid_node n, own, DistShmHeader.isNodeActive]

theorem threads_setThread_self (n : Node) (k : Nat) (th : Thread μ) : (m.setThread n k th).threads n k = th := by
  simp only [setThread, update_self]

theorem threads_setThread_of_ne {n n' : Node} {k k' : Nat} (other : (n', k') ≠ (n, k)) (th : Thread μ) :
    (m.setThread n k th).threads n' k' = m.threads n' k' := by
  by_cases same : n' = n
  · subst same
    have apart : k' ≠ k := fun same => other (by rw [same])
    simp only [setThread, update_self, update_of_ne apart]
  · simp only [setThread, update_of_ne same]

theorem forall_setThread {P : Node → Nat → Thread μ → Prop} (here : P n k th)
    (others : ∀ n k, P n k (m.threads n k)) (n' : Node) (k' : Nat) : P n' k' ((m.setThread n k th).threads n' k') := by
  by_cases same : (n', k') = (n, k)
  · cases same
    rwa [threads_setThread_self]
  · rw [threads_setThread_of_ne same]
    exact others n' k'

theorem Sound.setThread (sound : m.Sound) (worker : k < 2 → ∃ p, th.job = .polling p)
    (taker : ∀ src, (m.channel (src, n)).takes k ≠ .idle → th.job.DequeuesFrom src) : (m.setThread n k th).Sound where
  channel := sound.channel
  sender := sound.sender
  worker := forall_setThread (P := fun _ k th => k < 2 → ∃ p, th.job = .polling p) worker sound.worker
  taker := forall_setThread
    (P := fun n k th => ∀ src, (m.channel (src, n)).takes k ≠ .idle → th.job.DequeuesFrom src) taker sound.taker

theorem Sound.setChannel (sound : m.Sound) {s d : Node} (channel : ch.Sound)
    (sender : ch.waiting ≠ 0 → d ≠ s ∧ m.header.isNodeActive s)
    (taker : ∀ k, ch.takes k ≠ .idle → (m.threads d k).job.DequeuesFrom s) : (m.setChannel (s, d) ch).Sound where
  channel := forall_setChannel (P := fun _ ch => ch.Sound) channel sound.channel
  sender s' d' := forall_setChannel
    (P := fun c ch => ch.waiting ≠ 0 → c.2 ≠ c.1 ∧ m.header.isNodeActive c.1) sender
    (fun c => sound.sender c.1 c.2) (s', d')
  worker := sound.worker
  taker n k src := forall_setChannel
    (P := fun c ch => ∀ k, ch.takes k ≠ .idle → (m.threads c.2 k).job.DequeuesFrom c.1) taker
    (fun c k => sound.taker c.2 k c.1) (src, n) k

theorem Sound.put (sound : m.Sound) {dst : Node} {msg : μ}
    (outbox : (m.threads n k).outbox = (dst, msg) :: rest) (meets : m.Meets (.run n k responses)) :
    (m.afterPut n dst k msg).Sound := by
  obtain ⟨alone, starts⟩ : (m.channel (n, dst)).PutAlone k ∧ ((m.channel (n, dst)).puts k = .idle →
      dst ≠ n ∧ m.header.isNodeActive n ∧ ∀ i, n < i → m.header.queued i dst = []) := by
    simpa only [Meets, outbox] using meets
  refine sound.setChannel ((sound.channel (n, dst)).put alone msg) (fun _ => ?_) fun j => ?_
  · by_cases idle : (m.channel (n, dst)).puts k = .idle
    · exact ⟨(starts idle).1, (starts idle).2.1⟩
    · refine sound.sender n dst ?_
      rw [waiting_of_inside idle]
      exact Nat.succ_ne_zero _
  · rw [takes_put]
    exact sound.taker dst j n

section take
variable {n : Node} {k : Nat} {p : Poll} {src : Node} {rest : List Node}

theorem Sound.take (sound : m.Sound) (outbox : (m.threads n k).outbox = [])
    (job : (m.threads n k).job = .polling p) (todo : p.todo = src :: rest) (stage : p.stage = .dequeue)
    (meets : m.Meets (.run n k responses)) : (m.afterTake src n k).Sound := by
  have at_src : p.todo.head? = some src := by rw [todo]; rfl
  have alone : (m.channel (src, n)).TakeAlone k := by
    simp only [Meets, outbox, job] at meets
    exact meets stage src at_src
  refine sound.setChannel ((sound.channel (src, n)).take alone) (fun some => ?_) fun j inside => ?_
  · refine sound.sender src n fun none => some ?_
    have := (sound.channel (src, n)).waiting_take_le (t := k)
    omega
  · by_cases same : j = k
    · rw [same, job]
      exact ⟨stage, at_src⟩
    · rw [takes_take_of_ne _ _ same] at inside
      exact sound.taker n j src inside

theorem Sound.take_ends (sound : m.Sound) (job : (m.threads n k).job = .polling p) (todo : p.todo = src :: rest)
    (ends : ((m.channel (src, n)).take k).2 ≠ none) (s : Node) :
    ((m.afterTake src n k).channel (s, n)).takes k = .idle := by
  rw [channel_setChannel]
  by_cases same : s = src
  · rw [same, update_self]
    exact takes_take_ends ends
  · rw [update_of_ne fun eq => same (Prod.mk.inj eq).1]
    by_contra inside
    have there := sound.taker n k s inside
    rw [job] at there
    have := there.2
    rw [todo] at this
    exact same (Option.some.inj this).symm

end take

theorem Sound.deregisterNode (sound : m.Sound) (done : ∀ d, (m.channel (n, d)).waiting = 0) :
    (m.deregisterNode n).Sound where
  channel c := by
    rw [channel_deregisterNode]
    exact sound.channel c
  sender s d busy := by
    rw [channel_deregisterNode] at busy
    have other : s ≠ n := fun same => busy (same ▸ done d)
    rw [isNodeActive_deregisterNode other]
    exact sound.sender s d busy
  worker := sound.worker
  taker n k src := by
    rw [channel_deregisterNode]
    exact sound.taker n k src

theorem PollMove.not_dequeuing {p q : Poll} (moves : m.PollMove n p q) (src : Node) :
    ¬ (Job.polling p).DequeuesFrom src := by
  rintro ⟨stage, there⟩
  cases moves with
  | finish todo => rw [todo] at there; cases there
  | restart other | skip _ other | enter _ other | call _ other | limit _ other => rw [stage] at other; cases other

theorem Sound.run (sound : m.Sound) (meets : m.Meets (.run n k responses)) : (m.run n k responses).Sound := by
  have effect := run_effect m n k responses
  generalize m.run n k responses = after at effect ⊢
  cases effect with
  | none => exact sound
  | putting outbox => exact sound.put outbox meets
  | sent outbox =>
    have put := sound.put outbox meets
    exact put.setThread (put.worker n k) (put.taker n k)
  | deregistered outbox job =>
    have done : ∀ d, (m.channel (n, d)).waiting = 0 := by
      simp only [Meets, outbox, job] at meets
      exact fun d => waiting_eq_zero_iff.mpr (meets d)
    refine (sound.deregisterNode done).setThread (fun worker => ?_) fun src inside => ?_
    · obtain ⟨p, polling⟩ := sound.worker n k worker
      rw [polling] at job
      cases job
    · have there := (sound.deregisterNode done).taker n k src inside
      exact absurd there (by rw [show (m.deregisterNode n).threads n k = m.threads n k from rfl, job]; exact id)
  | polled outbox job moves =>
    refine sound.setThread (fun _ => ⟨_, rfl⟩) fun src inside => ?_
    have there := sound.taker n k src inside
    rw [job] at there
    exact absurd there (moves.not_dequeuing src)
  | taking outbox job todo stage => exact sound.take outbox job todo stage meets
  | empty outbox job todo stage ends =>
    refine (sound.take outbox job todo stage meets).setThread (fun _ => ⟨_, rfl⟩) fun s inside => ?_
    exact absurd (sound.take_ends job todo (by rw [ends]; nofun) s) inside
  | processed outbox job todo stage ends =>
    refine (sound.take outbox job todo stage meets).setThread (fun _ => ⟨_, rfl⟩) fun s inside => ?_
    exact absurd (sound.take_ends job todo (by rw [ends]; nofun) s) inside

theorem Sound.assign (sound : m.Sound) (n : Node) (k : Nat) (th : Thread μ) : (m.assign n k th).Sound := by
  rw [Managers.assign]
  split
  · rename_i job
    refine sound.setThread (fun worker => ?_) fun src inside => ?_
    · obtain ⟨p, polling⟩ := sound.worker n k worker
      rw [polling] at job
      cases job
    · have there := sound.taker n k src inside
      rw [job] at there
      exact there.elim
  · exact sound

theorem Sound.step (sound : m.Sound) {s : ManagerStep μ} (meets : m.Meets s) : (m.step s).Sound := by
  cases s with
  | send n k msgs => exact sound.assign n k _
  | leave n k msg => exact sound.assign n k _
  | run n k responses => exact sound.run meets

theorem sound_start {header : DistShmHeader μ} (empty : ∀ c, (header.queues c).head = (header.queues c).tail) :
    (start header).Sound where
  channel c := sound_of_idle (fun _ => rfl) (fun _ => rfl) (Queue.contents_of_empty (empty c)).symm
  sender s d busy := by
    refine absurd ?_ busy
    exact waiting_eq_zero_iff.mpr ⟨Queue.contents_of_empty (empty (s, d)), fun _ => rfl⟩
  worker n k worker := ⟨Poll.start, by simp only [start, if_pos worker]⟩
  taker n k src inside := absurd rfl inside

structure Unpolled (s d : Node) (xs : List μ) (m : Managers μ) : Prop where
  inactive : m.header.isNodeActive s = false
  outside : ∀ k p, (m.threads d k).job = .polling p → p.todo.head? = some s → p.stage = .source
  taken : (m.channel (s, d)).taken = xs

namespace Unpolled
variable {s d : Node} {xs : List μ}

variable (unpolled : Unpolled s d xs m)
include unpolled

theorem setThread (outside : n = d → ∀ p, th.job = .polling p → p.todo.head? = some s → p.stage = .source) :
    Unpolled s d xs (m.setThread n k th) where
  inactive := unpolled.inactive
  outside k' := forall_setThread
    (P := fun n _ th => n = d → ∀ p, th.job = .polling p → p.todo.head? = some s → p.stage = .source) outside
    (fun _ k' here => here ▸ unpolled.outside k') d k' rfl
  taken := unpolled.taken

theorem setChannel {c : Node × Node}
    (taken : c = (s, d) → ch.taken = (m.channel c).taken) : Unpolled s d xs (m.setChannel c ch) where
  inactive := unpolled.inactive
  outside := unpolled.outside
  taken := (forall_setChannel (P := fun c ch => c = (s, d) → ch.taken = (m.channel c).taken) taken
    (fun _ _ => rfl) (s, d) rfl).trans unpolled.taken

theorem deregisterNode (n : Node) : Unpolled s d xs (m.deregisterNode n) where
  inactive := by
    by_cases same : s = n
    · subst same
      exact isNodeActive_deregisterNode_self s
    · rw [isNodeActive_deregisterNode same, unpolled.inactive]
  outside := unpolled.outside
  taken := by rw [channel_deregisterNode, unpolled.taken]

theorem put (n : Node) (k : Nat) (dst : Node) (msg : μ) : Unpolled s d xs (m.afterPut n dst k msg) :=
  unpolled.setChannel fun _ => taken_put _ _ _

theorem take {p : Poll} {src : Node} {rest : List Node}
    (job : (m.threads n k).job = .polling p) (todo : p.todo = src :: rest) (stage : p.stage = .dequeue) :
    Unpolled s d xs (m.afterTake src n k) := by
  refine unpolled.setChannel fun same => ?_
  cases same
  have outside := unpolled.outside k p job (by rw [todo]; rfl)
  rw [stage] at outside
  cases outside

theorem polled {p q : Poll} (job : (m.threads d k).job = .polling p)
    (moves : m.PollMove d p q) (at_s : q.todo.head? = some s) : q.stage = .source := by
  cases moves with
  | finish | restart | skip | limit => rfl
  | enter todo stage active =>
    obtain rfl : _ = s := Option.some.inj ((congrArg List.head? todo).symm.trans at_s)
    rw [unpolled.inactive] at active
    cases active
  | call todo stage below =>
    have outside := unpolled.outside k p job at_s
    rw [stage] at outside
    cases outside

theorem run (n : Node) (k : Nat) (responses : List (Node × μ)) : Unpolled s d xs (m.run n k responses) := by
  have effect := run_effect m n k responses
  generalize m.run n k responses = after at effect ⊢
  cases effect with
  | none => exact unpolled
  | putting => exact unpolled.put n k _ _
  | sent => exact (unpolled.put n k _ _).setThread fun here => here ▸ unpolled.outside k
  | deregistered => exact (unpolled.deregisterNode n).setThread fun _ _ job => nomatch job
  | polled outbox job moves =>
    refine unpolled.setThread fun here p later at_s => ?_
    subst here
    obtain rfl := Job.polling.inj later
    exact unpolled.polled job moves at_s
  | taking outbox job todo stage => exact unpolled.take job todo stage
  | empty outbox job todo stage =>
    refine (unpolled.take job todo stage).setThread fun _ p later _ => ?_
    obtain rfl := Job.polling.inj later
    rfl
  | processed outbox job todo stage =>
    refine (unpolled.take job todo stage).setThread fun here p later at_s => ?_
    subst here
    obtain rfl := Job.polling.inj later
    have outside := unpolled.outside k _ job at_s
    rw [stage] at outside
    cases outside

theorem assign (job : ∀ p, th.job ≠ .polling p) : Unpolled s d xs (m.assign n k th) := by
  rw [Managers.assign]
  split
  · exact unpolled.setThread fun _ p polling => absurd polling (job p)
  · exact unpolled

theorem step (st : ManagerStep μ) : Unpolled s d xs (m.step st) := by
  cases st with
  | send | leave => exact unpolled.assign fun _ => nofun
  | run n k responses => exact unpolled.run n k responses

end Unpolled

end Managers

end CxlMemSim.Dist
