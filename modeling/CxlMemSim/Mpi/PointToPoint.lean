import CxlMemSim.Lib.Delivery
import CxlMemSim.Mpi.SendSteps

/-! `MPI_Send` and its relatives try the mailbox of the destination first and leave the rest to the original library.
The steps of several `cxl_send` calls may come in any order. -/
namespace CxlMemSim.Mpi
open Function

structure Envelope where
  comm : Nat
  source : Nat
  dest : Nat
  tag : Nat
deriving DecidableEq

structure Message extends Envelope where
  data : List UInt8

/-- The source of a receive is a rank of its communicator, `MPI_ANY_SOURCE` or `MPI_PROC_NULL`. -/
inductive Source where
  | any
  | rank (r : Nat)
  | procNull
deriving DecidableEq

def Source.code : Source → Int
  | any => -1
  | rank r => r
  | procNull => -2

def tagCode : Option Nat → Int
  | none => -1
  | some tag => tag

structure Receive where
  rank : Nat
  comm : Nat
  source : Source
  tag : Option Nat
  maxSize : Nat

def Receive.fits (groups : Nat → List Nat) (x : Receive) (k : Envelope) : Bool :=
  x.rank = k.dest && x.comm = k.comm &&
    (match x.source with
      | .any => true
      | .rank r => (groups x.comm)[r]? = some k.source
      | .procNull => false) &&
    x.tag.all (· = k.tag)

abbrev fitting (groups : Nat → List Nat) (x : Receive) (k : Envelope) : Prop := x.fits groups k = true

def Envelope.lane (k : Envelope) : Nat × Nat × Nat := (k.comm, k.source, k.dest)

/-- The arguments of a send, and whether `allocate_cxl_memory` finds room for its data. -/
structure SendArgs where
  comm : Nat
  dest : Nat
  tag : Nat
  data : List UInt8
  allocated : Bool

structure Delivered where
  recv : Nat
  msg : Nat
  data : List UInt8

/-- An `MPI_Sendrecv` that polls the mailbox.  `sentAs` is the message if it has gone to a mailbox. -/
structure Exchange where
  message : Message
  recv : Receive
  sentAs : Option Nat
  tries : Nat

/-- A call to `cxl_send` that has not returned.  `recv` is the other half of an `MPI_Sendrecv`. -/
structure Sending where
  args : SendArgs
  message : Message
  recv : Option Receive
  pc : SendPc

def Sending.letter (s : Sending) : Letter := ⟨.ofNat s.message.source, .ofNat s.args.tag, s.args.data⟩

structure Traffic where
  sent : List Message := []
  called : List Receive := []
  /-- What the original library holds. -/
  queued : List Nat := []
  posted : List Nat := []
  received : List Delivered := []

namespace Traffic
variable (t : Traffic)

def mail (msg : Message) : Traffic := { t with sent := t.sent ++ [msg] }

def queue (msg : Message) : Traffic := { t.mail msg with queued := t.queued ++ [t.sent.length] }

def post (x : Receive) : Traffic := { t with called := t.called ++ [x], posted := t.posted ++ [t.called.length] }

def accept (x : Receive) (msg : CxlMsg) : Traffic :=
  { t with
    called := t.called ++ [x]
    received := t.received ++ [⟨t.called.length, msg.number, msg.copied x.maxSize⟩] }

end Traffic

structure Job extends Traffic where
  enabled : Nat → Bool
  active : Nat → Bool
  mailboxes : Nat → RankMailbox := fun _ => {}
  sending : Nat → Option Sending := fun _ => none
  /-- The receive that a rank is blocked in, if it is still posted. -/
  waiting : Nat → Option Nat := fun _ => none
  exchange : Nat → Option Exchange := fun _ => none

def cxlRankAvailable (active : Nat → Bool) (rank : Nat) : Bool := rank < cxlMaxRanks.toNat && active rank

namespace Job
variable (job : Job)

def origSend (msg : Message) : Job := { job with toTraffic := job.toTraffic.queue msg }

/-- A receive from `MPI_PROC_NULL` returns at once. -/
def origIrecv (x : Receive) : Job :=
  if x.source = .procNull then job else { job with toTraffic := job.toTraffic.post x }

def origRecv (x : Receive) : Job :=
  if x.source = .procNull then job
  else { job.origIrecv x with waiting := update job.waiting x.rank (some job.called.length) }

/-- What follows on a `cxl_send` that was not tried or has failed. -/
def unsent (p : Nat) (msg : Message) : Option Receive → Job
  | none => job.origSend msg
  | some x => { job with exchange := update job.exchange p (some ⟨msg, x, none, 0⟩) }

def mailed (p : Nat) (msg : Message) (recv : Option Receive) : Job :=
  { job with
    toTraffic := job.toTraffic.mail msg
    exchange := update job.exchange p (recv.map fun x => ⟨msg, x, some job.sent.length, 0⟩) }

def startSend (p : Nat) (a : SendArgs) (msg : Message) (recv : Option Receive) : Job :=
  if job.enabled p && cxlRankAvailable job.active a.dest then
    { job with sending := update job.sending p (some ⟨a, msg, recv, .start⟩) }
  else job.unsent p msg recv

/-- The next step of the `cxl_send` that the rank is in.  A message counts as sent when its mailbox's head does. -/
def advance (p : Nat) : Job :=
  match job.sending p with
  | none => job
  | some s =>
    let next := s.pc.advance s.letter s.args.allocated job.sent.length (job.mailboxes s.args.dest)
    let mailboxes := update job.mailboxes s.args.dest next.1
    match next.2 with
    | .returned result =>
      let job := { job with mailboxes, sending := update job.sending p none }
      if result.isSome then job.mailed p s.message s.recv else job.unsent p s.message s.recv
    | pc => { job with mailboxes, sending := update job.sending p (some { s with pc }) }

def tryRecv (x : Receive) : Job × Option CxlMsg :=
  if job.enabled x.rank then
    let result := (job.mailboxes x.rank).take x.source.code (tagCode x.tag)
    ({ job with mailboxes := update job.mailboxes x.rank result.1 }, result.2)
  else (job, none)

def accept (x : Receive) (msg : CxlMsg) : Job := { job with toTraffic := job.toTraffic.accept x msg }

def recvCall (orig : Job → Receive → Job) (x : Receive) : Job :=
  let tried := job.tryRecv x
  match tried.2 with
  | some msg => tried.1.accept x msg
  | none => orig tried.1 x

def mpiSend (p : Nat) (a : SendArgs) (msg : Message) : Job := job.startSend p a msg none

def mpiIsend (p : Nat) (a : SendArgs) (msg : Message) : Job := job.startSend p a msg none

def mpiRecv (x : Receive) : Job := job.recvCall origRecv x

def mpiIrecv (x : Receive) : Job := job.recvCall origIrecv x

/-- `MPI_Sendrecv` up to its `cxl_send`. -/
def mpiSendrecv (a : SendArgs) (msg : Message) (x : Receive) : Job := job.startSend x.rank a msg (some x)

def resend (e : Exchange) : Job :=
  match e.sentAs with
  | some m => { job with queued := job.queued ++ [m] }
  | none => job.origSend e.message

def repost (e : Exchange) : Option Nat → Job
  | some r =>
    if e.recv.source = Source.procNull then job
    else { job with posted := job.posted ++ [r], waiting := update job.waiting e.recv.rank (some r) }
  | none => job.origRecv e.recv

/-- The fallback sends and receives once more, also what is in a mailbox already and what was received as `got`. -/
def origSendrecv (e : Exchange) (got : Option Nat) : Job :=
  { (job.resend e).repost e got with exchange := update job.exchange e.recv.rank none }

def polls : Nat := 10

def proceed (p : Nat) : Job :=
  match job.exchange p with
  | none => job
  | some e =>
    if job.enabled p && e.tries < polls then
      let tried := job.tryRecv e.recv
      match tried.2 with
      | some msg =>
        let accepted := tried.1.accept e.recv msg
        if e.sentAs.isSome then { accepted with exchange := update job.exchange p none }
        else accepted.origSendrecv e (some job.called.length)
      | none => { tried.1 with exchange := update job.exchange p (some { e with tries := e.tries + 1 }) }
    else job.origSendrecv e none

def fits (groups : Nat → List Nat) (r m : Nat) : Bool :=
  job.called[r]?.any fun x => job.sent[m]?.any fun y => x.fits groups y.toEnvelope

def sameLane (m m' : Nat) : Bool :=
  job.sent[m]?.any fun y => job.sent[m']?.any fun y' => y.lane = y'.lane

/-- A message does not overtake an earlier one of its lane, and a receive does not overtake one that waits longer. -/
def canDeliver (groups : Nat → List Nat) (r m : Nat) : Bool :=
  job.posted.contains r && job.queued.contains m && job.fits groups r m &&
    job.queued.all (fun m' => !(decide (m' < m) && job.sameLane m' m && job.fits groups r m')) &&
    job.posted.all (fun r' => !(decide (r' < r) && job.fits groups r' m))

def deliver (r m : Nat) : Job :=
  match job.called[r]?, job.sent[m]? with
  | some x, some y =>
    { job with
      queued := job.queued.filter (· ≠ m)
      posted := job.posted.filter (· ≠ r)
      received := job.received ++ [⟨r, m, y.data.take x.maxSize⟩] }
  | _, _ => job

/-- A rank in a send, in `MPI_Sendrecv` or in a receive that waits makes no other call. -/
def busy (p : Nat) : Bool :=
  (job.sending p).isSome || (job.exchange p).isSome || (job.waiting p).any job.posted.contains

end Job

inductive Event where
  | send (p : Nat) (a : SendArgs)
  | isend (p : Nat) (a : SendArgs)
  | recv (x : Receive)
  | irecv (x : Receive)
  | sendrecv (a : SendArgs) (x : Receive)
  | advance (p : Nat)
  | proceed (p : Nat)
  | deliver (r m : Nat)

section Runs
variable (groups : Nat → List Nat)

/-- The communicator 0 is `MPI_COMM_WORLD`; ranks and tags are of type `int`. -/
def SendArgs.message (a : SendArgs) (p : Nat) : Option Message :=
  if p < (groups 0).length ∧ p < 2 ^ 31 ∧ a.tag < 2 ^ 31 then
    (groups a.comm)[a.dest]?.map fun dest => ⟨⟨a.comm, p, dest, a.tag⟩, a.data⟩
  else none

namespace Job

def step (job : Job) : Event → Job
  | .send p a => if job.busy p then job else (a.message groups p).elim job (job.mpiSend p a)
  | .isend p a => if job.busy p then job else (a.message groups p).elim job (job.mpiIsend p a)
  | .recv x => if job.busy x.rank then job else job.mpiRecv x
  | .irecv x => if job.busy x.rank then job else job.mpiIrecv x
  | .sendrecv a x =>
    if job.busy x.rank then job else (a.message groups x.rank).elim job fun msg => job.mpiSendrecv a msg x
  | .advance p => job.advance p
  | .proceed p => job.proceed p
  | .deliver r m => if job.canDeliver groups r m then job.deliver r m else job

end Job

def jobStart (enabled active : Nat → Bool) : Job where
  enabled := enabled
  active := active

def jobRun (enabled active : Nat → Bool) (events : List Event) : Job :=
  events.foldl (Job.step groups) (jobStart enabled active)

def Traffic.log (t : Traffic) (shelf : Set Nat) : Delivery.Log Envelope Receive where
  sent := t.sent.map Message.toEnvelope
  called := t.called
  queue := {m | m ∈ t.queued}
  posted := {r | r ∈ t.posted}
  shelf := shelf
  taken := t.received.map fun d => (d.recv, d.msg)

abbrev RankMailbox.pending (box : RankMailbox) : List CxlMsg := box.counted.pending

def pcTo (sending : Nat → Option Sending) (d q : Nat) : SendPc :=
  ((sending q).filter (·.args.dest = d)).elim .start (·.pc)

namespace Job
variable (job : Job)

def shelf : Set Nat :=
  {m | ∃ y, job.sent[m]? = some y ∧ ∃ c ∈ (job.mailboxes y.dest).pending, c.number = m}

def log : Delivery.Log Envelope Receive := job.toTraffic.log job.shelf

def Intact (d : Delivered) : Prop :=
  ∃ x y, job.called[d.recv]? = some x ∧ job.sent[d.msg]? = some y ∧ d.data = y.data.take x.maxSize

/-- The law of `Delivery.Log`, and the data of a message arrives with it. -/
structure Law : Prop where
  delivery : job.log.Law (fitting groups) Envelope.lane
  intact : ∀ d ∈ job.received, job.Intact d

/-- A message goes to a mailbox only if the rank in its communicator is the rank in the world, and no receive that
fits it waits in the original library. -/
def mails (s : Sending) : Bool :=
  decide (s.message.dest = s.args.dest) &&
    job.posted.all fun r => job.called[r]?.all fun x => !x.fits groups s.message.toEnvelope

/-- A call that finds its slot empty has loaded the current head, which can be counted up, and no other call is about
to fill a slot of that mailbox. -/
def sole (s : Sending) (head : UInt64) : Bool :=
  ((job.mailboxes s.args.dest).slot head).state ≠ .empty ||
    (decide (head = (job.mailboxes s.args.dest).head) && decide (head.toNat + 1 < 2 ^ 64) &&
      (List.range (groups 0).length).all fun q => !(pcTo job.sending s.args.dest q).busy)

/-- A receive goes to the original library only if no message in the mailbox fits it. -/
def missed (x : Receive) : Bool :=
  decide (x.source = .procNull) || (job.mailboxes x.rank).pending.all fun c =>
    job.sent[c.number]?.all fun y => !x.fits groups y.toEnvelope

/-- A receive takes a message from the mailbox only if the message fits it, and no older message with the same
envelope is in the original library. -/
def picks (x : Receive) (msg : CxlMsg) : Bool :=
  job.sent[msg.number]?.all fun y => x.fits groups y.toEnvelope && job.queued.all fun m =>
    !(decide (m < msg.number) && job.sent[m]?.any fun z => z.toEnvelope = y.toEnvelope)

def looks (x : Receive) : Bool :=
  match (job.tryRecv x).2 with
  | some msg => job.picks groups x msg
  | none => job.missed groups x

/-- Moreover, the two halves of an `MPI_Sendrecv` go the same way. -/
def unsplit : Event → Bool
  | .send _ _ | .isend _ _ | .sendrecv _ _ | .deliver _ _ => true
  | .advance p => (job.sending p).all fun s =>
    match s.pc with
    | .checking head => job.sole groups s head
    | .advancing _ => job.mails groups s
    | _ => true
  | .recv x | .irecv x => job.busy x.rank || job.looks groups x
  | .proceed p => (job.exchange p).all fun e =>
    if job.enabled p && e.tries < polls then
      (job.tryRecv e.recv).2.all fun msg => e.sentAs.isSome && job.picks groups e.recv msg
    else !e.sentAs.isSome && job.missed groups e.recv

end Job
end Runs
end CxlMemSim.Mpi
