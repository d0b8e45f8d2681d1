import CxlMemSim.Lib.Framing
import CxlMemSim.Lib.Run

/-! `send_all` and `recv_all` move the bytes of a message in as many pieces as the kernel likes. -/
namespace CxlMemSim.Tcp
open Framing List

/-- `sizeof(TCPRequest)` and `sizeof(TCPMessage)`, which are packed. -/
def requestSize : Nat := 1 + 8 + 8 + 8 + 1 + 8 + 64

def messageSize : Nat := requestSize + (1 + 8 + 1 + 64)

abbrev TCPRequest := { bytes : List UInt8 // bytes.length = requestSize }

abbrev TCPMessage := { bytes : List UInt8 // bytes.length = messageSize }

def TCPRequest.message (req : TCPRequest) : List UInt8 := req.val ++ replicate (messageSize - requestSize) 0

structure Connection (σ : Type*) where
  state : σ
  calling : Bool := false
  toServer : Pipe UInt8 := {}
  toClient : Pipe UInt8 := {}

/-- A call of `send_request`, or a `send` or `recv` of one side that moves up to `n` bytes. -/
inductive Step
  | call (req : TCPRequest)
  | client (n : Nat)
  | server (n : Nat)

variable {σ : Type*} (handler : σ → List UInt8 → σ × TCPMessage)

namespace Connection
variable (c : Connection σ)

def responses : List (List UInt8) := c.toClient.received.map (drop requestSize)

def sendRequest (req : TCPRequest) : Connection σ :=
  if c.calling then c else { c with calling := true, toServer := c.toServer.start req.message }

def clientStep (n : Nat) : Connection σ :=
  if c.calling = false then c
  else if c.toServer.rest ≠ [] then { c with toServer := c.toServer.send n }
  else
    let result := c.toClient.recv messageSize n
    { c with toClient := result.1, calling := result.2.isNone }

/-- The loop of `handle_client`. -/
def serverStep (n : Nat) : Connection σ :=
  if c.toClient.rest ≠ [] then { c with toClient := c.toClient.send n }
  else
    let result := c.toServer.recv messageSize n
    match result.2 with
    | none => { c with toServer := result.1 }
    | some message =>
      let answer := handler c.state message
      { c with state := answer.1, toServer := result.1, toClient := c.toClient.start answer.2.val }

def step : Step → Connection σ
  | .call req => c.sendRequest req
  | .client n => c.clientStep n
  | .server n => c.serverStep handler n

end Connection

def answers : σ → List (List UInt8) → List (List UInt8)
  | _, [] => []
  | s, message :: rest => (handler s message).2.val :: answers (handler s message).1 rest

structure Inv (start : σ) (c : Connection σ) : Prop where
  state : c.state = c.toServer.received.foldl (fun s message => (handler s message).1) start
  answers : c.toClient.sent = answers handler start c.toServer.received
  asked : c.toServer.Whole messageSize
  answered : c.toClient.Whole messageSize
  idle : c.calling = false → c.toServer.rest = []

variable {handler} {start : σ} {c : Connection σ}

theorem answers_append (s : σ) (messages more : List (List UInt8)) :
    answers handler s (messages ++ more) = answers handler s messages ++
      answers handler (messages.foldl (fun s message => (handler s message).1) s) more := by
  induction messages generalizing s with
  | nil => rfl
  | cons first rest ih => exact congrArg (_ :: ·) (ih _)

theorem Inv.step (inv : Inv handler start c) (i : Step) : Inv handler start (c.step handler i) := by
  obtain ⟨state, answers, asked, answered, idle⟩ := inv
  cases i with
  | call req =>
    rw [Connection.step, Connection.sendRequest]
    split_ifs with free
    · exact ⟨state, answers, asked, answered, idle⟩
    · have whole : req.message.length = messageSize := by
        rw [TCPRequest.message, length_append, req.property, length_replicate]
        rfl
      exact ⟨state, answers, asked.start (idle (eq_false_of_ne_true free)) whole, answered, nofun⟩
  | client n =>
    rw [Connection.step, Connection.clientStep]
    split_ifs with free sending
    · exact ⟨state, answers, asked, answered, idle⟩
    · exact ⟨state, answers, asked.send n, answered, fun none => absurd none free⟩
    · have sent := (Pipe.recv_frame messageSize n).2.1.trans answers
      exact ⟨state, sent, asked, answered.recv n, fun _ => not_not.mp sending⟩
  | server n =>
    rw [Connection.step, Connection.serverStep]
    split_ifs with sending
    · exact ⟨state, answers, asked, answered.send n, idle⟩
    · obtain ⟨rest, -, received⟩ := Pipe.recv_frame (p := c.toServer) messageSize n
      rw [← rest] at idle
      dsimp only
      split
      · rename_i none
        rw [none, Option.toList_none, append_nil] at received
        refine ⟨?_, ?_, asked.recv n, answered, idle⟩ <;> rwa [received]
      · rename_i message some
        rw [some, Option.toList_some] at received
        refine ⟨?_, ?_, asked.recv n, ?_, idle⟩
        · rw [received, foldl_append, ← state, foldl_cons, foldl_nil]
        · rw [received, answers_append, ← state, ← answers]
          rfl
        · exact answered.start (not_not.mp sending) (handler c.state message).2.property

/-- However the bytes are cut up and the two sides take turns, the server handles the requests as they were made, and
the calls that have returned have its answers, in order. -/
theorem calls_answered (handler : σ → List UInt8 → σ × TCPMessage) (start : σ) (steps : List Step) :
    let c := steps.foldl (Connection.step handler) { state := start }
    c.toServer.received <+: c.toServer.sent ∧
      c.responses <+: (answers handler start c.toServer.sent).map (drop requestSize) := by
  intro c
  have inv : Inv handler start c :=
    Run.invariant (fun _ i inv => inv.step i) ⟨rfl, rfl, ⟨rfl, nofun, nofun⟩, ⟨rfl, nofun, nofun⟩, fun _ => rfl⟩ steps
  have asked := inv.asked.received_prefix (by decide)
  refine ⟨asked, ?_⟩
  obtain ⟨more, all⟩ := asked
  rw [← all, answers_append, ← inv.answers]
  exact ((inv.answered.received_prefix (by decide)).trans (prefix_append _ _)).map _

end CxlMemSim.Tcp
