import CxlMemSim.Lib.RingBuffer
import CxlMemSim.Lib.Run

/-! One ring of entries per client. Requests queue between tail and head. -/
namespace CxlMemSim.Comm
open Function RingBuffer Run List

structure Entry (Req Resp : Type) where
  request : Option Req := none
  response : Option Resp := none

structure ShmRingBuffer (Req Resp : Type) where
  head : Fin 1024 := 0
  tail : Fin 1024 := 0
  entries : Fin 1024 → Entry Req Resp := fun _ => {}

structure ShmCommunication (Req Resp : Type) where
  connected : Fin 64 → Bool
  rings : Fin 64 → ShmRingBuffer Req Resp := fun _ => {}

variable {Req Resp : Type}

namespace ShmRingBuffer
variable (ring : ShmRingBuffer Req Resp)

def waiting : List Resp := scan (Entry.response ∘ ring.entries)

def sendRequest (request : Req) : Option (ShmRingBuffer Req Resp) :=
  let nextHead := place ring.head 1
  if nextHead = ring.tail then none
  else some { ring with
    head := nextHead
    entries := update ring.entries ring.head { request := some request, response := none } }

def takeRequest : Option (Req × ShmRingBuffer Req Resp) :=
  if ring.tail = ring.head then none
  else
    let entry := ring.entries ring.tail
    entry.request.map fun request =>
      (request, { ring with
        tail := place ring.tail 1
        entries := update ring.entries ring.tail { entry with request := none } })

def freeEntry : Option (Fin 1024) :=
  search ring.head fun i => (ring.entries i).request.isNone && (ring.entries i).response.isNone

def putResponse (i : Fin 1024) (response : Resp) : ShmRingBuffer Req Resp :=
  { ring with entries := update ring.entries i { ring.entries i with response := some response } }

def sendResponse (response : Resp) : Option (ShmRingBuffer Req Resp) :=
  ring.freeEntry.map fun i => ring.putResponse i response

def waitForResponse : Option (Resp × ShmRingBuffer Req Resp) :=
  (first (Entry.response ∘ ring.entries)).bind fun i =>
    let entry := ring.entries i
    entry.response.map fun response =>
      (response, { ring with entries := update ring.entries i { entry with response := none } })

end ShmRingBuffer

variable {request : Req}

namespace ShmCommunication

def setRing (comm : ShmCommunication Req Resp) (c : Fin 64) (ring : ShmRingBuffer Req Resp) :
    ShmCommunication Req Resp :=
  { comm with rings := update comm.rings c ring }

def waitForRequest (comm : ShmCommunication Req Resp) : Option (Fin 64 × Req × ShmCommunication Req Resp) :=
  (List.finRange 64).findSome? fun c =>
    if comm.connected c then (comm.rings c).takeRequest.map fun (request, ring) => (c, request, comm.setRing c ring)
    else none

theorem waitForRequest_some {comm comm' : ShmCommunication Req Resp} {c : Fin 64}
    (h : comm.waitForRequest = some (c, request, comm')) :
    ∃ ring, (comm.rings c).takeRequest = some (request, ring) ∧ comm' = comm.setRing c ring := by
  obtain ⟨c', -, found⟩ := exists_of_findSome?_eq_some h
  split at found
  · obtain ⟨⟨request', ring⟩, taken, same⟩ := Option.map_eq_some_iff.mp found
    obtain ⟨rfl, rfl, rfl⟩ : c' = c ∧ request' = request ∧ comm.setRing c' ring = comm' := by simpa using same
    exact ⟨ring, taken, rfl⟩
  · simp at found

end ShmCommunication

/-- What has happened on one ring.  The server has answered the first `answered` of the requests
it took. -/
structure History (Req Resp : Type) where
  sent : List Req := []
  taken : List Req := []
  answered : Nat := 0
  obtained : List Resp := []

structure System (Req Resp : Type) where
  comm : ShmCommunication Req Resp
  history : Fin 64 → History Req Resp := fun _ => {}

def System.initial (connected : Fin 64 → Bool) : System Req Resp := { comm := { connected } }

inductive Call (Req : Type) where
  | sendRequest (c : Fin 64) (request : Req)
  | waitForRequest
  | sendResponse (c : Fin 64)
  | waitForResponse (c : Fin 64)

def System.record (sys : System Req Resp) (c : Fin 64) (ring : ShmRingBuffer Req Resp) (h : History Req Resp) :
    System Req Resp :=
  { comm := sys.comm.setRing c ring, history := update sys.history c h }

/-! A failed call changes nothing, except that the server does not look at the result of
`send_response`. -/

def System.sendRequest (sys : System Req Resp) (c : Fin 64) (request : Req) : System Req Resp :=
  match (sys.comm.rings c).sendRequest request with
  | none => sys
  | some ring => sys.record c ring { sys.history c with sent := (sys.history c).sent ++ [request] }

def System.waitForRequest (sys : System Req Resp) : System Req Resp :=
  match sys.comm.waitForRequest with
  | none => sys
  | some (c, request, comm) =>
    { comm
      history := update sys.history c
        { sys.history c with taken := (sys.history c).taken ++ [request] } }

/-- The server answers the requests of a client in order, the `k`-th one with `serve k`. -/
def System.sendResponse (serve : Nat → Req → Resp) (sys : System Req Resp) (c : Fin 64) : System Req Resp :=
  match (sys.history c).taken[(sys.history c).answered]? with
  | none => sys
  | some request =>
    let response := serve (sys.history c).answered request
    sys.record c (((sys.comm.rings c).sendResponse response).getD (sys.comm.rings c))
      { sys.history c with answered := (sys.history c).answered + 1 }

def System.waitForResponse (sys : System Req Resp) (c : Fin 64) : System Req Resp :=
  match (sys.comm.rings c).waitForResponse with
  | none => sys
  | some (response, ring) =>
    sys.record c ring { sys.history c with obtained := (sys.history c).obtained ++ [response] }

section Runs
variable (serve : Fin 64 → Nat → Req → Resp)

def step (sys : System Req Resp) : Call Req → System Req Resp
  | .sendRequest c request => sys.sendRequest c request
  | .waitForRequest => sys.waitForRequest
  | .sendResponse c => sys.sendResponse (serve c) c
  | .waitForResponse c => sys.waitForResponse c

def run (sys : System Req Resp) (calls : List (Call Req)) : System Req Resp := calls.foldl (step serve) sys

end Runs

/-- No call on the ring of `c` disturbs a response that waits there: a request does not go into its
entry, and a new response goes into an entry above it. -/
def Orderly (c : Fin 64) (sys : System Req Resp) : Call Req → Prop
  | .sendRequest c' request => c' = c → ((sys.comm.rings c).sendRequest request).isSome →
      ((sys.comm.rings c).entries (sys.comm.rings c).head).response = none
  | .sendResponse c' => c' = c → (sys.history c).answered < (sys.history c).taken.length →
      ∃ i ∈ (sys.comm.rings c).freeEntry, ∀ j, ((sys.comm.rings c).entries j).response.isSome → j < i
  | .waitForRequest | .waitForResponse _ => True

structure Paired (serve : Nat → Req → Resp) (ring : ShmRingBuffer Req Resp) (h : History Req Resp) : Prop where
  queue : ∃ untaken, h.sent = h.taken ++ untaken ∧
    Holds (Entry.request ∘ ring.entries) ring.tail ring.head untaken
  answered_le : h.answered ≤ h.taken.length
  answers : (h.sent.take h.answered).mapIdx serve = h.obtained ++ ring.waiting

theorem paired_initial (serve : Nat → Req → Resp) : Paired serve {} {} := by
  refine ⟨⟨[], rfl, .of_empty (fun _ => rfl) 0⟩, Nat.le_refl 0, ?_⟩
  have none_waits : ShmRingBuffer.waiting ({} : ShmRingBuffer Req Resp) = [] := scan_eq_nil_iff.mpr fun _ => rfl
  rw [none_waits, take_nil, mapIdx_nil, append_nil]

section Ring
variable {serve : Nat → Req → Resp} {ring ring' : ShmRingBuffer Req Resp} {h : History Req Resp} {response : Resp}

variable (p : Paired serve ring h)
include p

theorem Paired.answered_le_sent : h.answered ≤ h.sent.length := by
  obtain ⟨untaken, sent, -⟩ := p.queue
  rw [sent, length_append]
  exact Nat.le_add_right_of_le p.answered_le

theorem Paired.sendRequest (sends : ring.sendRequest request = some ring')
    (clear : (ring.entries ring.head).response = none) :
    Paired serve ring' { h with sent := h.sent ++ [request] } := by
  obtain ⟨untaken, sent, holds⟩ := p.queue
  rw [ShmRingBuffer.sendRequest] at sends
  split at sends
  · cases sends
  · rename_i notFull
    cases sends
    refine ⟨⟨untaken ++ [request], ?_, ?_⟩, p.answered_le, ?_⟩
    · simp only [sent, append_assoc]
    · simp only [comp_update]
      exact holds.push notFull request
    · -- the entry is reused; had a response been waiting in it, this is where it would be lost
      have kept : update (Entry.response ∘ ring.entries) ring.head none = Entry.response ∘ ring.entries := by
        rw [← clear]
        exact update_eq_self _ _
      simp only [take_append_of_le_length p.answered_le_sent, ShmRingBuffer.waiting, comp_update, kept]
      exact p.answers

theorem Paired.takeRequest (takes : ring.takeRequest = some (request, ring')) :
    Paired serve ring' { h with taken := h.taken ++ [request] } := by
  obtain ⟨untaken, sent, holds⟩ := p.queue
  rw [ShmRingBuffer.takeRequest] at takes
  split at takes
  · cases takes
  · obtain ⟨request', ready, same⟩ := Option.map_eq_some_iff.mp takes
    obtain ⟨rfl, rfl⟩ := Prod.mk.inj same
    have oldest : untaken.head? = some request' := holds.tail_cell.symm.trans ready
    obtain ⟨rest, rfl⟩ := head?_eq_some_iff.mp oldest
    refine ⟨⟨rest, ?_, ?_⟩, ?_, ?_⟩
    · simp only [sent, append_assoc, cons_append, nil_append]
    · simp only [comp_update]
      exact holds.pop
    · simp only [length_append]
      exact Nat.le_add_right_of_le p.answered_le
    · have kept : update (Entry.response ∘ ring.entries) ring.tail (ring.entries ring.tail).response =
          Entry.response ∘ ring.entries := update_eq_self _ _
      simp only [ShmRingBuffer.waiting, comp_update, kept]
      exact p.answers

theorem Paired.putResponse (oldest : h.taken[h.answered]? = some request)
    {i : Fin 1024} (above : ∀ j, (ring.entries j).response.isSome → j < i) :
    Paired serve (ring.putResponse i (serve h.answered request)) { h with answered := h.answered + 1 } := by
  obtain ⟨untaken, sent, holds⟩ := p.queue
  obtain ⟨inside, -⟩ := List.getElem?_eq_some_iff.mp oldest
  refine ⟨⟨untaken, sent, ?_⟩, inside, ?_⟩
  · have kept : update (Entry.request ∘ ring.entries) i (ring.entries i).request =
        Entry.request ∘ ring.entries := update_eq_self _ _
    simp only [ShmRingBuffer.putResponse, comp_update, kept]
    exact holds
  · -- the client reads by index, so the new response is the last one only above all that wait
    have next : h.sent[h.answered]? = some request := by rw [sent, getElem?_append_left inside, oldest]
    have count : (h.sent.take h.answered).length = h.answered := length_take_of_le p.answered_le_sent
    have placed : scan (update (Entry.response ∘ ring.entries) i (some (serve h.answered request))) =
        scan (Entry.response ∘ ring.entries) ++ [serve h.answered request] := scan_push above _
    simp only [ShmRingBuffer.waiting, ShmRingBuffer.putResponse, comp_update, placed]
    rw [take_add_one, next, mapIdx_append, p.answers, count, ShmRingBuffer.waiting, append_assoc]
    simp

omit p in
theorem waitForResponse_some (waits : ring.waitForResponse = some (response, ring')) :
    ∃ i, ring' = { ring with entries := update ring.entries i { ring.entries i with response := none } } ∧
      ring.waiting = response :: ring'.waiting := by
  obtain ⟨i, lowest, takes⟩ := Option.bind_eq_some_iff.mp waits
  obtain ⟨response', ready, same⟩ := Option.map_eq_some_iff.mp takes
  obtain ⟨rfl, rfl⟩ := Prod.mk.inj same
  obtain ⟨x, here, split⟩ := scan_pop lowest
  obtain rfl : x = response' := Option.some.inj (here.symm.trans ready)
  refine ⟨i, rfl, ?_⟩
  simp only [ShmRingBuffer.waiting, comp_update]
  exact split

theorem Paired.waitForResponse (waits : ring.waitForResponse = some (response, ring')) :
    Paired serve ring' { h with obtained := h.obtained ++ [response] } := by
  obtain ⟨i, rfl, split⟩ := waitForResponse_some waits
  refine ⟨?_, p.answered_le, ?_⟩
  · have kept : update (Entry.request ∘ ring.entries) i (ring.entries i).request =
        Entry.request ∘ ring.entries := update_eq_self _ _
    simp only [comp_update, kept]
    exact p.queue
  · rw [p.answers, split, append_assoc, singleton_append]

end Ring

variable {sys : System Req Resp}

section System
variable {serve : Fin 64 → Nat → Req → Resp} {c : Fin 64} {call : Call Req}

section
variable (before : Paired (serve c) (sys.comm.rings c) (sys.history c))
include before

theorem record_paired {c' : Fin 64} {ring : ShmRingBuffer Req Resp} {h : History Req Resp}
    (own : c' = c → Paired (serve c) ring h) :
    Paired (serve c) ((sys.record c' ring h).comm.rings c) ((sys.record c' ring h).history c) := by
  by_cases same : c' = c
  · subst same
    simpa only [System.record, ShmCommunication.setRing, update_self] using own rfl
  · simpa only [System.record, ShmCommunication.setRing, update_of_ne (Ne.symm same)] using before

theorem sendRequest_paired (c' : Fin 64) (request : Req)
    (clear : c' = c → ((sys.comm.rings c).sendRequest request).isSome →
      ((sys.comm.rings c).entries (sys.comm.rings c).head).response = none) :
    Paired (serve c) ((sys.sendRequest c' request).comm.rings c) ((sys.sendRequest c' request).history c) := by
  rw [System.sendRequest]
  split
  · exact before
  · rename_i ring sends
    apply record_paired before
    rintro rfl
    exact before.sendRequest sends (clear rfl (Option.isSome_of_mem sends))

theorem waitForRequest_paired : Paired (serve c) (sys.waitForRequest.comm.rings c) (sys.waitForRequest.history c) := by
  rw [System.waitForRequest]
  split
  · exact before
  · rename_i c' request comm takes
    obtain ⟨ring, fromRing, rfl⟩ := ShmCommunication.waitForRequest_some takes
    apply record_paired before
    rintro rfl
    exact before.takeRequest fromRing

theorem sendResponse_paired (c' : Fin 64) (above : c' = c → (sys.history c).answered < (sys.history c).taken.length →
      ∃ i ∈ (sys.comm.rings c).freeEntry, ∀ j, ((sys.comm.rings c).entries j).response.isSome → j < i) :
    Paired (serve c) ((sys.sendResponse (serve c') c').comm.rings c)
      ((sys.sendResponse (serve c') c').history c) := by
  rw [System.sendResponse]
  split
  · exact before
  · rename_i request oldest
    apply record_paired before
    rintro rfl
    obtain ⟨inside, -⟩ := List.getElem?_eq_some_iff.mp oldest
    obtain ⟨i, free, highest⟩ := above rfl inside
    rw [ShmRingBuffer.sendResponse, Option.mem_def.mp free, Option.map_some, Option.getD_some]
    exact before.putResponse oldest highest

theorem waitForResponse_paired (c' : Fin 64) :
    Paired (serve c) ((sys.waitForResponse c').comm.rings c) ((sys.waitForResponse c').history c) := by
  rw [System.waitForResponse]
  split
  · exact before
  · rename_i response ring waits
    apply record_paired before
    rintro rfl
    exact before.waitForResponse waits

theorem step_paired (orderly : Orderly c sys call) :
    Paired (serve c) ((step serve sys call).comm.rings c) ((step serve sys call).history c) := by
  cases call with
  | sendRequest c' request => exact sendRequest_paired before c' request orderly
  | waitForRequest => exact waitForRequest_paired before
  | sendResponse c' => exact sendResponse_paired before c' orderly
  | waitForResponse c' => exact waitForResponse_paired before c'

end

/-- In an orderly run the `k`-th response that a client obtains is the one to its `k`-th request, and
every response given is obtained or still waits in its turn. -/
theorem kth_response_to_kth_request {connected : Fin 64 → Bool} {calls : List (Call Req)}
    (orderly : EveryStep (step serve) (Orderly c) (.initial connected) calls) :
    let sys := run serve (.initial connected) calls
    let h := sys.history c
    (∀ k response, h.obtained[k]? = some response →
        ∃ request, h.sent[k]? = some request ∧ response = serve c k request) ∧
      h.taken <+: h.sent ∧
      (h.sent.take h.answered).mapIdx (serve c) = h.obtained ++ (sys.comm.rings c).waiting := by
  intro sys h
  have paired : Paired (serve c) (sys.comm.rings c) h :=
    invariant_of_everyStep (I := fun sys => Paired (serve c) (sys.comm.rings c) (sys.history c))
      (fun _ _ before ok => step_paired before ok) (paired_initial _) orderly
  obtain ⟨untaken, sent, -⟩ := paired.queue
  refine ⟨?_, ⟨untaken, sent.symm⟩, paired.answers⟩
  intro k response obtained
  obtain ⟨inside, -⟩ := List.getElem?_eq_some_iff.mp obtained
  have answer : ((h.sent.take h.answered).mapIdx (serve c))[k]? = some response := by
    rw [paired.answers, getElem?_append_left inside, obtained]
  rw [getElem?_mapIdx] at answer
  obtain ⟨request, asked, same⟩ := Option.map_eq_some_iff.mp answer
  rw [getElem?_take] at asked
  exact ⟨request, (Option.ite_none_right_eq_some.mp asked).2, same.symm⟩

end System

instance (c : Fin 64) (sys : System Req Resp) : ∀ call, Decidable (Orderly c sys call)
  | .sendRequest _ _ => inferInstanceAs (Decidable (_ → _ → _ = _))
  | .sendResponse _ => inferInstanceAs (Decidable (_ → _ → _))
  | .waitForRequest | .waitForResponse _ => isTrue trivial

def echo (_ : Fin 64) (_ : Nat) (request : Nat) : Nat := request

def onlyFirst (c : Fin 64) : Bool := c = 0

def pipelined : List (Call Nat) :=
  [.sendRequest 0 5, .sendRequest 0 6, .waitForRequest, .waitForRequest, .sendResponse 0, .sendResponse 0,
    .waitForResponse 0, .waitForResponse 0]

theorem kth_response_pipelined :
    EveryStep (step echo) (Orderly 0) (.initial onlyFirst) pipelined ∧
      ((run echo (.initial onlyFirst) pipelined).history 0).obtained[1]? = some 6 ∧
      ∃ request, ((run echo (.initial onlyFirst) pipelined).history 0).sent[1]? = some request ∧
        6 = echo 0 1 request := by
  have orderly : EveryStep (step echo) (Orderly 0) (.initial onlyFirst) pipelined := by decide +kernel
  have second : ((run echo (.initial onlyFirst) pipelined).history 0).obtained[1]? = some 6 := by decide +kernel
  exact ⟨orderly, second, (kth_response_to_kth_request orderly).1 1 6 second⟩

def lapped : List (Call Nat) :=
  [.sendRequest 0 5, .waitForRequest, .sendResponse 0, .sendRequest 0 6, .waitForRequest, .sendResponse 0,
    .waitForResponse 0]

theorem response_lost_lapped :
    let sys := run echo (.initial onlyFirst) lapped
    (sys.history 0).sent = [5, 6] ∧ (sys.history 0).answered = 2 ∧ (sys.history 0).obtained = [6] ∧
      (sys.comm.rings 0).waiting = [] := by
  decide +kernel

end CxlMemSim.Comm
