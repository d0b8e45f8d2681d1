import CxlMemSim.Lib.Run
import CxlMemSim.Pgas.Protocol

/-! One client and one server worker on one slot, any interleaving of their single accesses. -/
namespace CxlMemSim.Pgas
open Function Run SharedProgram Prog

inductive Client where
  | idle
  | busy (r : Request) (rest : SlotProg (Option Response))

/-- The slot, what each side has left to do, the calls that stored their request type, and the responses consumed, each
with the number of its call. -/
structure Config where
  slot : Slot
  client : Client
  server : SlotProg Server
  issued : List Request := []
  consumed : List (Nat × Response) := []

inductive Event where
  | call (r : Request)
  | client
  | server

def Config.posts (cfg : Config) : Bool :=
  match cfg.client with
  | .busy _ (.store .reqType _ next) => next.returned.isNone
  | _ => false

variable {r : Request} {cfg : Config}

section Interleaving
variable (memorySize : UInt64) (latency : Nat → UInt64 → UInt64 → UInt64) {p : SlotProg (Option Response)}

def Config.resume (cfg : Config) (r : Request) (rest : SlotProg (Option Response)) : Config :=
  match rest.returned with
  | none => { cfg with client := .busy r rest }
  | some none => { cfg with client := .idle }
  | some (some resp) =>
    { cfg with client := .idle, consumed := cfg.consumed ++ [(cfg.issued.length - 1, resp)] }

def Config.visit (cfg : Config) : SlotProg Server :=
  match cfg.server.returned with
  | some σ => poll memorySize latency σ
  | none => cfg.server

def step (cfg : Config) : Event → Config
  | .call r =>
    match cfg.client with
    | .idle => { cfg with client := .busy r (shmRequest r) }
    | .busy _ _ => cfg
  | .client =>
    match cfg.client with
    | .idle => cfg
    | .busy r rest =>
      let issued := if cfg.posts then cfg.issued ++ [r] else cfg.issued
      { cfg with slot := (rest.advance cfg.slot).2, issued }.resume r (rest.advance cfg.slot).1
  | .server =>
    let after := (cfg.visit memorySize latency).advance cfg.slot
    { cfg with server := after.1, slot := after.2 }

def run (cfg : Config) (events : List Event) : Config := events.foldl (step memorySize latency) cfg

def Config.initial (slot : Slot) (σ : Server) : Config := { slot, client := .idle, server := .ret σ }

/-- The request type is set only when no response is waiting in the slot and the worker is not
in the middle of a visit. -/
def CleanPost (cfg : Config) : Event → Prop
  | .client => cfg.posts = true → cfg.slot .respStatus = .none ∧ cfg.server.returned.isSome = true
  | .call _ | .server => True

structure Sequential where
  slot : Slot
  server : Server
  responses : List (Option Response) := []

/-- A call of an operation without a request type only fills the slot. -/
def Sequential.handle (q : Sequential) (r : Request) : Sequential :=
  if r.op = .other then { q with slot := r.posted q.slot, responses := q.responses ++ [none] }
  else
    let (resp, slot, server) := complete memorySize latency q.slot q.server r
    { slot, server, responses := q.responses ++ [resp] }

def sequential (q : Sequential) (calls : List Request) : Sequential :=
  calls.foldl (Sequential.handle memorySize latency) q

/-- A visit that is going to answer: one store of a status, the clear right after it, and nothing
else that touches the two words of the handshake. -/
inductive Answering : SlotProg Server → Prop
  | answer (status : RespStatus) (σ : Server) (given : status ≠ .none) :
      Answering (.store .respStatus status (clear σ))
  | load (f : Field) (next : f.Val → SlotProg Server) (later : ∀ v, Answering (next v)) :
      Answering (.load f next)
  | store (f : Field) (v : f.Val) (next : SlotProg Server) (notReq : f ≠ .reqType) (notResp : f ≠ .respStatus)
      (later : Answering next) : Answering (.store f v next)

/-- A client that reads the response and then clears both words, without a look at the request type. -/
inductive Collecting : SlotProg (Option Response) → Prop
  | load (f : Field) (next : f.Val → SlotProg (Option Response)) (notReq : f ≠ .reqType)
      (later : ∀ v, Collecting (next v)) : Collecting (.load f next)
  | release (resp : Response) : Collecting (release resp)
  | last (resp : Response) : Collecting (.store .reqType .none (.ret (some resp)))

variable {next : SlotProg Server} {w : Store Field.Val}

theorem Answering.storeAll_bytes (i : Nat) (bs : List UInt8) (h : Answering next) :
    Answering (storeAll (byteStores i bs) next) := by
  induction bs generalizing i with
  | nil => exact h
  | cons b bs ih => exact .store _ _ _ (by simp) (by simp) (ih (i + 1))

theorem Answering.loadBytes (i n : Nat) {next : List UInt8 → SlotProg Server} (h : ∀ bs, Answering (next bs)) :
    Answering (loadBytes i n next) := by
  induction n generalizing i next with
  | zero => exact h []
  | succ n ih => exact .load _ _ fun b => ih (i + 1) fun bs => h (b :: bs)

theorem answering_answer {status : RespStatus} (given : status ≠ .none) (mem : Memory) (σ : Server) :
    Answering (answer status mem σ) :=
  .answer status _ given

theorem answering_ok (lat : UInt64) (mem : Memory) (σ : Server) :
    Answering (.store .latencyNs lat (answer .ok mem σ)) :=
  .store _ _ _ (by simp) (by simp) (answering_answer (by simp) mem σ)

theorem serveRequest_answering (σ : Server) (addr lat : UInt64) {op : Op} (real : op ≠ .other) :
    Answering (serveRequest memorySize σ addr lat op.reqType) := by
  cases op with
  | read =>
    exact .load _ _ fun _ => .load _ _ fun _ => (answering_ok lat _ σ).storeAll_bytes 0 _
  | write =>
    refine .load _ _ fun _ => Answering.loadBytes 0 _ fun bytes => .load _ _ fun timestamp => ?_
    exact answering_ok lat _ σ
  | atomicFaa =>
    refine .load _ _ fun again => ?_
    split
    · exact .load _ _ fun _ => (answering_ok lat _ σ).storeAll_bytes 0 _
    · exact answering_answer (by simp) _ σ
  | atomicCas =>
    refine .load _ _ fun again => ?_
    split
    · exact .load _ _ fun _ => .load _ _ fun _ => (answering_ok lat _ σ).storeAll_bytes 0 _
    · exact answering_answer (by simp) _ σ
  | fence => exact answering_ok 0 _ σ
  | other => exact (real rfl).elim

theorem poll_advance {slot : Slot} {op : Op} (real : op ≠ .other) (req : slot .reqType = op.reqType) (σ : Server) :
    Answering ((poll memorySize latency σ).advance slot).1 ∧
      ((poll memorySize latency σ).advance slot).2 = slot := by
  have posted : slot .reqType ≠ .none := by
    rw [req]
    cases op <;> simp [Op.reqType] at real ⊢
  refine ⟨?_, rfl⟩
  simp only [poll, advance, if_neg posted]
  refine .load _ _ fun addr => ?_
  split
  · exact answering_answer (by simp) _ σ
  · refine .load _ _ fun size => ?_
    rw [req]
    exact serveRequest_answering memorySize σ addr _ real

theorem Collecting.loadBytes (i n : Nat) {next : List UInt8 → SlotProg (Option Response)}
    (h : ∀ bs, Collecting (next bs)) : Collecting (loadBytes i n next) := by
  induction n generalizing i next with
  | zero => exact h []
  | succ n ih => exact .load _ _ (by simp) fun b => ih (i + 1) fun bs => h (b :: bs)

theorem collect_collecting (r : Request) : Collecting (collect r) := by
  refine .load _ _ (by simp) fun status => .load _ _ (by simp) fun lat => ?_
  cases r.op with
  | read => exact Collecting.loadBytes 0 _ fun bytes => .release _
  | atomicFaa | atomicCas => exact .load _ _ (by simp) fun value => .release _
  | write | fence | other => exact .release _

theorem Collecting.exec_update (h : Collecting p) (slot : Slot) (req : ReqType) :
    p.exec (update slot .reqType req) = p.exec slot := by
  induction h with
  | load f next notReq later ih =>
    rw [exec_load, exec_load, update_of_ne notReq]
    exact ih (slot f)
  | release resp =>
    simp only [Pgas.release, exec_store, exec_ret]
    rw [update_comm (by simp), update_idem, update_comm (by simp)]
  | last resp => simp only [exec_store, exec_ret, update_idem]

def SlotFree (slot : Slot) : Prop := slot .reqType = .none ∧ slot .respStatus = .none

theorem collect_frees (r : Request) (slot : Slot) : SlotFree ((collect r).exec slot).2 := by
  cases op : r.op <;> simp [SlotFree, collect, op, release, exec_loadBytes]

theorem fill_off (member : w ∈ r.fill) : w.1 ≠ .reqType ∧ w.1 ≠ .respStatus := by
  rcases List.mem_append.mp member with field | byte
  · simp only [List.mem_cons, List.not_mem_nil, or_false] at field
    rcases field with rfl | rfl | rfl | rfl | rfl <;> simp
  · exact ⟨byteStores_off 0 r.payload (by simp) w byte, byteStores_off 0 r.payload (by simp) w byte⟩

variable {ws : List (Store Field.Val)} {σ : Server} {e : Event} {q : Sequential}

theorem applyAll_free (off : ∀ w ∈ ws, w.1 ≠ .reqType ∧ w.1 ≠ .respStatus) (slot : Slot) :
    SlotFree (applyAll ws slot) ↔ SlotFree slot := by
  rw [SlotFree, SlotFree, applyAll_other fun w member => (off w member).1,
    applyAll_other fun w member => (off w member).2]

theorem fill_free (r : Request) (slot : Slot) : SlotFree (applyAll r.fill slot) ↔ SlotFree slot :=
  applyAll_free (fun _ => fill_off) slot

theorem handle_frees (r : Request) (free : SlotFree q.slot) : SlotFree (q.handle memorySize latency r).slot := by
  rw [Sequential.handle]
  split
  · rename_i other
    have filled := (fill_free r q.slot).mpr free
    simp only [Request.posted, other, Op.reqType]
    rwa [← filled.1, update_eq_self]
  · exact collect_frees r _

theorem sequential_free (free : SlotFree q.slot) (calls : List Request) :
    SlotFree (sequential memorySize latency q calls).slot :=
  invariant (I := fun q : Sequential => SlotFree q.slot) (fun _ r h => handle_frees memorySize latency r h) free calls

theorem sequential_append (q : Sequential) (calls : List Request) (r : Request) :
    sequential memorySize latency q (calls ++ [r]) =
      (sequential memorySize latency q calls).handle memorySize latency r := by
  rw [sequential, List.foldl_append]
  rfl

inductive Unposted : Client → Prop
  | idle : Unposted .idle
  | waitFree (r : Request) (retries : Nat) : Unposted (.busy r (waitFree r retries))

inductive Waiting (r : Request) : Client → Prop
  | waitResp (retries : Nat) : Waiting r (.busy r (waitResp r retries))
  | gaveUp {c : Client} : Unposted c → Waiting r c

theorem returned_waitFree (r : Request) (retries : Nat) : (waitFree r retries).returned = none := by
  cases retries <;> rfl

theorem returned_waitResp (r : Request) (retries : Nat) : (waitResp r retries).returned = none := by
  cases retries <;> rfl

theorem returned_storeAll (ws : List (Store Field.Val)) (r : Request) : (storeAll ws (post r)).returned = none := by
  cases ws <;> rfl

theorem Collecting.returned (h : Collecting p) : p.returned = none := by
  cases h <;> rfl

theorem server_load {f : Field} {next : f.Val → SlotProg Server} (server : cfg.server = .load f next) :
    step memorySize latency cfg .server = { cfg with server := next (cfg.slot f) } := by
  simp only [step, Config.visit, server, returned_load, advance]

theorem server_store {f : Field} {v : f.Val} (server : cfg.server = .store f v next) :
    step memorySize latency cfg .server = { cfg with slot := update cfg.slot f v, server := next } := by
  simp only [step, Config.visit, server, returned_store, advance]

def Resting (σ : Server) (cfg : Config) : Prop :=
  cfg.server = clear σ ∨ cfg.server = .ret σ ∧ cfg.slot .reqType = .none

theorem Resting.step (h : Resting σ cfg) :
    step memorySize latency cfg .server =
      { cfg with slot := update cfg.slot .reqType .none, server := .ret σ } := by
  rcases h with server | ⟨server, free⟩
  · exact server_store memorySize latency server
  · simp only [Pgas.step, Config.visit, server, returned_ret, poll, advance, free, if_true]
    rw [← free, update_eq_self]

theorem resting_after : Resting σ { cfg with slot := update cfg.slot .reqType .none, server := .ret σ } :=
  .inr ⟨rfl, by simp⟩

theorem Resting.keep {cfg cfg' : Config} (h : Resting σ cfg) (server : cfg'.server = cfg.server)
    (req : cfg.slot .reqType = .none → cfg'.slot .reqType = .none) : Resting σ cfg' := by
  rcases h with clearing | ⟨done, free⟩
  · exact .inl (server.trans clearing)
  · exact .inr ⟨server.trans done, req free⟩

theorem call_busy {rest : SlotProg (Option Response)} (client : cfg.client = .busy r rest)
    (r' : Request) : step memorySize latency cfg (.call r') = cfg := by
  simp only [step, client]

theorem unposted_step (h : Unposted cfg.client) (mine : e ≠ .server) :
    ∃ c, step memorySize latency cfg e = { cfg with client := c } ∧
      (Unposted c ∨ cfg.slot .reqType = .none ∧ ∃ r : Request, c = .busy r (storeAll r.fill (post r))) := by
  obtain ⟨slot, client, server, issued, consumed⟩ := cfg
  cases h with
  | idle =>
    cases e with
    | call r => exact ⟨_, rfl, .inl (.waitFree r 1000)⟩
    | client => exact ⟨_, rfl, .inl .idle⟩
    | server => exact (mine rfl).elim
  | waitFree r retries =>
    cases e with
    | call r' => exact ⟨_, rfl, .inl (.waitFree r retries)⟩
    | client =>
      cases retries with
      | zero => exact ⟨_, rfl, .inl .idle⟩
      | succ retries =>
        by_cases free : slot .reqType = .none
        · refine ⟨.busy r (storeAll r.fill (post r)), ?_, .inr ⟨free, r, rfl⟩⟩
          simp [step, waitFree, advance, free, Config.posts, Config.resume, returned_storeAll]
        · refine ⟨.busy r (waitFree r retries), ?_, .inl (.waitFree r retries)⟩
          simp [step, waitFree, advance, free, Config.posts, Config.resume, returned_waitFree]
    | server => exact (mine rfl).elim

theorem waitResp_step {retries : Nat} (h : cfg.client = .busy r (waitResp r retries)) (mine : e ≠ .server) :
    ∃ c, step memorySize latency cfg e = { cfg with client := c } ∧
      (c = .idle ∨ (∃ retries, c = .busy r (waitResp r retries)) ∨
        cfg.slot .respStatus ≠ .none ∧ c = .busy r (collect r)) := by
  obtain ⟨slot, client, server, issued, consumed⟩ := cfg
  obtain rfl : client = .busy r (waitResp r retries) := h
  cases e with
  | call r' => exact ⟨_, rfl, .inr (.inl ⟨retries, rfl⟩)⟩
  | client =>
    cases retries with
    | zero => exact ⟨_, rfl, .inl rfl⟩
    | succ retries =>
      by_cases waiting : slot .respStatus = .none
      · refine ⟨.busy r (waitResp r retries), ?_, .inr (.inl ⟨retries, rfl⟩)⟩
        simp [step, waitResp, advance, waiting, Config.posts, Config.resume, returned_waitResp]
      · refine ⟨.busy r (collect r), ?_, .inr (.inr ⟨waiting, rfl⟩)⟩
        simp [step, waitResp, advance, waiting, Config.posts, Config.resume, (collect_collecting r).returned]
  | server => exact (mine rfl).elim

theorem Waiting.step (h : Waiting r cfg.client) (req : cfg.slot .reqType ≠ .none)
    (status : cfg.slot .respStatus = .none) (mine : e ≠ .server) :
    ∃ c, step memorySize latency cfg e = { cfg with client := c } ∧ Waiting r c := by
  generalize same : cfg.client = client at h
  cases h with
  | waitResp retries =>
    obtain ⟨c, stepped, idle | ⟨retries, wait⟩ | ⟨answered, -⟩⟩ := waitResp_step memorySize latency same mine
    · exact ⟨c, stepped, .gaveUp (idle ▸ .idle)⟩
    · exact ⟨c, stepped, wait ▸ .waitResp retries⟩
    · exact (answered status).elim
  | gaveUp unposted =>
    obtain ⟨c, stepped, still | ⟨free, -⟩⟩ := unposted_step memorySize latency (same ▸ unposted) mine
    · exact ⟨c, stepped, .gaveUp still⟩
    · exact (req free).elim

theorem fill_step (client : cfg.client = .busy r (storeAll (w :: ws) (post r))) (off : w.1 ≠ .reqType) :
    step memorySize latency cfg .client =
      { cfg with slot := update cfg.slot w.1 w.2, client := .busy r (storeAll ws (post r)) } := by
  obtain ⟨f, v⟩ := w
  cases f <;>
    simp [step, client, storeAll, advance, Config.posts, Config.resume, returned_storeAll] at off ⊢

theorem post_step (client : cfg.client = .busy r (post r)) :
    cfg.posts = true ∧
    step memorySize latency cfg .client =
      { cfg with
        slot := update cfg.slot .reqType r.op.reqType
        client := .busy r (waitResp r 10000)
        issued := cfg.issued ++ [r] } := by
  have posts : cfg.posts = true := by simp only [Config.posts, client, post, returned_waitResp, Option.isNone_none]
  refine ⟨posts, ?_⟩
  simp only [step, client, posts, if_true, post, advance, Config.resume, returned_waitResp]

end Interleaving
end CxlMemSim.Pgas
