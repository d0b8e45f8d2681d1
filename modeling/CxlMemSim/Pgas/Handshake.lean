import CxlMemSim.Pgas.Interleaving

/-! Both sides clear the same two words, so a request has to be posted into a slot that the other side has really let go
of. -/
namespace CxlMemSim.Pgas
open Function Run SharedProgram Config List

variable {r : Request} {before : List Request} {cfg : Config}

section Handshake
variable (memorySize : UInt64) (latency : Nat → UInt64 → UInt64 → UInt64) {σ : Server}

section Phases
variable (q : Sequential) {resp : Response}

def served (before : List Request) (r : Request) : Server × Slot :=
  let now := sequential memorySize latency q before
  (poll memorySize latency now.server).exec (r.posted now.slot)

inductive Phase (cfg : Config) : Prop
  -- nothing is under way
  | free (slot : cfg.slot = (sequential memorySize latency q cfg.issued).slot)
      (server : Resting (sequential memorySize latency q cfg.issued).server cfg)
      (client : Unposted cfg.client ∨ ∃ r retries, cfg.client = .busy r (waitResp r retries))
  -- the client fills the slot
  | filling (r : Request) (todo : List (Store Field.Val)) (client : cfg.client = .busy r (storeAll todo (post r)))
      (off : ∀ w ∈ todo, w.1 ≠ .reqType ∧ w.1 ≠ .respStatus)
      (slot : applyAll todo cfg.slot = applyAll r.fill (sequential memorySize latency q cfg.issued).slot)
      (server : Resting (sequential memorySize latency q cfg.issued).server cfg)
  -- a request is posted and the worker has not seen it
  | pending (before : List Request) (r : Request) (issued : cfg.issued = before ++ [r]) (real : r.op ≠ .other)
      (slot : cfg.slot = r.posted (sequential memorySize latency q before).slot)
      (server : cfg.server = .ret (sequential memorySize latency q before).server) (client : Waiting r cfg.client)
  -- the worker is on it
  | serving (before : List Request) (r : Request) (issued : cfg.issued = before ++ [r]) (real : r.op ≠ .other)
      (answering : Answering cfg.server) (exec : cfg.server.exec cfg.slot = served memorySize latency q before r)
      (req : cfg.slot .reqType ≠ .none) (status : cfg.slot .respStatus = .none) (client : Waiting r cfg.client)
  -- the response is there and the client has not seen it
  | answered (before : List Request) (r : Request) (issued : cfg.issued = before ++ [r]) (real : r.op ≠ .other)
      (slot : update cfg.slot .reqType .none = (served memorySize latency q before r).2)
      (status : cfg.slot .respStatus ≠ .none) (server : Resting (served memorySize latency q before r).1 cfg)
      (client : ∃ retries, cfg.client = .busy r (waitResp r retries))
  -- the client reads the response
  | collecting (before : List Request) (r : Request) (issued : cfg.issued = before ++ [r]) (real : r.op ≠ .other)
      (rest : SlotProg (Option Response)) (client : cfg.client = .busy r rest) (collecting : Collecting rest)
      (exec : rest.exec cfg.slot = (collect r).exec (served memorySize latency q before r).2)
      (server : Resting (served memorySize latency q before r).1 cfg)
  -- the client gave up before the response came; nothing will clear it, so nothing is posted any more
  | stale (before : List Request) (r : Request) (issued : cfg.issued = before ++ [r]) (real : r.op ≠ .other)
      (status : cfg.slot .respStatus ≠ .none) (server : Resting (served memorySize latency q before r).1 cfg)
      (client : Unposted cfg.client ∨ ∃ r' todo, cfg.client = .busy r' (storeAll todo (post r')) ∧
        ∀ w ∈ todo, w.1 ≠ .reqType ∧ w.1 ≠ .respStatus)

def Delivered (cfg : Config) : Prop :=
  ∀ k resp, (k, resp) ∈ cfg.consumed →
    (sequential memorySize latency q cfg.issued).responses[k]? = some (some resp)

structure Inv (cfg : Config) : Prop where
  phase : Phase memorySize latency q cfg
  delivered : Delivered memorySize latency q cfg

theorem handle_responses (q : Sequential) (r : Request) :
    ∃ resp, (q.handle memorySize latency r).responses = q.responses ++ [resp] := by
  rw [Sequential.handle]
  split
  · exact ⟨none, rfl⟩
  · exact ⟨_, rfl⟩

theorem sequential_responses_length (calls : List Request) :
    (sequential memorySize latency q calls).responses.length = q.responses.length + calls.length := by
  induction calls generalizing q with
  | nil => rfl
  | cons r calls ih =>
    obtain ⟨resp, extended⟩ := handle_responses memorySize latency q r
    have later := ih (q.handle memorySize latency r)
    rw [extended] at later
    rw [sequential, foldl_cons, ← sequential, later, length_append, length_cons]
    simp only [length_cons, length_nil]
    omega

theorem responses_append {calls : List Request} {k : Nat} (r : Request)
    (h : (sequential memorySize latency q calls).responses[k]? = some (some resp)) :
    (sequential memorySize latency q (calls ++ [r])).responses[k]? = some (some resp) := by
  obtain ⟨next, extended⟩ := handle_responses memorySize latency (sequential memorySize latency q calls) r
  obtain ⟨inside, -⟩ := List.getElem?_eq_some_iff.mp h
  rw [sequential_append, extended, getElem?_append_left inside, h]

theorem handle_real (real : r.op ≠ .other) (before : List Request) :
    (sequential memorySize latency q (before ++ [r])).slot =
        ((collect r).exec (served memorySize latency q before r).2).2 ∧
      (sequential memorySize latency q (before ++ [r])).server = (served memorySize latency q before r).1 ∧
      (sequential memorySize latency q (before ++ [r])).responses =
        (sequential memorySize latency q before).responses ++
          [((collect r).exec (served memorySize latency q before r).2).1] := by
  rw [sequential_append, Sequential.handle, if_neg real]
  exact ⟨rfl, rfl, rfl⟩

theorem handle_other (other : r.op = .other) (before : List Request) :
    (sequential memorySize latency q (before ++ [r])).slot =
        r.posted (sequential memorySize latency q before).slot ∧
      (sequential memorySize latency q (before ++ [r])).server = (sequential memorySize latency q before).server := by
  rw [sequential_append, Sequential.handle, if_pos other]
  exact ⟨rfl, rfl⟩

section Steps
variable {memorySize latency q} {cfg : Config} {e : Event}

theorem Delivered.consume (delivered : Delivered memorySize latency q cfg) (fresh : q.responses = [])
    (issued : cfg.issued = before ++ [r])
    (answer : (sequential memorySize latency q (before ++ [r])).responses =
      (sequential memorySize latency q before).responses ++ [some resp]) (k : Nat) (resp' : Response)
    (member : (k, resp') ∈ cfg.consumed ++ [(cfg.issued.length - 1, resp)]) :
    (sequential memorySize latency q cfg.issued).responses[k]? = some (some resp') := by
  rcases mem_append.mp member with old | new
  · exact delivered k resp' old
  · obtain ⟨rfl, rfl⟩ : k = cfg.issued.length - 1 ∧ resp' = resp := by simpa using new
    have length := sequential_responses_length memorySize latency q before
    simp only [fresh, length_nil, Nat.zero_add] at length
    simp [issued, answer, ← length]

theorem Resting.step_free (h : Resting σ cfg) (free : cfg.slot .reqType = .none) :
    Pgas.step memorySize latency cfg .server = { cfg with server := .ret σ } := by
  rw [h.step]
  congr 1
  rw [← free, update_eq_self]

section
variable (delivered : Delivered memorySize latency q cfg)
include delivered

theorem free_step (start : SlotFree q.slot) (slot : cfg.slot = (sequential memorySize latency q cfg.issued).slot)
    (server : Resting (sequential memorySize latency q cfg.issued).server cfg)
    (client : Unposted cfg.client ∨ ∃ r retries, cfg.client = .busy r (waitResp r retries)) (e : Event) :
    Inv memorySize latency q (step memorySize latency cfg e) := by
  have free : SlotFree cfg.slot := slot ▸ sequential_free memorySize latency start cfg.issued
  by_cases theirs : e = .server
  · rw [theirs, server.step_free free.1]
    exact ⟨.free slot (.inr ⟨rfl, free.1⟩) client, delivered⟩
  rcases client with unposted | ⟨r, retries, waiting⟩
  · obtain ⟨c, stepped, still | ⟨-, r, filling⟩⟩ := unposted_step memorySize latency unposted theirs
    · rw [stepped]
      exact ⟨.free slot server (.inl still), delivered⟩
    · rw [stepped]
      exact ⟨.filling r r.fill filling (fun _ => fill_off) (by rw [slot]) server, delivered⟩
  · obtain ⟨c, stepped, idle | ⟨retries, wait⟩ | ⟨answered, -⟩⟩ := waitResp_step memorySize latency waiting theirs
    · rw [stepped]
      exact ⟨.free slot server (.inl (idle ▸ .idle)), delivered⟩
    · rw [stepped]
      exact ⟨.free slot server (.inr ⟨r, retries, wait⟩), delivered⟩
    · exact (answered free.2).elim

theorem filling_step (start : SlotFree q.slot) {todo : List (Store Field.Val)}
    (client : cfg.client = .busy r (storeAll todo (post r)))
    (off : ∀ w ∈ todo, w.1 ≠ .reqType ∧ w.1 ≠ .respStatus)
    (slot : applyAll todo cfg.slot = applyAll r.fill (sequential memorySize latency q cfg.issued).slot)
    (server : Resting (sequential memorySize latency q cfg.issued).server cfg)
    (clean : CleanPost cfg e) : Inv memorySize latency q (step memorySize latency cfg e) := by
  have free : SlotFree cfg.slot := by
    have filled := (fill_free r _).mpr (sequential_free memorySize latency start cfg.issued)
    rw [← slot] at filled
    exact (applyAll_free off _).mp filled
  cases e with
  | call r' =>
    rw [call_busy memorySize latency client]
    exact ⟨.filling r todo client off slot server, delivered⟩
  | server =>
    rw [server.step_free free.1]
    exact ⟨.filling r todo client off slot (.inr ⟨rfl, free.1⟩), delivered⟩
  | client =>
    cases todo with
    | cons w ws =>
      obtain ⟨notReq, notResp⟩ := off w mem_cons_self
      rw [fill_step memorySize latency client notReq]
      refine ⟨.filling r ws rfl (fun w' member => off w' (mem_cons_of_mem _ member)) slot ?_, delivered⟩
      exact server.keep rfl (update_of_ne notReq.symm _ _).trans
    | nil =>
      obtain ⟨posts, stepped⟩ := post_step memorySize latency client
      obtain ⟨-, idle⟩ := clean posts
      -- a clear still to come would wipe the request, so this is where the condition is needed
      have resting : cfg.server = .ret (sequential memorySize latency q cfg.issued).server := by
        rcases server with server | ⟨server, -⟩
        · simp [server, clear] at idle
        · exact server
      have posted : update cfg.slot .reqType r.op.reqType =
          r.posted (sequential memorySize latency q cfg.issued).slot :=
        congrArg (fun slot : Slot => update slot .reqType r.op.reqType) slot
      have extended : Delivered memorySize latency q (step memorySize latency cfg .client) := by
        rw [stepped]
        exact fun k resp member => responses_append memorySize latency q r (delivered k resp member)
      refine ⟨?_, extended⟩
      rw [stepped]
      by_cases other : r.op = .other
      · obtain ⟨slot', server'⟩ := handle_other memorySize latency q other cfg.issued
        refine .free (posted.trans slot'.symm) ?_ (.inr ⟨r, 10000, rfl⟩)
        rw [server']
        exact .inr ⟨resting, by simp [other, Op.reqType]⟩
      · exact .pending cfg.issued r rfl other posted resting (.waitResp 10000)

variable (issued : cfg.issued = before ++ [r]) (real : r.op ≠ .other)
include issued real

theorem pending_step (start : SlotFree q.slot)
    (slot : cfg.slot = r.posted (sequential memorySize latency q before).slot)
    (server : cfg.server = .ret (sequential memorySize latency q before).server) (client : Waiting r cfg.client)
    (e : Event) : Inv memorySize latency q (step memorySize latency cfg e) := by
  have req : cfg.slot .reqType = r.op.reqType := by simp [slot, Request.posted]
  have present : cfg.slot .reqType ≠ .none := by
    rw [req]
    cases op : r.op <;> simp [op, Op.reqType] at real ⊢
  have status : cfg.slot .respStatus = .none := by
    have filled := (fill_free r _).mpr (sequential_free memorySize latency start before)
    rw [slot, Request.posted, update_of_ne (by simp)]
    exact filled.2
  by_cases theirs : e = .server
  · obtain ⟨answering, kept⟩ := poll_advance memorySize latency real req (sequential memorySize latency q before).server
    have exec := Prog.exec_advance (poll memorySize latency (sequential memorySize latency q before).server) cfg.slot
    rw [kept] at exec
    have stepped : step memorySize latency cfg .server =
        { cfg with server :=
            ((poll memorySize latency (sequential memorySize latency q before).server).advance cfg.slot).1 } := by
      simp only [step, visit, server, Prog.returned_ret, kept]
    rw [theirs, stepped]
    refine ⟨.serving before r issued real answering (exec.trans ?_) present status client, delivered⟩
    rw [slot, served]
  · obtain ⟨c, stepped, waiting⟩ := client.step memorySize latency present status theirs
    rw [stepped]
    exact ⟨.pending before r issued real slot server waiting, delivered⟩

theorem serving_step (answering : Answering cfg.server)
    (exec : cfg.server.exec cfg.slot = served memorySize latency q before r)
    (req : cfg.slot .reqType ≠ .none) (status : cfg.slot .respStatus = .none) (client : Waiting r cfg.client)
    (e : Event) : Inv memorySize latency q (step memorySize latency cfg e) := by
  by_cases theirs : e = .server
  · subst theirs
    generalize program : cfg.server = server at answering exec
    cases answering with
    | answer given σ present =>
      have cleared : (σ, update (update cfg.slot .respStatus given) .reqType .none) =
          served memorySize latency q before r := exec
      rw [server_store memorySize latency program]
      refine ⟨?_, delivered⟩
      generalize cfg.client = c at client
      -- the client may have timed out while the worker was on its request
      cases client with
      | waitResp retries =>
        exact .answered before r issued real (by rw [← cleared]) (by simpa using present)
          (by rw [← cleared]; exact .inl rfl) ⟨retries, rfl⟩
      | gaveUp unposted =>
        exact .stale before r issued real (by simpa using present) (by rw [← cleared]; exact .inl rfl)
          (.inl unposted)
    | load f next later =>
      rw [server_load memorySize latency program]
      exact ⟨.serving before r issued real (later _) exec req status client, delivered⟩
    | store f v next notReq notResp later =>
      rw [server_store memorySize latency program]
      refine ⟨.serving before r issued real later exec ?_ ?_ client, delivered⟩
      · simpa [update_of_ne notReq.symm] using req
      · simpa [update_of_ne notResp.symm] using status
  · obtain ⟨c, stepped, waiting⟩ := client.step memorySize latency req status theirs
    rw [stepped]
    exact ⟨.serving before r issued real answering exec req status waiting, delivered⟩

variable (server : Resting (served memorySize latency q before r).1 cfg)
include server

theorem answered_step (slot : update cfg.slot .reqType .none = (served memorySize latency q before r).2)
    (status : cfg.slot .respStatus ≠ .none)
    (client : ∃ retries, cfg.client = .busy r (waitResp r retries)) (e : Event) :
    Inv memorySize latency q (step memorySize latency cfg e) := by
  by_cases theirs : e = .server
  · rw [theirs, server.step]
    refine ⟨.answered before r issued real ?_ ?_ resting_after client, delivered⟩
    · simpa only [update_idem] using slot
    · simpa using status
  obtain ⟨retries, waiting⟩ := client
  obtain ⟨c, stepped, idle | ⟨retries, wait⟩ | ⟨-, collects⟩⟩ := waitResp_step memorySize latency waiting theirs
  · rw [stepped]
    exact ⟨.stale before r issued real status server (.inl (idle ▸ .idle)), delivered⟩
  · rw [stepped]
    exact ⟨.answered before r issued real slot status server ⟨retries, wait⟩, delivered⟩
  · rw [stepped]
    refine ⟨.collecting before r issued real (collect r) collects (collect_collecting r) ?_ server, delivered⟩
    rw [← slot, (collect_collecting r).exec_update]

theorem collecting_step (fresh : q.responses = []) {rest : SlotProg (Option Response)}
    (client : cfg.client = .busy r rest) (collecting : Collecting rest)
    (exec : rest.exec cfg.slot = (collect r).exec (served memorySize latency q before r).2) (e : Event) :
    Inv memorySize latency q (step memorySize latency cfg e) := by
  cases e with
  | call r' =>
    rw [call_busy memorySize latency client]
    exact ⟨.collecting before r issued real rest client collecting exec server, delivered⟩
  | server =>
    rw [server.step]
    refine ⟨.collecting before r issued real rest client collecting ?_ resting_after, delivered⟩
    rw [← exec]
    exact collecting.exec_update _ _
  | client =>
    cases collecting with
    | load f next notReq later =>
      have stepped : step memorySize latency cfg .client =
          { cfg with client := .busy r (next (cfg.slot f)) } := by
        simp [step, client, Prog.advance, posts, resume, (later _).returned]
      rw [stepped]
      exact ⟨.collecting before r issued real _ rfl (later _) exec server, delivered⟩
    | release resp =>
      have stepped : step memorySize latency cfg .client =
          { cfg with
            slot := update cfg.slot .respStatus .none
            client := .busy r (.store .reqType .none (.ret (some resp))) } := by
        simp [step, client, release, Prog.advance, posts, resume]
      rw [stepped]
      refine ⟨.collecting before r issued real _ rfl (.last resp) exec ?_, delivered⟩
      exact server.keep rfl fun free => by simpa using free
    | last resp =>
      have stepped : step memorySize latency cfg .client =
          { cfg with
            slot := update cfg.slot .reqType .none
            client := .idle
            consumed := cfg.consumed ++ [(cfg.issued.length - 1, resp)] } := by
        simp [step, client, Prog.advance, posts, resume]
      -- nothing is left to read: what the client holds is what the reference collects
      have result : (some resp, update cfg.slot .reqType .none) =
          (collect r).exec (served memorySize latency q before r).2 := exec
      obtain ⟨slot', server', responses'⟩ := handle_real memorySize latency q real before
      rw [← result] at slot' responses'
      rw [stepped]
      refine ⟨.free ?_ ?_ (.inl .idle), delivered.consume fresh issued responses'⟩
      · simp only [issued, slot']
      · rw [issued, server']
        exact server.keep rfl fun _ => by simp

theorem stale_step (status : cfg.slot .respStatus ≠ .none)
    (client : Unposted cfg.client ∨ ∃ r' todo, cfg.client = .busy r' (storeAll todo (post r')) ∧
      ∀ w ∈ todo, w.1 ≠ .reqType ∧ w.1 ≠ .respStatus) (clean : CleanPost cfg e) :
    Inv memorySize latency q (step memorySize latency cfg e) := by
  by_cases theirs : e = .server
  · rw [theirs, server.step]
    exact ⟨.stale before r issued real (by simpa using status) resting_after client, delivered⟩
  rcases client with unposted | ⟨r', todo, filling, off⟩
  · obtain ⟨c, stepped, still | ⟨-, r', starts⟩⟩ := unposted_step memorySize latency unposted theirs
    · rw [stepped]
      exact ⟨.stale before r issued real status server (.inl still), delivered⟩
    · rw [stepped]
      exact ⟨.stale before r issued real status server (.inr ⟨r', r'.fill, starts, fun _ => fill_off⟩), delivered⟩
  · cases e with
    | server => exact (theirs rfl).elim
    | call r'' =>
      rw [call_busy memorySize latency filling]
      exact ⟨.stale before r issued real status server (.inr ⟨r', todo, filling, off⟩), delivered⟩
    | client =>
      cases todo with
      -- a post would take the old response for its own
      | nil => exact (status (clean (post_step memorySize latency filling).1).1).elim
      | cons w ws =>
        obtain ⟨notReq, notResp⟩ := off w mem_cons_self
        rw [fill_step memorySize latency filling notReq]
        refine ⟨.stale before r issued real ?_ ?_ (.inr ⟨r', ws, rfl, fun w' member =>
          off w' (mem_cons_of_mem _ member)⟩), delivered⟩
        · simpa [update_of_ne notResp.symm] using status
        · exact server.keep rfl (update_of_ne notReq.symm _ _).trans

end

theorem step_inv (start : SlotFree q.slot) (fresh : q.responses = []) (h : Inv memorySize latency q cfg)
    (clean : CleanPost cfg e) : Inv memorySize latency q (step memorySize latency cfg e) := by
  obtain ⟨phase, delivered⟩ := h
  cases phase with
  | free slot server client => exact free_step delivered start slot server client e
  | filling r todo client off slot server => exact filling_step delivered start client off slot server clean
  | pending before r issued real slot server client =>
    exact pending_step delivered issued real start slot server client e
  | serving before r issued real answering exec req status client =>
    exact serving_step delivered issued real answering exec req status client e
  | answered before r issued real slot status server client =>
    exact answered_step delivered issued real server slot status client e
  | collecting before r issued real rest client collecting exec server =>
    exact collecting_step delivered issued real server fresh client collecting exec e
  | stale before r issued real status server client =>
    exact stale_step delivered issued real server status client clean

end Steps

theorem server_alone (cfg : Config) (rest : SlotProg Server) (slot : Slot) :
    ∃ visits, run memorySize latency { cfg with server := rest, slot } (List.replicate visits .server) =
      { cfg with server := .ret (rest.exec slot).1, slot := (rest.exec slot).2 } := by
  induction rest generalizing slot with
  | ret σ => exact ⟨0, rfl⟩
  | load f next ih =>
    obtain ⟨visits, ends⟩ := ih (slot f) slot
    exact ⟨visits + 1, ends⟩
  | store f v next ih =>
    obtain ⟨visits, ends⟩ := ih (update slot f v)
    exact ⟨visits + 1, ends⟩

theorem Resting.finishes (h : Resting σ cfg) :
    ∃ visits, (run memorySize latency cfg (List.replicate visits .server)).server = .ret σ := by
  rcases h with server | ⟨server, -⟩
  · obtain ⟨visits, ends⟩ := server_alone memorySize latency cfg cfg.server cfg.slot
    refine ⟨visits, (congrArg Config.server ends).trans ?_⟩
    simp only [server, clear, Prog.exec_store, Prog.exec_ret]
  · exact ⟨0, server⟩

theorem Resting.finishes_served (issued : cfg.issued = before ++ [r]) (real : r.op ≠ .other)
    (h : Resting (served memorySize latency q before r).1 cfg) :
    ∃ visits, (run memorySize latency cfg (List.replicate visits .server)).server =
      .ret (sequential memorySize latency q cfg.issued).server := by
  rw [issued, (handle_real memorySize latency q real before).2.1]
  exact h.finishes memorySize latency

variable {memorySize latency q} in
theorem Phase.finishes (h : Phase memorySize latency q cfg) :
    ∃ visits, (run memorySize latency cfg (List.replicate visits .server)).server =
      .ret (sequential memorySize latency q cfg.issued).server := by
  cases h with
  | free slot server client => exact server.finishes memorySize latency
  | filling r todo client off slot server => exact server.finishes memorySize latency
  | pending before r issued real slot server client =>
    rw [issued, (handle_real memorySize latency q real before).2.1, served, ← slot]
    obtain ⟨visits, ends⟩ := server_alone memorySize latency cfg
      ((cfg.visit memorySize latency).advance cfg.slot).1 ((cfg.visit memorySize latency).advance cfg.slot).2
    refine ⟨visits + 1, (congrArg Config.server ends).trans ?_⟩
    simp only [Prog.exec_advance, visit, server, Prog.returned_ret]
  | serving before r issued real answering exec req status client =>
    rw [issued, (handle_real memorySize latency q real before).2.1, ← exec]
    obtain ⟨visits, ends⟩ := server_alone memorySize latency cfg cfg.server cfg.slot
    exact ⟨visits, congrArg server ends⟩
  | answered before r issued real slot status server client =>
    exact server.finishes_served memorySize latency q issued real
  | collecting before r issued real rest client collecting exec server =>
    exact server.finishes_served memorySize latency q issued real
  | stale before r issued real status server client =>
    exact server.finishes_served memorySize latency q issued real

end Phases

theorem poll_served (σ : Server) {slot : Slot} {op : Op} (real : op ≠ .other) (req : slot .reqType = op.reqType) :
    ((poll memorySize latency σ).exec slot).1.served = σ.served + 1 := by
  by_cases out : numCachelines memorySize ≤ slot .addr / 64
  · cases op <;> simp [poll, req, out, answer, clear, Op.reqType] at real ⊢
  · cases op with
    | read | fence => simp [poll, req, out, Op.reqType, serveRequest, answer, clear, exec_storeAll]
    | write => simp [poll, req, out, Op.reqType, serveRequest, answer, clear, exec_loadBytes]
    | atomicFaa | atomicCas =>
      by_cases bound : slot .addr + 8 ≤ numCachelines memorySize * 64 <;>
        simp [poll, req, out, bound, Op.reqType, serveRequest, answer, clear, exec_storeAll]
    | other => exact (real rfl).elim

theorem handle_served (q : Sequential) (r : Request) :
    (q.handle memorySize latency r).server.served = q.server.served + if r.op = .other then 0 else 1 := by
  rw [Sequential.handle]
  split
  · rfl
  · rename_i real
    exact poll_served memorySize latency q.server real (update_self _ _ _)

theorem sequential_served (q : Sequential) (calls : List Request) :
    (sequential memorySize latency q calls).server.served =
      q.server.served + calls.countP fun r => r.op ≠ .other := by
  induction calls generalizing q with
  | nil => rfl
  | cons r calls ih =>
    have later := ih (q.handle memorySize latency r)
    rw [handle_served] at later
    rw [sequential, foldl_cons, ← sequential, later, countP_cons, Nat.add_assoc, Nat.add_comm (ite _ _ _)]
    by_cases other : r.op = .other <;> simp [other]

theorem initial_inv (slot : Slot) (σ : Server) (free : SlotFree slot) :
    Inv memorySize latency { slot, server := σ } (.initial slot σ) :=
  ⟨.free rfl (.inr ⟨rfl, free.1⟩) (.inl .idle), nofun⟩

/-- If every request type is set in a slot that the worker has let go of and that holds no response, each request is
executed once, in order, and its response goes to the client that has just posted it. -/
theorem handshake_sequential {slot : Slot} (free : SlotFree slot) (σ : Server) {events : List Event}
    (clean : EveryStep (step memorySize latency) CleanPost (.initial slot σ) events) :
    let cfg := run memorySize latency (.initial slot σ) events
    let reference := sequential memorySize latency { slot, server := σ } cfg.issued
    (∃ visits, (run memorySize latency cfg (List.replicate visits .server)).server = .ret reference.server) ∧
      reference.server.served = σ.served + cfg.issued.countP (fun r => r.op ≠ .other) ∧
      ∀ k resp, (k, resp) ∈ cfg.consumed → reference.responses[k]? = some (some resp) := by
  have inv : Inv memorySize latency { slot, server := σ } (run memorySize latency (.initial slot σ) events) :=
    invariant_of_everyStep (I := Inv memorySize latency { slot, server := σ })
      (fun _ _ h ok => step_inv free rfl h ok) (initial_inv memorySize latency slot σ free) clean
  exact ⟨inv.phase.finishes, sequential_served memorySize latency _ _, inv.delivered⟩

theorem idle_alone (server : cfg.server = .ret σ) (free : cfg.slot .reqType = .none)
    (visits : Nat) : run memorySize latency cfg (List.replicate visits .server) = cfg := by
  have still : step memorySize latency cfg .server = cfg := by
    rw [Resting.step_free (.inr ⟨server, free⟩) free, ← server]
  induction visits with
  | zero => rfl
  | succ visits ih => rw [replicate_succ, run, foldl_cons, still, ← run, ih]

end Handshake

instance (cfg : Config) : ∀ e, Decidable (CleanPost cfg e)
  | .client => inferInstanceAs (Decidable (_ → _))
  | .call _ | .server => isTrue trivial

def readCall : Request := { op := .read, addr := 0, size := 2 }

def callAndVisit (accesses : Nat) : List Event :=
  .call readCall :: List.replicate 7 .client ++ List.replicate accesses .server ++ List.replicate 7 .client

theorem handshake_sequential_twice :
    let events := callAndVisit 10 ++ callAndVisit 10
    let cfg := run 4096 (fun _ _ _ => 0) (.initial freeSlot zeroServer) events
    EveryStep (step 4096 fun _ _ _ => 0) CleanPost (.initial freeSlot zeroServer) events ∧
      cfg.consumed.map Prod.fst = [0, 1] ∧
      ∃ visits, (run 4096 (fun _ _ _ => 0) cfg (List.replicate visits .server)).server =
        .ret (sequential 4096 (fun _ _ _ => 0) { slot := freeSlot, server := zeroServer } cfg.issued).server := by
  have clean : EveryStep (step 4096 fun _ _ _ => 0) CleanPost (.initial freeSlot zeroServer)
      (callAndVisit 10 ++ callAndVisit 10) := by decide +kernel
  exact ⟨clean, by decide +kernel, (handshake_sequential 4096 _ ⟨rfl, rfl⟩ zeroServer clean).1⟩

def lateClear : List Event := callAndVisit 9 ++ .call readCall :: List.replicate 7 .client ++ [.server]

/-- Two reads are posted, and the worker never executes more than one. -/
theorem handshake_loses_request :
    let cfg := run 4096 (fun _ _ _ => 0) (.initial freeSlot zeroServer) lateClear
    cfg.issued.map Request.op = [.read, .read] ∧
      ∀ visits, (run 4096 (fun _ _ _ => 0) cfg (List.replicate visits .server)).server.returned.map Server.served =
        some 1 := by
  intro cfg
  have idle : cfg.slot .reqType = .none := by decide +kernel
  have once : cfg.server.returned.map Server.served = some 1 := by decide +kernel
  obtain ⟨σ, between⟩ : ∃ σ, cfg.server = .ret σ := by
    cases server : cfg.server with
    | ret σ => exact ⟨σ, rfl⟩
    | load | store => simp [server] at once
  refine ⟨by decide +kernel, ?_⟩
  intro visits
  rw [idle_alone 4096 _ between idle visits, once]

end CxlMemSim.Pgas
