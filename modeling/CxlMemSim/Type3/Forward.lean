import CxlMemSim.Server.Storage
import CxlMemSim.Type3.Device

/-! `cxl_type3_read` and `cxl_type3_write`, the request helper they call, and the server at the other end of its TCP
connection. -/
namespace CxlMemSim.Type3
open ByteMemory

inductive MemTxResult where
  | ok
  | error
  | decodeError
  | accessError
deriving DecidableEq

inductive TransportMode where
  | tcp
  | shm
  | rdma
  | browser
deriving DecidableEq

structure Memsim where
  enabled : Bool := true
  transportMode : TransportMode := .tcp
  connected : Bool := false

/-- How far an exchange over the socket gets; without an answer the device cannot tell whether it was handled. -/
inductive Exchange where
  | unconnected
  | unsent
  | unanswered (handled : Bool)
  | answered
deriving DecidableEq

/-- Whether an RDMA connection can be made, the exchange with the server and its thread, the response over another
transport, and the outcome of the local access. -/
structure Surroundings where
  rdmaConnects : Bool := true
  exchange : Exchange := .answered
  threadId : Int := 0
  timestamp : UInt64 := 0
  msync : Nat → Bool := fun _ => true
  otherResponse : Option ServerResponse := none
  localResult : MemTxResult := .ok
  random : List UInt8 := []

structure GuestAccess where
  hostAddr : UInt64
  size : Nat
  size_pos : 0 < size
  size_le : size ≤ 8

structure System where
  memsim : Memsim
  server : ServerState
  localMem : AddressSpace → Segment

def Memsim.afterConnect (g : Memsim) (env : Surroundings) : Memsim :=
  if g.connected = false ∧ g.transportMode = .rdma ∧ env.rdmaConnects = false then { g with transportMode := .tcp }
  else g

def Surroundings.call (env : Surroundings) (opType : OpType) (addr : UInt64) (size : Nat)
    (data : List UInt8) : Call where
  threadId := env.threadId
  req :=
    { opType, addr, size := UInt64.ofNat size, timestamp := env.timestamp
      data := copyInto (Vector.replicate 64 0) data }
  msync := env.msync

def cxlMemsimRequest (env : Surroundings) (g : Memsim) (server : ServerState) (c : Call) :
    Memsim × ServerState × Option ServerResponse :=
  let g := g.afterConnect env
  if g.transportMode = .tcp then
    match env.exchange with
    | .unconnected | .unsent => ({ g with connected := false }, server, none)
    | .unanswered handled => ({ g with connected := false }, if handled then step server c else server, none)
    | .answered => ({ g with connected := true }, step server c, some (respond server c))
  else
    let kept := decide (g.transportMode = .shm) && g.connected
    ({ g with connected := kept || env.otherResponse.isSome }, server, env.otherResponse)

def TransportMode.Authoritative (mode : TransportMode) : Prop := mode = .tcp ∨ mode = .rdma ∨ mode = .browser
deriving Decidable

def overlay (bytes buffer : List UInt8) : List UInt8 := bytes ++ buffer.drop bytes.length

def cxlType3Read (ct3d : CXLType3Dev) (env : Surroundings) (st : System) (a : GuestAccess) (buffer : List UInt8) :
    MemTxResult × List UInt8 × System :=
  match ct3d.hpaToAsAndDpa a.hostAddr (UInt64.ofNat a.size) with
  | .error _ => (.error, buffer, st)
  | .ok (as, dpaOffset) =>
    let fallback := overlay (peek (st.localMem as) (walk dpaOffset) a.size) buffer
    if ct3d.mediaDisabled then (.ok, overlay (env.random.take a.size) buffer, st)
    else if st.memsim.enabled then
      match cxlMemsimRequest env st.memsim st.server (env.call .read dpaOffset a.size []) with
      | (memsim, server, some resp) =>
        let st := { st with memsim, server }
        let data := if resp.status = 0 then overlay (resp.data.toList.take a.size) buffer else buffer
        if memsim.transportMode.Authoritative then (.ok, data, st) else (env.localResult, fallback, st)
      | (memsim, server, none) =>
        let st := { st with memsim, server }
        if memsim.transportMode = .browser then (.error, buffer, st) else (env.localResult, fallback, st)
    else (env.localResult, fallback, st)

def storeLocal (st : System) (as : AddressSpace) (dpaOffset : UInt64) (bytes : List UInt8) : System :=
  { st with localMem := Function.update st.localMem as (poke (st.localMem as) (walk dpaOffset) bytes) }

def GuestAccess.bytes (a : GuestAccess) (value : UInt64) : List UInt8 := (toBytesLE 8 value.toNat).take a.size

def cxlType3Write (ct3d : CXLType3Dev) (env : Surroundings) (st : System) (a : GuestAccess) (value : UInt64) :
    MemTxResult × System :=
  match ct3d.hpaToAsAndDpa a.hostAddr (UInt64.ofNat a.size) with
  | .error _ => (.error, st)
  | .ok (as, dpaOffset) =>
    let bytes := a.bytes value
    if ct3d.mediaDisabled then (.ok, st)
    else if st.memsim.enabled then
      match cxlMemsimRequest env st.memsim st.server (env.call .write dpaOffset a.size bytes) with
      | (memsim, server, some _) =>
        let st := { st with memsim, server }
        if memsim.transportMode.Authoritative then (.ok, st)
        else (env.localResult, storeLocal st as dpaOffset bytes)
      | (memsim, server, none) =>
        let st := { st with memsim, server }
        if memsim.transportMode = .browser then (.error, st)
        else (env.localResult, storeLocal st as dpaOffset bytes)
    else (env.localResult, storeLocal st as dpaOffset bytes)

abbrev Surroundings.readCall (env : Surroundings) (dpaOffset : UInt64) (a : GuestAccess) : Call :=
  env.call .read dpaOffset a.size []

abbrev Surroundings.writeCall (env : Surroundings) (dpaOffset : UInt64) (a : GuestAccess) (value : UInt64) : Call :=
  env.call .write dpaOffset a.size (a.bytes value)

structure Forwards (ct3d : CXLType3Dev) (env : Surroundings) (st : System) (a : GuestAccess) (as : AddressSpace)
    (dpaOffset : UInt64) : Prop where
  translated : ct3d.hpaToAsAndDpa a.hostAddr (UInt64.ofNat a.size) = .ok (as, dpaOffset)
  media : ct3d.mediaDisabled = false
  enabled : st.memsim.enabled = true
  tcp : (st.memsim.afterConnect env).transportMode = .tcp

/-- `MEMTX_OK` only for an answer with status 0, and then the data are the server's. -/
structure ReadContract (ct3d : CXLType3Dev) (env : Surroundings) (st : System) (a : GuestAccess) (dpaOffset : UInt64)
    (buffer : List UInt8) : Prop where
  answered : (cxlType3Read ct3d env st a buffer).1 = .ok →
    env.exchange = .answered ∧ (respond st.server (env.readCall dpaOffset a)).status = 0
  data : (cxlType3Read ct3d env st a buffer).1 = .ok →
    readCacheline ((env.readCall dpaOffset a).checked st.server).mem dpaOffset a.size =
      some ((cxlType3Read ct3d env st a buffer).2.1.take a.size)

structure WriteContract (ct3d : CXLType3Dev) (env : Surroundings) (st : System) (a : GuestAccess) (dpaOffset : UInt64)
    (value : UInt64) : Prop where
  answered : (cxlType3Write ct3d env st a value).1 = .ok →
    env.exchange = .answered ∧ (respond st.server (env.writeCall dpaOffset a value)).status = 0
  applied : (cxlType3Write ct3d env st a value).1 = .ok →
    writeCacheline st.server.mem dpaOffset (a.bytes value) true =
      ((cxlType3Write ct3d env st a value).2.server.mem, true)

structure ServesRead (s : ServerState) (c : Call) : Prop where
  valid : isValidAddress s.mem c.req.addr = true
  accessible : Accessible (c.checked s).mem c.req.addr c.size

structure ServesWrite (s : ServerState) (c : Call) : Prop where
  valid : isValidAddress s.mem c.req.addr = true
  accessible : Accessible s.mem c.req.addr c.size
  synced : c.msync 0 = true

section
variable {s : ServerState} {c : Call}

theorem respond_invalid (op : c.req.opType = .read ∨ c.req.opType = .write)
    (invalid : ¬ isValidAddress s.mem c.req.addr = true) : respond s c = { status := 1 } := by
  rcases op with op | op <;> simp only [respond, handleRequest, op, if_neg invalid]

theorem read_status_iff (op : c.req.opType = .read) : (respond s c).status = 0 ↔ ServesRead s c := by
  by_cases valid : isValidAddress s.mem c.req.addr = true
  · rw [respond_read op valid, readCacheline_eq]
    by_cases accessible : Accessible (c.checked s).mem c.req.addr c.size
    · rw [if_pos accessible]
      exact iff_of_true rfl ⟨valid, accessible⟩
    · rw [if_neg accessible]
      exact iff_of_false (show ¬ (1 : UInt8) = 0 by decide) fun serves => accessible serves.accessible
  · rw [respond_invalid (.inl op) valid]
    exact iff_of_false (show ¬ (1 : UInt8) = 0 by decide) fun serves => valid serves.valid

theorem read_bytes (op : c.req.opType = .read) (serves : ServesRead s c) :
    readCacheline (c.checked s).mem c.req.addr c.size = some ((respond s c).data.toList.take c.size) := by
  have accessible := serves.accessible
  rw [respond_read op serves.valid, readCacheline_eq, if_pos accessible]
  have length := peek_length (c.checked s).mem (fun i => backing (c.checked s).mem (walk c.req.addr i)) c.size
  have copied := copyInto_take (Vector.replicate 64 0) (length.trans_le accessible.2.1)
  rw [length] at copied
  exact congrArg some copied.symm

theorem write_status_iff (op : c.req.opType = .write) : (respond s c).status = 0 ↔ ServesWrite s c := by
  by_cases valid : isValidAddress s.mem c.req.addr = true
  · rw [respond_write op valid]
    by_cases accessible : Accessible s.mem c.req.addr c.size
    · rw [writeCacheline_of_accessible _ (by rwa [c.payload_length])]
      cases synced : c.msync 0 with
      | true => exact iff_of_true rfl ⟨valid, accessible, synced⟩
      | false =>
        refine iff_of_false (show ¬ (1 : UInt8) = 0 by decide) fun serves => ?_
        exact Bool.false_ne_true (synced.symm.trans serves.synced)
    · rw [writeCacheline_of_not_accessible _ (by rwa [c.payload_length])]
      exact iff_of_false (show ¬ (1 : UInt8) = 0 by decide) fun serves => accessible serves.accessible
  · rw [respond_invalid (.inr op) valid]
    exact iff_of_false (show ¬ (1 : UInt8) = 0 by decide) fun serves => valid serves.valid

theorem write_applied (op : c.req.opType = .write) (serves : ServesWrite s c) :
    writeCacheline s.mem c.req.addr c.payload true = ((step s c).mem, true) := by
  rw [step_write_mem op serves.valid, serves.synced]
  have accessible : Accessible s.mem c.req.addr c.payload.length := by
    rw [c.payload_length]
    exact serves.accessible
  exact Prod.ext rfl (writeCacheline_of_accessible true accessible)

end

section
variable {ct3d : CXLType3Dev} {env : Surroundings} {st : System} {a : GuestAccess} {as : AddressSpace}
  {dpaOffset : UInt64}

theorem call_size (env : Surroundings) (opType : OpType) (addr : UInt64) (a : GuestAccess) (data : List UInt8) :
    (env.call opType addr a.size data).size = a.size := by
  have positive := a.size_pos
  have small := a.size_le
  have size : (UInt64.ofNat a.size).toNat = a.size := by
    rw [UInt64.toNat_ofNat']
    exact Nat.mod_eq_of_lt (by omega)
  have nonzero : ¬ (UInt64.ofNat a.size = 0 ∨ 64 < UInt64.ofNat a.size) := by
    rw [UInt64.lt_iff_toNat_lt, ← UInt64.toNat_inj, size]
    change ¬ (a.size = 0 ∨ 64 < a.size)
    omega
  rw [Call.size, Surroundings.call, clampSize, if_neg nonzero, size]

theorem bytes_length (a : GuestAccess) (value : UInt64) : (a.bytes value).length = a.size := by
  have := a.size_le
  simp [GuestAccess.bytes, this]

theorem call_payload (env : Surroundings) (addr : UInt64) (a : GuestAccess) (value : UInt64) :
    (env.writeCall addr a value).payload = a.bytes value := by
  have small := a.size_le
  have length := bytes_length a value
  have copied := copyInto_take (Vector.replicate 64 0) (show (a.bytes value).length ≤ 64 by omega)
  rw [Call.payload, call_size]
  rwa [length] at copied

theorem overlay_take {bytes : List UInt8} (buffer : List UInt8) {n : Nat} (length : bytes.length = n) :
    (overlay bytes buffer).take n = bytes := by
  rw [overlay, ← length, List.take_left]

section
variable (fw : Forwards ct3d env st a as dpaOffset)
include fw

theorem read_result (buffer : List UInt8) :
    (cxlType3Read ct3d env st a buffer).1 = if env.exchange = .answered then .ok else env.localResult := by
  rw [cxlType3Read, fw.translated]
  simp only [fw.media, fw.enabled, Bool.false_eq_true, if_false, if_true, cxlMemsimRequest, fw.tcp]
  cases env.exchange <;> simp [TransportMode.Authoritative]

theorem read_data (buffer : List UInt8) (answered : env.exchange = .answered)
    (status : (respond st.server (env.readCall dpaOffset a)).status = 0) : (cxlType3Read ct3d env st a buffer).2.1 =
      overlay ((respond st.server (env.readCall dpaOffset a)).data.toList.take a.size) buffer := by
  rw [cxlType3Read, fw.translated]
  simp only [fw.media, fw.enabled, Bool.false_eq_true, if_false, if_true, cxlMemsimRequest, fw.tcp, answered]
  simp [TransportMode.Authoritative, status]

theorem write_result (value : UInt64) :
    (cxlType3Write ct3d env st a value).1 = if env.exchange = .answered then .ok else env.localResult := by
  rw [cxlType3Write, fw.translated]
  simp only [fw.media, fw.enabled, Bool.false_eq_true, if_false, if_true, cxlMemsimRequest, fw.tcp]
  cases env.exchange <;> simp [TransportMode.Authoritative]

theorem write_server (value : UInt64) (answered : env.exchange = .answered) :
    (cxlType3Write ct3d env st a value).2.server = step st.server (env.writeCall dpaOffset a value) := by
  rw [cxlType3Write, fw.translated]
  simp only [fw.media, fw.enabled, Bool.false_eq_true, if_false, if_true, cxlMemsimRequest, fw.tcp, answered]
  simp [TransportMode.Authoritative]

end

/-- The access is safe: an answer is one the server can give with status 0, and an access that
gets no answer also fails locally. -/
def Safe (env : Surroundings) (serves : Prop) : Prop :=
  (env.exchange = .answered → serves) ∧ (env.exchange ≠ .answered → env.localResult ≠ .ok)

theorem safe_iff {result : MemTxResult} (decided : result = if env.exchange = .answered then .ok else env.localResult)
    (serves : Prop) : (result = .ok → env.exchange = .answered ∧ serves) ↔ Safe env serves := by
  by_cases answered : env.exchange = .answered
  · rw [if_pos answered] at decided
    exact ⟨fun ok => ⟨fun _ => (ok decided).2, fun unanswered => absurd answered unanswered⟩,
      fun safe _ => ⟨answered, safe.1 answered⟩⟩
  · rw [if_neg answered] at decided
    exact ⟨fun ok => ⟨fun h => absurd h answered, fun _ localOk => answered (ok (decided.trans localOk)).1⟩,
      fun safe ok => absurd (decided.symm.trans ok) (safe.2 answered)⟩

theorem readContract_iff (fw : Forwards ct3d env st a as dpaOffset) (buffer : List UInt8) :
    ReadContract ct3d env st a dpaOffset buffer ↔ Safe env (ServesRead st.server (env.readCall dpaOffset a)) := by
  have status : (respond st.server (env.readCall dpaOffset a)).status = 0 ↔ _ := read_status_iff rfl
  rw [← safe_iff (read_result fw buffer), ← status]
  refine ⟨ReadContract.answered, fun contract => ⟨contract, fun ok => ?_⟩⟩
  obtain ⟨answered, served⟩ := contract ok
  have bytes := read_bytes rfl (status.mp served)
  rw [call_size] at bytes
  rw [read_data fw buffer answered served, overlay_take]
  · exact bytes
  · have := a.size_le
    simp
    omega

theorem writeContract_iff (fw : Forwards ct3d env st a as dpaOffset) (value : UInt64) :
    WriteContract ct3d env st a dpaOffset value ↔
      Safe env (ServesWrite st.server (env.writeCall dpaOffset a value)) := by
  have status : (respond st.server (env.writeCall dpaOffset a value)).status = 0 ↔ _ := write_status_iff rfl
  rw [← safe_iff (write_result fw value), ← status]
  refine ⟨WriteContract.answered, fun contract => ⟨contract, fun ok => ?_⟩⟩
  obtain ⟨answered, served⟩ := contract ok
  have applied := write_applied rfl (status.mp served)
  rw [call_payload] at applied
  rwa [write_server fw value answered]

end

theorem forwarding_contract_iff (ct3d : CXLType3Dev) (env : Surroundings) (st : System) (a : GuestAccess)
    {as : AddressSpace} {dpaOffset : UInt64} (fw : Forwards ct3d env st a as dpaOffset) (buffer : List UInt8)
    (value : UInt64) :
    (ReadContract ct3d env st a dpaOffset buffer ↔ Safe env (ServesRead st.server (env.readCall dpaOffset a))) ∧
      (WriteContract ct3d env st a dpaOffset value ↔
        Safe env (ServesWrite st.server (env.writeCall dpaOffset a value))) :=
  ⟨readContract_iff fw buffer, writeContract_iff fw value⟩

def volatileDevice : CXLType3Dev where
  hostvmem := some 0x100000
  decoders := [{ baseLo := 0, baseHi := 0, sizeLo := 0x10000000, sizeHi := 0 }]
  fits := by decide

def wordAccess : GuestAccess := ⟨0x1000, 8, by decide, by decide⟩

def beside (base : UInt64) : System where
  memsim := {}
  server := .initial (freshMapping 0x100000 base)
  localMem := fun _ _ => 0

theorem forwards_beside (env : Surroundings) (base : UInt64) :
    Forwards volatileDevice env (beside base) wordAccess .hostvmem 0x1000 where
  translated := by decide +kernel
  media := rfl
  enabled := rfl
  tcp := by simp [beside, Memsim.afterConnect]

theorem forwarding_contract_iff_word :
    ReadContract volatileDevice {} (beside 0) wordAccess 0x1000 [] ∧
      WriteContract volatileDevice {} (beside 0) wordAccess 0x1000 7 := by
  have both := forwarding_contract_iff volatileDevice {} (beside 0) wordAccess (forwards_beside {} 0) [] 7
  refine ⟨both.1.mpr ⟨fun _ => ⟨by decide +kernel, by decide +kernel⟩, fun other => absurd rfl other⟩,
    both.2.mpr ⟨fun _ => ⟨by decide +kernel, by decide +kernel, rfl⟩, fun other => absurd rfl other⟩⟩

/-- The server refuses an address below its base, and the guest sees success; nobody listens, and local memory
answers. -/
theorem refused_accesses_succeed :
    (cxlType3Read volatileDevice {} (beside 0x100000000) wordAccess [1, 2, 3, 4, 5, 6, 7, 8]).1 = .ok ∧
      (cxlType3Read volatileDevice {} (beside 0x100000000) wordAccess [1, 2, 3, 4, 5, 6, 7, 8]).2.1 =
        [1, 2, 3, 4, 5, 6, 7, 8] ∧
      ¬ ReadContract volatileDevice {} (beside 0x100000000) wordAccess 0x1000 [1, 2, 3, 4, 5, 6, 7, 8] ∧
      ¬ WriteContract volatileDevice {} (beside 0x100000000) wordAccess 0x1000 7 ∧
      ¬ ReadContract volatileDevice { exchange := .unconnected } (beside 0) wordAccess 0x1000 [] ∧
      ¬ WriteContract volatileDevice { exchange := .unconnected } (beside 0) wordAccess 0x1000 7 := by
  refine ⟨by decide +kernel, by decide +kernel, fun contract => ?_, fun contract => ?_, fun contract => ?_,
    fun contract => ?_⟩
  · exact absurd (((readContract_iff (forwards_beside _ _) _).mp contract).1 rfl).valid (by decide +kernel)
  · exact absurd (((writeContract_iff (forwards_beside _ _) _).mp contract).1 rfl).valid (by decide +kernel)
  · exact ((readContract_iff (forwards_beside _ _) _).mp contract).2 (by decide) rfl
  · exact ((writeContract_iff (forwards_beside _ _) _).mp contract).2 (by decide) rfl

end CxlMemSim.Type3
