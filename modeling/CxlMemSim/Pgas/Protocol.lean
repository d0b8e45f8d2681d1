import CxlMemSim.Lib.SharedProgram
import CxlMemSim.Pgas.Memory

/-! `cxl_memsim_shm_request` of the client and one visit of `poll_pgas_shm_requests` to a slot, as programs of single
loads and stores of slot fields. -/
namespace CxlMemSim.Pgas
open ByteMemory Function SharedProgram

/-- `CXL_SHM_REQ_*`; `other` is every code that the server has no case for. -/
inductive ReqType where
  | none
  | read
  | write
  | atomicFaa
  | atomicCas
  | fence
  | other
  deriving DecidableEq, Repr

inductive RespStatus where
  | none
  | ok
  | error
  deriving DecidableEq, Repr

inductive Field where
  | reqType
  | respStatus
  | addr
  | size
  | value
  | expected
  | latencyNs
  | timestamp
  | data (i : Nat)
  deriving DecidableEq

@[reducible] def Field.Val : Field → Type
  | reqType => ReqType
  | respStatus => RespStatus
  | data _ => UInt8
  | addr | size | value | expected | latencyNs | timestamp => UInt64

abbrev Slot := ∀ f : Field, f.Val

def dataAt (slot : Slot) (i : Nat) : UInt8 := slot (.data i)

abbrev SlotProg (α : Type) := Prog Field.Val α

def byteStores (i : Nat) : List UInt8 → List (Store Field.Val)
  | [] => []
  | b :: bs => ⟨.data i, b⟩ :: byteStores (i + 1) bs

def loadBytes {α : Type} (i : Nat) : Nat → (List UInt8 → SlotProg α) → SlotProg α
  | 0, next => next []
  | n + 1, next => .load (.data i) fun b => loadBytes (i + 1) n fun bs => next (b :: bs)

structure Server where
  mem : Memory
  served : Nat

section Server
variable (memorySize : UInt64) (latency : Nat → UInt64 → UInt64 → UInt64)

def numCachelines : UInt64 := memorySize / 64

def clear (σ : Server) : SlotProg Server := .store .reqType .none (.ret σ)

def answer (status : RespStatus) (mem : Memory) (σ : Server) : SlotProg Server :=
  .store .respStatus status (clear { mem, served := σ.served + 1 })

def serveRequest (σ : Server) (addr lat : UInt64) : ReqType → SlotProg Server
  | .read =>
    .load .timestamp fun timestamp =>
    let mem := readEntry σ.mem addr timestamp
    .load .size fun size =>
    storeAll (byteStores 0 (peek mem (fun i => dataPtr addr + i) (copySize size))) <|
    .store .latencyNs lat <|
    answer .ok mem σ
  | .write =>
    .load .size fun size =>
    loadBytes 0 (copySize size) fun bytes =>
    .load .timestamp fun timestamp =>
    .store .latencyNs lat <|
    answer .ok (writeEntry σ.mem addr timestamp bytes) σ
  | .atomicFaa =>
    .load .addr fun again =>
    if again + 8 ≤ numCachelines memorySize * 64 then
      .load .value fun value =>
      storeAll (byteStores 0 (toBytesLE 8 (wordAt σ.mem addr).toNat)) <|
      .store .latencyNs lat <|
      answer .ok (faaEntry σ.mem addr value) σ
    else answer .error σ.mem σ
  | .atomicCas =>
    .load .addr fun again =>
    if again + 8 ≤ numCachelines memorySize * 64 then
      .load .expected fun expected =>
      .load .value fun value =>
      storeAll (byteStores 0 (toBytesLE 8 (wordAt σ.mem addr).toNat)) <|
      .store .latencyNs lat <|
      answer .ok (casEntry σ.mem addr expected value) σ
    else answer .error σ.mem σ
  | .fence =>
    .store .latencyNs 0 <|
    answer .ok σ.mem σ
  | .none | .other => clear σ

def poll (σ : Server) : SlotProg Server :=
  .load .reqType fun req =>
  if req = .none then .ret σ
  else
    .load .addr fun addr =>
    if numCachelines memorySize ≤ addr / 64 then answer .error σ.mem σ
    else
      .load .size fun size =>
      serveRequest memorySize σ addr (latency σ.served addr size) req

end Server

/-- `CXL_OP_*`; `other` is every operation without a request type of its own. -/
inductive Op where
  | read
  | write
  | atomicFaa
  | atomicCas
  | fence
  | other
  deriving DecidableEq, Repr

def Op.reqType : Op → ReqType
  | read => .read
  | write => .write
  | atomicFaa => .atomicFaa
  | atomicCas => .atomicCas
  | fence => .fence
  | other => .none

/-- The arguments of one call, and the clock reading it takes; `data` may be null. -/
structure Request where
  op : Op
  addr : UInt64
  size : UInt64
  timestamp : UInt64 := 0
  value : UInt64 := 0
  expected : UInt64 := 0
  data : Option (Vector UInt8 64) := .none

structure Response where
  status : UInt8
  latencyNs : UInt64
  oldValue : UInt64 := 0
  data : List UInt8 := []
  deriving DecidableEq

def Request.payload (r : Request) : List UInt8 :=
  match r.op, r.data with
  | .write, some data => data.toList.take (copySize r.size)
  | _, _ => []

def Request.fill (r : Request) : List (Store Field.Val) :=
  [⟨.addr, r.addr⟩, ⟨.size, r.size⟩, ⟨.timestamp, r.timestamp⟩, ⟨.value, r.value⟩, ⟨.expected, r.expected⟩] ++
    byteStores 0 r.payload

def release (resp : Response) : SlotProg (Option Response) :=
  .store .respStatus .none (.store .reqType .none (.ret (some resp)))

def collect (r : Request) : SlotProg (Option Response) :=
  .load .respStatus fun respStatus =>
  let status : UInt8 := if respStatus = RespStatus.ok then 0 else 1
  .load .latencyNs fun latencyNs =>
  match r.op with
  | .read => loadBytes 0 (copySize r.size) fun data => release { status, latencyNs, data }
  | .atomicFaa | .atomicCas => .load .value fun oldValue => release { status, latencyNs, oldValue }
  | .write | .fence | .other => release { status, latencyNs }

def waitResp (r : Request) : Nat → SlotProg (Option Response)
  | 0 => .load .respStatus fun _ => .ret none
  | retries + 1 => .load .respStatus fun status =>
    if status = RespStatus.none then waitResp r retries else collect r

def post (r : Request) : SlotProg (Option Response) := .store .reqType r.op.reqType (waitResp r 10000)

def waitFree (r : Request) : Nat → SlotProg (Option Response)
  | 0 => .load .reqType fun _ => .ret none
  | retries + 1 => .load .reqType fun req =>
    if req = ReqType.none then storeAll r.fill (post r) else waitFree r retries

/-- `cxl_memsim_shm_request` on a connected slot; `none` is the result -1. -/
def shmRequest (r : Request) : SlotProg (Option Response) := waitFree r 1000

def freeSlot : Slot := fun
  | .reqType => .none
  | .respStatus => .none
  | .data _ => 0
  | .addr | .size | .value | .expected | .latencyNs | .timestamp => 0

def zeroServer : Server := { mem := fun _ => 0, served := 0 }

def Request.posted (r : Request) (slot : Slot) : Slot :=
  update (applyAll r.fill slot) .reqType r.op.reqType

def complete (memorySize : UInt64) (latency : Nat → UInt64 → UInt64 → UInt64) (slot : Slot) (σ : Server)
    (r : Request) : Option Response × Slot × Server :=
  let (σ, slot) := (poll memorySize latency σ).exec (r.posted slot)
  let (resp, slot) := (collect r).exec slot
  (resp, slot, σ)

theorem exec_loadBytes {α : Type} (i n : Nat) (next : List UInt8 → SlotProg α) (slot : Slot) :
    (loadBytes i n next).exec slot = (next ((List.range n).map fun j => dataAt slot (i + j))).exec slot := by
  induction n generalizing i next with
  | zero => rfl
  | succ n ih =>
    rw [loadBytes, Prog.exec_load, ih, List.range_succ_eq_map, List.map_cons, List.map_map]
    simp only [comp_def, Nat.succ_eq_add_one, Nat.add_assoc, Nat.add_comm 1]
    rfl

theorem byteStores_off (i : Nat) (bs : List UInt8) {f : Field} (off : ∀ j, f ≠ .data j) :
    ∀ w ∈ byteStores i bs, w.1 ≠ f := by
  induction bs generalizing i with
  | nil => exact nofun
  | cons b bs ih =>
    intro w member
    rcases List.mem_cons.mp member with rfl | later
    · exact (off i).symm
    · exact ih (i + 1) w later

theorem byteStores_below (i : Nat) (bs : List UInt8) {j : Nat} (below : j < i) :
    ∀ w ∈ byteStores i bs, w.1 ≠ .data j := by
  induction bs generalizing i with
  | nil => exact nofun
  | cons b bs ih =>
    intro w member
    rcases List.mem_cons.mp member with rfl | later
    · intro same
      have := Field.data.inj same
      omega
    · exact ih (i + 1) (by omega) w later

theorem applyAll_byteStores (i : Nat) (bs : List UInt8) (slot : Slot) (j : Nat) :
    dataAt (applyAll (byteStores i bs) slot) (i + j) = bs[j]?.getD (dataAt slot (i + j)) := by
  induction bs generalizing i j slot with
  | nil => rfl
  | cons b bs ih =>
    cases j with
    | zero =>
      have kept := applyAll_other (byteStores_below (i + 1) bs (Nat.lt_succ_self i))
        (update slot (.data i) b)
      exact kept.trans (update_self _ _ _)
    | succ j =>
      have later := ih (i + 1) (update slot (.data i) b) j
      have elsewhere : Field.data (i + 1 + j) ≠ .data i := by
        intro same
        have := Field.data.inj same
        omega
      have kept : dataAt (update slot (.data i) b) (i + 1 + j) = dataAt slot (i + 1 + j) :=
        update_of_ne elsewhere _ _
      rw [show i + (j + 1) = i + 1 + j by omega, ← kept]
      exact later

end CxlMemSim.Pgas
