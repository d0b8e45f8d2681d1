import Mathlib.Algebra.Ring.Nat
import Mathlib.Data.Fin.Basic
import Mathlib.Data.List.Induction

/-! `handle_client` of `CXLMemSimServer` and `handle_tcp_client` of `CXLMemSimServerRDMA`, which differ in latencies
only. -/
namespace CxlMemSim.Qemu
open Function List

inductive CacheState where
  | invalid
  | shared
  | exclusive
  | modified
deriving DecidableEq

def CacheState.toByte : CacheState → UInt8
  | .invalid => 0
  | .shared => 1
  | .exclusive => 2
  | .modified => 3

abbrev Line := Fin 64 → UInt8

structure CXLMemoryEntry where
  data : Line := fun _ => 0
  cacheState : CacheState := .invalid
  ownerId : UInt8 := 0
  physicalAddr : UInt64 := 0

/-- `memory_storage`; looking up an absent address inserts the zero entry. -/
abbrev Storage := UInt64 → CXLMemoryEntry

inductive Server where
  | simple
  | rdma (isRdma : Bool)

def Server.writebackLatency : Server → UInt64
  | .simple => 50
  | .rdma isRdma => if isRdma then 15 else 50

def Server.invalidationLatency : Server → UInt64
  | .simple => 100
  | .rdma isRdma => if isRdma then 30 else 100

inductive OpType where
  | read
  | write
  | other
deriving DecidableEq

/-- `CXLMemSimRequest` with the host it comes from and the latency that `calculate_latency`
draws for it. -/
structure Request where
  opType : OpType
  addr : UInt64
  size : UInt64
  data : Line := fun _ => 0
  hostId : UInt8 := 1
  baseLatency : UInt64 := 0

structure Response where
  status : UInt8 := 0
  latencyNs : UInt64 := 0
  data : Line := fun _ => 0

def copyLine (destination source : Line) (size : UInt64) : Line :=
  fun i => if i.val < size.toNat then source i else destination i

def handleCoherencyTransition (entry : CXLMemoryEntry) (requesterId : UInt8) (isWrite : Bool) : CXLMemoryEntry :=
  if isWrite then
    match entry.cacheState with
    | .invalid | .shared | .exclusive => { entry with cacheState := .modified, ownerId := requesterId }
    | .modified => if entry.ownerId ≠ requesterId then { entry with ownerId := requesterId } else entry
  else
    match entry.cacheState with
    | .invalid => { entry with cacheState := .exclusive, ownerId := requesterId }
    | .exclusive | .modified => if entry.ownerId ≠ requesterId then { entry with cacheState := .shared } else entry
    | .shared => entry

/-- An entry counts as new while its `physical_addr` is 0. -/
def CXLMemoryEntry.openForRead (entry : CXLMemoryEntry) (addr : UInt64) : CXLMemoryEntry :=
  if entry.physicalAddr = 0 then { entry with physicalAddr := addr, cacheState := .invalid, data := fun _ => 0 }
  else entry

def CXLMemoryEntry.openForWrite (entry : CXLMemoryEntry) (addr : UInt64) : CXLMemoryEntry :=
  if entry.physicalAddr = 0 then { entry with physicalAddr := addr, cacheState := .invalid } else entry

def handleRead (server : Server) (storage : Storage) (req : Request) : CXLMemoryEntry × UInt64 × Line :=
  let entry := handleCoherencyTransition ((storage req.addr).openForRead req.addr) req.hostId false
  let newState := entry.cacheState
  let latency := if newState = .shared ∧ entry.cacheState = .modified then
      req.baseLatency + server.writebackLatency else req.baseLatency
  (entry, latency, copyLine (fun _ => 0) entry.data req.size)

def handleWrite (server : Server) (storage : Storage) (req : Request) : CXLMemoryEntry × UInt64 :=
  let opened := (storage req.addr).openForWrite req.addr
  let oldState := opened.cacheState
  let entry := handleCoherencyTransition opened req.hostId true
  let latency := if oldState = .shared ∨ (oldState = .modified ∧ entry.ownerId ≠ req.hostId) then
      req.baseLatency + server.invalidationLatency else req.baseLatency
  ({ entry with data := copyLine entry.data req.data req.size }, latency)

/-- One round of the loop of `handle_client`; the state of the line goes into the last byte
of the response's data. -/
def handleClient (server : Server) (storage : Storage) (req : Request) : Storage × Response :=
  match req.opType with
  | .read =>
    let (entry, latencyNs, data) := handleRead server storage req
    (update storage req.addr entry, { latencyNs, data := update data (Fin.last 63) entry.cacheState.toByte })
  | .write =>
    let (entry, latencyNs) := handleWrite server storage req
    (update storage req.addr entry, { latencyNs, data := update (fun _ => 0) (Fin.last 63) entry.cacheState.toByte })
  | .other => (storage, { status := 1 })

def serve (server : Server) (requests : List Request) : Storage :=
  requests.foldl (fun storage req => (handleClient server storage req).1) fun _ => {}

def Request.Writes (req : Request) (a : UInt64) : Prop :=
  req.opType = .write ∧ (a - req.addr).toNat < min req.size.toNat 64
deriving Decidable

def lastWritten (requests : List Request) (a : UInt64) : UInt8 :=
  requests.foldl (fun byte req => if req.Writes a then req.data (Fin.clamp (a - req.addr).toNat 63) else byte) 0

def lastWriter (requests : List Request) (a : UInt64) : Option UInt64 :=
  requests.foldl (fun writer req => if req.Writes a then some req.addr else writer) none

def Request.byteAddr (req : Request) (i : Fin 64) : UInt64 := req.addr + UInt64.ofNat i

def ReadsLastWritten (server : Server) (requests : List Request) : Prop :=
  ∀ before req, before ++ [req] <+: requests → req.opType = .read → ∀ i : Fin 64, i.val < req.size.toNat →
    (handleClient server (serve server before) req).2.data i = lastWritten before (req.byteAddr i)

/-- No read has a 64th byte, and each byte that a read covers was written last, if at all, by a
request at the read's own address, and that address is not 0. -/
def ReadsOwnWrites (requests : List Request) : Prop :=
  ∀ before req, before ++ [req] <+: requests → req.opType = .read → ∀ i : Fin 64, i.val < req.size.toNat →
    i ≠ Fin.last 63 ∧ ∀ writer ∈ lastWriter before (req.byteAddr i), writer = req.addr ∧ req.addr ≠ 0

def ownByte (requests : List Request) (a : UInt64) (i : Fin 64) : UInt8 :=
  requests.foldl (fun byte req =>
    if req.opType = .write ∧ req.addr = a ∧ i.val < req.size.toNat then req.data i else byte) 0

variable {a : UInt64}

section
variable {server : Server} {storage : Storage} {requests : List Request} {req : Request} {entry : CXLMemoryEntry}

@[simp] theorem data_handleCoherencyTransition (entry : CXLMemoryEntry) (requesterId : UInt8) (isWrite : Bool) :
    (handleCoherencyTransition entry requesterId isWrite).data = entry.data := by
  unfold handleCoherencyTransition
  split <;> split <;> (try split) <;> rfl

@[simp] theorem physicalAddr_handleCoherencyTransition (entry : CXLMemoryEntry) (requesterId : UInt8)
    (isWrite : Bool) :
    (handleCoherencyTransition entry requesterId isWrite).physicalAddr = entry.physicalAddr := by
  unfold handleCoherencyTransition
  split <;> split <;> (try split) <;> rfl

theorem toByte_ne_zero_of_read (entry : CXLMemoryEntry) (requesterId : UInt8) :
    (handleCoherencyTransition entry requesterId false).cacheState.toByte ≠ 0 := by
  unfold handleCoherencyTransition
  rw [if_neg Bool.false_ne_true]
  split
  · simp [CacheState.toByte]
  · rename_i exclusive
    split <;> simp [exclusive, CacheState.toByte]
  · rename_i modified
    split <;> simp [modified, CacheState.toByte]
  · rename_i shared
    simp [shared, CacheState.toByte]

theorem openForRead_addr
    (own : entry.physicalAddr = 0 ∨ entry.physicalAddr = a) : (entry.openForRead a).physicalAddr = a := by
  unfold CXLMemoryEntry.openForRead
  split
  · rfl
  · rename_i old
    exact own.resolve_left old

theorem openForWrite_addr
    (own : entry.physicalAddr = 0 ∨ entry.physicalAddr = a) : (entry.openForWrite a).physicalAddr = a := by
  unfold CXLMemoryEntry.openForWrite
  split
  · rfl
  · rename_i old
    exact own.resolve_left old

theorem openForRead_data (clear : entry.physicalAddr = 0 → entry.data = fun _ => 0)
    (a : UInt64) : (entry.openForRead a).data = entry.data := by
  unfold CXLMemoryEntry.openForRead
  split
  · rename_i new
    exact (clear new).symm
  · rfl

@[simp] theorem openForWrite_data (entry : CXLMemoryEntry) (a : UInt64) :
    (entry.openForWrite a).data = entry.data := by
  unfold CXLMemoryEntry.openForWrite
  split <;> rfl

structure Mirrors (storage : Storage) (requests : List Request) : Prop where
  addr : ∀ a, (storage a).physicalAddr = 0 ∨ (storage a).physicalAddr = a
  clear : ∀ a, a ≠ 0 → (storage a).physicalAddr = 0 → (storage a).data = fun _ => 0
  data : ∀ a, a ≠ 0 → (storage a).data = ownByte requests a

theorem ownByte_append (requests : List Request) (req : Request) (a : UInt64) (i : Fin 64) :
    ownByte (requests ++ [req]) a i =
      if req.opType = .write ∧ req.addr = a ∧ i.val < req.size.toNat then req.data i else ownByte requests a i := by
  rw [ownByte, foldl_append]
  rfl

theorem ownByte_of_not_write (notWrite : req.opType ≠ .write ∨ req.addr ≠ a) :
    ownByte (requests ++ [req]) a = ownByte requests a := by
  funext i
  rw [ownByte_append, if_neg]
  rintro ⟨isWrite, same, _⟩
  exact notWrite.elim (fun ne => ne isWrite) fun ne => ne same

theorem Mirrors.update (h : Mirrors storage requests) (entry : CXLMemoryEntry)
    (addr : entry.physicalAddr = req.addr) (data : req.addr ≠ 0 → entry.data = ownByte (requests ++ [req]) req.addr) :
    Mirrors (update storage req.addr entry) (requests ++ [req]) := by
  refine ⟨?_, ?_, ?_⟩
  · intro a
    by_cases same : a = req.addr
    · rw [same, update_self]
      exact .inr addr
    · rw [update_of_ne same]
      exact h.addr a
  · intro a nonzero new
    by_cases same : a = req.addr
    · rw [same, update_self, addr] at new
      exact absurd (same.trans new) nonzero
    · rw [update_of_ne same] at new ⊢
      exact h.clear a nonzero new
  · intro a nonzero
    by_cases same : a = req.addr
    · rw [same, update_self]
      exact data (same ▸ nonzero)
    · rw [update_of_ne same, h.data a nonzero, ownByte_of_not_write (.inr (Ne.symm same))]

theorem Mirrors.handleClient (h : Mirrors storage requests) (server : Server) (req : Request) :
    Mirrors (handleClient server storage req).1 (requests ++ [req]) := by
  unfold Qemu.handleClient
  split
  · rename_i isRead
    apply h.update
    · simp only [handleRead, physicalAddr_handleCoherencyTransition, openForRead_addr (h.addr req.addr)]
    · intro nonzero
      simp only [handleRead, data_handleCoherencyTransition, openForRead_data (h.clear req.addr nonzero),
        h.data req.addr nonzero]
      exact (ownByte_of_not_write (.inl (by rw [isRead]; decide))).symm
  · rename_i isWrite
    apply h.update
    · simp only [handleWrite, physicalAddr_handleCoherencyTransition, openForWrite_addr (h.addr req.addr)]
    · intro nonzero
      funext i
      simp only [handleWrite, copyLine, data_handleCoherencyTransition, openForWrite_data, h.data req.addr nonzero,
        ownByte_append, isWrite, true_and]
  · rename_i isOther
    have unwritten : ∀ a, ownByte (requests ++ [req]) a = ownByte requests a := fun a =>
      ownByte_of_not_write (.inl (by rw [isOther]; decide))
    exact ⟨h.addr, h.clear, fun a nonzero => (h.data a nonzero).trans (unwritten a).symm⟩

theorem mirrors_serve (server : Server) (requests : List Request) : Mirrors (serve server requests) requests := by
  induction requests using List.reverseRecOn with
  | nil => exact ⟨fun _ => .inl rfl, fun _ _ _ => rfl, fun _ _ => rfl⟩
  | append_singleton before req ih =>
    rw [serve, foldl_append]
    exact ih.handleClient server req

theorem data_of_read (isRead : req.opType = .read) {i : Fin 64} (covered : i.val < req.size.toNat)
    (notLast : i ≠ Fin.last 63) :
    (handleClient server (serve server requests) req).2.data i =
      if req.addr = 0 then 0 else ownByte requests req.addr i := by
  have mirrors := mirrors_serve server requests
  rw [Qemu.handleClient, isRead]
  simp only [handleRead, update_of_ne notLast, copyLine, covered, if_true, data_handleCoherencyTransition]
  split
  · rename_i zero
    have new : (serve server requests req.addr).physicalAddr = 0 := by
      have own := mirrors.addr req.addr
      rw [zero, or_self] at own
      rw [zero, own]
    rw [CXLMemoryEntry.openForRead, if_pos new]
  · rename_i nonzero
    rw [openForRead_data (mirrors.clear _ nonzero), mirrors.data _ nonzero]

theorem last_of_read (isRead : req.opType = .read) : (handleClient server storage req).2.data (Fin.last 63) ≠ 0 := by
  rw [Qemu.handleClient, isRead]
  simp only [handleRead, update_self]
  exact toByte_ne_zero_of_read _ _

theorem lastWritten_append (requests : List Request) (req : Request) (a : UInt64) :
    lastWritten (requests ++ [req]) a =
      if req.Writes a then req.data (Fin.clamp (a - req.addr).toNat 63) else lastWritten requests a := by
  rw [lastWritten, foldl_append]
  rfl

theorem lastWriter_append (requests : List Request) (req : Request) (a : UInt64) :
    lastWriter (requests ++ [req]) a = if req.Writes a then some req.addr else lastWriter requests a := by
  rw [lastWriter, foldl_append]
  rfl

theorem offset_toNat (a : UInt64) (i : Fin 64) : (a + UInt64.ofNat i - a).toNat = i.val := by
  have small : i.val % 2 ^ 64 = i.val := Nat.mod_eq_of_lt (Nat.lt_trans i.isLt (by decide))
  rw [UInt64.add_comm, UInt64.add_sub_cancel, UInt64.toNat_ofNat', small]

theorem writes_own_iff (req : Request) (i : Fin 64) :
    req.Writes (req.byteAddr i) ↔ req.opType = .write ∧ i.val < req.size.toNat := by
  rw [Request.Writes, Request.byteAddr, offset_toNat]
  exact and_congr_right fun _ => Nat.lt_min.trans (and_iff_left i.isLt)

theorem lastWritten_eq_ownByte {i : Fin 64} (own : ∀ writer ∈ lastWriter requests (a + UInt64.ofNat i), writer = a) :
    lastWritten requests (a + UInt64.ofNat i) = ownByte requests a i := by
  induction requests using List.reverseRecOn with
  | nil => rfl
  | append_singleton before req ih =>
    rw [lastWriter_append] at own
    rw [lastWritten_append, ownByte_append]
    by_cases writes : req.Writes (a + UInt64.ofNat i)
    · rw [if_pos writes] at own
      obtain rfl : req.addr = a := own req.addr rfl
      have covered := (writes_own_iff req i).mp writes
      have index : Fin.clamp i.val 63 = i := Fin.ext (Nat.min_eq_left (Nat.le_of_lt_succ i.isLt))
      rw [if_pos writes, if_pos ⟨covered.1, rfl, covered.2⟩, offset_toNat, index]
    · rw [if_neg writes] at own
      rw [if_neg writes, if_neg, ih own]
      rintro ⟨isWrite, rfl, covered⟩
      exact writes ((writes_own_iff req i).mpr ⟨isWrite, covered⟩)

theorem lastWritten_of_unwritten (unwritten : lastWriter requests a = none) : lastWritten requests a = 0 := by
  induction requests using List.reverseRecOn with
  | nil => rfl
  | append_singleton before req ih =>
    rw [lastWriter_append] at unwritten
    rw [lastWritten_append]
    split at unwritten
    · cases unwritten
    · rename_i notWrites
      rw [if_neg notWrites, ih unwritten]

theorem readsLastWritten_of_ownWrites (server : Server) (own : ReadsOwnWrites requests) :
    ReadsLastWritten server requests := by
  intro before req isPrefix isRead i covered
  obtain ⟨notLast, writers⟩ := own before req isPrefix isRead i covered
  have agree : lastWritten before (req.byteAddr i) = ownByte before req.addr i :=
    lastWritten_eq_ownByte fun writer member => (writers writer member).1
  rw [data_of_read isRead covered notLast]
  split
  · rename_i zero
    cases written : lastWriter before (req.byteAddr i) with
    | none => exact (lastWritten_of_unwritten written).symm
    | some writer => exact absurd zero (writers writer written).2
  · exact agree.symm

def Request.shape (req : Request) : Request := { req with data := fun _ => 0 }

theorem lastWriter_shape (requests : List Request) (a : UInt64) :
    lastWriter (requests.map Request.shape) a = lastWriter requests a := by
  rw [lastWriter, foldl_map]
  rfl

theorem readsOwnWrites_of_shape {other : List Request} (same : other.map Request.shape = requests.map Request.shape)
    (own : ReadsOwnWrites requests) : ReadsOwnWrites other := by
  rintro before req ⟨after, rfl⟩ isRead i covered
  rw [map_append, map_append, eq_comm, map_eq_append_iff] at same
  obtain ⟨initial, after', rfl, same, -⟩ := same
  rw [map_eq_append_iff] at same
  obtain ⟨before', last, rfl, sameBefore, sameLast⟩ := same
  rw [map_singleton, map_eq_singleton_iff] at sameLast
  obtain ⟨req', rfl, sameReq⟩ := sameLast
  obtain ⟨op, addr, size, data, host, latency⟩ := req
  obtain ⟨op', addr', size', data', host', latency'⟩ := req'
  obtain ⟨rfl, rfl, rfl, -, rfl, rfl⟩ := Request.mk.inj sameReq
  have there := own before' _ (prefix_append _ after') isRead i covered
  rwa [← lastWriter_shape, sameBefore, lastWriter_shape] at there

def Request.fill (req : Request) (byte : UInt64 → UInt8) : Request := { req with data := fun _ => byte req.addr }

theorem writes_fill (req : Request) (byte : UInt64 → UInt8) (a : UInt64) :
    (req.fill byte).Writes a ↔ req.Writes a := Iff.rfl

theorem shape_fill (byte : UInt64 → UInt8) (requests : List Request) :
    (requests.map (Request.fill · byte)).map Request.shape = requests.map Request.shape := by
  rw [map_map]
  rfl

theorem lastWritten_fill (byte : UInt64 → UInt8) (requests : List Request) (a : UInt64) :
    lastWritten (requests.map (Request.fill · byte)) a = (lastWriter requests a).elim 0 byte := by
  induction requests using List.reverseRecOn with
  | nil => rfl
  | append_singleton before req ih =>
    rw [map_append, map_singleton, lastWritten_append, lastWriter_append]
    simp only [writes_fill]
    by_cases writes : req.Writes a
    · rw [if_pos writes, if_pos writes]
      rfl
    · rw [if_neg writes, if_neg writes, ih]

theorem ownByte_fill {byte : UInt64 → UInt8} (zero : byte a = 0) (requests : List Request)
    (i : Fin 64) : ownByte (requests.map (Request.fill · byte)) a i = 0 := by
  induction requests using List.reverseRecOn with
  | nil => rfl
  | append_singleton before req ih =>
    rw [map_append, map_singleton, ownByte_append]
    split
    · rename_i writes
      rw [← zero, ← writes.2.1]
      rfl
    · exact ih

end

theorem ownWrites_of_readsLastWritten {server : Server} {requests : List Request}
    (all : ∀ byte, ReadsLastWritten server (requests.map (Request.fill · byte))) : ReadsOwnWrites requests := by
  rintro before req ⟨after, rfl⟩ isRead i covered
  -- the same read after the same requests with other bytes
  have there : ∀ byte, (handleClient server (serve server (before.map (Request.fill · byte)))
      (req.fill byte)).2.data i = (lastWriter before (req.byteAddr i)).elim 0 byte := by
    intro byte
    rw [← lastWritten_fill]
    refine all byte _ (req.fill byte) ?_ isRead i covered
    rw [map_append, map_append]
    exact prefix_append _ _
  have notLast : i ≠ Fin.last 63 := by
    rintro rfl
    have zeros := there fun _ => 0
    have isRead' : (req.fill fun _ => 0).opType = .read := isRead
    refine last_of_read isRead' (zeros.trans ?_)
    cases lastWriter before (req.byteAddr (Fin.last 63)) <;> rfl
  refine ⟨notLast, fun writer written => ?_⟩
  rw [Option.mem_def] at written
  constructor
  · -- ones everywhere but at the read's own address
    by_contra other
    have ones := there fun a => if a = req.addr then 0 else 1
    have isRead' : (req.fill fun a => if a = req.addr then 0 else 1).opType = .read := isRead
    rw [data_of_read isRead' covered notLast, written,
      ownByte_fill (a := (req.fill _).addr) (if_pos rfl), ite_self, Option.elim_some, if_neg other] at ones
    exact absurd ones (by decide)
  · intro zero
    have ones := there fun _ => 1
    have isRead' : (req.fill fun _ => 1).opType = .read := isRead
    rw [data_of_read isRead' covered notLast, written, if_pos (by exact zero), Option.elim_some] at ones
    exact absurd ones (by decide)

/-- Whatever bytes a sequence of requests writes, its reads return the bytes written last. -/
theorem readsLastWritten_iff (server : Server) (requests : List Request) :
    (∀ other : List Request, other.map Request.shape = requests.map Request.shape → ReadsLastWritten server other) ↔
      ReadsOwnWrites requests := by
  constructor
  · intro all
    exact ownWrites_of_readsLastWritten fun byte => all _ (shape_fill byte requests)
  · intro own other same
    exact readsLastWritten_of_ownWrites server (readsOwnWrites_of_shape same own)

def eightBytes : Line := fun i => if i.val < 8 then 0xab else 0

def overlapping : List Request :=
  [{ opType := .write, addr := 0x1000, size := 8, data := eightBytes }, { opType := .read, addr := 0x1004, size := 4 }]

def atZero : List Request :=
  [{ opType := .write, addr := 0, size := 8, data := eightBytes }, { opType := .read, addr := 0, size := 8 }]

def wholeLine : List Request := [{ opType := .read, addr := 0x40, size := 64 }]

/-- The overlapping read misses the write, address 0 is cleared by its read, and a read of a line
that was never written ends in its state. -/
theorem reads_lose_bytes :
    ¬ ReadsLastWritten .simple overlapping ∧ ¬ ReadsLastWritten .simple atZero ∧
      ¬ ReadsLastWritten .simple wholeLine ∧ ¬ ReadsLastWritten (.rdma false) overlapping ∧
      ¬ ReadsLastWritten (.rdma false) atZero ∧ ¬ ReadsLastWritten (.rdma false) wholeLine := by
  refine ⟨fun h => ?_, fun h => ?_, fun h => ?_, fun h => ?_, fun h => ?_, fun h => ?_⟩
  · exact absurd (h [_] _ prefix_rfl rfl 0 (by decide)) (by decide +kernel)
  · exact absurd (h [_] _ prefix_rfl rfl 0 (by decide)) (by decide +kernel)
  · exact absurd (h [] _ prefix_rfl rfl (Fin.last 63) (by decide)) (by decide +kernel)
  · exact absurd (h [_] _ prefix_rfl rfl 0 (by decide)) (by decide +kernel)
  · exact absurd (h [_] _ prefix_rfl rfl 0 (by decide)) (by decide +kernel)
  · exact absurd (h [] _ prefix_rfl rfl (Fin.last 63) (by decide)) (by decide +kernel)

end CxlMemSim.Qemu
