import CxlMemSim.Shm.Access

/-! What the handlers of a node do to its memory for a read, write, FAA or CAS over the SHM queue, and over TCP. -/
namespace CxlMemSim.Dist
open ByteMemory

inductive Operation where
  | read (size : Nat)
  | write (data : List UInt8)
  | atomicFaa (value : UInt64)
  | atomicCas (expected desired : UInt64)

inductive Outcome where
  | failed
  | data (bytes : List UInt8)
  | written
  | oldValue (value : UInt64)
deriving DecidableEq

def atomicPointer (mem : Segment) (addr : UInt64) : Option UInt64 :=
  (getCachelineData mem (addrToCacheline addr)).map fun data => data + addr % 64

def handleAtomicFaa (mem : Segment) (addr value : UInt64) : Segment × Outcome :=
  match atomicPointer mem addr with
  | none => (mem, .failed)
  | some ptr => (storeU64 mem ptr (loadU64 mem ptr + value), .oldValue (loadU64 mem ptr))

def handleAtomicCas (mem : Segment) (addr expected desired : UInt64) : Segment × Outcome :=
  match atomicPointer mem addr with
  | none => (mem, .failed)
  | some ptr =>
    (if loadU64 mem ptr = expected then storeU64 mem ptr desired else mem, .oldValue (loadU64 mem ptr))

/-- The operation on a node's own memory; `msyncOk` is the outcome of `msync` in a write. -/
def perform (msyncOk : Bool) (mem : Segment) (addr : UInt64) : Operation → Segment × Outcome
  | .read size =>
    (mem, match readCacheline mem addr size with
      | some bytes => .data bytes
      | none => .failed)
  | .write data =>
    let (mem, ok) := writeCacheline mem addr data msyncOk
    (mem, if ok then .written else .failed)
  | .atomicFaa value => handleAtomicFaa mem addr value
  | .atomicCas expected desired => handleAtomicCas mem addr expected desired

theorem perform_refused {mem : Segment} {addr : UInt64} (base : baseAddr mem ≠ 0)
    (unbacked : getCachelineData mem (addrToCacheline addr) = none) (msyncOk : Bool) (op : Operation) :
    perform msyncOk mem addr op = (mem, .failed) := by
  have refused : ∀ size, ¬ Accessible mem addr size := by
    rintro size ⟨-, -, mode⟩
    have found := (mode.resolve_left base).1
    rw [unbacked] at found
    cases found
  have pointer : atomicPointer mem addr = none := by rw [atomicPointer, unbacked, Option.map_none]
  cases op with
  | read size => rw [perform, readCacheline_eq, if_neg (refused size)]
  | write data =>
    rw [perform, writeCacheline_of_not_accessible msyncOk (refused data.length)]
    rfl
  | atomicFaa value => rw [perform, handleAtomicFaa, pointer]
  | atomicCas expected desired => rw [perform, handleAtomicCas, pointer]

theorem perform_atomicFaa {mem : Segment} {addr : UInt64} (msyncOk : Bool)
    (backed : (getCachelineData mem (addrToCacheline addr)).isSome) :
    (perform msyncOk mem addr (.atomicFaa 1)).2 ≠ .failed ∧ (perform msyncOk mem addr (.atomicFaa 1)).1 ≠ mem := by
  obtain ⟨data, line⟩ := Option.isSome_iff_exists.mp backed
  simp only [perform, handleAtomicFaa, atomicPointer, line, Option.map_some]
  refine ⟨fun h => (by cases h), fun same => ?_⟩
  have stays := (storeU64_eq_self_iff mem _ _).mp same
  exact absurd (UInt64.add_eq_left.mp stays.symm) (by decide)

/-- There are two kinds of requests; `size` and `data` of an atomic operation are zero. -/
structure TCPRequest where
  isRead : Bool
  addr : UInt64
  size : Nat
  data : List UInt8

structure TCPResponse where
  status : UInt8
  data : Nat → UInt8

instance : Inhabited TCPResponse := ⟨⟨0, fun _ => 0⟩⟩

def tcpRequest (addr : UInt64) : Operation → TCPRequest
  | .read size => ⟨true, addr, size, []⟩
  | .write data => ⟨false, addr, data.length, data⟩
  | .atomicFaa _ | .atomicCas _ _ => ⟨false, addr, 0, List.replicate 64 0⟩

abbrev TCPMessageHandler := TCPRequest → Segment → TCPResponse × Segment

/-- One turn of `TCPServer::handle_client`; `stale` is what the response has before it is filled in. -/
def handleClient (messageHandler : Option TCPMessageHandler) (stale : TCPResponse) (request : TCPRequest)
    (mem : Segment) : TCPResponse × Segment :=
  match messageHandler with
  | some handler => handler request mem
  | none => ({ stale with status := 0 }, mem)

/-- The transport starts its server without a call of `set_message_handler`. -/
def transportHandler : Option TCPMessageHandler := none

def tcpOutcome (response : TCPResponse) (op : Operation) : Outcome :=
  if response.status ≠ 0 then .failed
  else match op with
    | .read size => .data (peek response.data id size)
    | .write _ => .written
    | .atomicFaa _ | .atomicCas _ _ => .oldValue 0

def viaTcp (stale : TCPResponse) (mem : Segment) (addr : UInt64) (op : Operation) : Segment × Outcome :=
  let (response, mem) := handleClient transportHandler stale (tcpRequest addr op) mem
  (mem, tcpOutcome response op)

theorem viaTcp_eq (stale : TCPResponse) (mem : Segment) (addr : UInt64) (op : Operation) :
    viaTcp stale mem addr op = (mem, match op with
      | .read size => .data (peek stale.data id size)
      | .write _ => .written
      | .atomicFaa _ | .atomicCas _ _ => .oldValue 0) := by
  cases op <;> rfl

structure TransportIndependent (msyncOk : Bool) (mem : Segment) (addr : UInt64) (op : Operation) : Prop where
  same : ∀ stale, viaTcp stale mem addr op = perform msyncOk mem addr op
  /-- A write that is acknowledged shows in a later read. -/
  visible : ∀ stale data, op = .write data → (viaTcp stale mem addr op).2 = .written →
    (perform msyncOk (viaTcp stale mem addr op).1 addr (.read data.length)).2 = .data data

/-- A write of bytes that are there, or an atomic operation that finds 0 and leaves it. -/
def Coincides (msyncOk : Bool) (mem : Segment) (addr : UInt64) : Operation → Prop
  | .read _ => False
  | .write data => msyncOk = true ∧ readCacheline mem addr data.length = some data
  | .atomicFaa value => value = 0 ∧ ∃ ptr, atomicPointer mem addr = some ptr ∧ loadU64 mem ptr = 0
  | .atomicCas expected desired =>
    (expected = 0 → desired = 0) ∧ ∃ ptr, atomicPointer mem addr = some ptr ∧ loadU64 mem ptr = 0

variable {msyncOk : Bool} {mem : Segment} {addr : UInt64}

theorem read_differs (size : Nat) :
    ¬ ∀ stale, viaTcp stale mem addr (.read size) = perform msyncOk mem addr (.read size) := by
  intro same
  have zeros := same ⟨0, fun _ => 0⟩
  have ones := same ⟨0, fun _ => 1⟩
  cases size with
  | zero =>
    have refused : readCacheline mem addr 0 = none := if_pos (.inl rfl)
    rw [viaTcp_eq, perform, refused] at zeros
    cases (Prod.mk.inj zeros).2
  | succ n =>
    rw [← ones, viaTcp_eq, viaTcp_eq] at zeros
    have bytes := Outcome.data.inj (Prod.mk.inj zeros).2
    simp only [peek, List.range_succ_eq_map, List.map_cons] at bytes
    exact absurd (List.cons.inj bytes).1 (by decide)

theorem write_same_iff (mode : baseAddr mem = 0 → ModuloMode mem) (data : List UInt8) :
    (∀ stale, viaTcp stale mem addr (.write data) = perform msyncOk mem addr (.write data)) ↔
      Coincides msyncOk mem addr (.write data) := by
  rw [Coincides, ← writeCacheline_eq_self_iff mode]
  have each : ∀ stale, viaTcp stale mem addr (.write data) = perform msyncOk mem addr (.write data) ↔
      writeCacheline mem addr data msyncOk = (mem, true) := by
    intro stale
    rw [viaTcp_eq, perform]
    rcases writeCacheline mem addr data msyncOk with ⟨mem', ok⟩
    cases ok <;> simp [eq_comm]
  exact ⟨fun all => (each ⟨0, fun _ => 0⟩).mp (all _), fun written stale => (each stale).mpr written⟩

theorem atomicFaa_same_iff (value : UInt64) :
    (∀ stale, viaTcp stale mem addr (.atomicFaa value) = perform msyncOk mem addr (.atomicFaa value)) ↔
      Coincides msyncOk mem addr (.atomicFaa value) := by
  simp only [viaTcp_eq, forall_const, perform, handleAtomicFaa, Coincides]
  cases atomicPointer mem addr with
  | none => simp
  | some ptr =>
    simp only [Prod.mk.injEq, Outcome.oldValue.injEq, Option.some.injEq, exists_eq_left']
    rw [eq_comm, storeU64_eq_self_iff, @eq_comm UInt64 0]
    constructor
    · rintro ⟨unchanged, zero⟩
      rw [zero, UInt64.zero_add] at unchanged
      exact ⟨unchanged.symm, zero⟩
    · rintro ⟨rfl, zero⟩
      exact ⟨(UInt64.add_zero _).symm, zero⟩

theorem atomicCas_same_iff (expected desired : UInt64) :
    (∀ stale, viaTcp stale mem addr (.atomicCas expected desired) =
      perform msyncOk mem addr (.atomicCas expected desired)) ↔
      Coincides msyncOk mem addr (.atomicCas expected desired) := by
  simp only [viaTcp_eq, forall_const, perform, handleAtomicCas, Coincides]
  cases atomicPointer mem addr with
  | none => simp
  | some ptr =>
    simp only [Prod.mk.injEq, Outcome.oldValue.injEq, Option.some.injEq, exists_eq_left']
    constructor
    · rintro ⟨unchanged, zero⟩
      refine ⟨fun asked => ?_, zero.symm⟩
      rw [if_pos (zero.symm.trans asked.symm), eq_comm, storeU64_eq_self_iff] at unchanged
      exact unchanged.symm.trans zero.symm
    · rintro ⟨keeps, zero⟩
      refine ⟨?_, zero.symm⟩
      split
      · rename_i asked
        rw [eq_comm, storeU64_eq_self_iff, zero, keeps (asked.symm.trans zero)]
      · rfl

/-- The TCP transport and the message queue agree on an operation just where it coincides with one that
does nothing; on a read they never do. -/
theorem transports_agree_iff (msyncOk : Bool) (mem : Segment) (mode : baseAddr mem = 0 → ModuloMode mem)
    (addr : UInt64) (op : Operation) : TransportIndependent msyncOk mem addr op ↔ Coincides msyncOk mem addr op := by
  cases op with
  | read size => exact ⟨fun agree => read_differs size agree.same, False.elim⟩
  | write data =>
    refine ⟨fun agree => (write_same_iff mode data).mp agree.same, fun coincides => ?_⟩
    refine ⟨(write_same_iff mode data).mpr coincides, fun stale data' same _ => ?_⟩
    obtain rfl := Operation.write.inj same
    rw [viaTcp_eq, perform, coincides.2]
  | atomicFaa value =>
    refine ⟨fun agree => (atomicFaa_same_iff value).mp agree.same, fun coincides => ?_⟩
    refine ⟨(atomicFaa_same_iff value).mpr coincides, fun stale data same => ?_⟩
    cases same
  | atomicCas expected desired =>
    refine ⟨fun agree => (atomicCas_same_iff expected desired).mp agree.same, fun coincides => ?_⟩
    refine ⟨(atomicCas_same_iff expected desired).mpr coincides, fun stale data same => ?_⟩
    cases same

def homeMemory : Segment := freshMapping 0x100000 0

theorem transports_agree_iff_zeroFaa : TransportIndependent true homeMemory 0x40 (.atomicFaa 0) := by
  have mode := @freshMapping_moduloMode 0x100000 (by decide)
  refine (transports_agree_iff true homeMemory (fun _ => mode) 0x40 (.atomicFaa 0)).mpr ⟨rfl, 0x40, ?_, ?_⟩
  · decide +kernel
  · decide +kernel

theorem tcp_update_lost :
    (viaTcp default homeMemory 0x40 (.write [7])).2 = .written ∧
    (perform true (viaTcp default homeMemory 0x40 (.write [7])).1 0x40 (.read 1)).2 = .data [0] ∧
    (perform true (perform true homeMemory 0x40 (.write [7])).1 0x40 (.read 1)).2 = .data [7] ∧
    (viaTcp default homeMemory 0x40 (.atomicFaa 5)).2 = .oldValue 0 ∧
    (perform true (viaTcp default homeMemory 0x40 (.atomicFaa 5)).1 0x40 (.atomicFaa 0)).2 = .oldValue 0 ∧
    (perform true (perform true homeMemory 0x40 (.atomicFaa 5)).1 0x40 (.atomicFaa 0)).2 = .oldValue 5 := by
  decide +kernel

end CxlMemSim.Dist
