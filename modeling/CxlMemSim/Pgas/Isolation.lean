import CxlMemSim.Lib.Run
import CxlMemSim.Pgas.Protocol

/-! Where the data of an address lives, which bytes a request moves, and when the copies stay clear of the metadata
between the data. -/
namespace CxlMemSim.Pgas
open ByteMemory SharedProgram Run

/-- The place of a PGAS address in memory: addresses are dense, entries take 128 bytes. -/
def dataOf (a : Nat) : Nat := a / 64 * 128 + a % 64

variable {addr : UInt64} {i : Nat}

theorem dataPtr_add (inLine : addr.toNat % 64 + i < 64) : dataPtr addr + i = dataOf (addr.toNat + i) := by
  simp only [dataPtr, entryOf, dataOf]
  omega

theorem dataOf_mod (a : Nat) : dataOf a % 128 < 64 := by
  simp only [dataOf]
  omega

def InField (entry : Nat) (f : MetaField) (p : Nat) : Prop :=
  entry + f.offset ≤ p ∧ p < entry + f.offset + f.width

variable {p : Nat} {f : MetaField}

theorem InField.mod (h : InField (entryOf addr) f p) : 64 ≤ p % 128 := by
  obtain ⟨low, high⟩ := h
  simp only [entryOf] at low high
  cases f <;> simp only [MetaField.offset, MetaField.width] at low high <;> omega

theorem storeField_other {entry p : Nat} (mem : Memory) (v : Nat) (off : ¬ InField entry f p) :
    storeField mem entry f v p = mem p := by
  apply storeLE_other
  rintro i hi rfl
  exact off ⟨by simp only [fieldAt]; omega, by simp only [fieldAt]; omega⟩

theorem bumpField_other {entry p : Nat} (mem : Memory) (off : ¬ InField entry f p) : bumpField mem entry f p = mem p :=
  storeField_other mem _ off

def deliberate : ReqType → List MetaField
  | .read => [.accessCount, .lastAccessTime]
  | .write => [.accessCount, .lastAccessTime, .cacheState, .version]
  | .atomicFaa => [.accessCount, .cacheState, .version]
  | .atomicCas => [.accessCount, .version]
  | .none | .fence | .other => []

variable {slot : Slot} {mem : Memory}

section Poll
variable (memorySize : UInt64) (latency : Nat → UInt64 → UInt64 → UInt64) {σ : Server} {timestamp : UInt64}

def moved (slot : Slot) : Nat :=
  if numCachelines memorySize ≤ slot .addr / 64 then 0
  else
    match slot .reqType with
    | .read | .write => copySize (slot .size)
    | .atomicFaa | .atomicCas => if slot .addr + 8 ≤ numCachelines memorySize * 64 then 8 else 0
    | .none | .fence | .other => 0

def footprint (slot : Slot) : List Nat :=
  (List.range (moved memorySize slot)).map fun i => dataPtr (slot .addr) + i

theorem mem_footprint : p ∈ footprint memorySize slot ↔ ∃ i < moved memorySize slot, dataPtr (slot .addr) + i = p := by
  simp [footprint]

def memAfter (mem : Memory) (slot : Slot) : Memory :=
  if numCachelines memorySize ≤ slot .addr / 64 then mem
  else
    match slot .reqType with
    | .read => readEntry mem (slot .addr) (slot .timestamp)
    | .write =>
      writeEntry mem (slot .addr) (slot .timestamp) ((List.range (copySize (slot .size))).map (dataAt slot))
    | .atomicFaa =>
      if slot .addr + 8 ≤ numCachelines memorySize * 64 then faaEntry mem (slot .addr) (slot .value) else mem
    | .atomicCas =>
      if slot .addr + 8 ≤ numCachelines memorySize * 64 then
        casEntry mem (slot .addr) (slot .expected) (slot .value)
      else mem
    | .none | .fence | .other => mem

theorem poll_mem (σ : Server) (slot : Slot) :
    ((poll memorySize latency σ).exec slot).1.mem = memAfter memorySize σ.mem slot := by
  by_cases out : numCachelines memorySize ≤ slot .addr / 64
  · cases req : slot .reqType <;> simp [poll, req, out, memAfter, answer, clear]
  · cases req : slot .reqType with
    | read | fence | none | other =>
      simp [poll, req, out, memAfter, serveRequest, answer, clear, exec_storeAll]
    | write => simp [poll, req, out, memAfter, serveRequest, answer, clear, exec_loadBytes]
    | atomicFaa | atomicCas =>
      by_cases bound : slot .addr + 8 ≤ numCachelines memorySize * 64 <;>
        simp [poll, req, out, bound, memAfter, serveRequest, answer, clear, exec_storeAll]

theorem readEntry_other
    (off : ∀ f ∈ deliberate .read, ¬ InField (entryOf addr) f p) : readEntry mem addr timestamp p = mem p := by
  simp only [deliberate, List.forall_mem_cons] at off
  obtain ⟨count, time, -⟩ := off
  rw [readEntry, storeField_other _ _ time, bumpField_other _ count]

theorem writeEntry_other {bytes : List UInt8} (off : ∀ f ∈ deliberate .write, ¬ InField (entryOf addr) f p) :
    writeEntry mem addr timestamp bytes p = poke mem (fun i => dataPtr addr + i) bytes p := by
  simp only [deliberate, List.forall_mem_cons] at off
  obtain ⟨count, time, state, version, -⟩ := off
  rw [writeEntry, bumpField_other _ version, storeField_other _ _ state, storeField_other _ _ time,
    bumpField_other _ count]

theorem storeWord_other {v : UInt64} (off : ∀ i < 8, dataPtr addr + i ≠ p) : storeWord mem addr v p = mem p :=
  storeLE_other _ _ _ _ off

theorem faaEntry_other {value : UInt64}
    (off : ∀ f ∈ deliberate .atomicFaa, ¬ InField (entryOf addr) f p) (word : ∀ i < 8, dataPtr addr + i ≠ p) :
    faaEntry mem addr value p = mem p := by
  simp only [deliberate, List.forall_mem_cons] at off
  obtain ⟨count, state, version, -⟩ := off
  rw [faaEntry, bumpField_other _ version, storeField_other _ _ state, bumpField_other _ count, storeWord_other word]

theorem casEntry_other {expected value : UInt64}
    (off : ∀ f ∈ deliberate .atomicCas, ¬ InField (entryOf addr) f p) (word : ∀ i < 8, dataPtr addr + i ≠ p) :
    casEntry mem addr expected value p = mem p := by
  simp only [deliberate, List.forall_mem_cons] at off
  obtain ⟨count, version, -⟩ := off
  rw [casEntry, bumpField_other _ version, bumpField_other _ count]
  split
  · exact storeWord_other word
  · rfl

theorem memAfter_other (outside : p ∉ footprint memorySize slot)
    (off : ∀ f ∈ deliberate (slot .reqType), ¬ InField (entryOf (slot .addr)) f p) :
    memAfter memorySize mem slot p = mem p := by
  rw [mem_footprint, moved] at outside
  rw [memAfter]
  by_cases out : numCachelines memorySize ≤ slot .addr / 64
  · rw [if_pos out]
  rw [if_neg out] at outside ⊢
  cases req : slot .reqType with
  | read =>
    rw [req] at off
    exact readEntry_other off
  | write =>
    rw [req] at off
    simp only [req] at outside ⊢
    rw [writeEntry_other off]
    apply poke_other
    intro i hi here
    exact outside ⟨i, by simpa using hi, here⟩
  | atomicFaa =>
    rw [req] at off
    simp only [req] at outside ⊢
    by_cases bound : slot .addr + 8 ≤ numCachelines memorySize * 64
    · rw [if_pos bound] at outside ⊢
      exact faaEntry_other off fun i hi here => outside ⟨i, hi, here⟩
    · rw [if_neg bound]
  | atomicCas =>
    rw [req] at off
    simp only [req] at outside ⊢
    by_cases bound : slot .addr + 8 ≤ numCachelines memorySize * 64
    · rw [if_pos bound] at outside ⊢
      exact casEntry_other off fun i hi here => outside ⟨i, hi, here⟩
    · rw [if_neg bound]
  | none | fence | other => rfl

def InLine (slot : Slot) : Prop := (slot .addr).toNat % 64 + moved memorySize slot ≤ 64
deriving Decidable

def Addressed (slot : Slot) : Prop :=
  ∀ p ∈ footprint memorySize slot, ∃ a, (slot .addr).toNat ≤ a ∧
    a < (slot .addr).toNat + moved memorySize slot ∧ p = dataOf a

theorem addressed_iff (slot : Slot) : Addressed memorySize slot ↔ InLine memorySize slot := by
  constructor
  · intro addressed
    by_contra crosses
    rw [InLine] at crosses
    -- the first byte past the line is the first metadata byte of the entry
    have spill : dataPtr (slot .addr) + (64 - (slot .addr).toNat % 64) ∈ footprint memorySize slot :=
      (mem_footprint memorySize).mpr ⟨_, by omega, rfl⟩
    obtain ⟨a, -, -, place⟩ := addressed _ spill
    have data := dataOf_mod a
    rw [← place] at data
    simp only [dataPtr, entryOf] at data
    omega
  · intro inLine p member
    obtain ⟨i, hi, rfl⟩ := (mem_footprint memorySize).mp member
    rw [InLine] at inLine
    exact ⟨(slot .addr).toNat + i, by omega, by omega, dataPtr_add (by omega)⟩

theorem poll_read_data (req : slot .reqType = .read)
    (inRange : ¬ numCachelines memorySize ≤ slot .addr / 64) (hi : i < copySize (slot .size)) :
    dataAt ((poll memorySize latency σ).exec slot).2 i =
      readEntry σ.mem (slot .addr) (slot .timestamp) (dataPtr (slot .addr) + i) := by
  have copied := applyAll_byteStores 0 (peek (readEntry σ.mem (slot .addr) (slot .timestamp))
    (fun i => dataPtr (slot .addr) + i) (copySize (slot .size))) slot i
  rw [Nat.zero_add, List.getElem?_eq_getElem (by simpa using hi), peek_getElem] at copied
  rw [← Option.getD_some (a := readEntry σ.mem (slot .addr) (slot .timestamp) (dataPtr (slot .addr) + i)), ← copied]
  simp only [poll, Prog.exec_load, req, reduceCtorEq, if_false, if_neg inRange, serveRequest, exec_storeAll, answer,
    clear, Prog.exec_store, Prog.exec_ret]
  simp [dataAt]

theorem poll_read_inLine (req : slot .reqType = .read) (inRange : ¬ numCachelines memorySize ≤ slot .addr / 64)
    (inLine : (slot .addr).toNat % 64 + copySize (slot .size) ≤ 64) (hi : i < copySize (slot .size)) :
    dataAt ((poll memorySize latency σ).exec slot).2 i = σ.mem (dataOf ((slot .addr).toNat + i)) := by
  rw [poll_read_data memorySize latency req inRange hi, dataPtr_add (by omega)]
  apply readEntry_other
  intro f _ inField
  have data := dataOf_mod ((slot .addr).toNat + i)
  have field := inField.mod
  omega

def serve (σ : Server) (slot : Slot) : Server := ((poll memorySize latency σ).exec slot).1

/-- The request touches nothing but the data bytes it addresses and the metadata fields it
updates on purpose, and what a WRITE stores can be read back. -/
structure Isolated (σ : Server) (slot : Slot) : Prop where
  addressed : Addressed memorySize slot
  returned : slot .reqType = .read → ¬ numCachelines memorySize ≤ slot .addr / 64 →
    ∀ i < copySize (slot .size),
      dataAt ((poll memorySize latency σ).exec slot).2 i = σ.mem (dataOf ((slot .addr).toNat + i))
  metadata : ∀ p, 64 ≤ p % 128 → (∀ f ∈ deliberate (slot .reqType), ¬ InField (entryOf (slot .addr)) f p) →
    (serve memorySize latency σ slot).mem p = σ.mem p
  otherData : ∀ p, p % 128 < 64 → p ∉ footprint memorySize slot →
    (serve memorySize latency σ slot).mem p = σ.mem p
  readBack : slot .reqType = .write → ¬ numCachelines memorySize ≤ slot .addr / 64 → (slot .size).toNat ≤ 64 →
    ∀ slot' : Slot, slot' .reqType = .read → slot' .addr = slot .addr → slot' .size = slot .size →
      ∀ i < (slot .size).toNat,
        dataAt ((poll memorySize latency (serve memorySize latency σ slot)).exec slot').2 i = dataAt slot i

theorem moved_of_copy (req : slot .reqType = .read ∨ slot .reqType = .write)
    (inRange : ¬ numCachelines memorySize ≤ slot .addr / 64) : moved memorySize slot = copySize (slot .size) := by
  rw [moved, if_neg inRange]
  rcases req with req | req <;> simp only [req]

theorem serve_write_data (req : slot .reqType = .write) (inRange : ¬ numCachelines memorySize ≤ slot .addr / 64)
    (inLine : (slot .addr).toNat % 64 + copySize (slot .size) ≤ 64) (hi : i < copySize (slot .size)) :
    (serve memorySize latency σ slot).mem (dataOf ((slot .addr).toNat + i)) = dataAt slot i := by
  have data := dataOf_mod ((slot .addr).toNat + i)
  rw [serve, poll_mem, memAfter, if_neg inRange]
  simp only [req]
  rw [writeEntry_other fun f _ inField => by have := inField.mod; omega, ← dataPtr_add (by omega)]
  rw [poke_at _ (fun i => dataPtr (slot .addr) + i) _ (distinct_add _ _) (by simpa using hi)]
  simp

theorem isolated_iff (σ : Server) (slot : Slot) : Isolated memorySize latency σ slot ↔ InLine memorySize slot := by
  constructor
  · intro h
    exact (addressed_iff memorySize slot).mp h.addressed
  · intro inLine
    have addressed := (addressed_iff memorySize slot).mpr inLine
    rw [InLine] at inLine
    refine ⟨addressed, ?_, ?_, ?_, ?_⟩
    · intro req inRange i hi
      rw [moved_of_copy memorySize (.inl req) inRange] at inLine
      exact poll_read_inLine memorySize latency req inRange inLine hi
    · intro p metadata off
      rw [serve, poll_mem]
      refine memAfter_other memorySize ?_ off
      intro member
      obtain ⟨a, -, -, rfl⟩ := addressed p member
      have := dataOf_mod a
      omega
    · intro p data outside
      rw [serve, poll_mem]
      apply memAfter_other memorySize outside
      intro f _ inField
      have := inField.mod
      omega
    · intro req inRange short slot' req' addr size i hi
      rw [moved_of_copy memorySize (.inr req) inRange] at inLine
      have copied : i < copySize (slot .size) := by rw [copySize]; omega
      rw [poll_read_inLine memorySize latency req' (by rwa [addr]) (by rwa [addr, size]) (by rwa [size]), addr]
      exact serve_write_data memorySize latency req inRange inLine copied

theorem isolated_run_iff (σ : Server) (slots : List Slot) :
    EveryStep (serve memorySize latency) (Isolated memorySize latency) σ slots ↔
      ∀ slot ∈ slots, InLine memorySize slot := by
  induction slots generalizing σ with
  | nil => simp
  | cons slot slots ih => rw [everyStep_cons, isolated_iff, ih, List.forall_mem_cons]

end Poll

def slotOf (req : ReqType) (addr size : UInt64) (byte : UInt8) : Slot
  | .reqType => req
  | .respStatus => .none
  | .addr => addr
  | .size => size
  | .data _ => byte
  | .value | .expected | .latencyNs | .timestamp => 0

/-- The second byte of a WRITE at offset 63 goes to `cache_state`, where it is overwritten; a third one changes
`owner_id`. -/
theorem isolated_run_spilled :
    let σ : Server := { mem := fun _ => 0, served := 0 }
    let serve := serve 4096 fun _ _ _ => 0
    let spill := slotOf .write 63 2 7
    ¬ EveryStep serve (Isolated 4096 fun _ _ _ => 0) σ [spill] ∧
      dataAt ((poll 4096 (fun _ _ _ => 0) (serve σ spill)).exec (slotOf .read 63 2 0)).2 1 = 3 ∧
      loadField (serve σ (slotOf .write 63 3 7)).mem 0 .ownerId = 7 := by
  intro σ serve spill
  refine ⟨?_, by decide +kernel, by decide +kernel⟩
  intro isolated
  have inLine := (isolated_iff 4096 _ σ spill).mp isolated.1
  revert inLine
  decide

end CxlMemSim.Pgas
