import CxlMemSim.Pgas.Protocol

/-! The server leaves the old word of memory in `slot->data`. The client takes it from `slot->value`, which still holds
the operand it posted. -/
namespace CxlMemSim.Pgas
open ByteMemory SharedProgram

section Atomics
variable (memorySize : UInt64) (latency : Nat → UInt64 → UInt64 → UInt64)

theorem poll_value (σ : Server) (slot : Slot) : ((poll memorySize latency σ).exec slot).2 .value = slot .value := by
  have kept : ∀ bs, applyAll (byteStores 0 bs) slot .value = slot .value := fun bs =>
    applyAll_other (byteStores_off 0 bs (by simp)) slot
  by_cases out : numCachelines memorySize ≤ slot .addr / 64
  · cases req : slot .reqType <;> simp [poll, req, out, answer, clear]
  · cases req : slot .reqType with
    | read | fence | none | other =>
      simp [poll, req, out, serveRequest, answer, clear, exec_storeAll, kept]
    | write => simp [poll, req, out, serveRequest, answer, clear, exec_loadBytes]
    | atomicFaa | atomicCas =>
      by_cases bound : slot .addr + 8 ≤ numCachelines memorySize * 64 <;>
        simp [poll, req, out, bound, serveRequest, answer, clear, exec_storeAll, kept]

theorem posted_scalar (r : Request) (slot : Slot) {f : Field} (scalar : ∀ j, f ≠ .data j) (notReq : f ≠ .reqType) :
    r.posted slot f = applyAll [⟨.addr, r.addr⟩, ⟨.size, r.size⟩, ⟨.timestamp, r.timestamp⟩, ⟨.value, r.value⟩,
      ⟨.expected, r.expected⟩] slot f := by
  rw [Request.posted, Function.update_of_ne notReq, Request.fill, applyAll, List.foldl_append]
  exact applyAll_other (byteStores_off 0 r.payload scalar) _

theorem posted_value (r : Request) (slot : Slot) : r.posted slot .value = r.value := by
  rw [posted_scalar r slot (by simp) (by simp)]
  simp [applyAll]

def InRange (addr : UInt64) : Prop :=
  ¬ numCachelines memorySize ≤ addr / 64 ∧ addr + 8 ≤ numCachelines memorySize * 64
deriving Decidable

theorem complete_atomic_oldValue {r : Request} (kind : r.op = .atomicFaa ∨ r.op = .atomicCas) (slot : Slot)
    (σ : Server) : (complete memorySize latency slot σ r).1.map Response.oldValue = some r.value := by
  have value := (poll_value memorySize latency σ (r.posted slot)).trans (posted_value r slot)
  rcases kind with op | op <;> simp [complete, collect, op, release, value]

/-- `cxl_memsim_atomic_faa`: the result and what is stored through `old_value`. -/
def atomicFaa (slot : Slot) (σ : Server) (timestamp addr addValue : UInt64) : Int × Option UInt64 :=
  let r : Request := { op := .atomicFaa, addr, size := 8, timestamp, value := addValue }
  match (complete memorySize latency slot σ r).1 with
  | some resp => (0, some resp.oldValue)
  | none => (-1, none)

def atomicCas (slot : Slot) (σ : Server) (timestamp addr expected desired : UInt64) : Int × Option UInt64 :=
  let r : Request := { op := .atomicCas, addr, size := 8, timestamp, value := desired, expected }
  match (complete memorySize latency slot σ r).1 with
  | some resp => (if resp.oldValue = expected then 0 else 1, some resp.oldValue)
  | none => (1, none)

theorem atomicFaa_eq (slot : Slot) (σ : Server) (timestamp addr addValue : UInt64) :
    atomicFaa memorySize latency slot σ timestamp addr addValue = (0, some addValue) := by
  have old := complete_atomic_oldValue memorySize latency
    (r := { op := .atomicFaa, addr, size := 8, timestamp, value := addValue }) (.inl rfl) slot σ
  obtain ⟨resp, answered, value⟩ := Option.map_eq_some_iff.mp old
  simp only [atomicFaa, answered, value]

theorem atomicCas_eq (slot : Slot) (σ : Server) (timestamp addr expected desired : UInt64) :
    atomicCas memorySize latency slot σ timestamp addr expected desired =
      (if desired = expected then 0 else 1, some desired) := by
  have old := complete_atomic_oldValue memorySize latency
    (r := { op := .atomicCas, addr, size := 8, timestamp, value := desired, expected }) (.inr rfl) slot σ
  obtain ⟨resp, answered, value⟩ := Option.map_eq_some_iff.mp old
  simp only [atomicCas, answered, value]

def Swaps (mem : Memory) (addr expected : UInt64) : Prop := InRange memorySize addr ∧ wordAt mem addr = expected

theorem old_value_delivered_iff (slot : Slot) (σ : Server) (timestamp addr : UInt64)
    (processed : InRange memorySize addr) (addValue expected desired : UInt64) :
    ((atomicFaa memorySize latency slot σ timestamp addr addValue).2 = some (wordAt σ.mem addr) ↔
      addValue = wordAt σ.mem addr) ∧
    ((atomicCas memorySize latency slot σ timestamp addr expected desired).2 = some (wordAt σ.mem addr) ∧
        ((atomicCas memorySize latency slot σ timestamp addr expected desired).1 = 0 ↔
          Swaps memorySize σ.mem addr expected) ↔
      desired = wordAt σ.mem addr) := by
  rw [atomicFaa_eq, atomicCas_eq, Swaps]
  simp only [Option.some.injEq, processed, true_and, ite_eq_left_iff, one_ne_zero, imp_false, not_not]
  exact ⟨fun h => h.1, fun same => ⟨same, by rw [same]⟩⟩

end Atomics

theorem old_value_delivered_zero :
    (atomicFaa 4096 (fun _ _ _ => 0) freeSlot zeroServer 0 8 0).2 = some (wordAt zeroServer.mem 8) ∧
      ((atomicCas 4096 (fun _ _ _ => 0) freeSlot zeroServer 0 8 5 0).1 = 0 ↔ Swaps 4096 zeroServer.mem 8 5) := by
  have h := old_value_delivered_iff 4096 (fun _ _ _ => 0) freeSlot zeroServer 0 8 (by decide) 0 5 0
  exact ⟨h.1.mpr (by decide +kernel), (h.2.mpr (by decide +kernel)).2⟩

/-- On a zero word: an addition of 1 reports an old value of 1, and a CAS from 0 to 7 swaps and
reports failure. -/
theorem old_value_misreported :
    InRange 4096 8 ∧ wordAt zeroServer.mem 8 = 0 ∧
      (atomicFaa 4096 (fun _ _ _ => 0) freeSlot zeroServer 0 8 1).2 = some 1 ∧
      Swaps 4096 zeroServer.mem 8 0 ∧
      atomicCas 4096 (fun _ _ _ => 0) freeSlot zeroServer 0 8 0 7 = (1, some 7) :=
  ⟨by decide, by decide +kernel, by decide +kernel, ⟨by decide, by decide +kernel⟩, by decide +kernel⟩

end CxlMemSim.Pgas
