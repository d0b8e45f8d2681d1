import CxlMemSim.Mpi.Collective

/-! A rank decides by itself whether a collective goes through shared memory or is left to the original library. -/
namespace CxlMemSim.Mpi
open ByteMemory Phased Phased.Proc Collective

variable {n : Nat}

namespace Collective

/-- The block of a rank that got one is registered, where it is not an empty one at the end of the region. -/
def Agrees (c : Collective n) (full : Bool) (grant : Fin n → Bool) : Prop :=
  match c with
  | bcast root bytes => n = 1 ∨ grant root = true ∧ ¬ (bytes = 0 ∧ full = true)
  | scatter _ bytes => ∀ p, fastPath n (bytes p) = true
  | allreduce _ _ _ | allgather _ | alltoall _ | gather _ _ =>
    (∀ p, grant p = true) ∧ ¬ (c.bytes = 0 ∧ full = true) ∨ ∀ p, grant p = false

variable {c : Collective n} {full : Bool} {grant : Fin n → Bool} {bufs : Fin n → Buffers} {mem : Nat → UInt8}
  {rptr : Fin n → Option Nat} {allocOffset bytes : Nat}

end Collective

end CxlMemSim.Mpi
