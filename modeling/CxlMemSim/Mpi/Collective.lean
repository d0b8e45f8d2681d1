import CxlMemSim.Lib.PhasedLogic
import CxlMemSim.Mpi.Alloc

/-! A small collective on `MPI_COMM_WORLD` goes through shared memory: a rank registers a block with its data, and after
a barrier reads the blocks of the others. -/
namespace CxlMemSim.Mpi
open ByteMemory Phased Phased.Proc

inductive OrigCall where
  | barrier | bcast | allreduce | allgather | alltoall | gather | scatter
deriving DecidableEq

abbrev Buffer := Nat → UInt8

abbrev Shim (n : Nat) := Proc (Fin n) OrigCall

/-- The elements of an `MPI_Allreduce`: their size, and what `+=` does to them. -/
structure Datatype where
  size : Nat
  plus : Nat → Nat → Nat

def Datatype.int : Datatype := ⟨4, fun a b => (a + b) % 2 ^ 32⟩

def Datatype.long : Datatype := ⟨8, fun a b => (a + b) % 2 ^ 64⟩

def Datatype.longLong : Datatype := ⟨8, fun a b => (a + b) % 2 ^ 64⟩

variable {n : Nat}

def fastPath (n bytes : Nat) : Bool := bytes ≤ 4096 && n ≤ 64

def fallback (orig : OrigCall) : Shim n (Option Buffer) := do
  enter orig
  pure none

def copyToShared (send : Buffer) (bytes : Nat) : Shim n (Option Nat) := do
  match ← allocate bytes with
  | none => pure none
  | some ptr =>
    storeBytes ptr (peek send id bytes)
    pure (some ptr)

/-- `ptr_to_rptr` of a block.  One without bytes lies behind the region if nothing of it is left. -/
def ptrToRptr (full : Bool) (bytes ptr : Nat) : Option Nat := if bytes = 0 ∧ full then none else some ptr

def finish (recv : Buffer) : Shim n (Option Buffer) := do
  enter .barrier
  pure (some recv)

def withBlock (full : Bool) (orig : OrigCall) (send : Buffer) (bytes : Nat) (body : Shim n (Option Buffer)) :
    Shim n (Option Buffer) := do
  match ← copyToShared send bytes with
  | none => fallback orig
  | some ptr =>
    putPtr (ptrToRptr full bytes ptr)
    enter .barrier
    body

/-- The loop over the ranks, which is left if a rank's buffer is not available. -/
def readRanks (orig : OrigCall) (read : Fin n → Nat → Buffer → Shim n Buffer) :
    List (Fin n) → Buffer → Shim n (Option Buffer)
  | [], recv => finish recv
  | r :: ranks, recv => do
      match ← getPtr r with
      | none => fallback orig
      | some theirBuf =>
        let recv ← read r theirBuf recv
        readRanks orig read ranks recv

def copyFrom (src dst bytes : Nat) (recv : Buffer) : Shim n Buffer := do
  let data ← loadBytes src bytes
  pure (poke recv (dst + ·) data)

def addFrom (type : Datatype) (src : Nat) : List Nat → Buffer → Shim n Buffer
  | [], recv => pure recv
  | i :: rest, recv => do
      let data ← loadBytes (src + i * type.size) type.size
      let sum := type.plus (loadLE recv (i * type.size + ·) type.size) (ofBytesLE data)
      addFrom type src rest (storeLE recv (i * type.size + ·) type.size sum)

/-- The root registers its block, or nothing if it got none; the others register nothing. -/
def registerRoot (full : Bool) (root me : Fin n) (send : Buffer) (bytes : Nat) : Shim n Unit := do
  let rootBuf ← if me = root then copyToShared send bytes else pure none
  putPtr (rootBuf.bind (ptrToRptr full bytes))
  enter .barrier

def mpiBcast (full : Bool) (root me : Fin n) (bytes : Nat) (buffer : Buffer) : Shim n (Option Buffer) := do
  if fastPath n bytes then
    registerRoot full root me buffer bytes
    if me ≠ root then
      match ← getPtr root with
      | none => fallback .bcast
      | some bcastBuf =>
        let buffer ← copyFrom bcastBuf 0 bytes buffer
        finish buffer
    else finish buffer
  else fallback .bcast

/-- `summed` is whether the operation is `MPI_SUM` and the type one that the shim adds itself. -/
def mpiAllreduce (full : Bool) (summed : Bool) (type : Datatype) (count : Nat) (me : Fin n) (send recv : Buffer) :
    Shim n (Option Buffer) := do
  let bytes := count * type.size
  if fastPath n bytes && summed then
    withBlock full .allreduce send bytes <|
      readRanks .allreduce (fun _ theirBuf recv => addFrom type theirBuf (List.range count) recv)
        ((List.finRange n).filter (· ≠ me)) (poke recv id (peek send id bytes))
  else fallback .allreduce

def mpiAllgather (full : Bool) (bytes : Nat) (send recv : Buffer) : Shim n (Option Buffer) := do
  if fastPath n bytes then
    withBlock full .allgather send bytes <|
      readRanks .allgather (fun r theirBuf recv => copyFrom theirBuf (r.val * bytes) bytes recv) (List.finRange n) recv
  else fallback .allgather

def mpiAlltoall (full : Bool) (sendBytes recvBytes : Nat) (me : Fin n) (send recv : Buffer) :
    Shim n (Option Buffer) := do
  if fastPath n sendBytes then
    withBlock full .alltoall send (sendBytes * n) <|
      readRanks .alltoall
        (fun r theirRow recv => copyFrom (theirRow + me.val * sendBytes) (r.val * recvBytes) recvBytes recv)
        (List.finRange n) recv
  else fallback .alltoall

def mpiGather (full : Bool) (root me : Fin n) (bytes : Nat) (send recv : Buffer) : Shim n (Option Buffer) := do
  if fastPath n bytes then
    withBlock full .gather send bytes <|
      if me = root then
        readRanks .gather (fun r theirBuf recv => copyFrom theirBuf (r.val * bytes) bytes recv) (List.finRange n) recv
      else finish recv
  else fallback .gather

def mpiScatter (full : Bool) (root me : Fin n) (bytes : Nat) (send recv : Buffer) : Shim n (Option Buffer) := do
  if fastPath n bytes then
    registerRoot full root me send (bytes * n)
    match ← getPtr root with
    | none => fallback .scatter
    | some scatterBuf =>
      let recv ← copyFrom (scatterBuf + me.val * bytes) 0 bytes recv
      finish recv
  else fallback .scatter

/-- The ranks pass the same sizes, except that `MPI_Scatter` goes by a rank's own `sendcount`. -/
inductive Collective (n : Nat) where
  | bcast (root : Fin n) (bytes : Nat)
  | allreduce (summed : Bool) (type : Datatype) (count : Nat)
  | allgather (bytes : Nat)
  | alltoall (bytes : Nat)
  | gather (root : Fin n) (bytes : Nat)
  | scatter (root : Fin n) (bytes : Fin n → Nat)

/-- The buffers of one rank in one call.  `MPI_Bcast` has one, for sending at the root and for receiving elsewhere. -/
structure Buffers where
  send : Buffer
  recv : Buffer

namespace Collective

def call (full : Bool) (me : Fin n) (bufs : Buffers) : Collective n → Shim n (Option Buffer)
  | bcast root bytes => mpiBcast full root me bytes bufs.recv
  | allreduce summed type count => mpiAllreduce full summed type count me bufs.send bufs.recv
  | allgather bytes => mpiAllgather full bytes bufs.send bufs.recv
  | alltoall bytes => mpiAlltoall full bytes bytes me bufs.send bufs.recv
  | gather root bytes => mpiGather full root me bytes bufs.send bufs.recv
  | scatter root bytes => mpiScatter full root me (bytes me) bufs.send bufs.recv

def orig : Collective n → OrigCall
  | bcast _ _ => .bcast
  | allreduce _ _ _ => .allreduce
  | allgather _ => .allgather
  | alltoall _ => .alltoall
  | gather _ _ => .gather
  | scatter _ _ => .scatter

def bytes : Collective n → Nat
  | allreduce _ type count => count * type.size
  | bcast _ bytes | allgather bytes | alltoall bytes | gather _ bytes => bytes
  | scatter root bytes => bytes root

def fast (me : Fin n) : Collective n → Bool
  | allreduce summed type count => fastPath n (count * type.size) && summed
  | bcast _ bytes | allgather bytes | alltoall bytes | gather _ bytes => fastPath n bytes
  | scatter _ bytes => fastPath n (bytes me)

/-- All ranks pass the `sendcount` of the root. -/
def Even : Collective n → Prop
  | scatter root bytes => ∀ p, bytes p = bytes root
  | _ => True

end Collective

def cxlHeap (grant : Fin n → Bool) : Heap (Fin n) where
  grant := grant
  round := fun size => (size + 4095) / 4096 * 4096
  le_round := fun size => by omega

theorem cxlHeap_grant (grant : Fin n → Bool) (p : Fin n) : (cxlHeap grant).grant p = grant p := rfl

variable {bytes : Nat}

theorem copyToShared_bind {α : Type} (send : Buffer) (bytes : Nat) (next : Option Nat → Shim n α) :
    copyToShared send bytes >>= next = .alloc bytes fun r =>
      r.elim (next none) fun ptr => storeBytes ptr (peek send id bytes) >>= fun _ => next (some ptr) := by
  rw [copyToShared, bind_assoc, allocate_bind]
  congr 1
  funext r
  cases r with
  | none => rfl
  | some ptr => exact bind_assoc _ _ _

variable {send : Buffer} {recv : Buffer}

section Rules
variable {α : Type} {plan : Plan (Fin n) OrigCall} {grant : Fin n → Bool} {full : Bool} {me : Fin n} {Q : α → Prop}
  {t : Nat}
  {l : Local} {k : Option Buffer → Shim n α} {orig : OrigCall}

/-- The phases of a collective on the fast path: in phase `t` the ranks fill and register their blocks, in the next
one they read them. -/
structure Meets (plan : Plan (Fin n) OrigCall) (t : Nat) (offer : Fin n → Offer) (last : OrigCall) : Prop where
  first : plan.script[t]? = some .barrier
  second : plan.script[t + 1]? = some last
  offers : plan.offers t = some offer
  reading : plan.offers (t + 1) = none

namespace Meets
variable {offer : Fin n → Offer} {last : OrigCall} {next : Buffer → Shim n α} {start : Nat} {data : List UInt8}

section
variable (meets : Meets plan t offer last) {next : Option Nat → Shim n α}
include meets

theorem writing : (plan.offers t).isSome = true := by
  rw [meets.offers]
  rfl

theorem offer_eq (p : Fin n) : plan.offer t p = offer p := by
  rw [Plan.offer, meets.offers]
  rfl

theorem ok_barrier (keeps : l.Keeps (offer me)) {next : Shim n α}
    (ok : Ok plan (cxlHeap grant) me Q next (t + 1) { l with known := [] }) :
    Ok plan (cxlHeap grant) me Q (.call .barrier next) t l := by
  refine ⟨meets.first, fun _ => ?_, ?_⟩
  · rw [meets.offer_eq]
    exact keeps
  · rw [Plan.after, if_pos ⟨meets.writing, meets.reading⟩]
    exact ok

theorem ok_last {next : Shim n α} (ok : Ok plan (cxlHeap grant) me Q next (t + 2) {}) :
    Ok plan (cxlHeap grant) me Q (.call last next) (t + 1) l := by
  refine ⟨meets.second, fun writing => ?_, ?_⟩
  · rw [meets.reading] at writing
    cases writing
  · rw [Plan.after, if_neg fun h => by rw [meets.reading] at h; cases h.1]
    exact ok

theorem ok_getPtr {who : Fin n} {bytes : List UInt8} (offered : offer who = .block bytes)
    (ok : ∀ start, Ok plan (cxlHeap grant) me Q (next (some start)) (t + 1)
      { l with known := (start, bytes) :: l.known }) :
    Ok plan (cxlHeap grant) me Q (getPtr who >>= next) (t + 1) l := by
  have same : plan.offer (t + 1 - 1) who = .block bytes := (meets.offer_eq who).trans offered
  refine ⟨meets.reading, ?_, ?_, ?_⟩
  · rw [same]
    exact fun h => by cases h
  · rw [same]
    exact fun h => by cases h
  · intro bytes' start h
    obtain rfl := Offer.block.inj (same.symm.trans h)
    exact ok start

theorem ok_block (granted : grant me = true)
    (kept : ¬ (bytes = 0 ∧ full = true)) (offered : offer me = .block (peek send id bytes)) {body : Shim n α}
    (registers : ∀ ptr, next (some ptr) = .publish (ptrToRptr full bytes ptr) (.call .barrier body))
    (ok : ∀ l : Local, l.known = [] → Ok plan (cxlHeap grant) me Q body (t + 1) l) :
    Ok plan (cxlHeap grant) me Q (copyToShared send bytes >>= next) t {} := by
  rw [copyToShared_bind]
  refine ⟨meets.writing, rfl, fun _ own size => ?_, fun denied => ?_⟩
  · have filled : ∀ i byte, (peek send id bytes)[i]? = some byte →
        poke own.content (0 + ·) (peek send id bytes) i = byte := by
      intro i byte found
      obtain ⟨hi, rfl⟩ := List.getElem?_eq_some_iff.mp found
      have there := poke_at own.content (0 + ·) (peek send id bytes) (distinct_add 0 _) hi
      rwa [Nat.zero_add] at there
    refine ok_storeBytes (l := { own := some own }) (i := 0) meets.writing rfl (by rw [peek_length, size]; omega) ?_
    rw [registers, ptrToRptr, if_neg kept]
    refine ⟨meets.writing, meets.ok_barrier ?_ (ok _ rfl)⟩
    rw [offered]
    exact ⟨_, rfl, rfl, by rw [peek_length]; exact Nat.le_of_eq size.symm, filled⟩
  · rw [cxlHeap_grant, granted] at denied
    cases denied

theorem ok_withBlock (granted : grant me = true) (kept : ¬ (bytes = 0 ∧ full = true))
    (offered : offer me = .block (peek send id bytes)) {body : Shim n (Option Buffer)}
    (ok : ∀ l : Local, l.known = [] → Ok plan (cxlHeap grant) me Q (body >>= k) (t + 1) l) :
    Ok plan (cxlHeap grant) me Q (withBlock full orig send bytes body >>= k) t {} := by
  rw [withBlock, bind_assoc]
  exact meets.ok_block granted kept offered (fun _ => rfl) ok

theorem ok_registerRoot {root : Fin n} (held : me = root → grant me = true ∧ ¬ (bytes = 0 ∧ full = true))
    (offered : offer me = if me = root then .block (peek send id bytes) else .null)
    {next : Unit → Shim n α} (ok : ∀ l : Local, l.known = [] → Ok plan (cxlHeap grant) me Q (next ()) (t + 1) l) :
    Ok plan (cxlHeap grant) me Q (registerRoot full root me send bytes >>= next) t {} := by
  rw [registerRoot]
  by_cases here : me = root
  · rw [if_pos here] at offered ⊢
    rw [bind_assoc]
    exact meets.ok_block (held here).1 (held here).2 offered (fun _ => rfl) ok
  · rw [if_neg here] at offered ⊢
    refine ⟨meets.writing, meets.ok_barrier ?_ (ok _ rfl)⟩
    rw [offered]
    rfl

end

theorem ok_finish (meets : Meets plan t offer .barrier)
    (ok : Ok plan (cxlHeap grant) me Q (k (some recv)) (t + 2) {}) :
    Ok plan (cxlHeap grant) me Q (finish recv >>= k) (t + 1) l :=
  meets.ok_last ok

theorem ok_copyFrom (known : (start, data) ∈ l.known)
    {off bytes : Nat} (inside : off + bytes ≤ data.length) (dst : Nat)
    (ok : Ok plan (cxlHeap grant) me Q (next (poke recv (dst + ·) ((data.drop off).take bytes))) t l) :
    Ok plan (cxlHeap grant) me Q (copyFrom (start + off) dst bytes recv >>= next) t l := by
  rw [copyFrom, bind_assoc]
  exact ok_loadBytes known inside ok

theorem ok_copyAll (known : (start, peek send id bytes) ∈ l.known) (dst : Nat)
    (ok : Ok plan (cxlHeap grant) me Q (next (poke recv (dst + ·) (peek send id bytes))) t l) :
    Ok plan (cxlHeap grant) me Q (copyFrom start dst bytes recv >>= next) t l := by
  have all : ((peek send id bytes).drop 0).take bytes = peek send id bytes := by
    rw [List.drop_zero, List.take_of_length_le (by rw [peek_length])]
  have whole : Ok plan (cxlHeap grant) me Q (copyFrom (start + 0) dst bytes recv >>= next) t l :=
    ok_copyFrom known (by rw [peek_length]; omega) dst (by rw [all]; exact ok)
  exact whole

def added (type : Datatype) (data : List UInt8) (elements : List Nat) (recv : Buffer) : Buffer :=
  elements.foldl (fun recv i => storeLE recv (i * type.size + ·) type.size
    (type.plus (loadLE recv (i * type.size + ·) type.size)
      (ofBytesLE ((data.drop (i * type.size)).take type.size)))) recv

theorem ok_addFrom (known : (start, data) ∈ l.known)
    {type : Datatype} {elements : List Nat} (inside : ∀ i ∈ elements, i * type.size + type.size ≤ data.length)
    (ok : Ok plan (cxlHeap grant) me Q (next (added type data elements recv)) t l) :
    Ok plan (cxlHeap grant) me Q (addFrom type start elements recv >>= next) t l := by
  induction elements generalizing recv with
  | nil => exact ok
  | cons i rest ih =>
    obtain ⟨here, others⟩ := List.forall_mem_cons.mp inside
    rw [addFrom, bind_assoc]
    exact ok_loadBytes known here (ih others ok)

theorem ok_readRanks (meets : Meets plan t offer .barrier) {read : Fin n → Nat → Buffer → Shim n Buffer}
    {data : Fin n → List UInt8} {effect : Fin n → Buffer → Buffer} {ranks : List (Fin n)}
    (offered : ∀ r ∈ ranks, offer r = .block (data r))
    (reads : ∀ r ∈ ranks, ∀ (l : Local) (start : Nat) (recv : Buffer) (next : Buffer → Shim n α),
      (start, data r) ∈ l.known → Ok plan (cxlHeap grant) me Q (next (effect r recv)) (t + 1) l →
        Ok plan (cxlHeap grant) me Q (read r start recv >>= next) (t + 1) l)
    (ok : Ok plan (cxlHeap grant) me Q (k (some (ranks.foldl (fun recv r => effect r recv) recv))) (t + 2) {}) :
    Ok plan (cxlHeap grant) me Q (readRanks orig read ranks recv >>= k) (t + 1) l := by
  induction ranks generalizing recv l with
  | nil => exact meets.ok_finish ok
  | cons r ranks ih =>
    obtain ⟨offerHere, offerOthers⟩ := List.forall_mem_cons.mp offered
    obtain ⟨readHere, readOthers⟩ := List.forall_mem_cons.mp reads
    rw [readRanks, bind_assoc]
    refine meets.ok_getPtr offerHere fun start => ?_
    rw [bind_assoc]
    exact readHere _ start recv _ List.mem_cons_self (ih offerOthers readOthers ok)

end Meets
end Rules

namespace Collective

def offer (bufs : Fin n → Buffers) (c : Collective n) (p : Fin n) : Offer :=
  match c with
  | bcast root bytes => if p = root then .block (peek (bufs p).recv id bytes) else .null
  | allreduce _ type count => .block (peek (bufs p).send id (count * type.size))
  | allgather bytes | gather _ bytes => .block (peek (bufs p).send id bytes)
  | alltoall bytes => .block (peek (bufs p).send id (bytes * n))
  | scatter root bytes => if p = root then .block (peek (bufs p).send id (bytes p * n)) else .null

def result (bufs : Fin n → Buffers) (me : Fin n) : Collective n → Buffer
  | bcast root bytes =>
    if me ≠ root then poke (bufs me).recv (0 + ·) (peek (bufs root).recv id bytes) else (bufs me).recv
  | allreduce _ type count => ((List.finRange n).filter (· ≠ me)).foldl
      (fun recv r => Meets.added type (peek (bufs r).send id (count * type.size)) (List.range count) recv)
      (poke (bufs me).recv id (peek (bufs me).send id (count * type.size)))
  | allgather bytes => (List.finRange n).foldl
      (fun recv r => poke recv (r.val * bytes + ·) (peek (bufs r).send id bytes)) (bufs me).recv
  | alltoall bytes => (List.finRange n).foldl (fun recv r => poke recv (r.val * bytes + ·)
      (((peek (bufs r).send id (bytes * n)).drop (me.val * bytes)).take bytes)) (bufs me).recv
  | gather root bytes =>
    if me = root then (List.finRange n).foldl
      (fun recv r => poke recv (r.val * bytes + ·) (peek (bufs r).send id bytes)) (bufs me).recv
    else (bufs me).recv
  | scatter root bytes => poke (bufs me).recv (0 + ·)
      (((peek (bufs root).send id (bytes root * n)).drop (me.val * bytes root)).take (bytes root))

def allocates (c : Collective n) (p : Fin n) : Prop :=
  match c with
  | bcast root _ | scatter root _ => p = root
  | allreduce _ _ _ | allgather _ | alltoall _ | gather _ _ => True

variable {α : Type} {plan : Plan (Fin n) OrigCall} {grant : Fin n → Bool} {me : Fin n} {Q : α → Prop}
  {t : Nat}
  {k : Option Buffer → Shim n α} {bufs : Fin n → Buffers} {full : Bool}

theorem slot_le {r ranks : Nat} (lt : r < ranks) (bytes : Nat) : r * bytes + bytes ≤ ranks * bytes := by
  rw [← Nat.succ_mul]
  exact Nat.mul_le_mul_right _ lt

theorem slot_inside (me : Fin n) (bytes : Nat) : me.val * bytes + bytes ≤ (peek send id (bytes * n)).length := by
  rw [peek_length, Nat.mul_comm bytes n]
  exact slot_le me.isLt bytes

theorem kept_mul (kept : ¬ (bytes = 0 ∧ full = true)) (ranks : 0 < n) : ¬ (bytes * n = 0 ∧ full = true) := by
  rintro ⟨none, left⟩
  exact kept ⟨(Nat.mul_eq_zero.mp none).resolve_right ranks.ne', left⟩

theorem ok_call {c : Collective n} (fast : c.fast me = true) (kept : ¬ (c.bytes = 0 ∧ full = true)) (even : c.Even)
    (meets : Meets plan t (c.offer bufs) .barrier) (granted : c.allocates me → grant me = true)
    (ok : Ok plan (cxlHeap grant) me Q (k (some (c.result bufs me))) (t + 2) {}) :
    Ok plan (cxlHeap grant) me Q (c.call full me (bufs me) >>= k) t {} := by
  have ranks : 0 < n := me.pos
  cases c with
  | bcast root bytes =>
    rw [Collective.fast] at fast
    rw [call, mpiBcast, if_pos fast, bind_assoc]
    refine meets.ok_registerRoot (fun here => ⟨granted here, kept⟩) rfl fun l _ => ?_
    rw [result] at ok
    by_cases here : me = root
    · rw [if_neg (not_not_intro here)] at ok ⊢
      exact meets.ok_finish ok
    · rw [if_pos here] at ok ⊢
      rw [bind_assoc]
      refine meets.ok_getPtr (if_pos rfl) fun start => ?_
      rw [bind_assoc]
      exact Meets.ok_copyAll List.mem_cons_self _ (meets.ok_finish ok)
  | allreduce summed type count =>
    rw [Collective.fast] at fast
    rw [call, mpiAllreduce, if_pos fast]
    refine meets.ok_withBlock (granted trivial) kept rfl fun l _ => ?_
    refine meets.ok_readRanks (fun _ _ => rfl) ?_ ok
    intro r _ l start recv next known ok
    refine Meets.ok_addFrom known ?_ ok
    intro i member
    rw [peek_length]
    exact slot_le (List.mem_range.mp member) _
  | allgather bytes =>
    rw [Collective.fast] at fast
    rw [call, mpiAllgather, if_pos fast]
    refine meets.ok_withBlock (granted trivial) kept rfl fun l _ => ?_
    refine meets.ok_readRanks (fun _ _ => rfl) ?_ ok
    intro r _ l start recv next known ok
    exact Meets.ok_copyAll known _ ok
  | alltoall bytes =>
    rw [Collective.fast] at fast
    rw [call, mpiAlltoall, if_pos fast]
    refine meets.ok_withBlock (granted trivial) (kept_mul kept ranks) rfl fun l _ => ?_
    refine meets.ok_readRanks (fun _ _ => rfl) ?_ ok
    intro r _ l start recv next known ok
    exact Meets.ok_copyFrom known (slot_inside me bytes) _ ok
  | gather root bytes =>
    rw [Collective.fast] at fast
    rw [call, mpiGather, if_pos fast]
    refine meets.ok_withBlock (granted trivial) kept rfl fun l _ => ?_
    rw [result] at ok
    split
    · rename_i here
      rw [if_pos here] at ok
      refine meets.ok_readRanks (fun _ _ => rfl) ?_ ok
      intro r _ l start recv next known ok
      exact Meets.ok_copyAll known _ ok
    · rename_i elsewhere
      rw [if_neg elsewhere] at ok
      exact meets.ok_finish ok
  | scatter root bytes =>
    rw [Collective.fast] at fast
    rw [call, mpiScatter, if_pos fast, bind_assoc]
    rw [even me]
    refine meets.ok_registerRoot (fun here => ⟨granted here, kept_mul kept ranks⟩) ?_ fun l _ => ?_
    · rw [offer, even me]
      rfl
    · rw [bind_assoc]
      refine meets.ok_getPtr (if_pos rfl) fun start => ?_
      rw [bind_assoc]
      exact Meets.ok_copyFrom List.mem_cons_self (slot_inside me (bytes root)) _ (meets.ok_finish ok)

end Collective
end CxlMemSim.Mpi
