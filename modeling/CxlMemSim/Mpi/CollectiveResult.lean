import CxlMemSim.Mpi.Collective
import Mathlib.Algebra.BigOperators.Fin

/-! The receive buffers end as the MPI standard says, in every interleaving that the barriers allow. -/
namespace CxlMemSim.Mpi
open ByteMemory Phased Phased.Proc Collective List

variable {n a : Nat} {c : Collective n} {calls : List (Collective n)}

/-- The type map of an `MPI_Datatype`: its size, its extent, and where in an element the bytes of the data lie. -/
structure TypeMap where
  size : Nat
  extent : Nat
  place : Nat → Nat

def TypeMap.offset (type : TypeMap) (k : Nat) : Nat := k / type.size * type.extent + type.place (k % type.size)

def TypeMap.Contiguous (type : TypeMap) : Prop := ∀ k, type.offset k = k

structure Types where
  send : TypeMap
  recv : TypeMap

def Types.Contiguous (types : Types) : Prop := types.send.Contiguous ∧ types.recv.Contiguous

/-- The buffer holds at `place` the bytes of one block for each index, and elsewhere what it held before. -/
def Placed {ι : Type} (bytes : Nat) (place : ι → Nat → Nat) (block : ι → Buffer) (old recv : Buffer) : Prop :=
  (∀ r i, i < bytes → recv (place r i) = block r i) ∧ ∀ a, (∀ r i, i < bytes → place r i ≠ a) → recv a = old a

namespace Collective

/-- The result of the MPI standard.  Sums of words are modulo the word size. -/
def MpiResult (bufs : Fin n → Buffers) (types : Fin n → Types) (me : Fin n) (recv : Buffer) : Collective n → Prop
  | bcast root bytes => Placed bytes (fun (_ : Unit) => (types me).recv.offset)
      (fun _ i => (bufs root).recv ((types root).recv.offset i)) (bufs me).recv recv
  | allreduce _ type count =>
    (∀ e, e < count → loadLE recv (e * type.size + ·) type.size =
      (∑ r, loadLE (bufs r).send (e * type.size + ·) type.size) % 2 ^ (8 * type.size)) ∧
    ∀ i, count * type.size ≤ i → recv i = (bufs me).recv i
  | allgather bytes => Placed bytes (fun (r : Fin n) i => (types me).recv.offset (r.val * bytes + i))
      (fun r i => (bufs r).send ((types r).send.offset i)) (bufs me).recv recv
  | alltoall bytes => Placed bytes (fun (r : Fin n) i => (types me).recv.offset (r.val * bytes + i))
      (fun r i => (bufs r).send ((types r).send.offset (me.val * bytes + i))) (bufs me).recv recv
  | gather root bytes =>
    if me = root then Placed bytes (fun (r : Fin n) i => (types me).recv.offset (r.val * bytes + i))
      (fun r i => (bufs r).send ((types r).send.offset i)) (bufs me).recv recv
    else recv = (bufs me).recv
  | scatter root bytes => Placed (bytes root) (fun (_ : Unit) => (types me).recv.offset)
      (fun _ i => (bufs root).send ((types root).send.offset (me.val * bytes root + i))) (bufs me).recv recv

def Small (c : Collective n) : Prop :=
  1 ≤ c.bytes ∧ c.bytes ≤ 4096 ∧ c.Even ∧
    match c with
    | allreduce summed type _ => summed = true ∧ (type = .int ∨ type = .long ∨ type = .longLong)
    | _ => True

theorem Small.fast (small : c.Small) (worldSize : n ≤ 64) (me : Fin n) : c.fast me = true := by
  obtain ⟨-, size, even, sums⟩ := small
  have path : fastPath n c.bytes = true := by simp [fastPath, size, worldSize]
  cases c with
  | allreduce summed type count => exact Bool.and_eq_true_iff.mpr ⟨path, sums.1⟩
  | bcast root bytes | allgather bytes | alltoall bytes | gather root bytes => exact path
  | scatter root bytes =>
    rw [Collective.fast, even me]
    exact path

end Collective

def callAll (full : Bool) (me : Fin n) (fill : List (Option Buffer) → Buffers) :
    List (Collective n) → List (Option Buffer) → Shim n (List (Option Buffer))
  | [], past => pure past
  | c :: calls, past => do
      let recv ← c.call full me (fill past)
      callAll full me fill calls (past ++ [recv])

def callTogether (full : Bool) (fill : Fin n → List (Option Buffer) → Buffers) (calls : List (Collective n))
    (mem : Nat → UInt8) (rptr : Fin n → Option Nat) (allocOffset : Nat) :
    World (Fin n) OrigCall (List (Option Buffer)) :=
  start mem rptr allocOffset fun me => callAll full me (fill me) calls []

/-- However the ranks take turns, each can go on until it returns, and returns what is in `history`. -/
def Returns (world : World (Fin n) OrigCall (List (Option Buffer))) (history : Fin n → List (Option Buffer)) : Prop :=
  ∀ schedule, (∀ p recvs, (run (cxlHeap fun _ => true) world schedule).code p = .ret recvs → recvs = history p) ∧
    ∃ more, ∀ p, ∃ recvs, (run (cxlHeap fun _ => true) world (schedule ++ more)).code p = .ret recvs

/-- `types i p` are the datatypes of rank `p` in the `i`-th call. -/
def MpiHistory (types : Nat → Fin n → Types) (fill : Fin n → List (Option Buffer) → Buffers)
    (calls : List (Collective n)) (history : Fin n → List (Option Buffer)) : Prop :=
  (∀ p, (history p).length = calls.length) ∧
  ∀ i (c : Collective n), calls[i]? = some c → ∀ p, ∃ recv, (history p)[i]? = some (some recv) ∧
    c.MpiResult (fun q => fill q ((history q).take i)) (types i) p recv

theorem slot_eq {bytes r s i j : Nat} (hi : i < bytes) (hj : j < bytes) (same : r * bytes + i = s * bytes + j) :
    r = s ∧ i = j := by
  have quotient := congrArg (· / bytes) same
  have remainder := congrArg (· % bytes) same
  simp only [Nat.mul_add_mod_self_right, Nat.mod_eq_of_lt hi, Nat.mod_eq_of_lt hj] at remainder
  simp only [Nat.mul_comm _ bytes, Nat.mul_add_div (Nat.zero_lt_of_lt hi), Nat.div_eq_of_lt hi, Nat.div_eq_of_lt hj]
    at quotient
  exact ⟨quotient, remainder⟩

theorem placed_front (recv : Buffer) {data : List UInt8} {bytes : Nat} (length : data.length = bytes) {block : Buffer}
    (content : ∀ i byte, data[i]? = some byte → block i = byte) :
    Placed bytes (fun (_ : Unit) i => i) (fun _ => block) recv (poke recv (0 + ·) data) := by
  subst length
  constructor
  · intro _ i inside
    have there := poke_at recv (0 + ·) data (distinct_add 0 _) inside
    rw [Nat.zero_add] at there
    exact there.trans (content i _ (getElem?_eq_getElem inside)).symm
  · intro a off
    refine poke_other _ _ _ fun i inside => ?_
    rw [Nat.zero_add]
    exact off () i inside

section Blocks
variable {bytes : Nat} {data : Fin n → List UInt8}

variable (length : ∀ r, (data r).length = bytes)
include length

theorem foldl_poke_other (ranks : List (Fin n)) (recv : Buffer)
    (off : ∀ r ∈ ranks, ∀ i, i < bytes → r.val * bytes + i ≠ a) :
    ranks.foldl (fun recv r => poke recv (r.val * bytes + ·) (data r)) recv a = recv a := by
  induction ranks generalizing recv with
  | nil => rfl
  | cons r ranks ih =>
    obtain ⟨here, others⟩ := forall_mem_cons.mp off
    rw [foldl_cons, ih _ others]
    exact poke_other _ _ _ fun i inside => here i (length r ▸ inside)

theorem foldl_poke_at (ranks : List (Fin n)) (recv : Buffer) {r : Fin n}
    (member : r ∈ ranks) {i : Nat} (inside : i < bytes) {byte : UInt8} (found : (data r)[i]? = some byte) :
    ranks.foldl (fun recv r => poke recv (r.val * bytes + ·) (data r)) recv (r.val * bytes + i) = byte := by
  induction ranks generalizing recv with
  | nil => cases member
  | cons s ranks ih =>
    rw [foldl_cons]
    by_cases later : r ∈ ranks
    · exact ih _ later
    · obtain rfl : r = s := (mem_cons.mp member).resolve_right later
      rw [foldl_poke_other length ranks]
      · obtain ⟨hi, rfl⟩ := List.getElem?_eq_some_iff.mp found
        exact poke_at recv (r.val * bytes + ·) (data r) (distinct_add _ _) hi
      · intro q among j hj same
        have equal : q = r := Fin.ext (slot_eq hj inside same).1
        exact later (equal ▸ among)

theorem placed_foldl {block : Fin n → Buffer}
    (content : ∀ r i byte, (data r)[i]? = some byte → block r i = byte) (old : Buffer) :
    Placed bytes (fun (r : Fin n) i => r.val * bytes + i) block old
      ((List.finRange n).foldl (fun recv r => poke recv (r.val * bytes + ·) (data r)) old) := by
  constructor
  · intro r i inside
    have found := getElem?_eq_getElem (l := data r) (i := i) (by rw [length]; exact inside)
    rw [foldl_poke_at length _ old (mem_finRange r) inside found, content r i _ found]
  · exact fun a off => foldl_poke_other length _ old fun r _ => off r

end Blocks

theorem peek_content (send : Buffer) (bytes i : Nat) {byte : UInt8} (found : (peek send id bytes)[i]? = some byte) :
    send i = byte := by
  obtain ⟨hi, rfl⟩ := List.getElem?_eq_some_iff.mp found
  exact (peek_getElem send id hi).symm

theorem part_content (send : Buffer) (total start bytes i : Nat) {byte : UInt8}
    (found : (((peek send id total).drop start).take bytes)[i]? = some byte) : send (start + i) = byte := by
  rw [getElem?_take] at found
  split at found
  · rw [getElem?_drop] at found
    exact peek_content send total _ found
  · cases found

theorem part_length (me : Fin n) (bytes : Nat) (send : Buffer) :
    (((peek send id (bytes * n)).drop (me.val * bytes)).take bytes).length = bytes := by
  have inside : me.val * bytes + bytes ≤ (peek send id (bytes * n)).length := slot_inside me bytes
  rw [length_take, length_drop]
  omega

def Datatype.Word (type : Datatype) : Prop := type.plus = fun a b => (a + b) % 256 ^ type.size

theorem Datatype.word_of_integer {type : Datatype} (integer : type = .int ∨ type = .long ∨ type = .longLong) :
    type.Word := by
  rcases integer with rfl | rfl | rfl <;> rfl

def word (type : Datatype) (buf : Buffer) (e : Nat) : Nat := loadLE buf (e * type.size + ·) type.size

theorem word_mod (type : Datatype) (buf : Buffer) (e : Nat) : word type buf e % 256 ^ type.size = word type buf e :=
  Nat.mod_eq_of_lt (loadLE_lt buf _ type.size)

section Sums
variable {type : Datatype} {data : List UInt8} {elements : List Nat} {e : Nat}

theorem added_other (recv : Buffer) (off : ∀ e ∈ elements, ∀ i, i < type.size → e * type.size + i ≠ a) :
    Meets.added type data elements recv a = recv a := by
  induction elements generalizing recv with
  | nil => rfl
  | cons e elements ih =>
    obtain ⟨here, others⟩ := forall_mem_cons.mp off
    rw [Meets.added, foldl_cons]
    exact (ih _ others).trans (storeLE_other _ _ _ _ here)

theorem word_added_other (recv : Buffer) (absent : e ∉ elements) :
    word type (Meets.added type data elements recv) e = word type recv e := by
  refine loadLE_congr fun i inside => added_other recv fun d member j inside' same => ?_
  rw [(slot_eq inside' inside same).1] at member
  exact absent member

theorem word_added (integer : type.Word) (recv : Buffer) (nodup : elements.Nodup) (member : e ∈ elements) :
    word type (Meets.added type data elements recv) e =
      (word type recv e + ofBytesLE ((data.drop (e * type.size)).take type.size)) % 256 ^ type.size := by
  induction elements generalizing recv with
  | nil => cases member
  | cons d elements ih =>
    obtain ⟨absent, nodup⟩ := nodup_cons.mp nodup
    rw [Meets.added, foldl_cons]
    by_cases here : e = d
    · subst here
      refine (word_added_other _ absent).trans ?_
      rw [word, loadLE_storeLE _ _ _ _ (distinct_add _ _), integer, Nat.mod_mod]
      rfl
    · have same : word type (Meets.added type data [d] recv) e = word type recv e :=
        word_added_other recv (by simpa using here)
      have rest := ih (Meets.added type data [d] recv) nodup ((mem_cons.mp member).resolve_left here)
      rw [same] at rest
      exact rest

theorem word_copied (send recv : Buffer) {count : Nat} (inside : e < count) :
    word type (poke recv id (peek send id (count * type.size))) e = word type send e := by
  have slot := slot_le inside type.size
  refine loadLE_congr fun i small => ?_
  have there : e * type.size + i < (peek send id (count * type.size)).length := by
    rw [peek_length]
    omega
  have copied := poke_at recv id (peek send id (count * type.size)) (fun _ _ _ _ same => same) there
  rwa [peek_getElem] at copied

theorem ofBytesLE_part (send : Buffer) {count : Nat} (inside : e < count) :
    ofBytesLE (((peek send id (count * type.size)).drop (e * type.size)).take type.size) = word type send e := by
  have slot := slot_le inside type.size
  refine congrArg ofBytesLE (ext_getElem ?_ fun i _ _ => ?_)
  · rw [length_take, length_drop, peek_length, peek_length]
    omega
  · rw [getElem_take, getElem_drop, peek_getElem, peek_getElem]
    rfl

variable {send : Fin n → Buffer} {count : Nat}

theorem word_foldl_added (integer : type.Word) (ranks : List (Fin n)) (recv : Buffer) (inside : e < count) :
    word type (ranks.foldl (fun recv r =>
        Meets.added type (peek (send r) id (count * type.size)) (List.range count) recv) recv) e =
      (word type recv e + (ranks.map fun r => word type (send r) e).sum) % 256 ^ type.size := by
  induction ranks generalizing recv with
  | nil => exact (word_mod type recv e).symm
  | cons r ranks ih =>
    rw [foldl_cons, ih, word_added integer recv nodup_range (mem_range.mpr inside),
      ofBytesLE_part _ inside, map_cons, sum_cons, Nat.mod_add_mod, Nat.add_assoc]

theorem foldl_added_other (ranks : List (Fin n)) (recv : Buffer) (behind : count * type.size ≤ a) :
    ranks.foldl (fun recv r =>
      Meets.added type (peek (send r) id (count * type.size)) (List.range count) recv) recv a = recv a := by
  induction ranks generalizing recv with
  | nil => rfl
  | cons r ranks ih =>
    rw [foldl_cons, ih]
    refine added_other recv fun e member i inside => ?_
    have slot := slot_le (mem_range.mp member) type.size
    omega

theorem add_sum_others (f : Fin n → Nat) (me : Fin n) :
    f me + (((List.finRange n).filter (· ≠ me)).map f).sum = ∑ r, f r := by
  have others : ((List.finRange n).filter (· ≠ me)).toFinset = Finset.univ.erase me := by
    ext r
    simp
  rw [← sum_toFinset f ((nodup_finRange n).filter _), others]
  exact Finset.add_sum_erase _ f (Finset.mem_univ me)

end Sums

theorem Collective.mpiResult (small : c.Small) (bufs : Fin n → Buffers) {types : Fin n → Types}
    (contiguous : ∀ p, (types p).Contiguous) (me : Fin n) : c.MpiResult bufs types me (c.result bufs me) := by
  have sends : ∀ p, (types p).send.offset = id := fun p => funext (contiguous p).1
  have receives : ∀ p, (types p).recv.offset = id := fun p => funext (contiguous p).2
  cases c with
  | bcast root bytes =>
    rw [MpiResult, receives, receives, result]
    split
    · exact placed_front _ (peek_length _ _ _) (peek_content _ bytes)
    · rename_i here
      rw [not_not.mp here]
      exact ⟨fun _ _ _ => rfl, fun _ _ => rfl⟩
  | allreduce summed type count =>
    have integer := Datatype.word_of_integer small.2.2.2.2
    constructor
    · intro e inside
      refine (word_foldl_added integer _ _ inside).trans ?_
      rw [word_copied _ _ inside, add_sum_others fun r => word type (bufs r).send e, pow_mul]
      rfl
    · intro i behind
      refine (foldl_added_other _ _ behind).trans ?_
      exact poke_other _ _ _ fun j inside => by
        rw [peek_length] at inside
        exact Nat.ne_of_lt (Nat.lt_of_lt_of_le inside behind)
  | allgather bytes =>
    simp only [MpiResult, sends, receives]
    exact placed_foldl (fun _ => peek_length _ _ _) (fun _ i _ => peek_content _ bytes i) _
  | alltoall bytes =>
    simp only [MpiResult, sends, receives]
    exact placed_foldl (fun r => part_length me bytes (bufs r).send)
      (fun r i _ => part_content (bufs r).send _ _ _ i) _
  | gather root bytes =>
    simp only [MpiResult, sends, receives, result]
    split
    · exact placed_foldl (fun _ => peek_length _ _ _) (fun _ i _ => peek_content _ bytes i) _
    · rfl
  | scatter root bytes =>
    rw [MpiResult, sends, receives]
    exact placed_front _ (part_length me (bytes root) _) (fun i _ => part_content (bufs root).send _ _ _ i)

section Sequence
variable (fill : Fin n → List (Option Buffer) → Buffers)

def received (c : Collective n) (past : Fin n → List (Option Buffer)) (p : Fin n) : List (Option Buffer) :=
  past p ++ [some (c.result (fun q => fill q (past q)) p)]

def results (calls : List (Collective n)) (past : Fin n → List (Option Buffer)) : Fin n → List (Option Buffer) :=
  calls.foldl (fun past c => received fill c past) past

def phases : List (Collective n) → (Fin n → List (Option Buffer)) → Nat → Option (Fin n → Offer)
  | [], _, _ => some fun _ => .any
  | c :: _, past, 0 => some (c.offer fun q => fill q (past q))
  | _ :: _, _, 1 => none
  | c :: calls, past, t + 2 => phases calls (received fill c past) t

def callsPlan (calls : List (Collective n)) : Plan (Fin n) OrigCall where
  script := List.replicate (2 * calls.length) .barrier
  offers := phases fill calls fun _ => []

variable {fill} in
theorem ok_callAll (worldSize : n ≤ 64) (small : ∀ c ∈ calls, c.Small)
    {plan : Plan (Fin n) OrigCall} {t : Nat} (script : plan.script = List.replicate (t + 2 * calls.length) .barrier)
    (past : Fin n → List (Option Buffer)) (offers : ∀ s, plan.offers (t + s) = phases fill calls past s) (full : Bool)
    (me : Fin n) :
    Ok plan (cxlHeap fun _ => true) me (fun ret => ret = results fill calls past me)
      (callAll full me (fill me) calls (past me)) t {} := by
  induction calls generalizing t past with
  | nil => exact ⟨by rw [script, length_replicate]; rfl, rfl⟩
  | cons c calls ih =>
    obtain ⟨here, others⟩ := forall_mem_cons.mp small
    rw [length_cons] at script
    have meets : Meets plan t (c.offer fun q => fill q (past q)) .barrier := by
      refine ⟨?_, ?_, offers 0, offers 1⟩
      · rw [script, getElem?_replicate_of_lt (by omega)]
      · rw [script, getElem?_replicate_of_lt (by omega)]
    have rest : Ok plan (cxlHeap fun _ => true) me (fun ret => ret = results fill calls (received fill c past) me)
        (callAll full me (fill me) calls (received fill c past me)) (t + 2) {} := by
      refine ih others ?_ _ fun s => ?_
      · rw [script]
        congr 1
        omega
      · rw [show t + 2 + s = t + (s + 2) by omega]
        exact offers (s + 2)
    have kept : ¬ (c.bytes = 0 ∧ full = true) := fun none => absurd none.1 (Nat.ne_of_gt here.1)
    have whole := ok_call (k := fun recv => callAll full me (fill me) calls (past me ++ [recv]))
      (here.fast worldSize me) kept here.2.2.1 meets (fun _ => rfl) rest
    exact whole

theorem results_prefix (calls : List (Collective n)) (past : Fin n → List (Option Buffer)) (p : Fin n) :
    past p <+: results fill calls past p := by
  induction calls generalizing past with
  | nil => exact prefix_refl _
  | cons c calls ih => exact (prefix_append _ _).trans (ih (received fill c past))

theorem results_length (calls : List (Collective n)) (past : Fin n → List (Option Buffer)) (p : Fin n) :
    (results fill calls past p).length = (past p).length + calls.length := by
  induction calls generalizing past with
  | nil => rfl
  | cons c calls ih =>
    refine (ih (received fill c past)).trans ?_
    rw [received, length_append, length_singleton, length_cons]
    omega

theorem results_mpi (small : ∀ c ∈ calls, c.Small) {types : Nat → Fin n → Types}
    (contiguous : ∀ i p, (types i p).Contiguous) {past : Fin n → List (Option Buffer)}
    {k : Nat} (length : ∀ p, (past p).length = k) {i : Nat} (called : calls[i]? = some c)
    (p : Fin n) :
    ∃ recv, (results fill calls past p)[k + i]? = some (some recv) ∧
      c.MpiResult (fun q => fill q ((results fill calls past q).take (k + i))) (types (k + i)) p recv := by
  induction calls generalizing past k i with
  | nil => cases called
  | cons d calls ih =>
    obtain ⟨here, others⟩ := forall_mem_cons.mp small
    cases i with
    | zero =>
      obtain rfl : d = c := Option.some.inj called
      refine ⟨d.result (fun q => fill q (past q)) p, ?_, ?_⟩
      · obtain ⟨later, eq⟩ := results_prefix fill calls (received fill d past) p
        change (results fill calls (received fill d past) p)[k]? = _
        rw [← eq, received, append_assoc, ← length p]
        simp
      · have same : ∀ q, (results fill (d :: calls) past q).take k = past q := by
          intro q
          obtain ⟨later, eq⟩ := results_prefix fill (d :: calls) past q
          rw [← eq, ← length q, take_left']
          rfl
        simp only [Nat.add_zero, same]
        exact mpiResult here _ (contiguous k) p
    | succ i =>
      have next : ∀ q, (received fill d past q).length = k + 1 := by
        intro q
        rw [received, length_append, length q]
        rfl
      have rest := ih others next called
      rw [show k + 1 + i = k + (i + 1) by omega] at rest
      exact rest

/-- Every allocation succeeds; shared memory, the table and the offset may hold anything at the beginning. -/
theorem callTogether_returns (worldSize : n ≤ 64) (small : ∀ c ∈ calls, c.Small) (full : Bool) (mem : Nat → UInt8)
    (rptr : Fin n → Option Nat) (allocOffset : Nat) :
    Returns (callTogether full fill calls mem rptr allocOffset) (results fill calls fun _ => []) := by
  have ok : ∀ me, Ok (callsPlan fill calls) (cxlHeap fun _ => true) me
      (fun ret => ret = results fill calls (fun _ => []) me) (callAll full me (fill me) calls []) 0 {} := by
    intro me
    refine ok_callAll worldSize small ?_ (fun _ => []) (fun s => ?_) full me
    · rw [Nat.zero_add]
      rfl
    · rw [Nat.zero_add]
      rfl
  intro schedule
  obtain ⟨-, returned, more⟩ := run_keeps mem rptr allocOffset ok schedule
  exact ⟨fun p recvs ret => (returned p recvs ret).2, more⟩

end Sequence

theorem collectives_result (worldSize : n ≤ 64) (calls : List (Collective n)) (small : ∀ c ∈ calls, c.Small)
    (types : Nat → Fin n → Types) (contiguous : ∀ i p, (types i p).Contiguous)
    (full : Bool) (fill : Fin n → List (Option Buffer) → Buffers) (mem : Nat → UInt8) (rptr : Fin n → Option Nat)
    (allocOffset : Nat) :
    ∃ history, MpiHistory types fill calls history ∧
      Returns (callTogether full fill calls mem rptr allocOffset) history := by
  refine ⟨results fill calls fun _ => [], ⟨fun p => ?_, fun i c called p => ?_⟩,
    callTogether_returns fill worldSize small full mem rptr allocOffset⟩
  · rw [results_length]
    exact Nat.zero_add _
  · have none : ∀ q : Fin n, ((fun _ => []) q : List (Option Buffer)).length = 0 := fun _ => rfl
    have there := results_mpi fill small contiguous none called p
    rw [Nat.zero_add] at there
    exact there

def sumThenSend (me : Fin 3) : List (Option Buffer) → Buffers
  | [some sums] => ⟨sums, sums⟩
  | _ => ⟨fun i => UInt8.ofNat (me.val + i), fun _ => 0⟩

def TypeMap.byte : TypeMap := ⟨1, 1, fun _ => 0⟩

def TypeMap.doubleInt : TypeMap := ⟨12, 16, id⟩

theorem collectives_result_sumThenSend :
    ∃ history, MpiHistory (fun _ _ => ⟨.byte, .byte⟩) sumThenSend [.allreduce true .long 2, .bcast 1 16] history ∧
      Returns (callTogether false sumThenSend [.allreduce true .long 2, .bcast 1 16] (fun _ => 0) (fun _ => none)
        headerSize.toNat) history := by
  have bytes : TypeMap.byte.Contiguous := by simp [TypeMap.Contiguous, TypeMap.offset, TypeMap.byte]
  refine collectives_result (by decide) _ ?_ _ (fun _ _ => ⟨bytes, bytes⟩) _ _ _ _ _
  intro c member
  rcases mem_cons.mp member with rfl | member
  · exact ⟨by decide, by decide, trivial, rfl, .inr (.inl rfl)⟩
  · obtain rfl := mem_singleton.mp member
    exact ⟨by decide, by decide, trivial, trivial⟩

def onesAtFront (me : Fin 2) (_ : List (Option Buffer)) : Buffers :=
  ⟨fun i => if i = 0 then UInt8.ofNat me.val else 0, fun _ => 0⟩

/-- An `MPI_Allgather` of one `MPI_DOUBLE_INT`: rank 1's is copied to byte 12 of the receive buffers, not to byte 16. -/
theorem collectives_result_doubleInt :
    ¬ ∃ history, MpiHistory (fun _ _ => ⟨.doubleInt, .doubleInt⟩) onesAtFront [.allgather 12] history ∧
      Returns (callTogether false onesAtFront [.allgather 12] (fun _ => 0) (fun _ => none) headerSize.toNat)
        history := by
  rintro ⟨history, mpi, all⟩
  have small : ∀ c ∈ [(.allgather 12 : Collective 2)], c.Small := by
    intro c member
    obtain rfl := mem_singleton.mp member
    exact ⟨by decide, by decide, trivial, trivial⟩
  have returns := callTogether_returns onesAtFront (by decide) small false (fun _ => 0) (fun _ => none)
    headerSize.toNat
  obtain ⟨-, more, ends⟩ := returns []
  obtain ⟨recvs, ret⟩ := ends 0
  obtain ⟨recv, found, placed, -⟩ := mpi.2 0 _ rfl 0
  rw [← (all _).1 0 recvs ret, (returns _).1 0 recvs ret] at found
  have got : (Collective.allgather 12).result (onesAtFront · []) 0 = recv := Option.some.inj (Option.some.inj found)
  have there : recv 16 = 1 := placed 1 0 (by decide)
  rw [← got] at there
  exact absurd there (by decide)

end CxlMemSim.Mpi
