import CxlMemSim.Server.Storage

/-! Node 0 holds the label storage; the other nodes send their accesses there, over shared memory or TCP. -/
namespace CxlMemSim.Dist

structure LabelStorage where
  bytes : List UInt8
  small : bytes.length < 2 ^ 64

variable {offset i : Nat} {data : List UInt8}

namespace LabelStorage
variable (s : LabelStorage)

def size : UInt64 := UInt64.ofNat s.bytes.length

theorem small_initial : (List.replicate (256 * 1024) (0 : UInt8)).length < 2 ^ 64 := by
  rw [List.length_replicate]
  omega

def initial : LabelStorage := ⟨List.replicate (256 * 1024) 0, small_initial⟩

theorem small_resize (newSize : UInt64) :
    (s.bytes ++ List.replicate (newSize.toNat - s.bytes.length) 0).length < 2 ^ 64 := by
  have := s.small
  have := newSize.toNat_lt
  rw [List.length_append, List.length_replicate]
  omega

def resize (newSize : UInt64) : LabelStorage :=
  ⟨s.bytes ++ List.replicate (newSize.toNat - s.bytes.length) 0, s.small_resize newSize⟩

variable {s} in
theorem small_overwrite (inside : offset + data.length ≤ s.bytes.length) :
    (s.bytes.take offset ++ data ++ s.bytes.drop (offset + data.length)).length < 2 ^ 64 := by
  have := s.small
  simp only [List.length_append, List.length_take, List.length_drop]
  omega

def overwrite (offset : Nat) (data : List UInt8) (inside : offset + data.length ≤ s.bytes.length) : LabelStorage :=
  ⟨s.bytes.take offset ++ data ++ s.bytes.drop (offset + data.length), small_overwrite inside⟩

def lsaReadLocal (offset size : UInt64) : Option (Int × List UInt8) :=
  if s.size < offset + size then some (-1, [])
  else if offset.toNat + size.toNat ≤ s.bytes.length then some (0, (s.bytes.drop offset.toNat).take size.toNat)
  else none

def grown (newSize : UInt64) : LabelStorage := if s.size < newSize then s.resize newSize else s

def lsaWriteLocal (offset : UInt64) (data : List UInt8) : Option (Int × LabelStorage) :=
  let s := s.grown (offset + UInt64.ofNat data.length)
  if inside : offset.toNat + data.length ≤ s.bytes.length then some (0, s.overwrite offset.toNat data inside)
  else none

end LabelStorage

inductive LsaOp where
  | read
  | write
deriving DecidableEq

/-- What a message to node 0 says, as a `dist_message_t` or as a `DistServerRequest`. -/
structure LsaRequest where
  op : LsaOp
  addr : UInt64
  size : UInt64
  data : Vector UInt8 64 := Vector.replicate 64 0

structure LsaReply where
  status : UInt8
  data : Vector UInt8 64 := Vector.replicate 64 0

inductive LsaTransport where
  | shm
  | tcp

def lsaHandler (s : LabelStorage) (req : LsaRequest) : Option (LsaReply × LabelStorage) :=
  let size := min req.size 64
  match req.op with
  | .read =>
    (s.lsaReadLocal req.addr size).map fun (ret, bytes) =>
      ({ status := if ret = 0 then 0 else 1, data := copyInto (Vector.replicate 64 0) bytes }, s)
  | .write =>
    (s.lsaWriteLocal req.addr (req.data.toList.take size.toNat)).map fun (ret, s) =>
      ({ status := if ret = 0 then 0 else 1 }, s)

structure LsaCall where
  op : LsaOp
  offset : UInt64
  data : List UInt8

@[ext] structure LsaResult where
  ret : Int
  data : List UInt8
  storage : LabelStorage

def lsaLocal (s : LabelStorage) (c : LsaCall) : Option LsaResult :=
  match c.op with
  | .read =>
    (s.lsaReadLocal c.offset (UInt64.ofNat c.data.length)).map fun (ret, bytes) =>
      ⟨ret, bytes ++ c.data.drop bytes.length, s⟩
  | .write => (s.lsaWriteLocal c.offset c.data).map fun (ret, s) => ⟨ret, c.data, s⟩

def handleTcpClient (s : LabelStorage) (req : LsaRequest) : Option (LsaReply × LabelStorage) :=
  let clampedSize := min req.size 64
  let call : LsaCall := match req.op with
    | .read => ⟨.read, req.addr, List.replicate clampedSize.toNat 0⟩
    | .write => ⟨.write, req.addr, req.data.toList.take clampedSize.toNat⟩
  (lsaLocal s call).map fun (result : LsaResult) =>
    ({ status := if result.ret = 0 then 0 else 1
       data := if req.op = .read then copyInto (Vector.replicate 64 0) result.data else Vector.replicate 64 0 },
      result.storage)

def LsaTransport.exchange (transport : LsaTransport) (s : LabelStorage) (req : LsaRequest) :
    Option (LsaReply × LabelStorage) :=
  match transport with
  | .shm => lsaHandler s req
  | .tcp => handleTcpClient s req

def forwardLsaToCoordinator (transport : LsaTransport) (s : LabelStorage) (c : LsaCall) : Option LsaResult :=
  let clampedSize := min c.data.length 64
  let data :=
    if c.op = .write then copyInto (Vector.replicate 64 0) (c.data.take clampedSize) else Vector.replicate 64 0
  (transport.exchange s { op := c.op, addr := c.offset, size := UInt64.ofNat clampedSize, data }).map fun (reply, s) =>
    if reply.status ≠ 0 then ⟨-1, c.data, s⟩
    else if c.op = .read then ⟨0, reply.data.toList.take clampedSize ++ c.data.drop clampedSize, s⟩
    else ⟨0, c.data, s⟩

def lsaAccess (node : UInt32) (transport : LsaTransport) (s : LabelStorage) (c : LsaCall) : Option LsaResult :=
  if node ≠ 0 then forwardLsaToCoordinator transport s c else lsaLocal s c

def lsaRun (calls : List (UInt32 × LsaTransport × LsaCall)) : Option LabelStorage :=
  calls.foldlM (fun s (node, transport, c) => (lsaAccess node transport s c).map LsaResult.storage) .initial

/-- The call is defined, and when it succeeds it has done what the call on node 0 does. -/
def AsDirect (node : UInt32) (transport : LsaTransport) (s : LabelStorage) (c : LsaCall) : Prop :=
  ∃ result, lsaAccess node transport s c = some result ∧ (result.ret = 0 → lsaAccess 0 transport s c = some result)

namespace LabelStorage
variable {s : LabelStorage}

theorem size_toNat : s.size.toNat = s.bytes.length := UInt64.toNat_ofNat_of_lt s.small

theorem bytes_resize (newSize : UInt64) :
    (s.resize newSize).bytes = s.bytes ++ List.replicate (newSize.toNat - s.bytes.length) 0 := rfl

section
variable (inside : offset + data.length ≤ s.bytes.length)
include inside

theorem bytes_overwrite : (s.overwrite offset data inside).bytes =
      s.bytes.take offset ++ data ++ s.bytes.drop (offset + data.length) := rfl

omit inside in
theorem getD_resize (newSize : UInt64) (p : Nat) : (s.resize newSize).bytes.getD p 0 = s.bytes.getD p 0 := by
  rw [bytes_resize]
  by_cases old : p < s.bytes.length
  · rw [List.getD_append _ _ _ _ old]
  · rw [List.getD_append_right _ _ _ _ (Nat.le_of_not_lt old), List.getD_eq_default _ _ (Nat.le_of_not_lt old)]
    rw [List.getD_eq_getElem?_getD, List.getElem?_replicate]
    split <;> rfl

theorem getD_overwrite
    (hi : i < data.length) : (s.overwrite offset data inside).bytes.getD (offset + i) 0 = data.getD i 0 := by
  have start : (s.bytes.take offset).length = offset := by
    rw [List.length_take]
    omega
  rw [bytes_overwrite, List.append_assoc, List.getD_append_right _ _ _ _ (by omega), start, Nat.add_sub_cancel_left,
    List.getD_append _ _ _ _ hi]

theorem getD_overwrite_after {p : Nat} (after : offset + data.length ≤ p) :
    (s.overwrite offset data inside).bytes.getD p 0 = s.bytes.getD p 0 := by
  have start : (s.bytes.take offset ++ data).length = offset + data.length := by
    rw [List.length_append, List.length_take]
    omega
  rw [bytes_overwrite, List.getD_append_right _ _ _ _ (by omega), start]
  simp only [List.getD_eq_getElem?_getD, List.getElem?_drop]
  congr 2
  omega

theorem length_overwrite : (s.overwrite offset data inside).bytes.length = s.bytes.length := by
  rw [bytes_overwrite]
  simp only [List.length_append, List.length_take, List.length_drop]
  omega

end

theorem getD_grown (newSize : UInt64) (p : Nat) : (s.grown newSize).bytes.getD p 0 = s.bytes.getD p 0 := by
  unfold grown
  split
  · exact getD_resize newSize p
  · rfl

theorem length_grown (newSize : UInt64) : (s.grown newSize).bytes.length = max s.bytes.length newSize.toNat := by
  unfold grown
  split
  · rename_i grows
    rw [UInt64.lt_iff_toNat_lt, size_toNat] at grows
    rw [bytes_resize, List.length_append, List.length_replicate]
    omega
  · rename_i fits
    rw [UInt64.lt_iff_toNat_lt, size_toNat] at fits
    omega

end LabelStorage

variable {result : LsaResult} {s : LabelStorage}

section
variable {s : LabelStorage} {offset : UInt64} {data : List UInt8} {result : LsaResult}

theorem lsaLocal_write (s : LabelStorage) (offset : UInt64) (data : List UInt8) :
    lsaLocal s ⟨.write, offset, data⟩ =
      if inside : offset.toNat + data.length ≤ (s.grown (offset + UInt64.ofNat data.length)).bytes.length then
        some ⟨0, data, LabelStorage.overwrite _ offset.toNat data inside⟩
      else none := by
  simp only [lsaLocal, LabelStorage.lsaWriteLocal]
  split <;> rfl

theorem lsaLocal_read (s : LabelStorage) (offset : UInt64) (small : data.length < 2 ^ 64) :
    lsaLocal s ⟨.read, offset, data⟩ =
      if s.bytes.length < (offset + UInt64.ofNat data.length).toNat then some ⟨-1, data, s⟩
      else if offset.toNat + data.length ≤ s.bytes.length then
        some ⟨0, (s.bytes.drop offset.toNat).take data.length, s⟩
      else none := by
  have size : (UInt64.ofNat data.length).toNat = data.length := UInt64.toNat_ofNat_of_lt small
  simp only [lsaLocal, LabelStorage.lsaReadLocal, size, UInt64.lt_iff_toNat_lt, LabelStorage.size_toNat]
  split
  · rfl
  · split
    · have whole : ((s.bytes.drop offset.toNat).take data.length).length = data.length := by
        rw [List.length_take, List.length_drop]
        omega
      simp only [Option.map_some, whole, List.drop_length, List.append_nil]
    · rfl

theorem end_of_fits (fits : offset.toNat + data.length < 2 ^ 64) :
    (offset + UInt64.ofNat data.length).toNat = offset.toNat + data.length := by
  rw [UInt64.toNat_add, UInt64.toNat_ofNat', Nat.add_mod_mod, Nat.mod_eq_of_lt fits]

theorem lsaLocal_of_fits (s : LabelStorage) (op : LsaOp) (fits : offset.toNat + data.length < 2 ^ 64) :
    ∃ result, lsaLocal s ⟨op, offset, data⟩ = some result ∧
      (result.ret = 0 ↔ op = .read → offset.toNat + data.length ≤ s.bytes.length) := by
  cases op with
  | read =>
    rw [lsaLocal_read s offset (by omega), end_of_fits fits]
    by_cases inside : offset.toNat + data.length ≤ s.bytes.length
    · rw [if_neg (by omega), if_pos inside]
      exact ⟨_, rfl, iff_of_true rfl fun _ => inside⟩
    · rw [if_pos (by omega)]
      exact ⟨_, rfl, iff_of_false (show ¬ (-1 : Int) = 0 by decide) fun h => inside (h rfl)⟩
  | write =>
    have inside : offset.toNat + data.length ≤ (s.grown (offset + UInt64.ofNat data.length)).bytes.length := by
      rw [LabelStorage.length_grown, end_of_fits fits]
      exact le_max_right _ _
    rw [lsaLocal_write, dif_pos inside]
    exact ⟨_, rfl, iff_of_true rfl nofun⟩

theorem lsaLocal_of_wraps (op : LsaOp) (short : data.length ≤ 64) (large : 64 ≤ s.bytes.length)
    (wraps : 2 ^ 64 ≤ offset.toNat + data.length) : lsaLocal s ⟨op, offset, data⟩ = none := by
  have small := s.small
  have start := offset.toNat_lt
  have ends : (offset + UInt64.ofNat data.length).toNat = offset.toNat + data.length - 2 ^ 64 := by
    rw [UInt64.toNat_add, UInt64.toNat_ofNat', Nat.add_mod_mod]
    omega
  cases op with
  | read =>
    rw [lsaLocal_read s offset (by omega), ends, if_neg (by omega), if_neg (by omega)]
  | write =>
    have outside := (s.grown (offset + UInt64.ofNat data.length)).small
    rw [lsaLocal_write, dif_neg (by omega)]

theorem getD_of_read (small : data.length < 2 ^ 64)
    (done : lsaLocal s ⟨.read, offset, data⟩ = some result) (ok : result.ret = 0) (hi : i < data.length) :
    result.data.getD i 0 = s.bytes.getD (offset.toNat + i) 0 := by
  rw [lsaLocal_read s offset small] at done
  split at done
  · cases done
    exact absurd ok (show ¬ (-1 : Int) = 0 by decide)
  · split at done
    · cases done
      simp [List.getD_eq_getElem?_getD, hi]
    · cases done

theorem getD_of_write (done : lsaLocal s ⟨.write, offset, data⟩ = some result)
    (hi : i < data.length) : result.storage.bytes.getD (offset.toNat + i) 0 = data.getD i 0 := by
  rw [lsaLocal_write] at done
  split at done
  · rename_i inside
    cases done
    exact LabelStorage.getD_overwrite inside hi
  · cases done

theorem getD_after_write (done : lsaLocal s ⟨.write, offset, data⟩ = some result) {p : Nat}
    (after : offset.toNat + data.length ≤ p) : result.storage.bytes.getD p 0 = s.bytes.getD p 0 := by
  rw [lsaLocal_write] at done
  split at done
  · rename_i inside
    cases done
    exact (LabelStorage.getD_overwrite_after inside after).trans (LabelStorage.getD_grown _ _)
  · cases done

theorem length_of_read (small : data.length < 2 ^ 64)
    (done : lsaLocal s ⟨.read, offset, data⟩ = some result) : result.data.length = data.length := by
  rw [lsaLocal_read s offset small] at done
  split at done
  · cases done
    rfl
  · split at done
    · cases done
      rw [List.length_take, List.length_drop]
      omega
    · cases done

theorem length_le_of_local {c : LsaCall} (done : lsaLocal s c = some result) :
    s.bytes.length ≤ result.storage.bytes.length := by
  obtain ⟨op, offset, data⟩ := c
  cases op with
  | read =>
    obtain ⟨copied, -, rfl⟩ := Option.map_eq_some_iff.mp done
    exact Nat.le_refl _
  | write =>
    rw [lsaLocal_write] at done
    split at done
    · cases done
      rw [LabelStorage.length_overwrite, LabelStorage.length_grown]
      exact le_max_left _ _
    · cases done

end

def LsaCall.cut (c : LsaCall) : LsaCall := { c with data := c.data.take 64 }

section
variable {s : LabelStorage} {addr : UInt64} {n : Nat}

theorem toNat_of_short (short : n ≤ 64) : (UInt64.ofNat n).toNat = n :=
  UInt64.toNat_ofNat_of_lt (short.trans_lt (by decide))

theorem clamp_of_short (short : n ≤ 64) : min (UInt64.ofNat n) 64 = UInt64.ofNat n := by
  refine if_pos ?_
  rw [UInt64.le_iff_toNat_le, toNat_of_short short]
  exact short

theorem lsaReadLocal_cases {ret : Int} {bytes : List UInt8} (short : n ≤ 64)
    (done : s.lsaReadLocal addr (UInt64.ofNat n) = some (ret, bytes)) :
    ret = -1 ∧ bytes = [] ∨ ret = 0 ∧ bytes.length = n := by
  simp only [LabelStorage.lsaReadLocal, toNat_of_short short] at done
  split at done
  · cases done
    exact .inl ⟨rfl, rfl⟩
  · split at done
    · cases done
      refine .inr ⟨rfl, ?_⟩
      rw [List.length_take, List.length_drop]
      omega
    · cases done

theorem lsaWriteLocal_ret {written : Int × LabelStorage}
    (done : s.lsaWriteLocal addr data = some written) : written.1 = 0 := by
  simp only [LabelStorage.lsaWriteLocal] at done
  split at done
  · cases done
    rfl
  · cases done

theorem exchange_read (transport : LsaTransport) (short : n ≤ 64) {ret : Int} {bytes : List UInt8}
    (done : s.lsaReadLocal addr (UInt64.ofNat n) = some (ret, bytes)) :
    ∃ reply, transport.exchange s { op := .read, addr, size := UInt64.ofNat n } = some (reply, s) ∧
      (reply.status = 0 ↔ ret = 0) ∧ (ret = 0 → reply.data.toList.take n = bytes) := by
  have copied : ret = 0 → bytes.length = n ∧ (copyInto (Vector.replicate 64 0) bytes).toList.take n = bytes := by
    intro ok
    rcases lsaReadLocal_cases short done with ⟨failed, -⟩ | ⟨-, length⟩
    · exact absurd (failed.symm.trans ok) (by decide)
    · refine ⟨length, ?_⟩
      rw [← length]
      exact copyInto_take _ (length.trans_le short)
  have status : (if ret = 0 then (0 : UInt8) else 1) = 0 ↔ ret = 0 := by
    by_cases ok : ret = 0
    · rw [if_pos ok]
      exact iff_of_true rfl ok
    · rw [if_neg ok]
      exact iff_of_false (by decide) ok
  cases transport with
  | shm =>
    refine ⟨⟨if ret = 0 then 0 else 1, copyInto (Vector.replicate 64 0) bytes⟩, ?_, status, fun ok => (copied ok).2⟩
    simp only [LsaTransport.exchange, lsaHandler, clamp_of_short short, done, Option.map_some]
  | tcp =>
    have called : lsaLocal s ⟨.read, addr, List.replicate n 0⟩ =
        some ⟨ret, bytes ++ (List.replicate n 0).drop bytes.length, s⟩ := by
      simp only [lsaLocal, List.length_replicate, done, Option.map_some]
    refine ⟨⟨if ret = 0 then 0 else 1,
      copyInto (Vector.replicate 64 0) (bytes ++ (List.replicate n 0).drop bytes.length)⟩, ?_, status, fun ok => ?_⟩
    · simp only [LsaTransport.exchange, handleTcpClient, clamp_of_short short, toNat_of_short short, called,
        Option.map_some, if_true]
    · obtain ⟨length, same⟩ := copied ok
      have nothing : (List.replicate n (0 : UInt8)).drop bytes.length = [] := by
        rw [length]
        exact List.drop_eq_nil_of_le (by rw [List.length_replicate])
      rw [nothing, List.append_nil]
      exact same

theorem exchange_undefined (transport : LsaTransport) (short : n ≤ 64)
    (undefined : s.lsaReadLocal addr (UInt64.ofNat n) = none) :
    transport.exchange s { op := .read, addr, size := UInt64.ofNat n } = none := by
  cases transport with
  | shm => simp only [LsaTransport.exchange, lsaHandler, clamp_of_short short, undefined, Option.map_none]
  | tcp =>
    simp only [LsaTransport.exchange, handleTcpClient, clamp_of_short short, toNat_of_short short, lsaLocal,
      List.length_replicate, undefined, Option.map_none]

theorem exchange_write (transport : LsaTransport) {bytes : List UInt8} (short : bytes.length ≤ 64) :
    transport.exchange s { op := .write, addr, size := UInt64.ofNat bytes.length,
                           data := copyInto (Vector.replicate 64 0) bytes } =
      (s.lsaWriteLocal addr bytes).map fun written => ({ status := if written.1 = 0 then 0 else 1 }, written.2) := by
  have copied := copyInto_take (Vector.replicate 64 0) short
  cases transport with
  | shm =>
    simp only [LsaTransport.exchange, lsaHandler, clamp_of_short short, toNat_of_short short, copied]
  | tcp =>
    simp only [LsaTransport.exchange, handleTcpClient, clamp_of_short short, toNat_of_short short, copied, lsaLocal,
      Option.map_map, reduceCtorEq, if_false]
    rfl

end

theorem forward_eq (transport : LsaTransport) (s : LabelStorage) (c : LsaCall) :
    forwardLsaToCoordinator transport s c =
      (lsaLocal s c.cut).map fun result => { result with data := result.data ++ c.data.drop 64 } := by
  obtain ⟨op, offset, data⟩ := c
  obtain ⟨n, size⟩ : ∃ n, n = min data.length 64 := ⟨_, rfl⟩
  have short : n ≤ 64 := by omega
  have first : data.take 64 = data.take n := by
    rw [size, List.take_eq_take_iff]
    omega
  have rest : data.drop 64 = data.drop n := by
    rcases Nat.le_total data.length 64 with small | large
    · rw [List.drop_eq_nil_of_le small, List.drop_eq_nil_of_le (by omega)]
    · rw [size, Nat.min_eq_right large]
  have length : (data.take n).length = n := by
    rw [List.length_take]
    omega
  cases op with
  | read =>
    simp only [forwardLsaToCoordinator, LsaCall.cut, ← size, lsaLocal, reduceCtorEq, if_false, first, rest, length]
    cases done : s.lsaReadLocal offset (UInt64.ofNat n) with
    | none => simp only [exchange_undefined transport short done, Option.map_none]
    | some copied =>
      obtain ⟨ret, bytes⟩ := copied
      obtain ⟨reply, answered, status, data_eq⟩ := exchange_read transport short done
      simp only [answered, Option.map_some]
      rcases lsaReadLocal_cases short done with ⟨rfl, rfl⟩ | ⟨rfl, whole⟩
      · rw [if_pos fun ok => absurd (status.mp ok) (by decide)]
        simp
      · rw [if_neg fun failed => failed (status.mpr rfl), data_eq rfl]
        simp [whole]
  | write =>
    have answered := @exchange_write s offset transport (data.take n) (by omega)
    rw [length] at answered
    simp only [forwardLsaToCoordinator, LsaCall.cut, ← size, lsaLocal, if_true, answered, first, rest, Option.map_map]
    cases done : s.lsaWriteLocal offset (data.take n) with
    | none => rfl
    | some written =>
      have ok := lsaWriteLocal_ret done
      simp [ok]

theorem length_le_of_access {node : UInt32} {transport : LsaTransport} {c : LsaCall}
    (done : lsaAccess node transport s c = some result) :
    s.bytes.length ≤ result.storage.bytes.length := by
  unfold lsaAccess at done
  split at done
  · rw [forward_eq] at done
    obtain ⟨first, cut, rfl⟩ := Option.map_eq_some_iff.mp done
    exact (length_le_of_local cut :)
  · exact length_le_of_local done

theorem length_le_of_run {calls : List (UInt32 × LsaTransport × LsaCall)}
    (reached : lsaRun calls = some s) : 256 * 1024 ≤ s.bytes.length := by
  induction calls using List.reverseRecOn generalizing s with
  | nil =>
    cases reached
    exact (List.length_replicate).ge
  | append_singleton before c ih =>
    obtain ⟨node, transport, c⟩ := c
    rw [lsaRun, List.foldlM_append] at reached
    obtain ⟨earlier, start, last⟩ := Option.bind_eq_some_iff.mp reached
    have done : (lsaAccess node transport earlier c).map LsaResult.storage = some s := by simpa using last
    obtain ⟨result, access, rfl⟩ := Option.map_eq_some_iff.mp done
    exact (ih start).trans (length_le_of_access access)

section
variable {node : UInt32} {transport : LsaTransport} {s : LabelStorage} {offset : UInt64} {data : List UInt8}
  {op : LsaOp}

theorem asDirect_iff (remote : node ≠ 0) : AsDirect node transport s ⟨op, offset, data⟩ ↔
    ∃ first, lsaLocal s ⟨op, offset, data.take 64⟩ = some first ∧
      (first.ret = 0 → lsaLocal s ⟨op, offset, data⟩ = some { first with data := first.data ++ data.drop 64 }) := by
  have direct : lsaAccess 0 transport s ⟨op, offset, data⟩ = lsaLocal s ⟨op, offset, data⟩ := if_neg fun h => h rfl
  rw [AsDirect, direct, lsaAccess, if_pos remote, forward_eq, LsaCall.cut]
  constructor
  · rintro ⟨result, done, same⟩
    obtain ⟨first, cut, rfl⟩ := Option.map_eq_some_iff.mp done
    exact ⟨first, cut, same⟩
  · rintro ⟨first, cut, same⟩
    exact ⟨_, congrArg (Option.map _) cut, same⟩

theorem asDirect_short (remote : node ≠ 0) (large : 64 ≤ s.bytes.length) (short : data.length ≤ 64) :
    AsDirect node transport s ⟨op, offset, data⟩ ↔ offset.toNat + data.length < 2 ^ 64 := by
  rw [asDirect_iff remote, List.take_of_length_le short, List.drop_eq_nil_of_le short]
  simp only [List.append_nil]
  by_cases fits : offset.toNat + data.length < 2 ^ 64
  · obtain ⟨result, done, -⟩ := lsaLocal_of_fits s op fits
    exact iff_of_true ⟨result, done, fun _ => done⟩ fits
  · have undefined := lsaLocal_of_wraps op short large (Nat.le_of_not_lt fits)
    refine iff_of_false ?_ fits
    rintro ⟨result, done, -⟩
    exact Option.some_ne_none result (done.symm.trans undefined)

theorem lsaLocal_ne_forwarded (small : data.length < 2 ^ 64) (long : 64 < data.length)
    (byte : data.getD 64 0 ≠ s.bytes.getD (offset.toNat + 64) 0) {first : LsaResult}
    (served : lsaLocal s ⟨op, offset, data.take 64⟩ = some first) (ok : first.ret = 0) :
    lsaLocal s ⟨op, offset, data⟩ ≠ some { first with data := first.data ++ data.drop 64 } := by
  intro direct
  have cut : (data.take 64).length = 64 := by
    rw [List.length_take]
    omega
  cases op with
  | read =>
    have length : first.data.length = 64 := (length_of_read (by omega) served).trans cut
    have read := getD_of_read small direct ok long
    rw [List.getD_append_right _ _ _ _ length.le, length, Nat.sub_self] at read
    refine byte (Eq.trans ?_ read)
    simp [List.getD_eq_getElem?_getD]
  | write =>
    have written := getD_of_write direct long
    have kept := getD_after_write served (p := offset.toNat + 64) (by omega)
    exact byte (written.symm.trans kept)

theorem getD_other (s : LabelStorage) (p : Nat) {size : Nat} (long : 64 < size) :
    (List.replicate size (s.bytes.getD p 0 + 1)).getD 64 0 ≠ s.bytes.getD p 0 := by
  rw [List.getD_replicate _ long]
  intro same
  exact absurd (UInt8.add_eq_left.mp same) (by decide)

/-- More than 64 bytes are treated as on node 0 just if node 0 refuses the first 64 of them. -/
theorem asDirect_long (remote : node ≠ 0) (large : 64 ≤ s.bytes.length) {size : Nat} (small : size < 2 ^ 64)
    (long : 64 < size) :
    (∀ data, data.length = size → AsDirect node transport s ⟨op, offset, data⟩) ↔
      op = .read ∧ offset.toNat + 64 < 2 ^ 64 ∧ s.bytes.length < offset.toNat + 64 := by
  constructor
  · intro all
    obtain ⟨data, content⟩ : ∃ data, data = List.replicate size (s.bytes.getD (offset.toNat + 64) 0 + 1) := ⟨_, rfl⟩
    have length : data.length = size := by rw [content, List.length_replicate]
    have cut : (data.take 64).length = 64 := by
      rw [List.length_take]
      omega
    obtain ⟨first, served, same⟩ := (asDirect_iff remote).mp (all data length)
    have fits : offset.toNat + (data.take 64).length < 2 ^ 64 := by
      by_contra wraps
      have undefined := lsaLocal_of_wraps op cut.le large (Nat.le_of_not_lt wraps)
      exact Option.some_ne_none first (served.symm.trans undefined)
    obtain ⟨result, done, succeeds⟩ := lsaLocal_of_fits s op fits
    obtain rfl := Option.some.inj (done.symm.trans served)
    rw [cut] at fits succeeds
    have failed : result.ret ≠ 0 := by
      intro ok
      refine lsaLocal_ne_forwarded (by omega) (by omega) ?_ served ok (same ok)
      rw [content]
      exact getD_other s _ long
    rw [Ne, succeeds, Classical.not_imp, Nat.not_le] at failed
    exact ⟨failed.1, fits, failed.2⟩
  · rintro ⟨rfl, fits, outside⟩ data length
    have cut : (data.take 64).length = 64 := by
      rw [List.length_take]
      omega
    have fit : offset.toNat + (data.take 64).length < 2 ^ 64 := by rwa [cut]
    obtain ⟨result, done, succeeds⟩ := lsaLocal_of_fits s .read fit
    rw [cut] at succeeds
    refine (asDirect_iff remote).mpr ⟨result, done, fun ok => ?_⟩
    exact absurd (succeeds.mp ok rfl) (Nat.not_le.mpr outside)

end

theorem lsa_forwarding_iff (calls : List (UInt32 × LsaTransport × LsaCall)) (s : LabelStorage)
    (reached : lsaRun calls = some s) (node : UInt32) (remote : node ≠ 0) (transport : LsaTransport)
    (offset size : UInt64) (op : LsaOp) :
    (∀ data, data.length = size.toNat → AsDirect node transport s ⟨op, offset, data⟩) ↔
      (size.toNat ≤ 64 ∧ offset.toNat + size.toNat < 2 ^ 64) ∨
        (64 < size.toNat ∧ op = .read ∧ offset.toNat + 64 < 2 ^ 64 ∧ s.bytes.length < offset.toNat + 64) := by
  have large : 64 ≤ s.bytes.length := le_trans (by decide) (length_le_of_run reached)
  rcases Nat.lt_or_ge 64 size.toNat with long | short
  · rw [asDirect_long remote large size.toNat_lt long]
    refine ⟨fun h => .inr ⟨long, h⟩, fun h => ?_⟩
    rcases h with short | refused
    · exact absurd short.1 (Nat.not_le.mpr long)
    · exact refused.2
  · constructor
    · intro all
      have length : (List.replicate size.toNat (0 : UInt8)).length = size.toNat := List.length_replicate
      have fits := (asDirect_short remote large (length.trans_le short)).mp (all _ length)
      rw [length] at fits
      exact .inl ⟨short, fits⟩
    · rintro (fits | long) data length
      · rw [asDirect_short remote large (length.trans_le short), length]
        exact fits.2
      · exact absurd long.1 (Nat.not_lt.mpr short)

theorem lsa_forwarding_iff_line :
    lsaRun [] = some .initial ∧ AsDirect 1 .shm .initial ⟨.write, 0x100, List.replicate 64 7⟩ :=
  ⟨rfl, (lsa_forwarding_iff [] .initial rfl 1 (by decide) .shm 0x100 64 .write).mpr (.inl (by decide)) _
    List.length_replicate⟩

theorem truncated_write_succeeds :
    (∃ result, lsaAccess 1 .shm .initial ⟨.write, 0, List.replicate 100 1⟩ = some result ∧ result.ret = 0 ∧
        result.storage.bytes.getD 64 0 = 0) ∧
      ¬ AsDirect 1 .shm .initial ⟨.write, 0, List.replicate 100 1⟩ := by
  have fits : (0 : UInt64).toNat + ((List.replicate 100 (1 : UInt8)).take 64).length < 2 ^ 64 := by decide
  have zero : LabelStorage.initial.bytes.getD 64 0 = 0 := List.getD_replicate _ (by decide)
  obtain ⟨first, served, succeeds⟩ := lsaLocal_of_fits .initial .write fits
  have ok : first.ret = 0 := succeeds.mpr nofun
  constructor
  · refine ⟨{ first with data := first.data ++ (List.replicate 100 1).drop 64 }, ?_, ok,
      (getD_after_write served (by decide)).trans zero⟩
    rw [lsaAccess, if_pos (by decide), forward_eq, LsaCall.cut, served, Option.map_some]
  · intro same
    obtain ⟨result, done, direct⟩ := (asDirect_iff (by decide)).mp same
    obtain rfl := Option.some.inj (served.symm.trans done)
    refine lsaLocal_ne_forwarded (by decide) (by decide) ?_ served ok (direct ok)
    exact fun byte => absurd (byte.trans zero) (by decide)

end CxlMemSim.Dist
