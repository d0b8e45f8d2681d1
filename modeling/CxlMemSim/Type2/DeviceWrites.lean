import CxlMemSim.Type2.Coherent

/-! A write to device memory that does not go through the CPU-side cache has to take the lines that it touches out of
the cache. -/
namespace CxlMemSim.Type2
open ByteMemory CachedMemory Run

structure Store where
  offset : UInt64
  bytes : List UInt8

def Call.drops : Call → UInt64 → Bool
  | .gpuWrite offset _ _ _, a => addrToCacheline a = addrToCacheline offset
  | .p2pTransfer desc _, a =>
    desc.coherent ∧ desc.dstPeer.isType2 ∧ desc.dstPeer.isOwner ∧ addrToCacheline a = addrToCacheline desc.dstAddr
  | _, _ => false

variable {c : Call} {store : Store} {ct2d' : CXLType2State} {a : UInt64}

namespace CXLType2State
variable (ct2d : CXLType2State)

def stores : Call → Option Store
  | .gpuWrite offset buf size _ =>
    if ct2d.passthroughEnabled ∧ ¬ 0 ≤ ct2d.vfioDeviceFd ∧ offset + size ≤ ct2d.deviceMemSize then
      some ⟨offset, peek buf id size.toNat⟩
    else none
  | .memCopyHtod devPtr size _ =>
    if ¬ gpuDataSize < size ∧ devPtr + size ≤ ct2d.deviceMemSize then
      some ⟨devPtr, peek ct2d.gpuData id size.toNat⟩
    else none
  | .memCopyDtoh devPtr size reply =>
    if ¬ gpuDataSize < size ∧ ct2d.hetgpuInitialized ∧ devPtr + size ≤ ct2d.deviceMemSize then
      some ⟨devPtr, peek (ct2d.fillGpuData reply.delivered size).gpuData id size.toNat⟩
    else none
  | .bulkDtoh bar4Offset xferSize reply =>
    if ¬ gpuBulkTransferSize < xferSize ∧ ct2d.hetgpuInitialized ∧ bar4Offset + xferSize ≤ ct2d.deviceMemSize then
      reply.delivered.map fun bytes => ⟨bar4Offset, peek bytes id xferSize.toNat⟩
    else none
  | .p2pTransfer desc fetched =>
    if ¬ maxTransferSize < desc.size ∧
        ¬ (desc.srcPeer.memSize < desc.srcAddr + desc.size ∨ desc.dstPeer.memSize < desc.dstAddr + desc.size) ∧
        desc.dstPeer.isType2 then
      some ⟨desc.dstAddr, peek ((ct2d.prepareTransfer desc).sourceBytes desc fetched) id desc.size.toNat⟩
    else none
  | .coherentWrite barOffset value size barIndex =>
    if barIndex = 4 ∧ barOffset + UInt64.ofNat size ≤ ct2d.deviceMemSize then
      some ⟨barOffset, toBytesLE (min size 8) value.toNat⟩
    else none
  | .atomicOp addr operand1 operand2 op size =>
    if ¬ ct2d.deviceMemSize ≤ addr then
      let oldValue := UInt64.ofNat (loadLE ct2d.deviceMem (walk addr) (min size 8))
      some ⟨addr, toBytesLE (min size 8) (op.apply oldValue operand1 operand2).toNat⟩
    else none
  | _ => none

def Kept (c : Call) (store : Store) : Prop :=
  ∀ i, ∀ hi : i < store.bytes.length, c.drops (walk store.offset i) = false →
    ∀ value ∈ ct2d.cached (walk store.offset i), value = store.bytes[i]

def Keeps (c : Call) : Prop := ∀ store ∈ ct2d.stores c, ct2d.Kept c store

/-- Every entry that overlaps the store agrees with device memory, and the CPU reads the bytes stored. -/
structure Seen (store : Store) : Prop where
  entries : ∀ i, i < store.bytes.length → ∀ a ∈ ct2d.region,
    addrToCacheline a = addrToCacheline (walk store.offset i) → ∀ value ∈ ct2d.cached a, value = ct2d.deviceMem a
  reads : ∀ i, ∀ hi : i < store.bytes.length, gpuCmdRegSize ≤ walk store.offset i →
    (ct2d.cacheRead (.byte (walk store.offset i))).2 = store.bytes[i].toUInt64

def Inside (store : Store) : Prop := store.offset.toNat + store.bytes.length ≤ ct2d.deviceMemSize.toNat

structure Stored (c : Call) (store : Store) (ct2d' : CXLType2State) : Prop where
  size : ct2d'.deviceMemSize = ct2d.deviceMemSize
  short : store.bytes.length < 2 ^ 64
  valid : ∀ addr, ∀ line ∈ ct2d'.cacheLookup addr, line.state ≠ .invalid
  cached : ∀ a, ct2d'.cached a = if c.drops a then none else ct2d.cached a
  memory : ∃ memory, ct2d'.deviceMem = poke memory (walk store.offset) store.bytes ∧
    ∀ a ∈ ct2d.region, memory a = ct2d.deviceMem a

def Outcome (c : Call) (ct2d' : CXLType2State) : Prop :=
  match ct2d.stores c with
  | some store => ct2d.Stored c store ct2d'
  | none => ct2d'.Coherent

variable {ct2d}

theorem outcome_some (stores : ct2d.stores c = some store)
    (stored : ct2d.Stored c store ct2d') : ct2d.Outcome c ct2d' := by
  rw [Outcome, stores]
  exact stored

theorem outcome_none (stores : ct2d.stores c = none) (coherent : ct2d'.Coherent) : ct2d.Outcome c ct2d' := by
  rw [Outcome, stores]
  exact coherent

theorem cached_congr (lines : ct2d'.cacheLines = ct2d.cacheLines) : ct2d'.cached = ct2d.cached := by
  funext a
  rw [cached, cached, cacheLookup, cacheLookup, lines]

theorem Coherent.stored (coherent : ct2d.Coherent)
    (short : store.bytes.length < 2 ^ 64) (spares : ∀ a, c.drops a = false)
    (size : ct2d'.deviceMemSize = ct2d.deviceMemSize) (lines : ct2d'.cacheLines = ct2d.cacheLines)
    (memory : ct2d'.deviceMem = poke ct2d.deviceMem (walk store.offset) store.bytes) : ct2d.Stored c store ct2d' where
  size := size
  short := short
  valid := by
    intro addr line found
    rw [cacheLookup, lines] at found
    exact coherent.valid addr line found
  cached := by
    intro a
    rw [cached_congr lines, if_neg (by rw [spares a]; exact Bool.false_ne_true)]
  memory := ⟨ct2d.deviceMem, memory, fun _ _ => rfl⟩

theorem peek_short (buf : Nat → UInt8) (size : UInt64) : (peek buf id size.toNat).length < 2 ^ 64 := by
  rw [peek_length]
  exact size.toNat_lt

theorem toBytesLE_short (size v : Nat) : (toBytesLE (min size 8) v).length < 2 ^ 64 := by
  rw [toBytesLE_length]
  omega

section
variable (coherent : ct2d.Coherent)
include coherent

theorem outcome_memCopyHtod (devPtr size : UInt64) (reply : GpuReply) :
    ct2d.Outcome (.memCopyHtod devPtr size reply) (ct2d.memCopyHtod devPtr size reply).1 := by
  rw [memCopyHtod]
  by_cases large : gpuDataSize < size
  · rw [if_pos large]
    exact outcome_none (if_neg fun h => h.1 large) coherent
  rw [if_neg large]
  by_cases range : devPtr + size ≤ ct2d.deviceMemSize
  · have stored : ct2d.Stored (.memCopyHtod devPtr size reply) ⟨devPtr, peek ct2d.gpuData id size.toNat⟩
        ((ct2d.copyIn devPtr ct2d.gpuData size).notifyGpuAccess devPtr true) :=
      coherent.stored (peek_short _ _) (fun _ => rfl) rfl rfl rfl
    rw [if_pos range, if_pos range]
    refine outcome_some (if_pos ⟨large, range⟩) ?_
    split <;> exact stored
  · rw [if_neg range, if_neg range]
    refine outcome_none (if_neg fun h => range h.2) ?_
    split <;> exact coherent

theorem outcome_memCopyDtoh (devPtr size : UInt64) (reply : GpuReply) :
    ct2d.Outcome (.memCopyDtoh devPtr size reply) (ct2d.memCopyDtoh devPtr size reply).1 := by
  rw [memCopyDtoh]
  by_cases large : gpuDataSize < size
  · rw [if_pos large]
    exact outcome_none (if_neg fun h => h.1 large) coherent
  rw [if_neg large]
  by_cases backend : ct2d.hetgpuInitialized
  · rw [if_pos backend]
    dsimp only
    split
    · rename_i range
      refine outcome_some (if_pos ⟨large, backend, range⟩) ?_
      exact coherent.stored (peek_short _ _) (fun _ => rfl) rfl rfl rfl
    · rename_i range
      exact outcome_none (if_neg fun h => range h.2.2) ⟨coherent.valid, coherent.agrees⟩
  · rw [if_neg backend]
    refine outcome_none (if_neg fun h => backend h.2.1) ?_
    split
    · exact ⟨coherent.valid, coherent.agrees⟩
    · exact coherent

theorem outcome_bulkDtoh (bar4Offset xferSize : UInt64) (reply : GpuReply) :
    ct2d.Outcome (.bulkDtoh bar4Offset xferSize reply) (ct2d.bulkDtoh bar4Offset xferSize reply).1 := by
  rw [bulkDtoh]
  by_cases large : gpuBulkTransferSize < xferSize
  · rw [if_pos large]
    exact outcome_none (if_neg fun h => h.1 large) coherent
  rw [if_neg large]
  by_cases backend : ct2d.hetgpuInitialized
  · rw [if_pos backend]
    by_cases range : bar4Offset + xferSize ≤ ct2d.deviceMemSize
    · have stores : ct2d.stores (.bulkDtoh bar4Offset xferSize reply) =
          reply.delivered.map fun bytes => ⟨bar4Offset, peek bytes id xferSize.toNat⟩ :=
        if_pos ⟨large, backend, range⟩
      rw [if_pos range]
      cases delivered : reply.delivered with
      | none => exact outcome_none (by rw [stores, delivered, Option.map_none]) coherent
      | some bytes =>
        refine outcome_some (by rw [stores, delivered, Option.map_some]) ?_
        exact coherent.stored (peek_short _ _) (fun _ => rfl) rfl rfl rfl
    · rw [if_neg range]
      exact outcome_none (if_neg fun h => range h.2.2) coherent
  · rw [if_neg backend]
    exact outcome_none (if_neg fun h => backend h.2.1) coherent

theorem outcome_coherentWrite (barOffset value : UInt64) (size : Nat) (barIndex : UInt32) :
    ct2d.Outcome (.coherentWrite barOffset value size barIndex) (ct2d.coherentWrite barOffset value size barIndex) := by
  rw [coherentWrite]
  by_cases device : barIndex = 4
  · subst device
    rw [if_pos (.inr rfl)]
    dsimp only
    rw [if_neg (by decide)]
    split
    · rename_i range
      refine outcome_some (if_pos ⟨rfl, range⟩) ?_
      exact coherent.stored (toBytesLE_short _ _) (fun _ => rfl) rfl rfl rfl
    · rename_i range
      exact outcome_none (if_neg fun h => range h.2) (coherent.track _)
  · refine outcome_none (if_neg fun h => device h.1) ?_
    split
    · rename_i bar
      dsimp only
      rw [if_pos (bar.resolve_right device)]
      split <;> exact ⟨coherent.valid, coherent.agrees⟩
    · exact coherent

theorem outcome_atomicOp (addr operand1 operand2 : UInt64) (op : CXLAtomicOp) (size : Nat) :
    ct2d.Outcome (.atomicOp addr operand1 operand2 op size) (ct2d.atomicOp addr operand1 operand2 op size).1 := by
  rw [atomicOp]
  by_cases beyond : ct2d.deviceMemSize ≤ addr
  · rw [if_pos beyond]
    exact outcome_none (if_neg fun h => h beyond) coherent
  · rw [if_neg beyond]
    refine outcome_some (if_pos beyond) ?_
    exact coherent.stored (toBytesLE_short _ _) (fun _ => rfl) rfl rfl rfl

theorem outcome_gpuWrite (offset : UInt64) (buf : Nat → UInt8) (size : UInt64)
    (written : Bool) : ct2d.Outcome (.gpuWrite offset buf size written) (ct2d.gpuWrite offset buf size written).1 := by
  rw [gpuWrite]
  by_cases enabled : ct2d.passthroughEnabled
  · rw [if_pos enabled]
    by_cases vfio : 0 ≤ ct2d.vfioDeviceFd
    · rw [if_pos vfio]
      refine outcome_none (if_neg fun h => h.2.1 vfio) ?_
      split
      · exact coherent.cacheInvalidate offset
      · exact coherent
    rw [if_neg vfio]
    by_cases range : offset + size ≤ ct2d.deviceMemSize
    · rw [if_pos range]
      refine outcome_some (if_pos ⟨enabled, vfio, range⟩) ⟨rfl, peek_short _ _, ?_, fun a => ?_, ?_⟩
      · exact valid_setLine coherent.valid fun x none => (by cases none)
      · rw [cached_cacheInvalidate, Call.drops]
        simp only [decide_eq_true_eq]
        rfl
      · exact ⟨ct2d.deviceMem, rfl, fun _ _ => rfl⟩
    · rw [if_neg range]
      exact outcome_none (if_neg fun h => range h.2.2) coherent
  · rw [if_neg enabled]
    exact outcome_none (if_neg fun h => enabled h.1) coherent

end

theorem size_ensureCoherency (peer : CXLP2PPeer) (addr : UInt64) (isWrite : Bool) :
    (ct2d.ensureCoherency peer addr isWrite).deviceMemSize = ct2d.deviceMemSize := by
  rw [ensureCoherency]
  split
  · split
    · rfl
    · exact size_cacheWriteback addr
  · rfl

theorem cached_ensureCoherency_write (peer : CXLP2PPeer) (addr a : UInt64) :
    (ct2d.ensureCoherency peer addr true).cached a =
      if peer.isType2 ∧ peer.isOwner ∧ addrToCacheline a = addrToCacheline addr then none else ct2d.cached a := by
  rw [ensureCoherency]
  by_cases owner : peer.isType2 ∧ peer.isOwner
  · rw [if_pos owner, if_pos rfl, cached_cacheInvalidate]
    simp only [owner.1, owner.2, true_and]
    rfl
  · rw [if_neg owner, if_neg fun h => owner ⟨h.1, h.2.1⟩]

theorem cached_ensureCoherency_read (peer : CXLP2PPeer) (addr : UInt64) :
    (ct2d.ensureCoherency peer addr false).cached = ct2d.cached := by
  rw [ensureCoherency]
  split
  · rw [if_neg Bool.false_ne_true, cached_cacheWriteback]
    rfl
  · rfl

theorem deviceMem_ensureCoherency (coherent : ct2d.Coherent) (peer : CXLP2PPeer) (addr : UInt64) (isWrite : Bool)
    (inside : a ∈ ct2d.region) :
    (ct2d.ensureCoherency peer addr isWrite).deviceMem a = ct2d.deviceMem a := by
  rw [ensureCoherency]
  split
  · split
    · rfl
    · exact deviceMem_cacheWriteback (coherent.track _) addr inside
  · rfl

theorem Coherent.prepareTransfer (coherent : ct2d.Coherent) (desc : CXLP2PDescriptor) :
    (ct2d.prepareTransfer desc).Coherent := by
  rw [CXLType2State.prepareTransfer]
  split
  · exact (coherent.ensureCoherency _ _ _).ensureCoherency _ _ _
  · exact coherent

theorem size_prepareTransfer (desc : CXLP2PDescriptor) :
    (ct2d.prepareTransfer desc).deviceMemSize = ct2d.deviceMemSize := by
  rw [prepareTransfer]
  split
  · rw [size_ensureCoherency, size_ensureCoherency]
  · rfl

theorem cached_prepareTransfer (desc : CXLP2PDescriptor) (fetched : Nat → UInt8) (a : UInt64) :
    (ct2d.prepareTransfer desc).cached a = if (Call.p2pTransfer desc fetched).drops a then none else ct2d.cached a := by
  rw [prepareTransfer, Call.drops]
  split
  · rename_i coherent
    rw [cached_ensureCoherency_read, cached_ensureCoherency_write]
    simp only [coherent, true_and, decide_eq_true_eq]
  · rename_i plain
    simp only [plain, false_and, decide_false, Bool.false_eq_true, if_false]

section
variable (coherent : ct2d.Coherent) {body : CXLType2State → UInt64 → CXLType2State}
include coherent

theorem deviceMem_prepareTransfer (desc : CXLP2PDescriptor)
    (inside : a ∈ ct2d.region) : (ct2d.prepareTransfer desc).deviceMem a = ct2d.deviceMem a := by
  rw [prepareTransfer]
  split
  · have inside' : a ∈ (ct2d.ensureCoherency desc.dstPeer desc.dstAddr true).region := by
      rw [region, size_ensureCoherency]
      exact inside
    rw [deviceMem_ensureCoherency (coherent.ensureCoherency _ _ _) _ _ _ inside',
      deviceMem_ensureCoherency coherent _ _ _ inside]
  · rfl

theorem outcome_p2pTransfer (desc : CXLP2PDescriptor) (fetched : Nat → UInt8) :
    ct2d.Outcome (.p2pTransfer desc fetched) (ct2d.performP2pTransfer desc fetched).1 := by
  have prepared := coherent.prepareTransfer desc
  rw [performP2pTransfer]
  by_cases large : maxTransferSize < desc.size
  · rw [if_pos large]
    exact outcome_none (if_neg fun h => h.1 large) coherent
  rw [if_neg large]
  by_cases outside : desc.srcPeer.memSize < desc.srcAddr + desc.size ∨ desc.dstPeer.memSize < desc.dstAddr + desc.size
  · rw [if_pos outside]
    exact outcome_none (if_neg fun h => h.2.1 outside) coherent
  rw [if_neg outside]
  dsimp only
  by_cases owner : desc.dstPeer.isType2
  · rw [if_pos owner]
    refine outcome_some (if_pos ⟨large, outside, owner⟩) ?_
    have stored : ct2d.Stored (.p2pTransfer desc fetched)
        ⟨desc.dstAddr, peek ((ct2d.prepareTransfer desc).sourceBytes desc fetched) id desc.size.toNat⟩
        ((ct2d.prepareTransfer desc).copyIn desc.dstAddr ((ct2d.prepareTransfer desc).sourceBytes desc fetched)
          desc.size) :=
      ⟨size_prepareTransfer desc, peek_short _ _, prepared.valid, cached_prepareTransfer desc fetched,
        (ct2d.prepareTransfer desc).deviceMem, rfl, fun _ inside => deviceMem_prepareTransfer coherent desc inside⟩
    split
    · exact ⟨stored.size, stored.short, stored.valid, stored.cached, stored.memory⟩
    · exact stored
  · rw [if_neg owner]
    refine outcome_none (if_neg fun h => owner h.2.2) ?_
    split
    · exact prepared.track _
    · exact prepared

theorem Coherent.gpuCmdWrite (addr value : UInt64) (size : Nat) : (ct2d.gpuCmdWrite addr value size).Coherent := by
  rw [CXLType2State.gpuCmdWrite]
  split
  · dsimp only
    split
    · exact ⟨coherent.valid, coherent.agrees⟩
    · exact coherent
  · exact coherent

theorem Coherent.coherentRead (barOffset : UInt64) (size : Nat) (barIndex : UInt32) :
    (ct2d.coherentRead barOffset size barIndex).1.Coherent := by
  rw [CXLType2State.coherentRead]
  split
  · exact coherent.track _
  · exact coherent

theorem Coherent.forLines {start size : UInt64} (keep : ∀ s a, s.Coherent → (body s a).Coherent)
    (returns : ct2d.forLines start size body = some ct2d') : ct2d'.Coherent :=
  StrideLoop.strideLoop_invariant keep coherent returns

theorem Coherent.rangeCmd {enabled : Prop} [Decidable enabled] {start size : UInt64}
    (keep : ∀ s a, s.Coherent → (body s a).Coherent)
    (returns : (if enabled then ct2d.forLines start size body else some ct2d) = some ct2d') : ct2d'.Coherent := by
  split at returns
  · exact coherent.forLines keep returns
  · exact Option.some.inj returns ▸ coherent

theorem outcome_exec (returns : ct2d.exec c = some ct2d') : ct2d.Outcome c ct2d' := by
  cases c with
  | read access =>
    cases returns
    refine outcome_none rfl ?_
    split
    · exact coherent
    · exact coherent.cacheRead access
  | write access value =>
    cases returns
    refine outcome_none rfl ?_
    split
    · exact coherent.gpuCmdWrite _ _ _
    · exact coherent.cacheWrite access value
  | memCopyHtod devPtr size reply => exact Option.some.inj returns ▸ outcome_memCopyHtod coherent devPtr size reply
  | memCopyDtoh devPtr size reply => exact Option.some.inj returns ▸ outcome_memCopyDtoh coherent devPtr size reply
  | bulkDtoh bar4Offset xferSize reply =>
    exact Option.some.inj returns ▸ outcome_bulkDtoh coherent bar4Offset xferSize reply
  | cacheFlush | cacheInvalidate =>
    exact outcome_none rfl (coherent.rangeCmd (fun _ a before => before.cacheInvalidate a) returns)
  | cacheWriteback addr size =>
    exact outcome_none rfl (coherent.rangeCmd (fun _ a before => before.cacheWriteback a) returns)
  | coherentFence => exact outcome_none rfl (Option.some.inj returns ▸ coherent.coherentFence)
  | setBias | biasFlip =>
    obtain ⟨barCoherency, -, rfl⟩ := Option.map_eq_some_iff.mp returns
    exact outcome_none rfl (coherent.track barCoherency)
  | p2pTransfer desc fetched => exact Option.some.inj returns ▸ outcome_p2pTransfer coherent desc fetched
  | snoopMessage addr invalidate =>
    exact outcome_none rfl (Option.some.inj returns ▸ coherent.snoopRequest addr invalidate)
  | invalidateMessage addr => exact outcome_none rfl (Option.some.inj returns ▸ coherent.cacheInvalidate addr)
  | gpuWrite offset buf size written =>
    exact Option.some.inj returns ▸ outcome_gpuWrite coherent offset buf size written
  | coherentRead barOffset size barIndex =>
    exact outcome_none rfl (Option.some.inj returns ▸ coherent.coherentRead barOffset size barIndex)
  | coherentWrite barOffset value size barIndex =>
    exact Option.some.inj returns ▸ outcome_coherentWrite coherent barOffset value size barIndex
  | atomicOp addr operand1 operand2 op size =>
    exact Option.some.inj returns ▸ outcome_atomicOp coherent addr operand1 operand2 op size

end

theorem readMiss_byte (inside : a ∈ ct2d.region) : (ct2d.readMiss (.byte a)).2 = (ct2d.deviceMem a).toUInt64 := by
  have below : (Access.byte a).addr < ct2d.deviceMemSize := inside
  rw [readMiss, if_pos below]
  refine (loadLE_one _ _).trans ?_
  rw [walk_zero]
  rfl

theorem cacheRead_byte (inside : a ∈ ct2d.region) :
    (ct2d.cacheRead (.byte a)).2 = (readThrough ct2d.deviceMem ct2d.cached a).toUInt64 := by
  have miss : ((ct2d.request .rdShared a .cpu).readMiss (.byte a)).2 = (ct2d.deviceMem a).toUInt64 :=
    readMiss_byte inside
  -- the request only concerns the snoop filter
  have lookup : (ct2d.request .rdShared a .cpu).cacheLookup a = ct2d.cacheLookup a := rfl
  cases found : ct2d.cacheLookup a with
  | none =>
    have missed : ct2d.cacheRead (.byte a) = (ct2d.request .rdShared a .cpu).readMiss (.byte a) := by
      simp only [cacheRead, Access.byte, lookup, found]
    rw [missed, readThrough, cached, found]
    exact miss
  | some line =>
    rw [readThrough, cached, found, Option.bind_some, CXLCacheLine.byte]
    by_cases valid : line.state ≠ .invalid
    · have hit : (ct2d.cacheRead (.byte a)).2 =
          UInt64.ofNat (loadLE line.data (a.toNat % 64 + ·) (min 1 (64 - a.toNat % 64))) := by
        simp only [cacheRead, Access.byte, lookup, found, if_pos valid]
      rw [hit, if_pos valid, Nat.min_eq_left (by omega), loadLE_one, Option.getD_some, Nat.add_zero]
    · have missed : ct2d.cacheRead (.byte a) = (ct2d.request .rdShared a .cpu).readMiss (.byte a) := by
        simp only [cacheRead, Access.byte, lookup, found, if_neg valid]
      rw [missed, if_neg valid]
      exact miss

theorem Stored.at_index (stored : ct2d.Stored c store ct2d')
    {i : Nat} (hi : i < store.bytes.length) : ct2d'.deviceMem (walk store.offset i) = store.bytes[i] := by
  obtain ⟨memory, written, -⟩ := stored.memory
  rw [written]
  exact poke_at memory _ _ (walk_distinct _ (Nat.le_of_lt stored.short)) hi

theorem Stored.elsewhere (stored : ct2d.Stored c store ct2d') (inside : a ∈ ct2d.region)
    (off : ∀ i, i < store.bytes.length → walk store.offset i ≠ a) :
    ct2d'.deviceMem a = ct2d.deviceMem a := by
  obtain ⟨memory, written, same⟩ := stored.memory
  rw [written, poke_other memory _ _ off, same a inside]

theorem Stored.coherent (coherent : ct2d.Coherent) (stored : ct2d.Stored c store ct2d') (kept : ct2d.Kept c store) :
    ct2d'.Coherent := by
  have fewer : ∀ a, ∀ value ∈ ct2d'.cached a, c.drops a = false ∧ value ∈ ct2d.cached a := by
    intro a value held
    rw [stored.cached] at held
    split at held
    · cases held
    · exact ⟨Bool.eq_false_of_not_eq_true ‹_›, held⟩
  refine ⟨stored.valid, ?_⟩
  rw [region, stored.size]
  refine (coherent.agrees.store_iff (fun a value held => (fewer a value held).2)
    {a | ∃ i, i < store.bytes.length ∧ walk store.offset i = a} fun a inside off =>
      stored.elsewhere inside fun i hi here => off ⟨i, hi, here⟩).mpr ?_
  rintro a ⟨-, i, hi, rfl⟩ value held
  obtain ⟨stays, before⟩ := fewer _ value held
  rw [stored.at_index hi]
  exact kept i hi stays value before

theorem Inside.mem_region (inside : ct2d.Inside store) {i : Nat} (hi : i < store.bytes.length) :
    walk store.offset i ∈ ct2d.region := by
  have bound := ct2d.deviceMemSize.toNat_lt
  have range : store.offset.toNat + store.bytes.length ≤ ct2d.deviceMemSize.toNat := inside
  change walk store.offset i < ct2d.deviceMemSize
  rw [UInt64.lt_iff_toNat_lt, walk_toNat]
  omega

theorem seen_iff (coherent : ct2d.Coherent) (stored : ct2d.Stored c store ct2d') (inside : ct2d.Inside store) :
    ct2d'.Seen store ↔ ct2d.Kept c store := by
  have region' : ct2d'.region = ct2d.region := by rw [region, stored.size, region]
  constructor
  · intro seen i hi stays value held
    have still : value ∈ ct2d'.cached (walk store.offset i) := by
      rw [stored.cached, if_neg (by rw [stays]; exact Bool.false_ne_true)]
      exact held
    have here : walk store.offset i ∈ ct2d'.region := region' ▸ inside.mem_region hi
    exact (seen.entries i hi _ here rfl value still).trans (stored.at_index hi)
  · intro kept
    have after := stored.coherent coherent kept
    refine ⟨fun i hi a inRegion _ value held => after.agrees a inRegion value held, fun i hi _ => ?_⟩
    have here : walk store.offset i ∈ ct2d'.region := region' ▸ inside.mem_region hi
    rw [cacheRead_byte here, agrees_iff_readThrough.mp after.agrees _ here, stored.at_index hi]

theorem keeps_iff (stores : ct2d.stores c = some store) : ct2d.Keeps c ↔ ct2d.Kept c store := by
  rw [Keeps, stores]
  simp only [Option.mem_def, Option.some.injEq, forall_eq']

theorem keeps_of_none (stores : ct2d.stores c = none) : ct2d.Keeps c := by
  intro store found
  rw [stores] at found
  cases found

theorem coherent_exec (coherent : ct2d.Coherent) (keeps : ct2d.Keeps c)
    (returns : ct2d.exec c = some ct2d') : ct2d'.Coherent := by
  have outcome := outcome_exec coherent returns
  rw [Outcome] at outcome
  cases stores : ct2d.stores c with
  | none =>
    rw [stores] at outcome
    exact outcome
  | some store =>
    rw [stores] at outcome
    exact Stored.coherent coherent outcome ((keeps_iff stores).mp keeps)

end CXLType2State

open CXLType2State

theorem coherent_run {config : Config} {calls : List Call}
    (keeps : EveryStep step (Before Keeps) (some (realize config)) calls) {ct2d : CXLType2State}
    (reached : run config calls = some ct2d) : ct2d.Coherent := by
  have all : ∀ x ∈ run config calls, x.Coherent := by
    refine invariant_of_everyStep (I := fun s => ∀ x ∈ s, x.Coherent) (fun s c before keeps after returns => ?_)
      (fun x start => Option.some.inj start ▸ coherent_realize config) keeps
    obtain ⟨x, here, exec⟩ := Option.bind_eq_some_iff.mp returns
    exact coherent_exec (before x here) (keeps x here) exec
  exact all ct2d reached

theorem device_writes_seen (config : Config) (calls : List Call)
    (keeps : EveryStep step (Before Keeps) (some (realize config)) calls) (ct2d : CXLType2State)
    (reached : run config calls = some ct2d) :
    (∀ a, gpuCmdRegSize ≤ a → a < ct2d.deviceMemSize → (ct2d.cacheRead (.byte a)).2 = (ct2d.deviceMem a).toUInt64) ∧
    ∀ c store ct2d', ct2d.stores c = some store → ct2d.Inside store → ct2d.exec c = some ct2d' →
      (ct2d'.Seen store ↔ ct2d.Keeps c) := by
  have coherent := coherent_run keeps reached
  refine ⟨fun a _ inside => ?_, fun c store ct2d' stores inside returns => ?_⟩
  · have inRegion : a ∈ ct2d.region := inside
    rw [cacheRead_byte inRegion, agrees_iff_readThrough.mp coherent.agrees a inRegion]
  · have outcome := outcome_exec coherent returns
    rw [Outcome, stores] at outcome
    exact (seen_iff coherent outcome inside).trans (keeps_iff stores).symm

def smallDevice : Config := { deviceMemSize := 0x200000, cacheSize := 0x200000 }

def readSecondLine : List Call :=
  [.setBias 0x102000 0x80 .host, .write (.byte 0x1000) 7, .read (.byte 0x102040)]

theorem device_writes_seen_invalidated :
    ∃ ct2d, run smallDevice (readSecondLine ++ [.cacheInvalidate 0x102040 64]) = some ct2d ∧
      ct2d.barCoherency.lock.relocked = false ∧
      ∀ reply ct2d', ct2d.exec (.memCopyHtod 0x102040 1 reply) = some ct2d' → ct2d'.Seen ⟨0x102040, [7]⟩ := by
  have facts : (run smallDevice (readSecondLine ++ [.cacheInvalidate 0x102040 64])).any (fun ct2d =>
      decide (ct2d.barCoherency.lock.relocked = false ∧ ct2d.deviceMemSize = 0x200000 ∧
        ct2d.gpuData 0 = 7 ∧ ct2d.cached 0x102040 = none)) = true := by decide +kernel
  have keeps : EveryStep step (Before Keeps) (some (realize smallDevice))
      (readSecondLine ++ [.cacheInvalidate 0x102040 64]) :=
    ⟨fun _ _ => keeps_of_none rfl, fun _ _ => keeps_of_none rfl, fun _ _ => keeps_of_none rfl,
      fun _ _ => keeps_of_none rfl, trivial⟩
  cases reached : run smallDevice (readSecondLine ++ [.cacheInvalidate 0x102040 64]) with
  | none =>
    rw [reached] at facts
    cases facts
  | some ct2d =>
    rw [reached] at facts
    obtain ⟨returned, size, buffer, uncached⟩ := of_decide_eq_true facts
    have stores : ∀ reply, ct2d.stores (.memCopyHtod 0x102040 1 reply) = some ⟨0x102040, [7]⟩ := by
      intro reply
      rw [CXLType2State.stores, if_pos (by rw [size]; decide), ← buffer]
      rfl
    refine ⟨ct2d, rfl, returned, fun reply ct2d' returns => ?_⟩
    refine ((device_writes_seen _ _ keeps ct2d reached).2 _ _ ct2d' (stores reply) ?_ returns).mpr ?_
    · rw [Inside, size]
      decide
    · intro store found i hi _ value held
      obtain rfl := Option.some.inj ((stores reply).symm.trans found)
      obtain rfl : i = 0 := Nat.lt_one_iff.mp hi
      rw [walk_zero, uncached] at held
      cases held

theorem stale_after_write :
    let seen := fun ct2d : CXLType2State =>
      (ct2d.deviceMem 0x102040, (ct2d.cacheRead (.byte 0x102040)).2, ct2d.barCoherency.lock.relocked)
    let into : CXLP2PDescriptor :=
      ⟨⟨false, false, 0x1000⟩, ⟨true, true, 0x200000⟩, 0, 0x102000, 0x80, true⟩
    (run smallDevice (readSecondLine ++ [.memCopyHtod 0x102040 1 ⟨true, none⟩])).map seen = some (7, 0, false) ∧
    (run smallDevice (readSecondLine ++ [.p2pTransfer into fun _ => 7])).map seen = some (7, 0, false) ∧
    (run smallDevice (readSecondLine ++ [.coherentWrite 0x102040 7 1 4])).map seen = some (7, 0, false) ∧
    (run smallDevice (readSecondLine ++ [.atomicOp 0x102040 7 0 .add 1])).map seen = some (7, 0, false) ∧
    (run { smallDevice with passthroughEnabled := true, vfioDeviceFd := -1 }
      (readSecondLine ++ [.gpuWrite 0x102000 (fun _ => 7) 0x80 true])).map seen = some (7, 0, false) := by
  decide +kernel

end CxlMemSim.Type2
