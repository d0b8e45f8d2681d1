import CxlMemSim.Type2.CoherencyLock
import CxlMemSim.Type2.P2p

/-! A command should report success just when both ranges lie in their peers' memories, and have copied the bytes then.
-/
namespace CxlMemSim.Type2.P2p
open ByteMemory CXLType2State CXLBARCoherencyState

def CXLP2PPeer.Contains (peer : CXLP2PPeer) (addr size : UInt64) : Prop :=
  addr.toNat + size.toNat ≤ peer.memSize.toNat
deriving Decidable

structure CXLP2PDMAEngine.InRange (engine : CXLP2PDMAEngine) (desc : CXLP2PDescriptor) (src dst : CXLP2PPeer) :
    Prop where
  srcPeer : engine.getPeer desc.srcPeerId = some src
  dstPeer : engine.getPeer desc.dstPeerId = some dst
  srcRange : src.Contains desc.srcAddr desc.size
  dstRange : dst.Contains desc.dstAddr desc.size

/-- The destination holds what the source held, and no other byte of any memory has changed. -/
structure Copied (before after : Host) (src dst : PCIDevice) (desc : CXLP2PDescriptor) : Prop where
  holds : ∀ i, i < desc.size.toNat → after.load dst desc.dstAddr i = before.load src desc.srcAddr i
  others : ∀ dev a, (dev = dst → ∀ i, i < desc.size.toNat → walk desc.dstAddr i ≠ a) →
    after.mem dev a = before.mem dev a

structure Truthful (before : Host) (desc : CXLP2PDescriptor) (after : Host) (result : CXLType2State.CXLGPUError) :
    Prop where
  returns : after.ct2d.barCoherency.lock.relocked = false
  served : ∀ src dst, before.engine.InRange desc src dst →
    result = .success ∧ Copied before after src.pciDev dst.pciDev desc
  refused : (∀ src dst, ¬ before.engine.InRange desc src dst) → result ≠ .success ∧ after.mem = before.mem

/-- The line that the transfer writes back at its source holds the bytes of device memory. -/
def Host.Settled (host : Host) (src dst : CXLP2PPeer) (desc : CXLP2PDescriptor) : Prop :=
  src.pciDev = .type2 → src.peerId = host.engine.ownerPeerId →
    ∀ line ∈ host.ct2d.cacheLookup desc.srcAddr, line.dirty = true →
      (dst.pciDev = .type2 ∧ dst.peerId = host.engine.ownerPeerId ∧
        addrToCacheline desc.dstAddr = addrToCacheline desc.srcAddr) ∨
      ∀ i, i < 64 → line.data i = host.ct2d.deviceMem (walk (addrToCacheline desc.srcAddr) i)

def Host.Relocks (host : Host) (desc : CXLP2PDescriptor) : Prop :=
  ∃ src dst, host.engine.getPeer desc.srcPeerId = some src ∧ host.engine.getPeer desc.dstPeerId = some dst ∧
    host.ct2d.Relocks (.device (.p2pTransfer (host.engine.resolve src dst desc) fun _ => 0))

structure Host.Serves (host : Host) (desc : CXLP2PDescriptor) (src dst : CXLP2PPeer) : Prop where
  enabled : host.engine.enabled = true
  inRange : host.engine.InRange desc src dst
  small : desc.size ≤ maxTransferSize
  reached : src.pciDev.hasMemPtr = true ∨ dst.pciDev.hasMemPtr = true ∨ desc.size = 0
  apart : src.pciDev = dst.pciDev → desc.srcAddr.toNat + desc.size.toNat ≤ desc.dstAddr.toNat ∨
    desc.dstAddr.toNat + desc.size.toNat ≤ desc.srcAddr.toNat ∨ desc.size = 0
  settled : host.Settled src dst desc
  once : ¬ host.Relocks desc

theorem copyChunks_eq {α : Type} [DecidableEq α] (size : UInt64) (buf : Nat → UInt8) (at_ : Nat → α) (m : α → UInt8) :
    copyChunks size buf at_ m = poke m at_ (peek buf id size.toNat) := by
  -- after each turn, everything up to the next offset is copied
  have turns : ∀ k, k ≤ (size.toNat + 7) / 8 →
      (List.range k).foldl (fun m k => copyChunk size.toNat buf at_ m (8 * k)) m =
      poke m at_ (peek buf id (min (8 * k) size.toNat)) := by
    intro k
    induction k with
    | zero => simp
    | succ k ih =>
      intro le
      have below : 8 * k ≤ size.toNat := by omega
      have next : min (8 * (k + 1)) size.toNat = 8 * k + min 8 (size.toNat - 8 * k) := by omega
      rw [List.range_succ, List.foldl_append, ih (by omega), next, peek_add, poke_append, peek_length,
        Nat.min_eq_left below, List.foldl_cons, List.foldl_nil, copyChunk, storeLE, toBytesLE_loadLE]
      rfl
  rw [copyChunks, turns _ (Nat.le_refl _), Nat.min_eq_right (by omega)]

namespace Host
variable (host : Host) {desc : CXLP2PDescriptor}

theorem mem_setMem (dev d : PCIDevice) (bytes : Segment) :
    (host.setMem dev bytes).mem d = if d = dev then bytes else host.mem d := by
  cases dev with
  | type2 => cases d <;> simp [setMem, mem]
  | type3 ct3d =>
    cases d with
    | type2 => simp [setMem, mem]
    | type3 other => simp [setMem, mem, Function.update_apply]

theorem rangesMeet_eq_false {src dst size : UInt64} (srcEnd : src.toNat + size.toNat ≤ 2 ^ 64)
    (dstEnd : dst.toNat + size.toNat ≤ 2 ^ 64)
    (apart : src.toNat + size.toNat ≤ dst.toNat ∨ dst.toNat + size.toNat ≤ src.toNat ∨ size = 0) :
    rangesMeet src dst size = false := by
  have srcSmall := src.toNat_lt
  have dstSmall := dst.toNat_lt
  rw [← UInt64.toNat_inj, UInt64.toNat_zero] at apart
  simp only [rangesMeet, Bool.or_eq_false_iff, decide_eq_false_iff_not, UInt64.lt_iff_toNat_lt, UInt64.toNat_sub]
  omega

theorem transfer_eq {src dst : PCIDevice}
    (reached : src.hasMemPtr = true ∨ dst.hasMemPtr = true ∨ desc.size = 0)
    (apart : src = dst → rangesMeet desc.srcAddr desc.dstAddr desc.size = false) (junk : Nat → UInt8) :
    host.transfer src dst desc junk = host.store dst desc.dstAddr (host.load src desc.srcAddr) desc.size := by
  cases direct : src.hasMemPtr with
  | true =>
    cases direct' : dst.hasMemPtr with
    | true =>
      rw [transfer, if_pos ⟨direct, direct'⟩, directCopy, if_neg]
      rintro ⟨same, meet⟩
      rw [apart same] at meet
      cases meet
    | false =>
      simp [transfer, copyFromType3, copyToType3, direct, direct', copyChunks_eq, store]
  | false =>
    cases direct' : dst.hasMemPtr with
    | true =>
      have temp : peek (poke junk id (peek (host.load src desc.srcAddr) id desc.size.toNat)) id
          desc.size.toNat = peek (host.load src desc.srcAddr) id desc.size.toNat := by
        have back := peek_poke junk id (peek (host.load src desc.srcAddr) id desc.size.toNat)
          fun i j _ _ same => same
        rwa [peek_length] at back
      simp [transfer, copyFromType3, copyToType3, direct, direct', copyChunks_eq, store, temp]
    | false =>
      -- nothing is copied, and there is nothing to copy
      have empty : desc.size = 0 := by simpa [direct, direct'] using reached
      simp [transfer, copyFromType3, copyToType3, direct, direct', copyChunks_eq, store, empty]

def Moved (host after : Host) : Prop :=
  after.engine = host.engine ∧ after.ct2d.barCoherency = host.ct2d.barCoherency

theorem moved_setMem (dst : PCIDevice) (bytes : Segment) : host.Moved (host.setMem dst bytes) := by
  cases dst <;> exact ⟨rfl, rfl⟩

theorem transfer_moved (src dst : PCIDevice) (desc : CXLP2PDescriptor) (junk : Nat → UInt8) :
    host.Moved (host.transfer src dst desc junk) := by
  rw [transfer, copyToType3, copyFromType3]
  split
  · exact moved_setMem ..
  · cases src.hasMemPtr <;> cases dst.hasMemPtr <;> first | exact moved_setMem .. | exact ⟨rfl, rfl⟩

theorem notify_frame (dst : CXLP2PPeer) (desc : CXLP2PDescriptor) :
    (host.notify dst desc).engine = host.engine ∧ (host.notify dst desc).ct2d =
      if dst.peerId = host.engine.ownerPeerId then host.ct2d.notifyGpuAccess desc.dstAddr true else host.ct2d := by
  rw [notify]
  split <;> exact ⟨rfl, rfl⟩

def ownerTransfer (desc : CXLP2PDescriptor) : CXLType2State :=
  match host.engine.getPeer desc.srcPeerId, host.engine.getPeer desc.dstPeerId with
  | some src, some dst => (host.ct2d.performP2pTransfer (host.engine.resolve src dst desc) fun _ => 0).1
  | _, _ => host.ct2d

/-- The engine and the request stay as they are, and the owner's filter is as its own part of the transfer leaves it. -/
theorem performP2pTransfer_frame (desc : CXLP2PDescriptor) (junk : Nat → UInt8) :
    (host.performP2pTransfer desc junk).1.engine = host.engine ∧
      (∃ status errorCode, (host.performP2pTransfer desc junk).2 = { desc with status, errorCode }) ∧
      (host.performP2pTransfer desc junk).1.ct2d.barCoherency = (host.ownerTransfer desc).barCoherency := by
  rw [performP2pTransfer, ownerTransfer]
  cases host.engine.getPeer desc.srcPeerId with
  | none => exact ⟨rfl, ⟨_, _, rfl⟩, rfl⟩
  | some src =>
  cases host.engine.getPeer desc.dstPeerId with
  | none => exact ⟨rfl, ⟨_, _, rfl⟩, rfl⟩
  | some dst =>
    dsimp only
    by_cases large : maxTransferSize < desc.size
    · have device : host.ct2d.performP2pTransfer (host.engine.resolve src dst desc) (fun _ => 0) = _ := if_pos large
      rw [if_pos large, device]
      exact ⟨rfl, ⟨_, _, rfl⟩, rfl⟩
    by_cases outside : src.memSize < desc.srcAddr + desc.size ∨ dst.memSize < desc.dstAddr + desc.size
    · have device : host.ct2d.performP2pTransfer (host.engine.resolve src dst desc) (fun _ => 0) = _ :=
        (if_neg large).trans (if_pos outside)
      rw [if_neg large, if_pos outside, device]
      exact ⟨rfl, ⟨_, _, rfl⟩, rfl⟩
    · have device : host.ct2d.performP2pTransfer (host.engine.resolve src dst desc) (fun _ => 0) = _ :=
        (if_neg large).trans (if_neg outside)
      obtain ⟨engine, bar⟩ := transfer_moved (host.prepare src dst desc) src.pciDev dst.pciDev desc junk
      rw [if_neg large, if_neg outside, device]
      generalize (host.prepare src dst desc).transfer src.pciDev dst.pciDev desc junk = after at engine bar
      obtain ⟨same, ct2d⟩ := after.notify_frame dst desc
      have owner : (if dst.peerId = host.engine.ownerPeerId then after.ct2d.notifyGpuAccess desc.dstAddr true
          else after.ct2d) = if (host.engine.resolve src dst desc).dstPeer.isOwner = true then
            after.ct2d.notifyGpuAccess desc.dstAddr true else after.ct2d :=
        if_congr decide_eq_true_iff.symm rfl rfl
      refine ⟨same.trans engine, ⟨_, _, rfl⟩, ?_⟩
      dsimp only
      rw [ct2d, engine]
      refine (congrArg _ owner).trans ?_
      split
      · rw [CXLType2State.notifyGpuAccess, CXLType2State.notifyGpuAccess, bar]
        split <;> rfl
      · rw [bar]
        split <;> rfl

theorem performP2pTransfer_locks (free : host.ct2d.barCoherency.lock.held = false) (desc : CXLP2PDescriptor)
    (junk : Nat → UInt8) : host.ct2d.barCoherency.Locks
      (host.performP2pTransfer desc junk).1.ct2d.barCoherency (host.Relocks desc) := by
  rw [(host.performP2pTransfer_frame desc junk).2.2, ownerTransfer, Relocks]
  cases host.engine.getPeer desc.srcPeerId with
  | none => exact .of_lock free rfl fun ⟨_, _, absent, _⟩ => by cases absent
  | some src =>
  cases host.engine.getPeer desc.dstPeerId with
  | none => exact .of_lock free rfl fun ⟨_, _, _, absent, _⟩ => by cases absent
  | some dst =>
    refine (p2pTransfer_locks free (host.engine.resolve src dst desc) fun _ => 0).congr ?_
    refine ⟨fun relocks => ⟨src, dst, rfl, rfl, relocks⟩, ?_⟩
    rintro ⟨src', dst', same, same', relocks⟩
    cases same
    cases same'
    exact relocks

theorem copied_store {before : Host} (same : host.mem = before.mem) (src dst : PCIDevice) :
    Copied before (host.store dst desc.dstAddr (host.load src desc.srcAddr) desc.size) src dst desc where
  holds := by
    intro i hi
    have distinct := walk_distinct desc.dstAddr (n := desc.size.toNat) (Nat.le_of_lt desc.size.toNat_lt)
    rw [load, store, mem_setMem, if_pos rfl, poke_at _ _ _ (by rwa [peek_length]) (by rwa [peek_length]), peek_getElem,
      load, load, same]
    rfl
  others := by
    intro dev a off
    rw [store, mem_setMem]
    split
    · rename_i here
      rw [poke_other _ _ _ (by simpa only [peek_length] using off here), here, same]
    · rw [same]

end Host

section Coherency
variable {ct2d : CXLType2State}
open CXLType2State

theorem cacheWriteback_deviceMem {addr : UInt64} (settled : ∀ line ∈ ct2d.cacheLookup addr, line.dirty = true →
      ∀ i, i < 64 → line.data i = ct2d.deviceMem (walk (addrToCacheline addr) i)) :
    (ct2d.cacheWriteback addr).deviceMem = ct2d.deviceMem := by
  rw [cacheWriteback]
  cases found : ct2d.cacheLookup addr with
  | none => rfl
  | some line =>
    dsimp only
    by_cases dirty : line.dirty = true
    · have there : peek line.data id 64 = peek ct2d.deviceMem (walk (addrToCacheline addr)) 64 :=
        peek_congr (settled line found dirty)
      rw [if_pos dirty]
      split
      · rw [setLine, copyIn, show (64 : UInt64).toNat = 64 from rfl, there, poke_peek]
      · rfl
    · rw [if_neg dirty]

theorem ensureCoherency_write_deviceMem (peer : CXLType2State.CXLP2PPeer) (addr : UInt64) :
    (ct2d.ensureCoherency peer addr true).deviceMem = ct2d.deviceMem := by
  rw [ensureCoherency]
  split <;> rfl

theorem cacheLookup_ensureCoherency_write (peer : CXLType2State.CXLP2PPeer) (addr a : UInt64) :
    (ct2d.ensureCoherency peer addr true).cacheLookup a =
      if (peer.isType2 ∧ peer.isOwner) ∧ addrToCacheline a = addrToCacheline addr then none
      else ct2d.cacheLookup a := by
  rw [ensureCoherency]
  by_cases owner : peer.isType2 ∧ peer.isOwner
  · simp [owner, cacheInvalidate, setLine, cacheLookup, request, Function.update_apply]
  · rw [if_neg owner, if_neg fun h => owner h.1]

theorem prepareTransfer_deviceMem {desc : CXLType2State.CXLP2PDescriptor}
    (settled : desc.srcPeer.isType2 ∧ desc.srcPeer.isOwner → ∀ line ∈ ct2d.cacheLookup desc.srcAddr, line.dirty = true →
      ((desc.dstPeer.isType2 ∧ desc.dstPeer.isOwner) ∧ addrToCacheline desc.srcAddr = addrToCacheline desc.dstAddr) ∨
        ∀ i, i < 64 → line.data i = ct2d.deviceMem (walk (addrToCacheline desc.srcAddr) i)) :
    (ct2d.prepareTransfer desc).deviceMem = ct2d.deviceMem := by
  rw [prepareTransfer]
  by_cases coherent : desc.coherent = true
  · rw [if_pos coherent]
    set invalidated := ct2d.ensureCoherency desc.dstPeer desc.dstAddr true with hinvalidated
    have kept : invalidated.deviceMem = ct2d.deviceMem := ensureCoherency_write_deviceMem _ _
    by_cases owner : desc.srcPeer.isType2 ∧ desc.srcPeer.isOwner
    · rw [ensureCoherency, if_pos owner, if_neg (by decide), cacheWriteback_deviceMem]
      · exact kept
      · intro line found dirty i hi
        change line ∈ invalidated.cacheLookup desc.srcAddr at found
        change _ = invalidated.deviceMem _
        rw [hinvalidated, cacheLookup_ensureCoherency_write] at found
        split at found
        · cases found
        · rename_i elsewhere
          rw [kept]
          exact (settled owner line found dirty).resolve_left elsewhere i hi
    · rw [ensureCoherency, if_neg owner, kept]
  · rw [if_neg coherent]

end Coherency

namespace Host
variable {host : Host} {desc : CXLP2PDescriptor} {src dst : CXLP2PPeer}

theorem Settled.mem_prepare (settled : host.Settled src dst desc) : (host.prepare src dst desc).mem = host.mem := by
  funext dev
  cases dev with
  | type2 =>
    refine prepareTransfer_deviceMem ?_
    rintro ⟨type2, owner⟩ line found dirty
    simp only [CXLP2PDMAEngine.resolve, CXLP2PDMAEngine.ownerView, decide_eq_true_eq] at type2 owner ⊢
    refine (settled type2 owner line found dirty).imp ?_ id
    rintro ⟨type2', owner', sameLine⟩
    exact ⟨⟨type2', owner'⟩, sameLine.symm⟩
  | type3 ct3d => rfl

theorem mem_notify (host : Host) (dst : CXLP2PPeer) (desc : CXLP2PDescriptor) :
    (host.notify dst desc).mem = host.mem := by
  funext dev
  rw [notify]
  split <;> cases dev <;> rfl

theorem copied_congr {before after after' : Host} (same : after'.mem = after.mem) {src dst : PCIDevice}
    (copied : Copied before after src dst desc) : Copied before after' src dst desc where
  holds := fun i hi => by rw [load, same]; exact copied.holds i hi
  others := fun dev a off => by rw [same]; exact copied.others dev a off

theorem performP2pTransfer_serves (serves : host.Serves desc src dst) (junk : Nat → UInt8) :
    Copied host (host.performP2pTransfer desc junk).1 src.pciDev dst.pciDev desc := by
  have srcRange := serves.inRange.srcRange
  have dstRange := serves.inRange.dstRange
  rw [CXLP2PPeer.Contains] at srcRange dstRange
  have srcSize := src.memSize.toNat_lt
  have dstSize := dst.memSize.toNat_lt
  have small : ¬ maxTransferSize < desc.size := UInt64.not_lt.mpr serves.small
  have inside : ¬ (src.memSize < desc.srcAddr + desc.size ∨ dst.memSize < desc.dstAddr + desc.size) := by
    rw [UInt64.lt_iff_toNat_lt, UInt64.lt_iff_toNat_lt, UInt64.toNat_add, UInt64.toNat_add]
    omega
  have apart : src.pciDev = dst.pciDev → rangesMeet desc.srcAddr desc.dstAddr desc.size = false :=
    fun same => rangesMeet_eq_false (by omega) (by omega) (serves.apart same)
  rw [performP2pTransfer, serves.inRange.srcPeer, serves.inRange.dstPeer]
  dsimp only
  rw [if_neg small, if_neg inside, transfer_eq _ serves.reached apart]
  exact copied_congr (mem_notify _ dst desc)
    (copied_store (host.prepare src dst desc) serves.settled.mem_prepare src.pciDev dst.pciDev)

theorem exec_idle (enabled : host.engine.enabled = true) (idle : host.engine.pendingTransfers = [])
    (c : P2pCommand) (junk : Nat → UInt8) :
    let r := host.performP2pTransfer { c.descriptor host.engine with sync := true, status := .pending } junk
    c.exec host junk = ({ r.1 with
      engine := { r.1.engine with completedTransfers := r.1.engine.completedTransfers ++ [r.2] } }, .success) := by
  have room : ¬ queueDepth ≤ host.engine.pendingTransfers.length := by
    rw [idle]
    decide
  have popped : { host with engine := { host.engine with pendingTransfers := [] } } = host := by rw [← idle]
  rw [P2pCommand.exec, dmaSubmitAndWait, dmaSubmit, if_neg (by rw [enabled]; decide), if_neg room]
  simp only [if_true, idle, List.nil_append, performHead, popped]

theorem Serves.queued (serves : host.Serves desc src dst) :
    host.Serves { desc with sync := true, status := .pending } src dst where
  enabled := serves.enabled
  inRange := ⟨serves.inRange.srcPeer, serves.inRange.dstPeer, serves.inRange.srcRange, serves.inRange.dstRange⟩
  small := serves.small
  reached := serves.reached
  apart := serves.apart
  settled := serves.settled
  once := serves.once

end Host

theorem not_truthful_of_not_inRange {host : Host} (enabled : host.engine.enabled = true)
    (idle : host.engine.pendingTransfers = []) {c : P2pCommand}
    (outside : ∀ src dst, ¬ host.engine.InRange (c.descriptor host.engine) src dst) (junk : Nat → UInt8) :
    ¬ Truthful host (c.descriptor host.engine) (c.exec host junk).1 (c.exec host junk).2 := by
  intro truthful
  refine (truthful.refused outside).1 ?_
  rw [Host.exec_idle enabled idle]

theorem p2p_truthful {host : Host} (idle : host.engine.pendingTransfers = [])
    (unlocked : host.ct2d.barCoherency.lock = {}) (c : P2pCommand) {src dst : CXLP2PPeer}
    (serves : host.Serves (c.descriptor host.engine) src dst) (junk : Nat → UInt8) :
    Truthful host (c.descriptor host.engine) (c.exec host junk).1 (c.exec host junk).2 := by
  have copied := Host.performP2pTransfer_serves serves.queued junk
  have locks := host.performP2pTransfer_locks (by rw [unlocked])
    { c.descriptor host.engine with sync := true, status := .pending } junk
  rw [Host.exec_idle serves.enabled idle]
  refine ⟨(locks.relocked_iff unlocked).mpr serves.queued.once, ?_,
    fun outside => absurd serves.inRange (outside src dst)⟩
  intro src' dst' inRange
  obtain rfl := Option.some.inj (inRange.srcPeer.symm.trans serves.inRange.srcPeer)
  obtain rfl := Option.some.inj (inRange.dstPeer.symm.trans serves.inRange.dstPeer)
  exact ⟨rfl, Host.copied_congr (by funext dev; cases dev <;> rfl) ⟨copied.holds, copied.others⟩⟩

/-- A device whose first two lines are tracked, as after two calls of `cxl_bar_snoop_insert`. -/
def twoPeers : Host where
  ct2d :=
    { realize { deviceMemSize := 4096, cacheSize := 4096 } with
      deviceMem := fun a => a.toUInt8 + 1
      barCoherency := ((realize { deviceMemSize := 4096, cacheSize := 4096 }).barCoherency.snoopInsert
        0 .shared .cpu).snoopInsert 64 .shared .cpu }
  type3 := fun _ _ => 0
  engine :=
    { peers := ((Vector.replicate maxPeers none).setIfInBounds 0 (some ⟨.type2, 4096, 1⟩)).setIfInBounds 1
        (some ⟨.type3 ⟨0, true⟩, 4096, 2⟩)
      ownerPeerId := 1 }

theorem p2p_truthful_lastLine :
    Truthful twoPeers ((P2pCommand.gpuToMem 2 64 4032 64).descriptor twoPeers.engine)
      ((P2pCommand.gpuToMem 2 64 4032 64).exec twoPeers fun _ => 0).1
      ((P2pCommand.gpuToMem 2 64 4032 64).exec twoPeers fun _ => 0).2 := by
  have serves : twoPeers.Serves ((P2pCommand.gpuToMem 2 64 4032 64).descriptor twoPeers.engine) ⟨.type2, 4096, 1⟩
      ⟨.type3 ⟨0, true⟩, 4096, 2⟩ := by
    refine ⟨rfl, ⟨rfl, rfl, by decide, by decide⟩, by decide, .inl rfl, fun same => ?_, fun _ _ line found => ?_, ?_⟩
    · cases same
    · cases found
    · rintro ⟨src, dst, srcPeer, dstPeer, -, -, relocks⟩
      obtain rfl : (⟨.type2, 4096, 1⟩ : CXLP2PPeer) = src := Option.some.inj srcPeer
      obtain rfl : (⟨.type3 ⟨0, true⟩, 4096, 2⟩ : CXLP2PPeer) = dst := Option.some.inj dstPeer
      rcases relocks with ⟨-, owner | missing⟩ | owner
      · exact absurd owner.1.1 (by decide)
      · exact missing.2.2 rfl
      · exact absurd owner.1 (by decide)
  exact p2p_truthful rfl rfl _ serves _

theorem twoPeers_not_inRange (memOffset : UInt64) (outside : 4032 < memOffset.toNat) (src dst : CXLP2PPeer) :
    ¬ twoPeers.engine.InRange ((P2pCommand.gpuToMem 2 0 memOffset 64).descriptor twoPeers.engine) src dst := by
  rintro ⟨-, dstPeer, -, dstRange⟩
  obtain rfl : (⟨.type3 ⟨0, true⟩, 4096, 2⟩ : CXLP2PPeer) = dst := Option.some.inj dstPeer
  have inside : memOffset.toNat + 64 ≤ 4096 := dstRange
  omega

/-- Beyond the peer's memory nothing is copied, before it the bytes there are overwritten; both times the
command reports success. -/
theorem p2p_untruthful_outsidePeer :
    twoPeers.engine.pendingTransfers = [] ∧
    (∀ memOffset ∈ [(4096 : UInt64), 0xFFFFFFFFFFFFFFC0],
      ¬ Truthful twoPeers ((P2pCommand.gpuToMem 2 0 memOffset 64).descriptor twoPeers.engine)
        ((P2pCommand.gpuToMem 2 0 memOffset 64).exec twoPeers fun _ => 0).1
        ((P2pCommand.gpuToMem 2 0 memOffset 64).exec twoPeers fun _ => 0).2) ∧
    twoPeers.mem (.type3 ⟨0, true⟩) 0xFFFFFFFFFFFFFFC0 = 0 ∧
    let r := (P2pCommand.gpuToMem 2 0 0xFFFFFFFFFFFFFFC0 64).exec twoPeers fun _ => 0
    (r.1.ct2d.barCoherency.lock.relocked, r.2, r.1.mem (.type3 ⟨0, true⟩) 0xFFFFFFFFFFFFFFC0) =
      (false, .success, 1) := by
  refine ⟨rfl, ?_, rfl, by decide +kernel⟩
  intro memOffset member
  have outside : 4032 < memOffset.toNat := by
    rcases List.mem_pair.mp member with rfl | rfl <;> decide
  exact not_truthful_of_not_inRange rfl rfl (twoPeers_not_inRange memOffset outside) _

end CxlMemSim.Type2.P2p
