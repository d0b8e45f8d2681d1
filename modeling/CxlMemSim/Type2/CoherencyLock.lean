import CxlMemSim.Type2.FilterSteps
import CxlMemSim.Type2.Transparent

/-! A request inserts and removes lines through functions that take the lock which the request already holds. -/
namespace CxlMemSim.Type2
open Run StrideLoop

inductive LockCall where
  | filter (c : FilterCall)
  | hetgpuCallback (addr size : UInt64) (invalidate : Bool)
  | device (c : Call)

def LockCall.WalksCache : LockCall → Prop
  | .device (.cacheFlush ..) | .device (.cacheInvalidate ..) | .device (.cacheWriteback ..) => True
  | _ => False

def CXLCoherencyReqType.Inserts : CXLCoherencyReqType → Prop
  | .rdShared | .rdOwn | .wrInv => True
  | _ => False

namespace CXLBARCoherencyState
variable {state state' state'' : CXLBARCoherencyState} {p q : Prop}

def Tracked (state : CXLBARCoherencyState) (addr : UInt64) : Prop := (state.entryOf addr).isSome

structure Locks (state state' : CXLBARCoherencyState) (again : Prop) : Prop where
  free : state'.lock.held = false
  relocked : state'.lock.relocked = true ↔ state.lock.relocked = true ∨ again

theorem Locks.congr (locks : state.Locks state' p) (same : p ↔ q) : state.Locks state' q :=
  ⟨locks.free, locks.relocked.trans (or_congr_right same)⟩

theorem Locks.of_lock (free : state.lock.held = false) (lock : state'.lock = state.lock) (never : ¬ p) :
    state.Locks state' p :=
  ⟨lock ▸ free, by rw [lock, or_iff_left never]⟩

theorem Locks.when (locks : state.Locks state' q) (holds : p) : state.Locks state' (p ∧ q) :=
  locks.congr (and_iff_right holds).symm

theorem Locks.unless (free : state.lock.held = false) (lock : state'.lock = state.lock) (not : ¬ p) :
    state.Locks state' (p ∧ q) :=
  .of_lock free lock fun both => not both.1

theorem Locks.of_same (locks : state.Locks state' p) (lock : state''.lock = state'.lock) : state.Locks state'' p :=
  ⟨lock ▸ locks.free, lock ▸ locks.relocked⟩

theorem Locks.trans (first : state.Locks state' p) (second : state'.Locks state'' q) : state.Locks state'' (p ∨ q) :=
  ⟨second.free, by rw [second.relocked, first.relocked, or_assoc]⟩

theorem Locks.relocked_iff (locks : state.Locks state' p) (unlocked : state.lock = {}) :
    state'.lock.relocked = false ↔ ¬ p := by
  rw [← Bool.not_eq_true, locks.relocked, unlocked, or_iff_right Bool.false_ne_true]

theorem Locks.once (locks : state.Locks state' p) (unlocked : state.lock = {}) (never : ¬ p) : state'.lock = {} := by
  have relocked := (locks.relocked_iff unlocked).mpr never
  have free := locks.free
  generalize state'.lock = lock at free relocked
  cases lock
  cases free
  cases relocked
  rfl

theorem Outcome.locks {c : FilterCall} (outcome : state.Outcome state' c) :
    state.Locks state' (c.takesAgain state = true) :=
  ⟨by rw [outcome.lock], by rw [outcome.lock, Bool.or_eq_true]⟩

structure Tracks (state state' : CXLBARCoherencyState) (addr : UInt64) : Prop where
  locks : state.Locks state' (state.enabled = true ∧ ¬ state.Tracked addr)
  enabled : state'.enabled = state.enabled
  regions : state'.regions = state.regions
  tracked : ∀ a, state'.Tracked a ↔
    state.Tracked a ∨ (state.enabled = true ∧ addrToCacheline a = addrToCacheline addr)

theorem request_tracks (free : state.lock.held = false) (req : CXLCoherencyReqType) (inserts : req.Inserts)
    (addr : UInt64) (source : CXLCoherencyDomain) :
    state.Tracks (state.coherencyRequest req addr source).1 addr := by
  obtain ⟨filter, lock, enabled, regions⟩ := coherencyRequest_sets addr source free req
  have takes : req.takesAgain (state.entryOf addr) source = (state.entryOf addr).isNone := by
    cases req <;> first | rfl | exact inserts.elim
  refine ⟨⟨by rw [lock], ?_⟩, enabled, regions, fun a => ?_⟩
  · rw [lock, takes, Bool.or_eq_true, Bool.and_eq_true, Tracked, Option.isNone_iff_eq_none,
      Option.not_isSome_iff_eq_none]
  · rw [Tracked, entryOf, filter, Function.update_apply]
    by_cases same : addrToCacheline a = addrToCacheline addr
    · have here : state.entryOf a = state.entryOf addr := congrArg state.snoopFilter same
      rw [if_pos same, Tracked, here]
      cases state.enabled with
      | false => exact ⟨.inl, fun tracked => tracked.elim id fun off => absurd off.1 Bool.false_ne_true⟩
      | true =>
        refine iff_of_true ?_ (.inr ⟨rfl, same⟩)
        cases state.entryOf addr <;> cases req <;> first | rfl | exact inserts.elim
    · rw [if_neg same]
      exact ⟨.inl, fun tracked => tracked.elim id fun there => absurd there.2 same⟩

variable {addr : UInt64}

theorem Tracks.then (tracks : state.Tracks state' addr)
    (after : state'.Locks state'' False) : state.Locks state'' (state.enabled = true ∧ ¬ state.Tracked addr) :=
  (tracks.locks.trans after).congr (or_iff_left id)

structure Asks (state state' : CXLBARCoherencyState) (asked : Prop) (addr : UInt64) : Prop where
  locks : state.Locks state' (asked ∧ state.enabled = true ∧ ¬ state.Tracked addr)
  enabled : state'.enabled = state.enabled
  regions : state'.regions = state.regions
  tracked : ∀ a, state'.Tracked a ↔
    state.Tracked a ∨ asked ∧ state.enabled = true ∧ addrToCacheline a = addrToCacheline addr

theorem Tracks.asks (tracks : state.Tracks state' addr) (asked : p) : state.Asks state' p addr :=
  ⟨tracks.locks.when asked, tracks.enabled, tracks.regions,
    fun a => (tracks.tracked a).trans (or_congr_right (and_iff_right asked).symm)⟩

theorem Asks.skipped (free : state.lock.held = false) (not : ¬ p) (addr : UInt64) : state.Asks state p addr :=
  ⟨.unless free rfl not, rfl, rfl, fun _ => (or_iff_left fun asked => not asked.1).symm⟩

theorem Asks.later (asks : state.Asks state' p addr) (a : UInt64) :
    (p ∧ state.enabled = true ∧ ¬ state.Tracked addr) ∨ (q ∧ state'.enabled = true ∧ ¬ state'.Tracked a) ↔
      (p ∧ state.enabled = true ∧ ¬ state.Tracked addr) ∨ (q ∧ state.enabled = true ∧ ¬ state.Tracked a) := by
  rw [asks.enabled, asks.tracked]
  refine ⟨Or.imp_right fun ⟨later, enabled, missing⟩ => ⟨later, enabled, fun tracked => missing (.inl tracked)⟩, ?_⟩
  rintro (early | ⟨later, enabled, missing⟩)
  · exact .inl early
  · by_cases inserted : p ∧ state.enabled = true ∧ addrToCacheline a = addrToCacheline addr
    · have here : state.entryOf addr = state.entryOf a := congrArg state.snoopFilter inserted.2.2.symm
      refine .inl ⟨inserted.1, enabled, ?_⟩
      rw [Tracked, here]
      exact missing
    · exact .inr ⟨later, enabled, fun tracked => tracked.elim missing inserted⟩

theorem snoopUpdate_locks (free : state.lock.held = false) (addr : UInt64) (newState : CXLCoherencyState)
    (domain : CXLCoherencyDomain) : state.Locks (state.snoopUpdate addr newState domain) False :=
  .of_lock free ((state.snoopUpdate_does addr newState domain).still free).lock id

theorem snoopInsert_locks (free : state.lock.held = false) (addr : UInt64) (stateVal : CXLCoherencyState)
    (domain : CXLCoherencyDomain) : state.Locks (state.snoopInsert addr stateVal domain) False :=
  .of_lock free ((state.snoopInsert_does addr stateVal domain).still free).lock id

def Notifies (state : CXLBARCoherencyState) (addr : UInt64) : Prop :=
  state.enabled = true ∧ (state.findRegionForAddr addr).isSome ∧ ¬ state.Tracked addr

theorem notifyGpuAccess_locks (free : state.lock.held = false) (addr : UInt64) (isWrite : Bool) :
    state.Locks (state.notifyGpuAccess addr isWrite) (state.Notifies addr) := by
  rw [notifyGpuAccess]
  split
  · rename_i inRegion
    have condition : state.enabled = true ∧ ¬ state.Tracked addr ↔ state.Notifies addr :=
      ⟨fun missing => ⟨missing.1, inRegion.2, missing.2⟩, fun notifies => ⟨notifies.1, notifies.2.2⟩⟩
    split
    · have tracks := request_tracks free .wrInv trivial addr .gpu
      have updated := snoopUpdate_locks tracks.locks.free addr .modified .gpu
      exact ((tracks.then updated).congr condition).of_same rfl
    · have tracks := request_tracks free .rdShared trivial addr .gpu
      exact (tracks.locks.congr condition).of_same rfl
  · rename_i outside
    exact .of_lock free rfl fun notifies => outside ⟨notifies.1, notifies.2.1⟩

theorem not_notifies_notifyGpuAccess (free : state.lock.held = false) (addr : UInt64) (isWrite : Bool) :
    ¬ (state.notifyGpuAccess addr isWrite).Notifies addr := by
  rw [notifyGpuAccess]
  split
  · rename_i inRegion
    rintro ⟨-, -, missing⟩
    refine missing ?_
    split
    · have tracked := ((request_tracks free .wrInv trivial addr .gpu).tracked addr).mpr (.inr ⟨inRegion.1, rfl⟩)
      obtain ⟨entry, found⟩ := Option.isSome_iff_exists.mp tracked
      have updated := (snoopUpdate_does (state.coherencyRequest .wrInv addr .gpu).1 addr .modified .gpu).sets.filter
      rw [found] at updated
      change Option.isSome (snoopFilter _ (addrToCacheline addr)) = true
      rw [updated, Function.update_self]
      rfl
    · exact ((request_tracks free .rdShared trivial addr .gpu).tracked addr).mpr (.inr ⟨inRegion.1, rfl⟩)
  · rename_i outside
    exact fun notifies => outside ⟨notifies.1, notifies.2.1⟩

end CXLBARCoherencyState

variable {ct2d' : CXLType2State} {c : LockCall}

namespace CXLType2State
variable {ct2d : CXLType2State}
open CXLBARCoherencyState

theorem queueForGpu_lock {coh : CXLBARCoherencyState} (free : coh.lock.held = false) (addr size : UInt64) :
    (queueForGpu coh addr size).lock = coh.lock := by
  have looked : (coh.snoopLookup addr).1.lock = coh.lock := relock_free free
  rw [queueForGpu]
  cases lookup : coh.snoopLookup addr with
  | mk coh' entry =>
    rw [lookup] at looked
    cases entry with
    | none => exact looked
    | some entry =>
      dsimp only
      split <;> exact looked

def TracksCpu (ct2d : CXLType2State) (barOffset : UInt64) : Prop :=
  ∃ region ∈ ct2d.barCoherency.findRegionForAddr barOffset, region.coherent = true

theorem trackCpu_locks (free : ct2d.barCoherency.lock.held = false) (barOffset : UInt64) (req : CXLCoherencyReqType)
    (inserts : req.Inserts) (state : CXLCoherencyState) :
    ct2d.barCoherency.Locks (ct2d.trackCpu barOffset req state)
      (ct2d.TracksCpu barOffset ∧ ct2d.barCoherency.enabled = true ∧ ¬ ct2d.barCoherency.Tracked barOffset) := by
  rw [trackCpu]
  cases found : ct2d.barCoherency.findRegionForAddr barOffset with
  | none =>
    refine (snoopInsert_locks free barOffset state .cpu).congr (iff_of_false id ?_)
    rintro ⟨⟨region, there, -⟩, -⟩
    rw [found] at there
    cases there
  | some region =>
    by_cases coherent : region.coherent = true
    · simp only [if_pos coherent]
      have tracks := request_tracks free req inserts barOffset .cpu
      refine (tracks.then (snoopInsert_locks tracks.locks.free barOffset state .cpu)).congr ?_
      exact ⟨fun missing => ⟨⟨region, found, coherent⟩, missing⟩, And.right⟩
    · simp only [if_neg coherent]
      refine (snoopInsert_locks free barOffset state .cpu).congr (iff_of_false id ?_)
      rintro ⟨⟨other, there, coherent'⟩, -⟩
      rw [found] at there
      exact coherent (Option.some.inj there ▸ coherent')

theorem bar_snoopRequest (addr : UInt64) (invalidate : Bool) :
    (ct2d.snoopRequest addr invalidate).1.barCoherency = ct2d.barCoherency := by
  have written (dirty : Bool) :
      (if dirty = true then ct2d.cacheWriteback addr else ct2d).barCoherency = ct2d.barCoherency := by
    split
    · exact bar_cacheWriteback addr
    · rfl
  rw [snoopRequest]
  split
  · rfl
  · rename_i line _
    dsimp only
    split
    · exact written line.dirty
    · split <;> exact written line.dirty

theorem bar_readMiss (access : Access) : (ct2d.readMiss access).1.barCoherency = ct2d.barCoherency := by
  rw [readMiss]
  split <;> rfl

theorem bar_cacheRead (access : Access) :
    (ct2d.cacheRead access).1.barCoherency = (ct2d.barCoherency.coherencyRequest .rdShared access.addr .cpu).1 := by
  rw [cacheRead]
  split
  · exact bar_readMiss access
  · split
    · rfl
    · exact bar_readMiss access

theorem bar_cacheWrite (access : Access) (value : UInt64) :
    (ct2d.cacheWrite access value).barCoherency = (ct2d.barCoherency.coherencyRequest .wrInv access.addr .cpu).1 := by
  have fetched : ((ct2d.request .wrInv access.addr .cpu).fetchLine access.addr).barCoherency =
      (ct2d.barCoherency.coherencyRequest .wrInv access.addr .cpu).1 := by
    rw [fetchLine]
    split <;> rfl
  rw [cacheWrite]
  split
  · exact fetched
  · simp only [writeLine]
    split <;> exact fetched

theorem bar_gpuCmdWrite (addr value : UInt64) (size : Nat) :
    (ct2d.gpuCmdWrite addr value size).barCoherency = ct2d.barCoherency := by
  simp only [gpuCmdWrite]
  split_ifs <;> rfl

theorem bar_gpuWrite (offset : UInt64) (buf : Nat → UInt8) (size : UInt64) (written : Bool) :
    (ct2d.gpuWrite offset buf size written).1.barCoherency = ct2d.barCoherency := by
  rw [gpuWrite]
  split_ifs <;> rfl

theorem bar_bulkDtoh (bar4Offset xferSize : UInt64) (reply : GpuReply) :
    (ct2d.bulkDtoh bar4Offset xferSize reply).1.barCoherency = ct2d.barCoherency := by
  rw [bulkDtoh]
  split
  · rfl
  · split
    · split
      · cases reply.delivered <;> rfl
      · rfl
    · rfl

theorem bar_strideLoop {stride stop : UInt64} {body : CXLType2State → UInt64 → CXLType2State} {n : Nat} {a : UInt64}
    (returns : strideLoop stride stop body n a ct2d = some ct2d')
    (same : ∀ s a, (body s a).barCoherency = s.barCoherency) : ct2d'.barCoherency = ct2d.barCoherency :=
  strideLoop_invariant (I := fun s : CXLType2State => s.barCoherency = ct2d.barCoherency)
    (fun s a before => (same s a).trans before) rfl returns

def Misses (ct2d : CXLType2State) (addr : UInt64) : Prop :=
  ct2d.barCoherency.enabled = true ∧ ¬ ct2d.barCoherency.Tracked addr

def Relocks (ct2d : CXLType2State) : LockCall → Prop
  | .filter c => c.takesAgain ct2d.barCoherency = true
  | .hetgpuCallback addr _ _ => ct2d.coherencyEnabled = true ∧ ct2d.barCoherency.Notifies addr
  | .device (.read access) | .device (.write access _) => ¬ access.addr < gpuCmdRegSize ∧ ct2d.Misses access.addr
  | .device (.memCopyHtod devPtr size _) =>
    ¬ gpuDataSize < size ∧ devPtr + size ≤ ct2d.deviceMemSize ∧ ct2d.barCoherency.Notifies devPtr
  | .device (.memCopyDtoh devPtr size _) =>
    ¬ gpuDataSize < size ∧ (ct2d.hetgpuInitialized = true ∨ devPtr + size ≤ ct2d.deviceMemSize) ∧
      ct2d.barCoherency.Notifies devPtr
  | .device (.p2pTransfer desc _) =>
    ¬ maxTransferSize < desc.size ∧
      ¬ (desc.srcPeer.memSize < desc.srcAddr + desc.size ∨ desc.dstPeer.memSize < desc.dstAddr + desc.size) ∧
      (desc.coherent = true ∧ ((desc.dstPeer.isType2 ∧ desc.dstPeer.isOwner) ∧ ct2d.Misses desc.dstAddr ∨
            (desc.srcPeer.isType2 ∧ desc.srcPeer.isOwner) ∧ ct2d.Misses desc.srcAddr) ∨
        desc.dstPeer.isOwner = true ∧ ct2d.barCoherency.Notifies desc.dstAddr)
  | .device (.coherentRead barOffset _ barIndex) | .device (.coherentWrite barOffset _ _ barIndex) =>
    (barIndex = 2 ∨ barIndex = 4) ∧ ct2d.TracksCpu barOffset ∧ ct2d.Misses barOffset
  | .device (.atomicOp addr _ _ _ _) => ¬ ct2d.deviceMemSize ≤ addr ∧ ct2d.Misses addr
  | .device (.bulkDtoh ..) | .device (.cacheFlush ..) | .device (.cacheInvalidate ..) | .device (.cacheWriteback ..)
  | .device .coherentFence | .device (.setBias ..) | .device (.biasFlip ..) | .device (.snoopMessage ..)
  | .device (.invalidateMessage ..) | .device (.gpuWrite ..) => False

def lockExec (ct2d : CXLType2State) : LockCall → Option CXLType2State
  | .filter c => (ct2d.barCoherency.call c).map fun barCoherency => { ct2d with barCoherency }
  | .hetgpuCallback addr size invalidate => ct2d.hetgpuCoherencyCallback addr size invalidate
  | .device c => ct2d.exec c

variable (free : ct2d.barCoherency.lock.held = false)
include free

theorem memCopyHtod_locks (devPtr size : UInt64) (reply : GpuReply) :
    ct2d.barCoherency.Locks (ct2d.memCopyHtod devPtr size reply).1.barCoherency
      (ct2d.Relocks (.device (.memCopyHtod devPtr size reply))) := by
  have notified := notifyGpuAccess_locks free devPtr true
  rw [memCopyHtod, Relocks]
  by_cases large : gpuDataSize < size
  · rw [if_pos large]
    exact .unless free rfl (not_not_intro large)
  · rw [if_neg large]
    by_cases inside : devPtr + size ≤ ct2d.deviceMemSize
    · simp only [if_pos inside]
      split <;> exact (notified.when inside).when large
    · simp only [if_neg inside]
      split <;> exact (Locks.unless free rfl inside).when large

theorem memCopyDtoh_locks (devPtr size : UInt64) (reply : GpuReply) :
    ct2d.barCoherency.Locks (ct2d.memCopyDtoh devPtr size reply).1.barCoherency
      (ct2d.Relocks (.device (.memCopyDtoh devPtr size reply))) := by
  have notified := notifyGpuAccess_locks free devPtr false
  rw [memCopyDtoh, Relocks]
  by_cases large : gpuDataSize < size
  · rw [if_pos large]
    exact .unless free rfl (not_not_intro large)
  · rw [if_neg large]
    by_cases backend : ct2d.hetgpuInitialized = true
    · simp only [if_pos backend]
      split <;> exact (notified.when (.inl backend)).when large
    · simp only [if_neg backend]
      by_cases inside : devPtr + size ≤ ct2d.deviceMemSize
      · simp only [if_pos inside]
        exact (notified.when (.inr inside)).when large
      · simp only [if_neg inside]
        exact (Locks.unless free rfl (not_or_intro backend inside)).when large

theorem coherentRead_locks (barOffset : UInt64) (size : Nat) (barIndex : UInt32) :
    ct2d.barCoherency.Locks (ct2d.coherentRead barOffset size barIndex).1.barCoherency
      (ct2d.Relocks (.device (.coherentRead barOffset size barIndex))) := by
  have tracked := trackCpu_locks free barOffset .rdShared trivial .shared
  rw [coherentRead, Relocks]
  by_cases bar : barIndex = 2 ∨ barIndex = 4
  · rw [if_pos bar]
    by_cases enabled : ct2d.barCoherency.enabled = true
    · simp only [if_pos enabled]
      exact tracked.when bar
    · simp only [if_neg enabled]
      exact .of_lock free rfl fun relocks => enabled relocks.2.2.1
  · rw [if_neg bar]
    exact .unless free rfl bar

theorem coherentWrite_locks (barOffset value : UInt64) (size : Nat) (barIndex : UInt32) :
    ct2d.barCoherency.Locks (ct2d.coherentWrite barOffset value size barIndex).barCoherency
      (ct2d.Relocks (.device (.coherentWrite barOffset value size barIndex))) := by
  have tracked := trackCpu_locks free barOffset .wrInv trivial .modified
  have queued := tracked.of_same (queueForGpu_lock tracked.free barOffset (UInt64.ofNat size))
  rw [coherentWrite, Relocks]
  by_cases bar : barIndex = 2 ∨ barIndex = 4
  · rw [if_pos bar]
    by_cases enabled : ct2d.barCoherency.enabled = true
    · simp only [if_pos enabled]
      split_ifs <;> exact queued.when bar
    · have same : ct2d.barCoherency.Locks ct2d.barCoherency
          ((barIndex = 2 ∨ barIndex = 4) ∧ ct2d.TracksCpu barOffset ∧ ct2d.Misses barOffset) :=
        .of_lock free rfl fun relocks => enabled relocks.2.2.1
      simp only [if_neg enabled]
      split_ifs <;> exact same
  · rw [if_neg bar]
    exact .unless free rfl bar

theorem atomicOp_locks (addr operand1 operand2 : UInt64) (op : CXLAtomicOp) (size : Nat) :
    ct2d.barCoherency.Locks (ct2d.atomicOp addr operand1 operand2 op size).1.barCoherency
      (ct2d.Relocks (.device (.atomicOp addr operand1 operand2 op size))) := by
  have tracks := request_tracks free .rdOwn trivial addr .cpu
  have relocked := tracks.locks.of_same (relock_free tracks.locks.free)
  rw [atomicOp, Relocks]
  by_cases outside : ct2d.deviceMemSize ≤ addr
  · rw [if_pos outside]
    exact .unless free rfl (not_not_intro outside)
  · rw [if_neg outside]
    have condition := relocked.when outside
    dsimp only
    split
    · have updated := snoopUpdate_locks relocked.free addr .modified .cpu
      have queued := updated.of_same (queueForGpu_lock updated.free addr (UInt64.ofNat size))
      exact (condition.trans queued).congr (or_iff_left id)
    · exact condition

theorem ensureCoherency_asks (peer : CXLP2PPeer) (addr : UInt64) (isWrite : Bool) :
    ct2d.barCoherency.Asks (ct2d.ensureCoherency peer addr isWrite).barCoherency
      (peer.isType2 ∧ peer.isOwner) addr := by
  rw [ensureCoherency]
  by_cases owned : peer.isType2 ∧ peer.isOwner
  · rw [if_pos owned]
    cases isWrite with
    | true => exact (request_tracks free .wrInv trivial addr .gpu).asks owned
    | false =>
      rw [if_neg Bool.false_ne_true, bar_cacheWriteback]
      exact (request_tracks free .rdShared trivial addr .gpu).asks owned
  · rw [if_neg owned]
    exact .skipped free owned addr

theorem finishTransfer_locks (desc : CXLP2PDescriptor) (bytes : Nat → UInt8) :
    ct2d.barCoherency.Locks
      (if desc.dstPeer.isOwner = true then
        (if desc.dstPeer.isType2 = true then ct2d.copyIn desc.dstAddr bytes desc.size else ct2d).notifyGpuAccess
          desc.dstAddr true
      else if desc.dstPeer.isType2 = true then ct2d.copyIn desc.dstAddr bytes desc.size else ct2d).barCoherency
      ((desc.dstPeer.isOwner = true ∧ (ct2d.barCoherency.findRegionForAddr desc.dstAddr).isSome) ∧
        ct2d.Misses desc.dstAddr) := by
  have copied : (if desc.dstPeer.isType2 = true then ct2d.copyIn desc.dstAddr bytes desc.size else ct2d).barCoherency =
      ct2d.barCoherency := by
    split <;> rfl
  split
  · rename_i owner
    rw [CXLType2State.notifyGpuAccess, copied]
    refine (notifyGpuAccess_locks free desc.dstAddr true).congr ?_
    exact ⟨fun ⟨enabled, region, missing⟩ => ⟨⟨owner, region⟩, enabled, missing⟩,
      fun ⟨⟨_, region⟩, enabled, missing⟩ => ⟨enabled, region, missing⟩⟩
  · rename_i other
    exact .of_lock free (congrArg _ copied) fun notifies => other notifies.1.1

theorem p2pTransfer_locks (desc : CXLP2PDescriptor) (fetched : Nat → UInt8) :
    ct2d.barCoherency.Locks (ct2d.performP2pTransfer desc fetched).1.barCoherency
      (ct2d.Relocks (.device (.p2pTransfer desc fetched))) := by
  rw [performP2pTransfer, Relocks]
  by_cases large : maxTransferSize < desc.size
  · rw [if_pos large]
    exact .unless free rfl (not_not_intro large)
  rw [if_neg large]
  by_cases outside : desc.srcPeer.memSize < desc.srcAddr + desc.size ∨ desc.dstPeer.memSize < desc.dstAddr + desc.size
  · rw [if_pos outside]
    exact (Locks.unless free rfl (not_not_intro outside)).when large
  rw [if_neg outside]
  by_cases coherent : desc.coherent = true
  · have first := ensureCoherency_asks free desc.dstPeer desc.dstAddr true
    have second := ensureCoherency_asks first.locks.free desc.srcPeer desc.srcAddr false
    have regions := second.regions.trans first.regions
    have inRegion : (((ct2d.ensureCoherency desc.dstPeer desc.dstAddr true).ensureCoherency desc.srcPeer desc.srcAddr
        false).barCoherency.findRegionForAddr desc.dstAddr).isSome ↔
          (ct2d.barCoherency.findRegionForAddr desc.dstAddr).isSome := by
      rw [findRegionForAddr, findRegionForAddr, regions]
    rw [show ct2d.prepareTransfer desc = _ from if_pos coherent]
    refine ((first.locks.trans second.locks).trans (finishTransfer_locks second.locks.free desc _)).congr ?_
    have later₁ := first.later (q := desc.srcPeer.isType2 = true ∧ desc.srcPeer.isOwner = true) desc.srcAddr
    have later₂ := second.later
      (q := desc.dstPeer.isOwner = true ∧ (ct2d.barCoherency.findRegionForAddr desc.dstAddr).isSome = true) desc.dstAddr
    have later₃ := first.later
      (q := desc.dstPeer.isOwner = true ∧ (ct2d.barCoherency.findRegionForAddr desc.dstAddr).isSome = true) desc.dstAddr
    simp only [coherent, large, outside, Misses, Notifies, inRegion]
    grind
  · rw [show ct2d.prepareTransfer desc = ct2d from if_neg coherent]
    refine (finishTransfer_locks free desc _).congr ⟨?_, ?_⟩
    · rintro ⟨⟨owner, region⟩, enabled, missing⟩
      exact ⟨large, outside, .inr ⟨owner, enabled, region, missing⟩⟩
    · rintro ⟨-, -, early | ⟨owner, enabled, region, missing⟩⟩
      · exact absurd early.1 coherent
      · exact ⟨⟨owner, region⟩, enabled, missing⟩

theorem hetgpuCallback_locks {size : UInt64} {invalidate : Bool}
    (returns : ct2d.hetgpuCoherencyCallback addr size invalidate = some ct2d') :
    ct2d.barCoherency.Locks ct2d'.barCoherency (ct2d.Relocks (.hetgpuCallback addr size invalidate)) := by
  rw [hetgpuCoherencyCallback] at returns
  rw [Relocks]
  by_cases enabled : ct2d.coherencyEnabled = true
  · simp only [if_pos enabled] at returns
    have notified : ct2d.barCoherency.Locks
        (if ct2d.barCoherency.enabled = true then ct2d.notifyGpuAccess addr invalidate else ct2d).barCoherency
        (ct2d.coherencyEnabled = true ∧ ct2d.barCoherency.Notifies addr) := by
      split
      · exact (notifyGpuAccess_locks free addr invalidate).when enabled
      · rename_i off
        exact .of_lock free rfl fun relocks => off relocks.2.1
    split at returns
    · refine notified.of_same (congrArg _ (bar_strideLoop returns fun s a => ?_))
      split
      · rfl
      · exact bar_cacheWriteback a
    · exact Option.some.inj returns ▸ notified
  · rw [if_neg enabled] at returns
    cases returns
    exact .unless free rfl enabled

theorem coherentFence_lock : ct2d.coherentFence.barCoherency.lock = ct2d.barCoherency.lock := by
  have fenced : ct2d.barCoherency.memoryFence.lock = ct2d.barCoherency.lock := by
    rw [memoryFence]
    split
    · exact relock_free free
    · rfl
  rw [coherentFence]
  refine invariant (I := fun s : CXLType2State => s.barCoherency.lock = ct2d.barCoherency.lock)
    (fun s entry same => ?_) fenced _
  rw [processBackInvalidation]
  split
  · exact same
  · split
    · exact ((s.barCoherency.snoopUpdate_does entry.addr .invalid .gpu).still (same ▸ free)).lock.trans same
    · exact same

theorem filterCall_locks {c : FilterCall} (returns : ct2d.lockExec (.filter c) = some ct2d') :
    ct2d.barCoherency.Locks ct2d'.barCoherency (c.takesAgain ct2d.barCoherency = true) := by
  obtain ⟨state', call, outcome⟩ := call_outcome free c
  rw [lockExec, call] at returns
  exact Option.some.inj returns ▸ outcome.locks

theorem lockExec_locks (returns : ct2d.lockExec c = some ct2d') :
    ct2d.barCoherency.Locks ct2d'.barCoherency (ct2d.Relocks c) := by
  cases c with
  | filter c => exact filterCall_locks free returns
  | hetgpuCallback addr size invalidate => exact hetgpuCallback_locks free returns
  | device c =>
    cases c with
    | read access =>
      cases returns
      by_cases register : access.addr < gpuCmdRegSize
      · rw [if_pos register]
        exact .unless free rfl (not_not_intro register)
      · rw [if_neg register, bar_cacheRead]
        exact (request_tracks free .rdShared trivial access.addr .cpu).locks.when register
    | write access value =>
      cases returns
      by_cases register : access.addr < gpuCmdRegSize
      · rw [if_pos register]
        exact .unless free (congrArg _ (bar_gpuCmdWrite ..)) (not_not_intro register)
      · rw [if_neg register, bar_cacheWrite]
        exact (request_tracks free .wrInv trivial access.addr .cpu).locks.when register
    | memCopyHtod devPtr size reply => exact Option.some.inj returns ▸ memCopyHtod_locks free devPtr size reply
    | memCopyDtoh devPtr size reply => exact Option.some.inj returns ▸ memCopyDtoh_locks free devPtr size reply
    | p2pTransfer desc fetched => exact Option.some.inj returns ▸ p2pTransfer_locks free desc fetched
    | coherentRead barOffset size barIndex =>
      exact Option.some.inj returns ▸ coherentRead_locks free barOffset size barIndex
    | coherentWrite barOffset value size barIndex =>
      exact Option.some.inj returns ▸ coherentWrite_locks free barOffset value size barIndex
    | atomicOp addr operand1 operand2 op size =>
      exact Option.some.inj returns ▸ atomicOp_locks free addr operand1 operand2 op size
    | coherentFence => exact Option.some.inj returns ▸ .of_lock free (coherentFence_lock free) id
    | setBias addr size biasMode =>
      exact (filterCall_locks free (c := .setBias addr size biasMode) returns).congr
        ⟨fun never => (by cases never), False.elim⟩
    | biasFlip addr size newBias =>
      exact (filterCall_locks free (c := .biasFlip addr size newBias) returns).congr
        ⟨fun never => (by cases never), False.elim⟩
    | bulkDtoh bar4Offset xferSize reply =>
      exact Option.some.inj returns ▸ .of_lock free (congrArg _ (bar_bulkDtoh ..)) id
    | snoopMessage addr invalidate =>
      exact Option.some.inj returns ▸ .of_lock free (congrArg _ (bar_snoopRequest ..)) id
    | invalidateMessage addr => exact Option.some.inj returns ▸ .of_lock free rfl id
    | gpuWrite offset buf size written =>
      exact Option.some.inj returns ▸ .of_lock free (congrArg _ (bar_gpuWrite ..)) id
    | cacheFlush addr size =>
      rw [lockExec, exec, cacheFlushCmd] at returns
      split at returns
      · exact .of_lock free (congrArg _ (bar_strideLoop returns fun _ _ => rfl)) id
      · exact Option.some.inj returns ▸ .of_lock free rfl id
    | cacheInvalidate addr size =>
      rw [lockExec, exec, cacheInvalidateCmd] at returns
      split at returns
      · exact .of_lock free (congrArg _ (bar_strideLoop returns fun _ _ => rfl)) id
      · exact Option.some.inj returns ▸ .of_lock free rfl id
    | cacheWriteback addr size =>
      rw [lockExec, exec, cacheWritebackCmd] at returns
      split at returns
      · exact .of_lock free (congrArg _ (bar_strideLoop returns fun _ a => bar_cacheWriteback a)) id
      · exact Option.some.inj returns ▸ .of_lock free rfl id

theorem filterCall_isSome (c : FilterCall) : (ct2d.lockExec (.filter c)).isSome := by
  obtain ⟨state', returns, -⟩ := call_outcome free c
  rw [lockExec, returns]
  rfl

theorem lockExec_isSome (noWalk : ¬ c.WalksCache) : (ct2d.lockExec c).isSome := by
  cases c with
  | filter c => exact filterCall_isSome free c
  | hetgpuCallback addr size invalidate =>
    rw [lockExec, hetgpuCoherencyCallback]
    split
    · dsimp only
      split
      · exact strideLoop_lines_isSome addr size _ _
      · rfl
    · rfl
  | device c =>
    cases c with
    | setBias addr size biasMode => exact filterCall_isSome free (.setBias addr size biasMode)
    | biasFlip addr size newBias => exact filterCall_isSome free (.biasFlip addr size newBias)
    | cacheFlush | cacheInvalidate | cacheWriteback => exact absurd trivial noWalk
    | _ => rfl

end CXLType2State

def lockStep (ct2d : Option CXLType2State) (c : LockCall) : Option CXLType2State := ct2d.bind (·.lockExec c)

def lockRun (config : Config) (calls : List LockCall) : Option CXLType2State :=
  calls.foldl lockStep (some (realize config))

def TakesLockOnce (ct2d : CXLType2State) (calls : List LockCall) : Prop :=
  EveryStep lockStep (Before fun s c => ¬ s.Relocks c) (some ct2d) calls

theorem foldl_lockStep_none (calls : List LockCall) : calls.foldl lockStep none = none :=
  invariant (I := (· = none)) (fun s _ gone => by rw [gone]; rfl) rfl calls

theorem takesLockOnce_cons (ct2d ct2d' : CXLType2State) (returns : ct2d.lockExec c = some ct2d')
    (calls : List LockCall) : TakesLockOnce ct2d (c :: calls) ↔ ¬ ct2d.Relocks c ∧ TakesLockOnce ct2d' calls := by
  rw [TakesLockOnce, everyStep_cons, lockStep, Option.bind_some, returns]
  exact and_congr_left' ⟨fun before => before ct2d rfl, fun once s same => Option.some.inj same ▸ once⟩

theorem foldl_lockStep (calls : List LockCall) {ct2d : CXLType2State} (free : ct2d.barCoherency.lock.held = false) :
    ((∀ c ∈ calls, ¬ c.WalksCache) → (calls.foldl lockStep (some ct2d)).isSome) ∧
      ∀ after ∈ calls.foldl lockStep (some ct2d),
        ct2d.barCoherency.Locks after.barCoherency (¬ TakesLockOnce ct2d calls) := by
  induction calls generalizing ct2d with
  | nil =>
    refine ⟨fun _ => rfl, fun after same => ?_⟩
    exact Option.some.inj same ▸ .of_lock free rfl fun not => not trivial
  | cons c calls ih =>
    rw [List.foldl_cons, lockStep, Option.bind_some]
    cases returns : ct2d.lockExec c with
    | none =>
      rw [foldl_lockStep_none]
      refine ⟨fun noWalk => ?_, fun after none => by cases none⟩
      have isSome := CXLType2State.lockExec_isSome free (noWalk c List.mem_cons_self)
      rw [returns] at isSome
      exact isSome
    | some ct2d' =>
      have here := CXLType2State.lockExec_locks free returns
      obtain ⟨rest, after⟩ := ih here.free
      refine ⟨fun noWalk => rest fun d member => noWalk d (List.mem_cons_of_mem c member), fun last found => ?_⟩
      rw [takesLockOnce_cons ct2d ct2d' returns]
      exact (here.trans (after last found)).congr (by rw [not_and_or, not_not])

/-- In any run of the device the lock is free between the calls, and no call has taken it while it had it just if
none is for a line that the filter does not have, or evicts one from its last domain. -/
theorem coherency_lock_taken_once (config : Config) (calls : List LockCall) :
    ((∀ c ∈ calls, ¬ c.WalksCache) → (lockRun config calls).isSome) ∧
      ∀ ct2d ∈ lockRun config calls, ct2d.barCoherency.lock.held = false ∧
        (ct2d.barCoherency.lock.relocked = false ↔ TakesLockOnce (realize config) calls) := by
  obtain ⟨returns, locks⟩ := foldl_lockStep calls (rfl : (realize config).barCoherency.lock.held = false)
  refine ⟨returns, fun ct2d found => ⟨(locks ct2d found).free, ?_⟩⟩
  have fresh : ¬ (realize config).barCoherency.lock.relocked = true := Bool.false_ne_true
  rw [← Bool.not_eq_true, (locks ct2d found).relocked, or_iff_right fresh, not_not]

def trackedLine : List LockCall :=
  [.filter (.snoopInsert 0x110040 .shared .cxlDev), .device (.write alignedWord 1),
    .filter (.coherencyRequest .rdShared 0x110040 .gpu), .filter (.coherencyRequest .cleanEvict 0x110040 .gpu)]

theorem coherency_lock_trackedLine :
    ∃ ct2d ∈ lockRun ⟨0x200000, 0x10000, false, false, 0, false⟩ trackedLine,
      ct2d.barCoherency.lock = ⟨false, false⟩ := by
  obtain ⟨returns, locks⟩ := coherency_lock_taken_once ⟨0x200000, 0x10000, false, false, 0, false⟩ trackedLine
  obtain ⟨ct2d, found⟩ := Option.isSome_iff_exists.mp
    (returns (by simp [trackedLine, LockCall.WalksCache]))
  obtain ⟨free, once⟩ := locks ct2d found
  have taken : TakesLockOnce (realize ⟨0x200000, 0x10000, false, false, 0, false⟩) trackedLine := by
    refine ⟨?_, ?_, ?_, ?_, trivial⟩ <;> rintro s same relocks <;> cases same
    · exact Bool.false_ne_true relocks
    · exact relocks.2.2 rfl
    · change FilterCall.takesAgain _ _ = true at relocks
      revert relocks
      decide +kernel
    · change FilterCall.takesAgain _ _ = true at relocks
      revert relocks
      decide +kernel
  refine ⟨ct2d, found, ?_⟩
  have relocked := once.mpr taken
  cases lock : ct2d.barCoherency.lock with
  | mk held relocked' =>
    rw [lock] at free relocked
    rw [show held = false from free, show relocked' = false from relocked]

theorem coherency_lock_taken_twice :
    ∃ ct2d ∈ lockRun ⟨0x200000, 0x10000, false, false, 0, false⟩
      [.device (.read ⟨0x110040, 8, by decide, by decide⟩)], ct2d.barCoherency.lock.relocked = true :=
  ⟨_, rfl, rfl⟩

end CxlMemSim.Type2
