import CxlMemSim.Server.Handle
import CxlMemSim.Shm.Access

/-! What one request can do, in one equation for each handler. The invariants of the server are derived from these and
never unfold a handler again. -/
namespace CxlMemSim
open ByteMemory Function Call ServerState

def Call.line (c : Call) : UInt64 := addrToCacheline c.req.addr

def Call.size (c : Call) : Nat := clampSize c.req.size

def Call.payload (c : Call) : List UInt8 := c.req.data.toList.take c.size

theorem clampSize_pos (size : UInt64) : clampSize size ≠ 0 := by
  simp only [clampSize, cachelineSize]
  split_ifs with h
  · omega
  · intro zero
    exact h (Or.inl (UInt64.toNat_inj.mp zero))

theorem clampSize_le (size : UInt64) : clampSize size ≤ 64 := by
  simp only [clampSize, cachelineSize]
  split_ifs with h
  · omega
  · have : ¬ 64 < size := fun big => h (Or.inr big)
    simpa only [UInt64.lt_iff_toNat_lt, UInt64.toNat_ofNat, not_lt] using this

theorem Call.payload_length (c : Call) : c.payload.length = c.size := by
  have := clampSize_le c.req.size
  simp only [payload, List.length_take, Vector.length_toList, size]
  omega

/-- Nothing queued for the line is newer than the last access to it, so nothing is replayed. -/
def NothingNewer (s : ServerState) (cachelineAddr : UInt64) : Prop :=
  ∀ e ∈ s.backInvalidationQueue cachelineAddr, e.timestamp ≤ (s.metadata cachelineAddr).lastAccessTime
deriving Decidable

structure Replayed (cachelineAddr : UInt64) (s s' : ServerState) : Prop where
  metadata : ∃ dirty, s'.metadata = update s.metadata cachelineAddr
    { s.metadata cachelineAddr with hasDirtyUpdate := dirty }
  queue : s'.backInvalidationQueue = s.backInvalidationQueue
  counted : s.backInvalidations ≤ s'.backInvalidations
  invalidations : s'.coherencyInvalidations = s.coherencyInvalidations
  downgrades : s'.coherencyDowngrades = s.coherencyDowngrades

theorem Replayed.refl (cachelineAddr : UInt64) (s : ServerState) : Replayed cachelineAddr s s :=
  ⟨⟨(s.metadata cachelineAddr).hasDirtyUpdate, (update_eq_self _ _).symm⟩, rfl, le_rfl, rfl, rfl⟩

variable {cachelineAddr : UInt64}

theorem Replayed.trans {s s' s'' : ServerState} (h : Replayed cachelineAddr s s')
    (k : Replayed cachelineAddr s' s'') : Replayed cachelineAddr s s'' := by
  obtain ⟨dirty, first⟩ := h.metadata
  obtain ⟨dirty', second⟩ := k.metadata
  refine ⟨⟨dirty', ?_⟩, k.queue.trans h.queue, h.counted.trans k.counted,
    k.invalidations.trans h.invalidations, k.downgrades.trans h.downgrades⟩
  simp only [second, first, update_self, update_idem]

theorem applyBackInvalidations_replayed (cachelineAddr : UInt64) (entries : List BackInvalidationEntry)
    (msync : Nat → Bool) (s : ServerState) (had : Bool) :
    Replayed cachelineAddr s (applyBackInvalidations cachelineAddr entries msync s had).1 := by
  induction entries generalizing msync s had with
  | nil => exact Replayed.refl _ _
  | cons entry rest ih =>
    simp only [applyBackInvalidations]
    split
    · split
      · refine Replayed.trans ?_ (ih _ _ _)
        exact ⟨(Replayed.refl cachelineAddr s).metadata, rfl, le_rfl, rfl, rfl⟩
      · refine Replayed.trans ?_ (ih _ _ _)
        exact ⟨⟨false, rfl⟩, rfl, Nat.le_succ _, rfl, rfl⟩
    · exact ih _ _ _

theorem applyBackInvalidations_of_le (cachelineAddr : UInt64) (entries : List BackInvalidationEntry)
    (msync : Nat → Bool) (s : ServerState) (had : Bool)
    (old : ∀ e ∈ entries, e.timestamp ≤ (s.metadata cachelineAddr).lastAccessTime) :
    applyBackInvalidations cachelineAddr entries msync s had = (s, had) := by
  induction entries generalizing msync with
  | nil => rfl
  | cons entry rest ih =>
    have first : ¬ (s.metadata cachelineAddr).lastAccessTime < entry.timestamp :=
      UInt64.not_lt.mpr (old entry List.mem_cons_self)
    rw [applyBackInvalidations, if_neg first]
    exact ih _ fun e member => old e (List.mem_cons_of_mem _ member)

variable {s : ServerState} {msync : Nat → Bool}

theorem checkAndApply_of_nothingNewer (msync : Nat → Bool) (h : NothingNewer s cachelineAddr) :
    (checkAndApplyBackInvalidations s cachelineAddr msync).1 =
      { s with backInvalidationQueue := update s.backInvalidationQueue cachelineAddr [] } := by
  simp only [checkAndApplyBackInvalidations, applyBackInvalidations_of_le _ _ _ _ _ h]

theorem checkAndApply_queue (s : ServerState) (cachelineAddr : UInt64) (msync : Nat → Bool) :
    (checkAndApplyBackInvalidations s cachelineAddr msync).1.backInvalidationQueue =
      update s.backInvalidationQueue cachelineAddr [] := by
  simp only [checkAndApplyBackInvalidations, (applyBackInvalidations_replayed _ _ _ _ _).queue]

theorem applyBackInvalidations_newer {entry : BackInvalidationEntry}
    (rest : List BackInvalidationEntry) (had : Bool) {mem : Segment}
    (newer : (s.metadata cachelineAddr).lastAccessTime < entry.timestamp)
    (written : writeCacheline s.mem cachelineAddr entry.dirtyData (msync 0) = (mem, true)) :
    ∃ s', applyBackInvalidations cachelineAddr (entry :: rest) msync s had =
        applyBackInvalidations cachelineAddr rest (fun k => msync (k + 1)) s' true ∧
      s'.mem = mem ∧ (s'.metadata cachelineAddr).lastAccessTime = (s.metadata cachelineAddr).lastAccessTime ∧
      s'.backInvalidations = s.backInvalidations + 1 := by
  simp only [applyBackInvalidations, if_pos newer, written]
  refine ⟨_, rfl, rfl, ?_, rfl⟩
  simp only [setMetadata, update_self]

/-- The byte that a replay leaves at a place of its line: the last newer entry that reaches it. -/
def replayedByte (lastAccessTime : UInt64) : List BackInvalidationEntry → Nat → Option UInt8
  | [], _ => none
  | entry :: rest, j =>
    (replayedByte lastAccessTime rest j).or (if lastAccessTime < entry.timestamp then entry.dirtyData[j]? else none)

theorem applyBackInvalidations_mem (cachelineAddr : UInt64) (entries : List BackInvalidationEntry)
    (synced : ∀ k, msync k = true) (s : ServerState) (had : Bool) (h : ModuloMode s.mem)
    (sizes : ∀ e ∈ entries, e.dirtyData.length ≠ 0 ∧ e.dirtyData.length ≤ 64) :
    (∀ p, InHeader p → (applyBackInvalidations cachelineAddr entries msync s had).1.mem p = s.mem p) ∧
    ∀ j < 64, (applyBackInvalidations cachelineAddr entries msync s had).1.mem
        (backing s.mem (walk cachelineAddr j)) =
      (replayedByte (s.metadata cachelineAddr).lastAccessTime entries j).getD
        (s.mem (backing s.mem (walk cachelineAddr j))) := by
  induction entries generalizing msync s had with
  | nil => exact ⟨fun _ _ => rfl, fun _ _ => rfl⟩
  | cons entry rest ih =>
    have tail : ∀ e ∈ rest, e.dirtyData.length ≠ 0 ∧ e.dirtyData.length ≤ 64 :=
      fun e member => sizes e (List.mem_cons_of_mem _ member)
    obtain ⟨nonempty, short⟩ := sizes entry List.mem_cons_self
    by_cases newer : (s.metadata cachelineAddr).lastAccessTime < entry.timestamp
    · have written : writeCacheline s.mem cachelineAddr entry.dirtyData (msync 0) =
          (poke s.mem (fun i => backing s.mem (walk cachelineAddr i)) entry.dirtyData, true) := by
        rw [writeCacheline_modulo h _ _ _ nonempty short, synced 0]
      have header := h.poke_header (walk cachelineAddr) entry.dirtyData
      obtain ⟨s', unfolded, mem, time, -⟩ := applyBackInvalidations_newer rest had newer written
      rw [← mem] at header
      obtain ⟨kept, bytes⟩ := ih (fun k => synced (k + 1)) s' true (h.congr header) tail
      rw [unfolded]
      refine ⟨fun p inHeader => (kept p inHeader).trans (header p inHeader), ?_⟩
      intro j hj
      have here : s'.mem (backing s.mem (walk cachelineAddr j)) =
          entry.dirtyData[j]?.getD (s.mem (backing s.mem (walk cachelineAddr j))) := by
        rw [mem]
        exact poke_getD s.mem _ _ (backing_distinct s.mem cachelineAddr (Nat.le_refl 64)) short hj
      have later := bytes j hj
      rw [backing_congr header, time, here] at later
      rw [later, replayedByte, if_pos newer]
      cases replayedByte (s.metadata cachelineAddr).lastAccessTime rest j <;> rfl
    · rw [applyBackInvalidations, if_neg newer]
      simp only [replayedByte, if_neg newer, Option.or_none]
      exact ih synced s had h tail

theorem register_iterate (cachelineAddr : UInt64) (source : Int) (dirtyData : List UInt8)
    (timestamp : UInt64) (n : Nat) (s : ServerState) :
    (registerBackInvalidation cachelineAddr source dirtyData timestamp)^[n] s =
      { s with
        backInvalidationQueue := update s.backInvalidationQueue cachelineAddr
          (s.backInvalidationQueue cachelineAddr ++
            List.replicate n ⟨cachelineAddr, source, timestamp, dirtyData⟩) } := by
  induction n generalizing s with
  | zero => simp
  | succ n ih =>
    rw [iterate_succ_apply, ih]
    simp [registerBackInvalidation, List.replicate_succ]

def Call.checked (s : ServerState) (c : Call) : ServerState :=
  (checkAndApplyBackInvalidations s c.line c.msync).1

variable {c : Call}

theorem step_read_mem (op : c.req.opType = .read)
    (valid : isValidAddress s.mem c.req.addr = true) : (step s c).mem = (c.checked s).mem := by
  simp only [step, handleRequest, op, if_pos valid, handleRead]
  split <;> rfl

theorem respond_read (op : c.req.opType = .read) (valid : isValidAddress s.mem c.req.addr = true) :
    respond s c =
      match readCacheline (c.checked s).mem c.req.addr c.size with
      | none => { status := 1 }
      | some bytes => { data := copyInto (Vector.replicate 64 0) bytes } := by
  simp only [respond, handleRequest, op, if_pos valid, handleRead]
  rw [size, checked, line]
  cases h : readCacheline (checkAndApplyBackInvalidations s (addrToCacheline c.req.addr) c.msync).1.mem c.req.addr
      (clampSize c.req.size) with
  | none => simp only [setMetadata, h]
  | some bytes => simp only [setMetadata, h]

theorem step_write_mem (op : c.req.opType = .write) (valid : isValidAddress s.mem c.req.addr = true) :
    (step s c).mem = (writeCacheline s.mem c.req.addr c.payload (c.msync 0)).1 := by
  rw [payload, size]
  simp only [step, handleRequest, op, if_pos valid, handleWrite, register_iterate, setMetadata]
  cases h : writeCacheline s.mem c.req.addr (c.req.data.toList.take (clampSize c.req.size)) (c.msync 0) with
  | mk mem ok => cases ok <;> rfl

theorem respond_write (op : c.req.opType = .write) (valid : isValidAddress s.mem c.req.addr = true) :
    respond s c =
      if (writeCacheline s.mem c.req.addr c.payload (c.msync 0)).2 then {} else { status := 1 } := by
  rw [payload, size]
  simp only [respond, handleRequest, op, if_pos valid, handleWrite, setMetadata]
  cases h : writeCacheline s.mem c.req.addr (c.req.data.toList.take (clampSize c.req.size)) (c.msync 0) with
  | mk mem ok => cases ok <;> rfl

theorem handleWriteCoherency_lastAccessTime (threadId : Int) (info : CachelineMetadata) :
    (handleWriteCoherency threadId info).1.lastAccessTime = info.lastAccessTime := by
  cases h : info.state <;> simp only [handleWriteCoherency, h] <;> split <;> rfl

theorem step_of_invalid (kind : c.req.opType = .read ∨ c.req.opType = .write)
    (invalid : ¬ isValidAddress s.mem c.req.addr = true) : step s c = s := by
  rcases kind with op | op <;> simp only [step, handleRequest, op, if_neg invalid]

theorem step_read_queue (op : c.req.opType = .read) (valid : isValidAddress s.mem c.req.addr = true) :
    (step s c).backInvalidationQueue = update s.backInvalidationQueue c.line [] := by
  simp only [step, handleRequest, op, if_pos valid, handleRead, setMetadata]
  split <;> exact checkAndApply_queue s c.line c.msync

/-- What a WRITE leaves in the queues: nothing new if it fails, otherwise some entries of its own. -/
inductive Queued (s : ServerState) (c : Call) (s' : ServerState) : Prop
  | nothing (queue : s'.backInvalidationQueue = s.backInvalidationQueue)
      (time : (s'.metadata c.line).lastAccessTime = (s.metadata c.line).lastAccessTime)
  | entries (n : Nat) (bytes : List UInt8) (length : bytes.length = c.size)
      (queue : s'.backInvalidationQueue = update s.backInvalidationQueue c.line
        (s.backInvalidationQueue c.line ++ List.replicate n ⟨c.line, c.threadId, c.req.timestamp, bytes⟩))
      (time : (s'.metadata c.line).lastAccessTime = c.req.timestamp)

theorem readBack_length (mem : Segment) (addr : UInt64) (size : Nat) :
    ((readCacheline mem addr size).getD (List.replicate size 0)).length = size := by
  rw [readCacheline_eq]
  split <;> simp

theorem step_write_queued (op : c.req.opType = .write) : Queued s c (step s c) := by
  by_cases valid : isValidAddress s.mem c.req.addr = true
  · simp only [step, handleRequest, op, if_pos valid, handleWrite, register_iterate, setMetadata]
    split
    · exact .nothing rfl (by simp [line, handleWriteCoherency_lastAccessTime])
    · rename_i mem _
      exact .entries _ _ (readBack_length mem c.req.addr c.size) rfl (by simp [line])
  · simp only [step, handleRequest, op, if_neg valid]
    exact .nothing rfl rfl

theorem step_other_queue (read : c.req.opType ≠ .read)
    (write : c.req.opType ≠ .write) : (step s c).backInvalidationQueue = s.backInvalidationQueue := by
  cases op : c.req.opType with
  | read => exact (read op).elim
  | write => exact (write op).elim
  | atomicFaa | fence => simp [step, handleRequest, handleAtomicRequest, op, setMetadata]
  | atomicCas =>
    simp only [step, handleRequest, handleAtomicRequest, op, setMetadata]
    split <;> rfl
  | lsaRead =>
    simp only [step, handleRequest, handleLsaRead, op]
    split <;> rfl
  | lsaWrite =>
    simp only [step, handleRequest, handleLsaWrite, op]
    split <;> rfl

def QueuedSizes (s : ServerState) : Prop :=
  ∀ k, ∀ e ∈ s.backInvalidationQueue k, e.dirtyData.length ≠ 0 ∧ e.dirtyData.length ≤ 64

theorem step_queuedSizes (c : Call) (h : QueuedSizes s) : QueuedSizes (step s c) := by
  intro k e member
  by_cases read : c.req.opType = .read
  · by_cases valid : isValidAddress s.mem c.req.addr = true
    · rw [step_read_queue read valid] at member
      by_cases own : k = c.line
      · rw [own, update_self] at member
        cases member
      · rw [update_of_ne own] at member
        exact h k e member
    · rw [step_of_invalid (.inl read) valid] at member
      exact h k e member
  by_cases write : c.req.opType = .write
  · cases step_write_queued write with
    | nothing queue _ =>
      rw [queue] at member
      exact h k e member
    | entries n bytes length queue _ =>
      rw [queue] at member
      by_cases own : k = c.line
      · rw [own, update_self] at member
        rcases List.mem_append.mp member with old | new
        · exact h _ e old
        · rw [List.eq_of_mem_replicate new]
          exact ⟨by rw [length]; exact clampSize_pos _, by rw [length]; exact clampSize_le _⟩
      · rw [update_of_ne own] at member
        exact h k e member
  · rw [step_other_queue read write] at member
    exact h k e member

theorem Reachable.queuedSizes (h : Reachable s) : QueuedSizes s := by
  induction h with
  | start mem => exact fun _ _ => nofun
  | next c _ _ ih => exact step_queuedSizes c ih

def CachelineMetadata.holding (info : CachelineMetadata) : CoherencyState × Int × Finset Int :=
  (info.state, info.owner, info.sharers)

def Call.swaps (s : ServerState) (c : Call) : Prop := loadU64 s.mem (atomicPtr c.req.addr) = c.req.expected
deriving Decidable

/-- The metadata that the request leaves on its own line, as far as `holding` can tell. -/
def Call.ownAfter (s : ServerState) (c : Call) : CachelineMetadata :=
  let info := s.metadata c.line
  match c.req.opType with
  | .read => if isValidAddress s.mem c.req.addr then (handleReadCoherency c.threadId info).1 else info
  | .write => if isValidAddress s.mem c.req.addr then (handleWriteCoherency c.threadId info).1 else info
  | .atomicFaa => info.afterAtomic c.threadId c.req.timestamp
  | .atomicCas => if c.swaps s then info.afterAtomic c.threadId c.req.timestamp else info
  | .fence | .lsaRead | .lsaWrite => info

theorem Call.ownAfter_cases (s : ServerState) (c : Call) :
    c.ownAfter s = s.metadata c.line ∨
    c.ownAfter s = (handleReadCoherency c.threadId (s.metadata c.line)).1 ∨
    c.ownAfter s = (handleWriteCoherency c.threadId (s.metadata c.line)).1 ∨
    c.ownAfter s = (s.metadata c.line).afterAtomic c.threadId c.req.timestamp := by
  cases op : c.req.opType with
  | read =>
    simp only [ownAfter, op]
    split
    · exact .inr (.inl rfl)
    · exact .inl rfl
  | write =>
    simp only [ownAfter, op]
    split
    · exact .inr (.inr (.inl rfl))
    · exact .inl rfl
  | atomicFaa => exact .inr (.inr (.inr (by simp only [ownAfter, op])))
  | atomicCas =>
    simp only [ownAfter, op]
    split
    · exact .inr (.inr (.inr rfl))
    · exact .inl rfl
  | fence | lsaRead | lsaWrite => exact .inl (by simp only [ownAfter, op])

theorem handleReadCoherency_dirty (threadId : Int) (info : CachelineMetadata) (dirty : Bool) :
    handleReadCoherency threadId { info with hasDirtyUpdate := dirty } =
      ({ (handleReadCoherency threadId info).1 with hasDirtyUpdate := dirty },
        (handleReadCoherency threadId info).2) := by
  cases h : info.state <;> simp [handleReadCoherency, h, downgradeOwner]

theorem checkAndApply_metadata (s : ServerState) (cachelineAddr : UInt64) (msync : Nat → Bool) :
    ∃ dirty, (checkAndApplyBackInvalidations s cachelineAddr msync).1.metadata =
      update s.metadata cachelineAddr { s.metadata cachelineAddr with hasDirtyUpdate := dirty } :=
  (applyBackInvalidations_replayed cachelineAddr _ msync s false).metadata

theorem step_metadata_other {k : UInt64} (other : k ≠ c.line) : (step s c).metadata k = s.metadata k := by
  rw [line] at other
  cases op : c.req.opType with
  | read =>
    obtain ⟨dirty, after⟩ := checkAndApply_metadata s (addrToCacheline c.req.addr) c.msync
    simp only [step, handleRequest, op, handleRead, setMetadata]
    split
    · split <;> simp [after, other]
    · rfl
  | write =>
    simp only [step, handleRequest, op, handleWrite, register_iterate, setMetadata]
    split
    · split <;> simp [other]
    · rfl
  | atomicFaa => simp [step, handleRequest, handleAtomicRequest, op, setMetadata, other]
  | atomicCas =>
    simp only [step, handleRequest, handleAtomicRequest, op, setMetadata]
    split <;> simp [other]
  | fence => simp [step, handleRequest, handleAtomicRequest, op]
  | lsaRead =>
    simp only [step, handleRequest, handleLsaRead, op]
    split <;> rfl
  | lsaWrite =>
    simp only [step, handleRequest, handleLsaWrite, op]
    split <;> rfl

theorem step_holding_own (s : ServerState) (c : Call) :
    ((step s c).metadata c.line).holding = (c.ownAfter s).holding := by
  cases op : c.req.opType with
  | read =>
    obtain ⟨dirty, after⟩ := checkAndApply_metadata s (addrToCacheline c.req.addr) c.msync
    simp only [step, handleRequest, op, handleRead, setMetadata, ownAfter, line, after,
      update_self, handleReadCoherency_dirty]
    split
    · split <;> simp [CachelineMetadata.holding]
    · rfl
  | write =>
    simp only [step, handleRequest, op, handleWrite, register_iterate, setMetadata, ownAfter, line]
    split
    · split <;> simp [CachelineMetadata.holding]
    · rfl
  | atomicFaa =>
    simp [step, handleRequest, handleAtomicRequest, op, ownAfter, setMetadata, line]
  | atomicCas =>
    simp only [step, handleRequest, handleAtomicRequest, op, ownAfter, setMetadata, line, swaps]
    by_cases equal : loadU64 s.mem (atomicPtr c.req.addr) = c.req.expected <;>
      simp [equal, CachelineMetadata.holding]
  | fence => simp only [step, handleRequest, handleAtomicRequest, op, ownAfter]
  | lsaRead =>
    simp only [step, handleRequest, handleLsaRead, op, ownAfter]
    split <;> rfl
  | lsaWrite =>
    simp only [step, handleRequest, handleLsaWrite, op, ownAfter]
    split <;> rfl

/-- Only the line of the first byte changes hands, and how is decided by the state before. -/
theorem step_holding (s : ServerState) (c : Call) (k : UInt64) :
    ((step s c).metadata k).holding =
      if k = c.line then (c.ownAfter s).holding else (s.metadata k).holding := by
  split
  · rename_i own
    rw [own, step_holding_own]
  · rename_i other
    rw [step_metadata_other other]

theorem step_invalidations (s : ServerState) (c : Call) :
    (step s c).coherencyInvalidations = s.coherencyInvalidations +
      if c.req.opType = .write ∧ isValidAddress s.mem c.req.addr then
        (handleWriteCoherency c.threadId (s.metadata c.line)).2
      else 0 := by
  have replayed := (applyBackInvalidations_replayed (addrToCacheline c.req.addr)
    (s.backInvalidationQueue (addrToCacheline c.req.addr)) c.msync s false).invalidations
  cases op : c.req.opType with
  | read =>
    have check : (checkAndApplyBackInvalidations s (addrToCacheline c.req.addr) c.msync).1.coherencyInvalidations =
        s.coherencyInvalidations := replayed
    simp only [step, handleRequest, op, handleRead, setMetadata]
    split
    · split <;> simp [check]
    · simp
  | write =>
    simp only [step, handleRequest, op, handleWrite, setMetadata, register_iterate, line, true_and]
    split
    · split <;> rfl
    · simp
  | atomicCas =>
    simp only [step, handleRequest, handleAtomicRequest, op, setMetadata]
    split <;> simp
  | atomicFaa => simp [step, handleRequest, handleAtomicRequest, op, setMetadata]
  | fence => simp [step, handleRequest, handleAtomicRequest, op]
  | lsaRead =>
    simp only [step, handleRequest, handleLsaRead, op]
    split <;> simp
  | lsaWrite =>
    simp only [step, handleRequest, handleLsaWrite, op]
    split <;> simp

end CxlMemSim
