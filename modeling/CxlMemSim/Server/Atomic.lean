import CxlMemSim.Server.Storage

/-! A plain request reaches memory through the manager, which maps its address to a backing byte. -/
namespace CxlMemSim
open ByteMemory Run

def accessBytes (mem : Segment) (addr : UInt64) (size : Nat) : Option (List UInt64) :=
  if Accessible mem addr size then some ((List.range size).map fun i => backing mem (walk addr i)) else none

def atomicBytes (addr : UInt64) : List UInt64 := (List.range 8).map (walk (atomicPtr addr))

theorem atomicPtr_eq (addr : UInt64) : atomicPtr addr = addr := by
  have fits := addr.toNat_lt
  apply UInt64.toNat_inj.mp
  rw [atomicPtr, UInt64.toNat_add, addrToCacheline_toNat, UInt64.toNat_mod]
  simp only [show (64 : UInt64).toNat = 64 from rfl]
  omega

variable {addr : UInt64}

theorem mem_atomicBytes {p : UInt64} : p ∈ atomicBytes addr ↔ ∃ i < 8, walk addr i = p := by
  simp [atomicBytes, atomicPtr_eq]

variable {mem : Segment}

theorem getCachelineData_isSome {cachelineAddr : UInt64} (base : baseAddr mem ≠ 0)
    (found : (getCachelineData mem cachelineAddr).isSome) :
    baseAddr mem ≤ cachelineAddr ∧ (cachelineAddr - baseAddr mem) / 64 < numCachelines mem := by
  simp only [getCachelineData, if_neg base, cachelineToIndex] at found
  split_ifs at found with below beyond
  · simp at found
  · simp at found
  · exact ⟨UInt64.not_lt.mp below, UInt64.not_le.mp beyond⟩

theorem backing_ne_of_base (base : baseAddr mem ≠ 0)
    (found : (getCachelineData mem (addrToCacheline addr)).isSome) : backing mem addr ≠ addr := by
  obtain ⟨above, -⟩ := getCachelineData_isSome base found
  intro same
  have place := congrArg UInt64.toNat same
  have positive : (baseAddr mem).toNat ≠ 0 := fun zero => base (UInt64.toNat_inj.mp zero)
  have line := addrToCacheline_toNat addr
  have fits := addr.toNat_lt
  rw [UInt64.le_iff_toNat_le, line] at above
  rw [backing_toNat, cachelineToIndex, if_neg base, UInt64.toNat_div,
    UInt64.toNat_sub_of_le _ _ (by rwa [UInt64.le_iff_toNat_le, line]), line] at place
  simp only [show (64 : UInt64).toNat = 64 from rfl] at place
  omega

theorem backing_eq_of_lt (base : baseAddr mem = 0)
    (inside : addr.toNat < (numCachelines mem).toNat * 64) : backing mem addr = addr := by
  have fits := addr.toNat_lt
  apply UInt64.toNat_inj.mp
  rw [backing_toNat, cachelineToIndex, if_pos base, UInt64.toNat_mod, UInt64.toNat_div, addrToCacheline_toNat]
  simp only [show (64 : UInt64).toNat = 64 from rfl]
  have line : addr.toNat / 64 * 64 / 64 % (numCachelines mem).toNat = addr.toNat / 64 := by
    rw [Nat.mul_div_cancel _ (by norm_num)]
    exact Nat.mod_eq_of_lt (by omega)
  rw [line]
  omega

def OneLine (addr : UInt64) : Prop := addr.toNat % 64 + 8 ≤ 64
deriving Decidable

def InDataArea (mem : Segment) (addr : UInt64) : Prop :=
  ∀ p ∈ atomicBytes addr, p.toNat < (numCachelines mem).toNat * 64

instance (mem : Segment) (addr : UInt64) : Decidable (InDataArea mem addr) :=
  List.decidableBAll _ (atomicBytes addr)

theorem accessBytes_eq_iff (inside : InDataArea mem addr) :
    accessBytes mem addr 8 = some (atomicBytes addr) ↔ baseAddr mem = 0 := by
  constructor
  · intro same
    by_contra base
    rw [accessBytes] at same
    split_ifs at same with accepted
    obtain ⟨found, -⟩ := accepted.2.2.resolve_left base
    have first := congrArg List.head? (Option.some.inj same)
    simp only [atomicBytes, List.range_succ_eq_map, List.map_cons, List.head?_cons, walk_zero, atomicPtr_eq,
      Option.some.injEq] at first
    exact backing_ne_of_base base found first
  · intro base
    rw [accessBytes, if_pos ⟨by norm_num, by norm_num, Or.inl base⟩]
    apply congrArg some
    apply List.map_congr_left
    intro i member
    have place : walk addr i ∈ atomicBytes addr := mem_atomicBytes.mpr ⟨i, List.mem_range.mp member, rfl⟩
    rw [backing_eq_of_lt base (inside _ place), atomicPtr_eq]

def Call.sum (s : ServerState) (c : Call) : UInt64 := loadU64 s.mem (atomicPtr c.req.addr) + c.req.value

variable {s : ServerState} {c : Call}

theorem step_faa (op : c.req.opType = .atomicFaa) : (step s c).mem = storeU64 s.mem c.req.addr (c.sum s) ∧
    (respond s c).oldValue = loadU64 s.mem c.req.addr ∧
    ((step s c).metadata c.line).lastAccessTime = c.req.timestamp := by
  simp [step, respond, handleRequest, handleAtomicRequest, op, ServerState.setMetadata, Call.sum, Call.line,
    atomicPtr_eq, CachelineMetadata.afterAtomic]

theorem step_faa_header (mode : ModuloMode s.mem) (inside : InDataArea s.mem c.req.addr)
    (op : c.req.opType = .atomicFaa) {p : UInt64} (inHeader : InHeader p) : (step s c).mem p = s.mem p := by
  rw [(step_faa op).1]
  apply storeLE_other
  rintro i hi rfl
  have below := inside _ (mem_atomicBytes.mpr ⟨i, hi, rfl⟩)
  have room := mode.room
  rw [InHeader] at inHeader
  omega

theorem step_faa_byte (op : c.req.opType = .atomicFaa) {i : Nat} (hi : i < 8) :
    (step s c).mem (walk c.req.addr i) = (toBytesLE 8 (c.sum s).toNat).getD i 0 := by
  have length : (toBytesLE 8 (c.sum s).toNat).length = 8 := toBytesLE_length _ _
  rw [(step_faa op).1, storeU64, storeLE, poke_at _ _ _ (walk_distinct _ (by omega)) (by omega)]
  simp [length, hi]

theorem read_after_faa (sizes : QueuedSizes s) (mode : ModuloMode s.mem) {r : Call}
    (inside : InDataArea s.mem c.req.addr) (oneLine : OneLine c.req.addr) (op : c.req.opType = .atomicFaa)
    (read : r.req.opType = .read) (addr : r.req.addr = c.req.addr) (size : r.req.size = 8)
    (synced : ∀ k, r.msync k = true) :
    (respond (step s c) r).status = 0 ∧
      (respond (step s c) r).data.toList.take 8 =
        (List.range 8).map fun i =>
          (replayedByte c.req.timestamp (s.backInvalidationQueue c.line) (c.req.addr.toNat % 64 + i)).getD
            ((toBytesLE 8 (c.sum s).toNat).getD i 0) := by
  have time := (step_faa (s := s) op).2.2
  have queue : (step s c).backInvalidationQueue = s.backInvalidationQueue :=
    step_other_queue (by rw [op]; nofun) (by rw [op]; nofun)
  have line : r.line = c.line := by rw [Call.line, Call.line, addr]
  have eight : r.size = 8 := by rw [Call.size, size]; rfl
  have header : ∀ p, InHeader p → (step s c).mem p = s.mem p := fun p => step_faa_header mode inside op
  have mode' := mode.congr header
  obtain ⟨kept, bytes⟩ := applyBackInvalidations_mem r.line ((step s c).backInvalidationQueue r.line) synced (step s c)
    false mode' (by rw [queue]; exact sizes _)
  obtain ⟨status, answer⟩ := respond_read_bytes mode'.base (mode'.congr kept).base read
  rw [eight] at answer
  refine ⟨status, answer.trans ?_⟩
  apply List.map_congr_left
  intro i member
  have hi : i < 8 := List.mem_range.mp member
  have address : walk r.line (c.req.addr.toNat % 64 + i) = walk c.req.addr i := by rw [line, Call.line, walk_line]
  have place := backing_eq_of_lt mode.base (inside _ (mem_atomicBytes.mpr ⟨i, hi, rfl⟩))
  have mapped : backing (r.checked (step s c)).mem = backing (step s c).mem := backing_congr kept
  have here := bytes (c.req.addr.toNat % 64 + i) (by rw [OneLine] at oneLine; omega)
  simp only [mapped, addr, ← address]
  refine Eq.trans here ?_
  rw [address, backing_congr header, place, step_faa_byte op hi, queue, line, time]

theorem overlay_eq_iff {word : List UInt8} {n : Nat} (length : word.length = n) (cover : Nat → Option UInt8) :
    (List.range n).map (fun i => (cover i).getD (word.getD i 0)) = word ↔
      ∀ i < n, ∀ b, cover i = some b → word[i]? = some b := by
  subst length
  constructor
  · intro same i hi b covered
    have at_i := congrArg (fun l => l[i]?) same
    simpa [hi, covered] using at_i.symm
  · intro agree
    apply List.ext_getElem (by simp)
    intro i h1 h2
    cases covered : cover i with
    | none => simp [covered, h2]
    | some b =>
      have := agree i h2 b covered
      simp_all

structure AtomicCoincides (s : ServerState) (c : Call) : Prop where
  footprint : (∀ p, p ∉ atomicBytes c.req.addr → (step s c).mem p = s.mem p) ∧
    (respond s c).oldValue = UInt64.ofNat (ofBytesLE ((atomicBytes c.req.addr).map s.mem))
  same : isValidAddress s.mem c.req.addr → OneLine c.req.addr →
    accessBytes s.mem c.req.addr 8 = some (atomicBytes c.req.addr)
  visible : c.req.opType = .atomicFaa → isValidAddress s.mem c.req.addr → OneLine c.req.addr →
    ∀ r : Call, r.req.opType = .read → r.req.addr = c.req.addr → r.req.size = 8 → (∀ k, r.msync k = true) →
      (respond (step s c) r).status = 0 ∧
      (respond (step s c) r).data.toList.take 8 =
        toBytesLE 8 ((respond s c).oldValue + c.req.value).toNat
  inside : InDataArea s.mem c.req.addr

/-- Nothing pending for the line that is newer than the atomic covers the sum with other bytes. -/
def NoStaleReplay (s : ServerState) (c : Call) : Prop :=
  ∀ i < 8, ∀ b,
    replayedByte c.req.timestamp (s.backInvalidationQueue c.line) (c.req.addr.toNat % 64 + i) = some b →
      (toBytesLE 8 (c.sum s).toNat)[i]? = some b

/-- The atomic stays in the data area, the header maps addresses modulo its size, and no replay
is about to cover the result. -/
structure AtomicInPlace (s : ServerState) (c : Call) : Prop where
  inside : InDataArea s.mem c.req.addr
  unbased : isValidAddress s.mem c.req.addr → OneLine c.req.addr → baseAddr s.mem = 0
  settled : c.req.opType = .atomicFaa → isValidAddress s.mem c.req.addr → OneLine c.req.addr → NoStaleReplay s c

theorem atomic_footprint (s : ServerState) (kind : c.req.opType = .atomicFaa ∨ c.req.opType = .atomicCas) :
    (∀ p, p ∉ atomicBytes c.req.addr → (step s c).mem p = s.mem p) ∧
      (respond s c).oldValue = UInt64.ofNat (ofBytesLE ((atomicBytes c.req.addr).map s.mem)) := by
  have frame : ∀ v p, p ∉ atomicBytes c.req.addr → storeU64 s.mem (atomicPtr c.req.addr) v p = s.mem p := by
    intro v p outside
    apply storeLE_other
    intro i hi here
    rw [atomicPtr_eq] at here
    exact outside (mem_atomicBytes.mpr ⟨i, hi, here⟩)
  have word : loadU64 s.mem (atomicPtr c.req.addr) =
      UInt64.ofNat (ofBytesLE ((atomicBytes c.req.addr).map s.mem)) := by
    rw [loadU64, loadLE, peek, atomicBytes, List.map_map]
    rfl
  rcases kind with op | op
  · simp only [step, respond, handleRequest, handleAtomicRequest, op]
    exact ⟨fun p => frame _ p, word⟩
  · simp only [step, respond, handleRequest, handleAtomicRequest, op]
    split
    · exact ⟨fun p => frame _ p, word⟩
    · exact ⟨fun _ _ => rfl, word⟩

theorem atomic_coincides_iff {s : ServerState} (reachable : Reachable s)
    (fits : (numCachelines s.mem).toNat * 64 + 56 ≤ 2 ^ 64) {c : Call}
    (kind : c.req.opType = .atomicFaa ∨ c.req.opType = .atomicCas) :
    AtomicCoincides s c ↔ AtomicInPlace s c := by
  have modulo : InDataArea s.mem c.req.addr → baseAddr s.mem = 0 → ModuloMode s.mem := by
    intro inside base
    have first := inside _ (mem_atomicBytes.mpr ⟨0, by norm_num, rfl⟩)
    exact ⟨base, by omega, fits⟩
  have sum : c.req.opType = .atomicFaa → (respond s c).oldValue + c.req.value = c.sum s := by
    intro op
    rw [(step_faa op).2.1, Call.sum, atomicPtr_eq]
  constructor
  · intro h
    have unbased := fun valid oneLine => (accessBytes_eq_iff h.inside).mp (h.same valid oneLine)
    refine ⟨h.inside, unbased, ?_⟩
    intro op valid oneLine
    let r : Call := { threadId := 0, req := { opType := .read, addr := c.req.addr, size := 8, timestamp := 0 } }
    have seen := (h.visible op valid oneLine r rfl rfl rfl fun _ => rfl).2
    have answer := (read_after_faa (r := r) reachable.queuedSizes (modulo h.inside (unbased valid oneLine)) h.inside
      oneLine op rfl rfl rfl fun _ => rfl).2
    rw [sum op, answer] at seen
    exact (overlay_eq_iff (toBytesLE_length _ _) _).mp seen
  · intro h
    refine ⟨atomic_footprint s kind, ?_, ?_, h.inside⟩
    · exact fun valid oneLine => (accessBytes_eq_iff h.inside).mpr (h.unbased valid oneLine)
    · intro op valid oneLine r read addr size synced
      obtain ⟨status, answer⟩ := read_after_faa reachable.queuedSizes (modulo h.inside (h.unbased valid oneLine))
        h.inside
        oneLine op read addr size synced
      refine ⟨status, answer.trans ?_⟩
      rw [sum op]
      exact (overlay_eq_iff (toBytesLE_length _ _) _).mpr (h.settled op valid oneLine)

def addAt (addr : UInt64) : Call :=
  { threadId := 0, req := { opType := .atomicFaa, addr, size := 8, timestamp := 1, value := 1 } }

theorem atomic_coincides_addAt : AtomicCoincides (.initial (freshMapping 0x100000 0)) (addAt 8) :=
  (atomic_coincides_iff (.start _) (by decide +kernel) (.inl rfl)).mpr
    ⟨by decide +kernel, fun _ _ => (freshMapping_moduloMode (by decide)).base, fun _ _ _ _ _ _ => nofun⟩

/-- An address past the end wraps for a READ only; a base is subtracted for a READ only. -/
theorem atomic_diverges :
    let wrapped : ServerState := .initial (freshMapping 0x100000 0)
    let based : ServerState := .initial (freshMapping 0x100000 0x1000)
    (isValidAddress wrapped.mem 0xFFFC0 ∧ OneLine 0xFFFC0 ∧ ¬ InDataArea wrapped.mem 0xFFFC0 ∧
      accessBytes wrapped.mem 0xFFFC0 8 = some (atomicBytes 0) ∧ ¬ AtomicCoincides wrapped (addAt 0xFFFC0)) ∧
    (isValidAddress based.mem 0x1000 ∧ OneLine 0x1000 ∧ InDataArea based.mem 0x1000 ∧
      accessBytes based.mem 0x1000 8 = some (atomicBytes 0) ∧ ¬ AtomicCoincides based (addAt 0x1000)) := by
  intro wrapped based
  refine ⟨⟨by decide +kernel, by decide, by decide +kernel, by decide +kernel, ?_⟩,
    by decide +kernel, by decide, by decide +kernel, by decide +kernel, ?_⟩
  · intro h
    have inside := h.inside
    revert inside
    decide +kernel
  · intro h
    have same := h.same (by decide +kernel) (by decide)
    revert same
    decide +kernel

end CxlMemSim
