import CxlMemSim.Server.Coherency

/-! The abstract store keeps, for every backing byte, what the most recent WRITE put there. -/
namespace CxlMemSim
open ByteMemory Run

def Call.stores (mem : Segment) (c : Call) (p : UInt64) : Option UInt8 :=
  if c.req.opType = .write then
    ((List.range c.size).find? fun i => backing mem (walk c.req.addr i) = p).bind fun i => c.payload[i]?
  else none

def lastWritten (mem : Segment) (history : List Call) (p : UInt64) : UInt8 :=
  (history.reverse.findSome? fun c => c.stores mem p).getD (mem p)

theorem lastWritten_append (mem : Segment) (history : List Call) (c : Call) (p : UInt64) :
    lastWritten mem (history ++ [c]) p = (c.stores mem p).getD (lastWritten mem history p) := by
  rw [lastWritten, List.reverse_append, List.reverse_singleton, List.singleton_append, List.findSome?_cons]
  cases c.stores mem p <;> rfl

theorem stores_congr {mem mem' : Segment} (same : ∀ p, InHeader p → mem' p = mem p) (c : Call) :
    c.stores mem' = c.stores mem := by
  funext p
  simp only [Call.stores, backing_congr same]

variable {mem : Segment}

theorem isValidAddress_of_base (base : baseAddr mem = 0) (addr : UInt64) : isValidAddress mem addr = true := by
  simp [isValidAddress, base]

theorem accessible_of_base (base : baseAddr mem = 0) (c : Call) : Accessible mem c.req.addr c.size :=
  ⟨clampSize_pos _, clampSize_le _, Or.inl base⟩

variable {s : ServerState} {c : Call}

theorem step_write_bytes (h : ModuloMode s.mem) (op : c.req.opType = .write) :
    (step s c).mem = poke s.mem (fun i => backing s.mem (walk c.req.addr i)) c.payload := by
  have nonempty : c.payload.length ≠ 0 := by rw [c.payload_length]; exact clampSize_pos _
  have short : c.payload.length ≤ 64 := by rw [c.payload_length]; exact clampSize_le _
  rw [step_write_mem op (isValidAddress_of_base h.base _), writeCacheline_modulo h _ _ _ nonempty short]

theorem step_write_stores (h : ModuloMode s.mem) (op : c.req.opType = .write)
    (p : UInt64) : (step s c).mem p = (c.stores s.mem p).getD (s.mem p) := by
  have short : c.payload.length ≤ 64 := by rw [c.payload_length]; exact clampSize_le _
  rw [step_write_bytes h op, poke_find _ _ _ (backing_distinct _ _ short), Call.stores, if_pos op, c.payload_length]

theorem checked_mem (quiet : NothingNewer s c.line) : (c.checked s).mem = s.mem := by
  rw [Call.checked, checkAndApply_of_nothingNewer _ quiet]

theorem copyInto_take {bytes : List UInt8} (buffer : Vector UInt8 64) (short : bytes.length ≤ 64) :
    (copyInto buffer bytes).toList.take bytes.length = bytes := by
  apply List.ext_getElem
  · simp [short]
  · intro i h1 h2
    simp [copyInto, h2]

theorem respond_read_bytes (base : baseAddr s.mem = 0)
    (base' : baseAddr (c.checked s).mem = 0) (op : c.req.opType = .read) :
    (respond s c).status = 0 ∧
      (respond s c).data.toList.take c.size =
        peek (c.checked s).mem (fun i => backing (c.checked s).mem (walk c.req.addr i)) c.size := by
  rw [respond_read op (isValidAddress_of_base base _), readCacheline_eq, if_pos (accessible_of_base base' c)]
  refine ⟨rfl, ?_⟩
  set bytes := peek (c.checked s).mem (fun i => backing (c.checked s).mem (walk c.req.addr i)) c.size
  have length : bytes.length = c.size := peek_length _ _ _
  rw [← length]
  exact copyInto_take _ (by rw [length]; exact clampSize_le _)

structure StoresHistory (mem : Segment) (history : List Call) (s : ServerState) : Prop where
  header : ∀ p, InHeader p → s.mem p = mem p
  bytes : s.mem = lastWritten mem history

def QuietAccess (s : ServerState) (c : Call) : Prop :=
  c.req.opType = .write ∨ c.req.opType = .read ∧ NothingNewer s c.line

theorem step_storesHistory (formatted : ModuloMode mem) {history : List Call} (h : StoresHistory mem history s)
    (access : QuietAccess s c) :
    StoresHistory mem (history ++ [c]) (step s c) := by
  have mode : ModuloMode s.mem := formatted.congr h.header
  rcases access with op | ⟨op, quiet⟩
  · constructor
    · intro p inHeader
      rw [step_write_bytes mode op, mode.poke_header _ _ p inHeader]
      exact h.header p inHeader
    · funext p
      rw [step_write_stores mode op, stores_congr h.header, lastWritten_append, h.bytes]
  · have kept : (step s c).mem = s.mem := by
      rw [step_read_mem op (isValidAddress_of_base mode.base _), checked_mem quiet]
    refine ⟨fun p inHeader => by rw [kept]; exact h.header p inHeader, ?_⟩
    funext p
    have none_stored : c.stores mem p = none := by simp [Call.stores, op]
    rw [kept, lastWritten_append, none_stored, h.bytes]
    rfl

theorem run_storesHistory (formatted : ModuloMode mem) {history calls : List Call} (h : StoresHistory mem history s)
    (all : EveryStep step QuietAccess s calls) :
    StoresHistory mem (history ++ calls) (run s calls) := by
  induction calls generalizing history s with
  | nil =>
    rw [List.append_nil]
    exact h
  | cons c calls ih =>
    rw [List.append_cons]
    exact ih (step_storesHistory formatted h all.1) all.2

variable {calls : List Call}

theorem quietAccess_of_kinds (kinds : ∀ c ∈ calls, c.req.opType = .read ∨ c.req.opType = .write)
    (quiet : EveryStep step (fun s c => c.req.opType = .read → NothingNewer s c.line) s calls) :
    EveryStep step QuietAccess s calls := by
  have each := quiet.and (everyStep_of_forall fun c member _ => kinds c member)
  refine each.mono (I := fun _ => True) (fun _ _ _ _ => trivial) ?_ trivial
  rintro s c - ⟨quiet, read | write⟩
  · exact .inr ⟨read, quiet read⟩
  · exact .inl write

theorem initial_storesHistory (mem : Segment) : StoresHistory mem [] (.initial mem) := ⟨fun _ _ => rfl, rfl⟩

/-- In a run of READs and WRITEs in which no READ finds something newer queued for its line, each
READ answers with what was last written to each of its backing bytes, and replays change nothing. -/
theorem read_returns_lastWritten {mem : Segment} (formatted : ModuloMode mem) (calls : List Call)
    (kinds : ∀ c ∈ calls, c.req.opType = .read ∨ c.req.opType = .write)
    (quiet : EveryStep step (fun s c => c.req.opType = .read → NothingNewer s c.line) (.initial mem) calls)
    {before after : List Call} {c : Call} (split : calls = before ++ c :: after) (op : c.req.opType = .read) :
    let s := run (.initial mem) before
    (respond s c).status = 0 ∧
      (respond s c).data.toList.take c.size =
        (List.range c.size).map (fun i => lastWritten mem before (backing mem (walk c.req.addr i))) ∧
      (c.checked s).mem = s.mem := by
  intro s
  have access : EveryStep step QuietAccess (.initial mem) (before ++ c :: after) :=
    split ▸ quietAccess_of_kinds kinds quiet
  have here : StoresHistory mem before s :=
    run_storesHistory formatted (initial_storesHistory mem) access.of_append
  have mode : ModuloMode s.mem := formatted.congr here.header
  have kept : (c.checked s).mem = s.mem := by
    rcases access.at_split with write | ⟨-, quiet⟩
    · rw [op] at write
      cases write
    · exact checked_mem quiet
  obtain ⟨status, bytes⟩ := respond_read_bytes mode.base (kept ▸ mode.base) op
  refine ⟨status, ?_, kept⟩
  rw [bytes, kept, here.bytes.symm, backing_congr here.header]
  rfl

def lateWrite : List Call :=
  [{ threadId := 0, req := { opType := .read, addr := 0, size := 1, timestamp := 0 } },
   { threadId := 1, req := { opType := .write, addr := 0, size := 1, timestamp := 10
                             data := Vector.replicate 64 0xAA } },
   { threadId := 1, req := { opType := .write, addr := 0, size := 1, timestamp := 5
                             data := Vector.replicate 64 0xBB } }]

def readBack : Call := { threadId := 0, req := { opType := .read, addr := 0, size := 1, timestamp := 20 } }

theorem read_returns_lastWritten_inOrder :
    let before := lateWrite.take 2
    (respond (run (.initial (freshMapping 0x100000 0)) before) readBack).data.toList.take 1 =
      (List.range 1).map fun i => lastWritten (freshMapping 0x100000 0) before
        (backing (freshMapping 0x100000 0) (walk 0 i)) :=
  (read_returns_lastWritten (freshMapping_moduloMode (by decide)) (lateWrite.take 2 ++ [readBack])
    (by decide) (by decide +kernel) rfl rfl).2.1

/-- The second WRITE lowers the line's access time below the entry that the first one queued, so
the READ replays the first. -/
theorem read_stale_after_lateWrite :
    let mem := freshMapping 0x100000 0
    let s := run (.initial mem) lateWrite
    ModuloMode mem ∧
      (respond s readBack).status = 0 ∧
      (respond s readBack).data.toList.take 1 = [0xAA] ∧
      lastWritten mem lateWrite (backing mem 0) = 0xBB ∧
      (readBack.checked s).mem (backing mem 0) ≠ s.mem (backing mem 0) :=
  ⟨freshMapping_moduloMode (by decide), by decide +kernel, by decide +kernel, by decide +kernel, by decide +kernel⟩

end CxlMemSim
