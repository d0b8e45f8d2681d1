import CxlMemSim.Type2.Coherent

/-! The CPU's reads and writes, mixed with snoop requests and the cache commands, act as on a flat memory. -/
namespace CxlMemSim.Type2
open ByteMemory CachedMemory Run StrideLoop

/-- The CPU's accesses to device memory beyond the command registers, snoop requests and cache commands. -/
def Call.OnCache (memSize : UInt64) : Call → Prop
  | .read access | .write access _ => gpuCmdRegSize ≤ access.addr ∧ access.addr < memSize
  | .snoopMessage _ _ | .cacheFlush _ _ | .cacheInvalidate _ _ | .cacheWriteback _ _ => True
  | _ => False

def RangeEnds (addr size : UInt64) : Prop := (addr + size).toNat + 64 ≤ 2 ^ 64 + addr.toNat % 64

def Call.Ends (connected : Bool) : Call → Prop
  | .cacheFlush addr size => connected = true → RangeEnds addr size
  | .cacheInvalidate addr size | .cacheWriteback addr size => RangeEnds addr size
  | _ => True

def Call.writeTo (memory : Segment) : Call → Segment
  | .write access value => poke memory (walk access.addr) (toBytesLE access.size value.toNat)
  | _ => memory

def lastWritten (calls : List Call) : Segment := calls.foldl Call.writeTo fun _ => 0

variable {addr : UInt64}

namespace CXLType2State
variable (ct2d : CXLType2State)

structure Mirrors (config : Config) (flat : Segment) : Prop where
  size : ct2d.deviceMemSize = config.deviceMemSize
  connected : ct2d.connected = config.connected
  enabled : ct2d.coherencyEnabled = true
  coherent : ct2d.Coherent
  memory : ∀ a ∈ ct2d.region, ct2d.deviceMem a = flat a
  keys : ∀ key, ∀ line ∈ ct2d.cacheLines key, addrToCacheline key = key ∧ key < ct2d.deviceMemSize

variable {ct2d} {config : Config} {flat : Segment} {access : Access} {line : CXLCacheLine} {ct2d' : CXLType2State}

theorem mirrors_realize (config : Config) : (realize config).Mirrors config fun _ => 0 where
  size := rfl
  connected := rfl
  enabled := rfl
  coherent := coherent_realize config
  memory := fun _ _ => rfl
  keys := fun _ _ found => (by cases found)

theorem addrToCacheline_idem (addr : UInt64) : addrToCacheline (addrToCacheline addr) = addrToCacheline addr := by
  rw [addrToCacheline_eq_iff, addrToCacheline_toNat]
  omega

theorem addrToCacheline_lt {addr size : UInt64} (below : addr < size) : addrToCacheline addr < size := by
  rw [UInt64.lt_iff_toNat_lt] at below ⊢
  rw [addrToCacheline_toNat]
  omega

theorem keys_setLine {line : Option CXLCacheLine}
    (keys : ∀ key, ∀ line ∈ ct2d.cacheLines key, addrToCacheline key = key ∧ key < ct2d.deviceMemSize)
    (here : line.isSome → addrToCacheline addr < ct2d.deviceMemSize) :
    ∀ key, ∀ line' ∈ (ct2d.setLine addr line).cacheLines key,
      addrToCacheline key = key ∧ key < ct2d.deviceMemSize := by
  intro key line' found
  simp only [setLine, Function.update_apply] at found
  split at found
  · rename_i same
    rw [same]
    exact ⟨addrToCacheline_idem addr, here (Option.isSome_of_mem found)⟩
  · exact keys key line' found

section
variable (mirrors : ct2d.Mirrors config flat)
include mirrors

theorem Mirrors.cacheInvalidate (addr : UInt64) : (ct2d.cacheInvalidate addr).Mirrors config flat where
  size := mirrors.size
  connected := mirrors.connected
  enabled := mirrors.enabled
  coherent := mirrors.coherent.cacheInvalidate addr
  memory := mirrors.memory
  keys := keys_setLine mirrors.keys fun isSome => (by cases isSome)

theorem Mirrors.cacheInsert {state : CXLCoherencyState}
    (valid : state ≠ .invalid) (below : addrToCacheline addr < ct2d.deviceMemSize) :
    (ct2d.cacheInsert addr (ct2d.copyOut (addrToCacheline addr)) state).Mirrors config flat where
  size := mirrors.size
  connected := mirrors.connected
  enabled := mirrors.enabled
  coherent := mirrors.coherent.cacheInsert addr valid
  memory := mirrors.memory
  keys := keys_setLine mirrors.keys fun _ => below

theorem Mirrors.relabel {line' : CXLCacheLine}
    (found : ct2d.cacheLookup addr = some line) (valid : line'.state ≠ .invalid) (data : line'.data = line.data) :
    (ct2d.setLine addr (some line')).Mirrors config flat where
  size := mirrors.size
  connected := mirrors.connected
  enabled := mirrors.enabled
  coherent := mirrors.coherent.relabel found valid data
  memory := mirrors.memory
  keys := keys_setLine mirrors.keys fun _ => (mirrors.keys _ line found).2

theorem Mirrors.track (barCoherency : CXLBARCoherencyState) : { ct2d with barCoherency }.Mirrors config flat :=
  ⟨mirrors.size, mirrors.connected, mirrors.enabled, mirrors.coherent.track barCoherency, mirrors.memory, mirrors.keys⟩

theorem Mirrors.cacheWriteback (addr : UInt64) : (ct2d.cacheWriteback addr).Mirrors config flat := by
  have coherent := mirrors.coherent.cacheWriteback addr
  have memory : ∀ a ∈ (ct2d.cacheWriteback addr).region, (ct2d.cacheWriteback addr).deviceMem a = flat a := by
    intro a inside
    rw [region, size_cacheWriteback] at inside
    rw [deviceMem_cacheWriteback mirrors.coherent addr inside]
    exact mirrors.memory a inside
  rw [CXLType2State.cacheWriteback] at coherent memory ⊢
  cases found : ct2d.cacheLookup addr with
  | none => exact mirrors
  | some line =>
    rw [found] at coherent memory
    dsimp only at coherent memory ⊢
    have below : addrToCacheline addr < ct2d.deviceMemSize := (mirrors.keys _ line found).2
    split
    · rename_i dirty
      rw [if_pos dirty, if_pos below] at coherent memory
      exact ⟨mirrors.size, mirrors.connected, mirrors.enabled, coherent, memory,
        keys_setLine mirrors.keys fun _ => below⟩
    · exact mirrors

theorem Mirrors.snoopRequest (addr : UInt64) (invalidate : Bool) :
    (ct2d.snoopRequest addr invalidate).1.Mirrors config flat := by
  rw [CXLType2State.snoopRequest]
  split
  · exact mirrors
  · rename_i line found
    dsimp only
    have written : (if line.dirty then ct2d.cacheWriteback addr else ct2d).Mirrors config flat := by
      split
      · exact mirrors.cacheWriteback addr
      · exact mirrors
    split
    · exact written
    · rename_i line' found'
      split
      · exact written.cacheInvalidate addr
      · exact written.relabel found' (by decide : CXLCoherencyState.shared ≠ .invalid) rfl

theorem Mirrors.readMiss (access : Access) : (ct2d.readMiss access).1.Mirrors config flat := by
  rw [CXLType2State.readMiss]
  split
  · rename_i below
    exact mirrors.cacheInsert (by decide) (addrToCacheline_lt below)
  · exact mirrors

theorem Mirrors.cacheRead (access : Access) : (ct2d.cacheRead access).1.Mirrors config flat := by
  have tracked : (ct2d.request .rdShared access.addr .cpu).Mirrors config flat := mirrors.track _
  rw [CXLType2State.cacheRead]
  split
  · exact tracked.readMiss access
  · split
    · exact tracked
    · exact tracked.readMiss access

theorem Mirrors.fetchLine (addr : UInt64) : (ct2d.fetchLine addr).Mirrors config flat := by
  rw [CXLType2State.fetchLine]
  split
  · rename_i absent
    exact mirrors.cacheInsert (by decide) absent.2
  · exact mirrors

end

theorem fetchLine_lookup (below : addr < ct2d.deviceMemSize) : ((ct2d.fetchLine addr).cacheLookup addr).isSome := by
  rw [CXLType2State.fetchLine]
  split
  · simp only [cacheLookup, CXLType2State.cacheInsert, setLine, Function.update_self, Option.isSome_some]
  · rename_i kept
    have there : ct2d.hasLine addr = true := by
      by_contra absent
      exact kept ⟨by rw [Bool.eq_false_of_not_eq_true absent]; rfl, addrToCacheline_lt below⟩
    rw [hasLine] at there
    cases found : ct2d.cacheLookup addr with
    | none =>
      rw [found] at there
      cases there
    | some line => rfl

section
variable (mirrors : ct2d.Mirrors config flat)
include mirrors

theorem Mirrors.writeLine
    (found : ct2d.cacheLookup addr = some line) {bytes : List UInt8} (fits : addr.toNat % 64 + bytes.length ≤ 64)
    (below : addr < ct2d.deviceMemSize) :
    (ct2d.writeLine addr line bytes).Mirrors config (poke flat (walk addr) bytes) := by
  have coherent := mirrors.coherent.writeLine found fits
  have written : ct2d.writeLine addr line bytes = _ := if_pos below
  rw [written] at coherent ⊢
  exact ⟨mirrors.size, mirrors.connected, mirrors.enabled, coherent,
    fun a inside => poke_apply_congr _ _ (mirrors.memory a inside),
    keys_setLine mirrors.keys fun _ => addrToCacheline_lt below⟩

theorem Mirrors.cacheWrite (access : Access) (value : UInt64) (below : access.addr < ct2d.deviceMemSize) :
    (ct2d.cacheWrite access value).Mirrors config (Call.writeTo flat (.write access value)) := by
  have tracked : (ct2d.request .wrInv access.addr .cpu).Mirrors config flat := mirrors.track _
  have fetched := tracked.fetchLine access.addr
  have there : (((ct2d.request .wrInv access.addr .cpu).fetchLine access.addr).cacheLookup access.addr).isSome :=
    fetchLine_lookup below
  rw [CXLType2State.cacheWrite]
  split
  · rename_i absent
    rw [absent] at there
    cases there
  · rename_i line found
    refine fetched.writeLine found (by rw [toBytesLE_length]; exact Access.inLine access) ?_
    rw [fetched.size, ← mirrors.size]
    exact below

theorem Mirrors.forLines {start size : UInt64} {body : CXLType2State → UInt64 → CXLType2State}
    (keep : ∀ s a, s.Mirrors config flat → (body s a).Mirrors config flat)
    (returns : ct2d.forLines start size body = some ct2d') : ct2d'.Mirrors config flat :=
  strideLoop_invariant keep mirrors returns

theorem Mirrors.exec {c : Call} (onCache : c.OnCache config.deviceMemSize)
    (returns : ct2d.exec c = some ct2d') : ct2d'.Mirrors config (c.writeTo flat) := by
  cases c with
  | read access =>
    cases returns
    rw [if_neg (UInt64.not_lt.mpr onCache.1)]
    exact mirrors.cacheRead access
  | write access value =>
    cases returns
    rw [if_neg (UInt64.not_lt.mpr onCache.1)]
    exact mirrors.cacheWrite access value (mirrors.size ▸ onCache.2)
  | snoopMessage addr invalidate => exact Option.some.inj returns ▸ mirrors.snoopRequest addr invalidate
  | cacheFlush addr size =>
    rw [CXLType2State.exec, cacheFlushCmd] at returns
    split at returns
    · exact mirrors.forLines (fun _ a before => before.cacheInvalidate a) returns
    · exact Option.some.inj returns ▸ mirrors
  | cacheInvalidate addr size =>
    rw [CXLType2State.exec, cacheInvalidateCmd, if_pos mirrors.enabled] at returns
    exact mirrors.forLines (fun _ a before => before.cacheInvalidate a) returns
  | cacheWriteback addr size =>
    rw [CXLType2State.exec, cacheWritebackCmd, if_pos mirrors.enabled] at returns
    exact mirrors.forLines (fun _ a before => before.cacheWriteback a) returns
  | _ => exact onCache.elim

omit mirrors in
theorem forLines_isSome (start size : UInt64) (body : CXLType2State → UInt64 → CXLType2State) :
    (ct2d.forLines start size body).isSome ↔ RangeEnds start size :=
  strideLoop_isSome_iff (by decide) (by decide) start ct2d

theorem Mirrors.exec_isSome {c : Call}
    (onCache : c.OnCache config.deviceMemSize) : (ct2d.exec c).isSome ↔ c.Ends config.connected := by
  cases c with
  | read | write | snoopMessage => exact iff_of_true rfl trivial
  | cacheFlush addr size =>
    rw [CXLType2State.exec, cacheFlushCmd, mirrors.enabled, mirrors.connected, Call.Ends]
    by_cases connected : config.connected = true
    · rw [if_pos ⟨rfl, connected⟩, forLines_isSome]
      exact ⟨fun ends _ => ends, fun ends => ends connected⟩
    · rw [if_neg fun h => connected h.2]
      exact iff_of_true rfl fun h => absurd h connected
  | cacheInvalidate addr size =>
    rw [CXLType2State.exec, cacheInvalidateCmd, if_pos mirrors.enabled, forLines_isSome, Call.Ends]
  | cacheWriteback addr size =>
    rw [CXLType2State.exec, cacheWritebackCmd, if_pos mirrors.enabled, forLines_isSome, Call.Ends]
  | _ => exact onCache.elim

omit mirrors in
theorem walk_lt {addr size : UInt64} {i : Nat} (lined : size.toNat % 64 = 0) (inside : addr < size)
    (inLine : addr.toNat % 64 + i < 64) : walk addr i < size := by
  have bound := size.toNat_lt
  rw [UInt64.lt_iff_toNat_lt] at inside ⊢
  rw [walk_toNat]
  omega

omit mirrors in
theorem Coherent.line_eq (coherent : ct2d.Coherent) {addr a : UInt64}
    (found : ct2d.cacheLookup addr = some line) (same : addrToCacheline a = addrToCacheline addr)
    (inside : a ∈ ct2d.region) : line.data (a.toNat % 64) = ct2d.deviceMem a := by
  refine coherent.agrees a inside _ ?_
  rw [cached_of_lookup found same, byte_of_valid (coherent.valid addr line found)]
  exact Option.mem_some_self _

variable (lined : config.deviceMemSize.toNat % 64 = 0) (inside : access.addr < config.deviceMemSize)
include lined inside

theorem Mirrors.walk_mem {i : Nat} (hi : i < access.size) : walk access.addr i ∈ ct2d.region := by
  have inLine := Access.inLine access
  rw [region, mirrors.size]
  exact walk_lt lined inside (by omega)

theorem Mirrors.readMiss_value :
    (ct2d.readMiss access).2 = UInt64.ofNat (loadLE flat (walk access.addr) access.size) := by
  rw [CXLType2State.readMiss, if_pos (mirrors.size ▸ inside)]
  exact congrArg UInt64.ofNat (loadLE_congr fun i hi => mirrors.memory _ (mirrors.walk_mem lined inside hi))

theorem Mirrors.cacheRead_value :
    (ct2d.cacheRead access).2 = UInt64.ofNat (loadLE flat (walk access.addr) access.size) := by
  have tracked : (ct2d.request .rdShared access.addr .cpu).Mirrors config flat := mirrors.track _
  have inLine := Access.inLine access
  rw [CXLType2State.cacheRead]
  split
  · exact tracked.readMiss_value lined inside
  · rename_i line found
    split
    · have whole : min access.size (64 - access.addr.toNat % 64) = access.size := Nat.min_eq_left (by omega)
      simp only [whole]
      refine congrArg _ (loadLE_congr fun i hi => ?_)
      have region := tracked.walk_mem lined inside hi
      have place : (walk access.addr i).toNat % 64 = access.addr.toNat % 64 + i := by
        rw [walk_toNat]
        omega
      rw [← tracked.memory _ region, ← tracked.coherent.line_eq found (walk_sameLine (by omega)) region, place]
    · exact tracked.readMiss_value lined inside

end

def LinesMatch (ct2d : CXLType2State) : Prop :=
  ∀ key, ∀ line ∈ ct2d.cacheLines key, addrToCacheline key = key ∧ key < ct2d.deviceMemSize ∧
    ∀ i, i < 64 → line.data i = ct2d.deviceMem (walk key i)

theorem Mirrors.linesMatch (mirrors : ct2d.Mirrors config flat) (lined : config.deviceMemSize.toNat % 64 = 0) :
    ct2d.LinesMatch := by
  intro key line found
  obtain ⟨aligned, below⟩ := mirrors.keys key line found
  refine ⟨aligned, below, fun i hi => ?_⟩
  have start : key.toNat % 64 = 0 := by
    have := addrToCacheline_toNat key
    rw [aligned] at this
    omega
  have place : (walk key i).toNat % 64 = i := by
    rw [walk_toNat]
    omega
  have inside : walk key i ∈ ct2d.region := walk_lt (mirrors.size ▸ lined) below (by omega)
  have lookup : ct2d.cacheLookup key = some line := by
    rw [cacheLookup, aligned]
    exact found
  rw [← mirrors.coherent.line_eq lookup (walk_sameLine (by omega)) inside, place]

end CXLType2State

theorem foldl_step_none (calls : List Call) : calls.foldl step none = none :=
  invariant (I := (· = none)) (fun s _ gone => by rw [gone]; rfl) rfl calls

/-- A run returns just if each of its commands ends, and then still stands for the flat memory. -/
theorem mirrors_foldl {config : Config} (calls : List Call) {ct2d : CXLType2State} {flat : Segment}
    (mirrors : ct2d.Mirrors config flat) (served : ∀ c ∈ calls, c.OnCache config.deviceMemSize) :
    ((calls.foldl step (some ct2d)).isSome ↔ ∀ c ∈ calls, c.Ends config.connected) ∧
      ∀ after ∈ calls.foldl step (some ct2d), after.Mirrors config (calls.foldl Call.writeTo flat) := by
  induction calls generalizing ct2d flat with
  | nil => exact ⟨iff_of_true rfl fun _ none => (List.not_mem_nil none).elim,
      fun after same => Option.some.inj same ▸ mirrors⟩
  | cons c calls ih =>
    have onCache := served c List.mem_cons_self
    have ends := mirrors.exec_isSome onCache
    rw [List.foldl_cons, List.foldl_cons, step, Option.bind_some, List.forall_mem_cons, ← ends]
    cases returns : ct2d.exec c with
    | none =>
      rw [foldl_step_none]
      exact ⟨iff_of_false Bool.false_ne_true fun all => Bool.false_ne_true all.1, fun _ none => by cases none⟩
    | some ct2d' =>
      have rest := ih (mirrors.exec onCache returns) fun d member => served d (List.mem_cons_of_mem c member)
      exact ⟨rest.1.trans ⟨fun all => ⟨rfl, all⟩, And.right⟩, rest.2⟩

/-- Where a run of CPU accesses, snoop requests and cache commands returns (the loop of a command may go on, and a first
access takes the mutex twice, which is left aside here), a read has the bytes last written, and the cache holds lines
of device memory. -/
theorem cache_transparent (config : Config) (lined : config.deviceMemSize.toNat % 64 = 0) (calls : List Call)
    (served : ∀ c ∈ calls, c.OnCache config.deviceMemSize) :
    ((run config calls).isSome ↔ ∀ c ∈ calls, c.Ends config.connected) ∧
      ∀ ct2d ∈ run config calls, ct2d.LinesMatch ∧
        ∀ access : Access, gpuCmdRegSize ≤ access.addr → access.addr < config.deviceMemSize →
          (ct2d.cacheRead access).2 = UInt64.ofNat (loadLE (lastWritten calls) (walk access.addr) access.size) := by
  obtain ⟨ends, after⟩ := mirrors_foldl calls (CXLType2State.mirrors_realize config) served
  refine ⟨ends, fun ct2d returns => ?_⟩
  have mirrors := after ct2d returns
  exact ⟨mirrors.linesMatch lined, fun access _ inside => mirrors.cacheRead_value lined inside⟩

def alignedWord : Access := ⟨0x110040, 8, by decide, by decide⟩

def overwrittenWord : List Call :=
  [.write alignedWord 0x1122334455667788, .snoopMessage 0x110040 true,
    .write ⟨0x110042, 2, by decide, by decide⟩ 0xaabb, .cacheWriteback 0x110000 0x100, .cacheFlush 0 0x200000]

theorem cache_transparent_overwrittenWord :
    ∃ ct2d ∈ run ⟨0x200000, 0x10000, true, false, 0, false⟩ overwrittenWord,
      (ct2d.cacheRead ⟨0x110040, 8, by decide, by decide⟩).2 = 0x11223344aabb7788 := by
  obtain ⟨ends, reads⟩ := cache_transparent ⟨0x200000, 0x10000, true, false, 0, false⟩ (by decide) overwrittenWord
    (by simp [overwrittenWord, Call.OnCache, alignedWord]; decide)
  obtain ⟨ct2d, returns⟩ := Option.isSome_iff_exists.mp
    (ends.mpr (by simp [overwrittenWord, Call.Ends, RangeEnds]))
  refine ⟨ct2d, returns, ?_⟩
  rw [(reads ct2d returns).2 _ (by decide) (by decide)]
  decide +kernel

end CxlMemSim.Type2
