import CxlMemSim.Lib.CachedMemory
import CxlMemSim.Lib.Run
import CxlMemSim.Type2.Device

/-! What the accesses of the CPU, the writebacks and the invalidations do to the agreement of `coherency.cache_lines`
with device memory. -/
namespace CxlMemSim.Type2
open ByteMemory CachedMemory Run StrideLoop

def CXLCacheLine.byte (line : CXLCacheLine) (a : UInt64) : Option UInt8 :=
  if line.state ≠ .invalid then some (line.data (a.toNat % 64)) else none

def Access.byte (a : UInt64) : Access := ⟨a, 1, .inl rfl, Nat.mod_one _⟩

variable {line : CXLCacheLine} {addr : UInt64}

namespace CXLType2State
variable (ct2d : CXLType2State)

def cached (a : UInt64) : Option UInt8 := (ct2d.cacheLookup a).bind (·.byte a)

def region : Set UInt64 := {a | a < ct2d.deviceMemSize}

structure Coherent : Prop where
  valid : ∀ addr, ∀ line ∈ ct2d.cacheLookup addr, line.state ≠ .invalid
  agrees : Agrees ct2d.region ct2d.deviceMem ct2d.cached

theorem coherent_realize (config : Config) : (realize config).Coherent where
  valid := by
    intro addr line found
    cases found
  agrees := agrees_empty _ _

variable {ct2d}

theorem walk_inLine {a addr : UInt64} (same : addrToCacheline a = addrToCacheline addr) :
    walk (addrToCacheline addr) (a.toNat % 64) = a := by
  rw [← same]
  simpa using walk_line a 0

theorem cached_setLine (addr a : UInt64) (line : Option CXLCacheLine) :
    (ct2d.setLine addr line).cached a =
      if addrToCacheline a = addrToCacheline addr then line.bind (·.byte a) else ct2d.cached a := by
  simp only [cached, cacheLookup, setLine, Function.update_apply]
  split <;> rfl

theorem cached_cacheInvalidate (addr a : UInt64) :
    (ct2d.cacheInvalidate addr).cached a = if addrToCacheline a = addrToCacheline addr then none else ct2d.cached a :=
  cached_setLine addr a none

theorem cached_of_lookup {addr a : UInt64} (found : ct2d.cacheLookup addr = some line)
    (same : addrToCacheline a = addrToCacheline addr) : ct2d.cached a = line.byte a := by
  rw [cacheLookup] at found
  rw [cached, cacheLookup, same, found, Option.bind_some]

theorem byte_of_valid (valid : line.state ≠ .invalid) (a : UInt64) :
    line.byte a = some (line.data (a.toNat % 64)) := if_pos valid

theorem valid_setLine {line : Option CXLCacheLine}
    (valid : ∀ addr, ∀ line ∈ ct2d.cacheLookup addr, line.state ≠ .invalid)
    (here : ∀ x ∈ line, x.state ≠ .invalid) :
    ∀ a, ∀ x ∈ (ct2d.setLine addr line).cacheLookup a, x.state ≠ .invalid := by
  intro a x found
  simp only [cacheLookup, setLine, Function.update_apply] at found
  split at found
  · exact here x found
  · exact valid a x found

theorem Coherent.cacheInvalidate (coherent : ct2d.Coherent) (addr : UInt64) : (ct2d.cacheInvalidate addr).Coherent := by
  refine ⟨valid_setLine coherent.valid fun x none => (by cases none), ?_⟩
  refine coherent.agrees.forget fun a value held => ?_
  rw [cached_cacheInvalidate] at held
  split at held
  · cases held
  · exact held

theorem Coherent.cacheInsert (coherent : ct2d.Coherent) (addr : UInt64) {state : CXLCoherencyState}
    (valid : state ≠ .invalid) : (ct2d.cacheInsert addr (ct2d.copyOut (addrToCacheline addr)) state).Coherent := by
  refine ⟨valid_setLine coherent.valid fun x found => Option.some.inj found ▸ valid, ?_⟩
  refine coherent.agrees.step fun a _ value held => ?_
  rw [CXLType2State.cacheInsert, cached_setLine] at held
  split at held
  · rename_i same
    rw [Option.bind_some, byte_of_valid valid] at held
    left
    rw [← Option.some.inj held]
    exact congrArg ct2d.deviceMem (walk_inLine same)
  · exact .inr ⟨held, rfl⟩

theorem Coherent.relabel (coherent : ct2d.Coherent) {line line' : CXLCacheLine}
    (found : ct2d.cacheLookup addr = some line) (valid : line'.state ≠ .invalid) (data : line'.data = line.data) :
    (ct2d.setLine addr (some line')).Coherent := by
  refine ⟨valid_setLine coherent.valid fun x found => Option.some.inj found ▸ valid, ?_⟩
  refine coherent.agrees.forget fun a value held => ?_
  rw [cached_setLine] at held
  split at held
  · rename_i same
    rw [Option.bind_some, byte_of_valid valid, data] at held
    rw [cached_of_lookup found same, byte_of_valid (coherent.valid addr line found)]
    exact held
  · exact held

theorem size_cacheWriteback (addr : UInt64) : (ct2d.cacheWriteback addr).deviceMemSize = ct2d.deviceMemSize := by
  rw [cacheWriteback]
  split
  · rfl
  · split
    · split <;> rfl
    · rfl

theorem bar_cacheWriteback (addr : UInt64) : (ct2d.cacheWriteback addr).barCoherency = ct2d.barCoherency := by
  rw [cacheWriteback]
  split
  · rfl
  · split
    · simp only [setLine]
      split <;> rfl
    · rfl

theorem cached_cacheWriteback (addr : UInt64) : (ct2d.cacheWriteback addr).cached = ct2d.cached := by
  funext a
  rw [cacheWriteback]
  cases found : ct2d.cacheLookup addr with
  | none => rfl
  | some line =>
    dsimp only
    split
    · rw [cached_setLine]
      split
      · rename_i same
        exact (cached_of_lookup found same).symm
      · split <;> rfl
    · rfl

section
variable (coherent : ct2d.Coherent) {bytes : List UInt8}
include coherent

theorem deviceMem_cacheWriteback (addr : UInt64) {a : UInt64} (inside : a ∈ ct2d.region) :
    (ct2d.cacheWriteback addr).deviceMem a = ct2d.deviceMem a := by
  rw [cacheWriteback]
  cases found : ct2d.cacheLookup addr with
  | none => rfl
  | some line =>
    dsimp only
    split
    · split
      · have bytes : (peek line.data id (64 : UInt64).toNat).length = 64 := peek_length _ _ _
        rcases poke_cases ct2d.deviceMem (walk (addrToCacheline addr)) (peek line.data id (64 : UInt64).toNat)
            (walk_distinct _ (by rw [bytes]; decide)) a with ⟨i, hi, here, after⟩ | ⟨-, after⟩
        · refine after.trans ?_
          rw [bytes] at hi
          have start := addrToCacheline_toNat addr
          have same : addrToCacheline a = addrToCacheline addr := by
            rw [← here, walk_sameLine (by omega), addrToCacheline_eq_iff]
            omega
          have place : a.toNat % 64 = i := by
            have fits := addr.toNat_lt
            rw [← here, walk_toNat]
            omega
          have held : line.data i ∈ ct2d.cached a := by
            rw [cached_of_lookup found same, byte_of_valid (coherent.valid addr line found), place]
            rfl
          rw [peek_getElem]
          exact coherent.agrees a inside _ held
        · exact after
      · rfl
    · rfl

theorem Coherent.cacheWriteback (addr : UInt64) : (ct2d.cacheWriteback addr).Coherent := by
  constructor
  · rw [CXLType2State.cacheWriteback]
    cases found : ct2d.cacheLookup addr with
    | none => exact coherent.valid
    | some line =>
      dsimp only
      split
      · refine valid_setLine ?_ fun x set => Option.some.inj set ▸ coherent.valid addr line found
        split <;> exact coherent.valid
      · exact coherent.valid
  · rw [region, size_cacheWriteback, cached_cacheWriteback]
    refine coherent.agrees.step fun a inside value held => .inr ⟨held, ?_⟩
    exact deviceMem_cacheWriteback coherent addr inside

theorem Coherent.track (barCoherency : CXLBARCoherencyState) :
    { ct2d with barCoherency }.Coherent := ⟨coherent.valid, coherent.agrees⟩

theorem Coherent.snoopRequest (addr : UInt64) (invalidate : Bool) : (ct2d.snoopRequest addr invalidate).1.Coherent := by
  rw [CXLType2State.snoopRequest]
  split
  · exact coherent
  · rename_i line found
    dsimp only
    have written : (if line.dirty then ct2d.cacheWriteback addr else ct2d).Coherent := by
      split
      · exact coherent.cacheWriteback addr
      · exact coherent
    split
    · exact written
    · rename_i line' found'
      split
      · exact written.cacheInvalidate addr
      · exact written.relabel found' (by decide : CXLCoherencyState.shared ≠ .invalid) rfl

theorem Coherent.readMiss (access : Access) : (ct2d.readMiss access).1.Coherent := by
  rw [CXLType2State.readMiss]
  split
  · exact coherent.cacheInsert _ (by decide)
  · exact coherent

theorem Coherent.cacheRead (access : Access) : (ct2d.cacheRead access).1.Coherent := by
  have tracked : (ct2d.request .rdShared access.addr .cpu).Coherent := coherent.track _
  rw [CXLType2State.cacheRead]
  split
  · exact tracked.readMiss access
  · split
    · exact tracked
    · exact tracked.readMiss access

theorem Coherent.fetchLine (addr : UInt64) : (ct2d.fetchLine addr).Coherent := by
  rw [CXLType2State.fetchLine]
  split
  · exact coherent.cacheInsert addr (by decide)
  · exact coherent

theorem agrees_writeLine (found : ct2d.cacheLookup addr = some line) (fits : addr.toNat % 64 + bytes.length ≤ 64)
    {memory : Segment} (below : addr < ct2d.deviceMemSize → memory = poke ct2d.deviceMem (walk addr) bytes)
    (above : ¬ addr < ct2d.deviceMemSize → memory = ct2d.deviceMem) {line' : CXLCacheLine}
    (valid : line'.state ≠ .invalid) (data : line'.data = poke line.data (addr.toNat % 64 + ·) bytes) :
    Agrees ct2d.region memory (ct2d.setLine addr (some line')).cached := by
  have bound := addr.toNat_lt
  refine coherent.agrees.step fun a inside value held => ?_
  rw [cached_setLine] at held
  rcases poke_cases ct2d.deviceMem (walk addr) bytes (walk_distinct addr (by omega)) a with
    ⟨i, hi, here, after⟩ | ⟨off, after⟩
  · have same : addrToCacheline a = addrToCacheline addr := by rw [← here, walk_sameLine (by omega)]
    have place : a.toNat % 64 = addr.toNat % 64 + i := by
      rw [← here, walk_toNat]
      omega
    rw [if_pos same, Option.bind_some, byte_of_valid valid, data, place,
      poke_at line.data (addr.toNat % 64 + ·) bytes (fun _ _ _ _ => Nat.add_left_cancel) hi] at held
    left
    rw [← Option.some.inj held]
    by_cases within : addr < ct2d.deviceMemSize
    · rw [below within, after]
    · -- the bytes beyond device memory are in no region
      have outside : a.toNat = addr.toNat + i := by
        rw [← here, walk_toNat]
        omega
      have inside' : a.toNat < ct2d.deviceMemSize.toNat := UInt64.lt_iff_toNat_lt.mp inside
      exact absurd (UInt64.lt_iff_toNat_lt.mpr (by omega)) within
  · have stays : memory a = ct2d.deviceMem a := by
      by_cases within : addr < ct2d.deviceMemSize
      · rw [below within, after]
      · rw [above within]
    refine .inr ⟨?_, stays⟩
    split at held
    · rename_i same
      have untouched : ∀ i, i < bytes.length → addr.toNat % 64 + i ≠ a.toNat % 64 := by
        intro i hi place
        refine off i hi ?_
        rw [← walk_inLine same, ← place, walk_line]
      rw [Option.bind_some, byte_of_valid valid, data, poke_other _ _ _ untouched] at held
      rw [cached_of_lookup found same, byte_of_valid (coherent.valid addr line found)]
      exact held
    · exact held

theorem Coherent.writeLine (found : ct2d.cacheLookup addr = some line) (fits : addr.toNat % 64 + bytes.length ≤ 64) :
    (ct2d.writeLine addr line bytes).Coherent := by
  have whole : bytes.take (64 - addr.toNat % 64) = bytes := List.take_of_length_le (by omega)
  have modified : CXLCoherencyState.modified ≠ .invalid := by decide
  rw [CXLType2State.writeLine, whole]
  split
  · rename_i below
    exact ⟨valid_setLine coherent.valid fun x set => Option.some.inj set ▸ modified,
      agrees_writeLine coherent found fits (fun _ => rfl) (absurd below) modified rfl⟩
  · rename_i above
    exact ⟨valid_setLine coherent.valid fun x set => Option.some.inj set ▸ modified,
      agrees_writeLine coherent found fits (fun below => absurd below above) (fun _ => rfl) modified rfl⟩

end

theorem Access.inLine (access : Access) : access.addr.toNat % 64 + access.size ≤ 64 := by
  have aligned := access.aligned
  rcases access.width with width | width | width | width <;> rw [width] at aligned ⊢ <;> omega

variable (coherent : ct2d.Coherent)
include coherent

theorem Coherent.cacheWrite (access : Access) (value : UInt64) : (ct2d.cacheWrite access value).Coherent := by
  have tracked : (ct2d.request .wrInv access.addr .cpu).Coherent := coherent.track _
  have fetched := tracked.fetchLine access.addr
  rw [CXLType2State.cacheWrite]
  split
  · exact fetched
  · rename_i line found
    exact fetched.writeLine found (by rw [toBytesLE_length]; exact Access.inLine access)

theorem Coherent.ensureCoherency (peer : CXLP2PPeer) (addr : UInt64) (isWrite : Bool) :
    (ct2d.ensureCoherency peer addr isWrite).Coherent := by
  rw [CXLType2State.ensureCoherency]
  split
  · split
    · exact Coherent.cacheInvalidate (coherent.track _) addr
    · exact Coherent.cacheWriteback (coherent.track _) addr
  · exact coherent

theorem Coherent.processBackInvalidation (entry : CXLBackInvalidateEntry) :
    (ct2d.processBackInvalidation entry).Coherent := by
  rw [CXLType2State.processBackInvalidation]
  split
  · exact coherent.cacheInvalidate entry.addr
  · split
    · exact coherent.track _
    · exact coherent

theorem Coherent.coherentFence : ct2d.coherentFence.Coherent :=
  Run.invariant (fun _ entry before => before.processBackInvalidation entry) (coherent.track _) _

end CXLType2State
end CxlMemSim.Type2
