import CxlMemSim.Shm.Access

/-! Where the header gives lines a place in the data area, `read_cacheline` and `write_cacheline` are a store of single
bytes. -/
namespace CxlMemSim
open ByteMemory

/-- The two fields of a header that decide about addresses, for a mapping that has them. -/
structure Layout where
  base : UInt64
  lines : UInt64
  pos : 0 < lines.toNat
  room : lines.toNat * 64 + 56 ≤ 2 ^ 64

namespace Layout
variable (l : Layout)

def size : Nat := l.lines.toNat * 64

def offset (addr : UInt64) : Nat :=
  if l.base = 0 then addr.toNat / 64 % l.lines.toNat * 64 + addr.toNat % 64 else addr.toNat - l.base.toNat

/-- Any address counts, or the range starts with a line and ends with the address space or before. -/
def Regular : Prop := l.base = 0 ∨ 64 ∣ l.base.toNat ∧ l.base.toNat + l.size ≤ 2 ^ 64

structure Heads (mem : Segment) : Prop where
  base : baseAddr mem = l.base
  lines : numCachelines mem = l.lines

end Layout

def dataArea (mem : Segment) (o : Nat) : UInt8 := mem (UInt64.ofNat o)

inductive LineAccess where
  | read (addr : UInt64) (size : Nat)
  | write (addr : UInt64) (data : List UInt8)

def LineAccess.apply (mem : Segment) : LineAccess → Segment
  | .read _ _ => mem
  | .write addr data => (writeCacheline mem addr data true).1

def succeeded (mem : Segment) : List LineAccess → List (UInt64 × List UInt8)
  | [] => []
  | .read _ _ :: rest => succeeded mem rest
  | .write addr data :: rest =>
    let (after, done) := writeCacheline mem addr data true
    if done then (addr, data) :: succeeded after rest else succeeded after rest

def lastStored (l : Layout) (initial : Nat → UInt8) (writes : List (UInt64 × List UInt8)) : Nat → UInt8 :=
  writes.foldl (fun bytes w => poke bytes (fun i => l.offset (walk w.1 i)) w.2) initial

namespace Layout
variable {l : Layout} {mem : Segment} {addr : UInt64} {n i : Nat}

variable (heads : l.Heads mem)
include heads

theorem Heads.moduloMode (base : baseAddr mem = 0) : ModuloMode mem :=
  ⟨base, heads.lines ▸ l.pos, heads.lines ▸ l.room⟩

theorem Heads.index_lt (base : baseAddr mem ≠ 0) (accepted : Accessible mem addr n) :
    l.base ≤ addrToCacheline addr ∧
      (cachelineToIndex mem (addrToCacheline addr)).toNat = (addr.toNat / 64 * 64 - l.base.toNat) / 64 ∧
      (cachelineToIndex mem (addrToCacheline addr)).toNat < l.lines.toNat := by
  obtain ⟨found, -⟩ := accepted.2.2.resolve_left base
  obtain ⟨above, below⟩ := (isSome_getCachelineData_iff base _).mp found
  rw [heads.base] at above below
  rw [heads.lines] at below
  have index : cachelineToIndex mem (addrToCacheline addr) = (addrToCacheline addr - l.base) / 64 := by
    rw [cachelineToIndex, if_neg base, heads.base]
  refine ⟨above, ?_, ?_⟩
  · rw [index, UInt64.toNat_div, UInt64.toNat_sub_of_le _ _ above, addrToCacheline_toNat]
    rfl
  · rw [index]
    exact UInt64.lt_iff_toNat_lt.mp below

omit heads in
theorem walk_sameLine_of_accessible (base : baseAddr mem ≠ 0) (accepted : Accessible mem addr n) (hi : i < n) :
    addrToCacheline (walk addr i) = addrToCacheline addr := by
  have := (accepted.2.2.resolve_left base).2
  exact walk_sameLine (by omega)

theorem Heads.backing_lt (accepted : Accessible mem addr n) (hi : i < n) :
    (backing mem (walk addr i)).toNat < l.size := by
  by_cases base : baseAddr mem = 0
  · have below := (heads.moduloMode base).backing_lt (walk addr i)
    rwa [heads.lines] at below
  · obtain ⟨-, -, below⟩ := heads.index_lt base accepted
    have room := l.room
    rw [backing_toNat, walk_sameLine_of_accessible base accepted hi, size]
    omega

theorem Heads.backing_eq (regular : l.Regular) (accepted : Accessible mem addr n) (hi : i < n) :
    (backing mem (walk addr i)).toNat = l.offset (walk addr i) := by
  by_cases base : baseAddr mem = 0
  · have index := (heads.moduloMode base).index_toNat (addrToCacheline (walk addr i))
    have below := Nat.mod_lt ((walk addr i).toNat / 64) l.pos
    have room := l.room
    rw [addrToCacheline_toNat, Nat.mul_div_cancel _ (by decide), heads.lines] at index
    rw [backing_toNat, index, offset, if_pos (heads.base ▸ base), Nat.mod_eq_of_lt (by omega)]
  · have other : l.base ≠ 0 := fun zero => base (heads.base.trans zero)
    obtain ⟨aligned, fits⟩ := regular.resolve_left other
    obtain ⟨above, index, below⟩ := heads.index_lt base accepted
    rw [UInt64.le_iff_toNat_le, addrToCacheline_toNat] at above
    have sameLine := walk_sameLine_of_accessible base accepted hi
    have quotient := addrToCacheline_eq_iff.mp sameLine
    have room := l.room
    rw [backing_toNat, sameLine, index, offset, if_neg other]
    omega

theorem Heads.write (addr : UInt64) (data : List UInt8) (msyncOk : Bool) :
    l.Heads (writeCacheline mem addr data msyncOk).1 := by
  rw [writeCacheline_eq heads.moduloMode]
  split
  · rename_i accepted
    have untouched : ∀ p, InHeader p → poke mem (fun i => backing mem (walk addr i)) data p = mem p := by
      intro p header
      apply poke_other
      rintro i hi rfl
      have below := heads.backing_lt accepted hi
      have room := l.room
      simp only [InHeader, size] at header below
      omega
    exact ⟨(baseAddr_congr untouched).trans heads.base, (numCachelines_congr untouched).trans heads.lines⟩
  · exact heads

end Layout

section
variable {l : Layout} {mem : Segment} {addr : UInt64}

theorem mem_backing (heads : l.Heads mem) (regular : l.Regular) {n i : Nat} (accepted : Accessible mem addr n)
    (hi : i < n) (bytes : Segment) : bytes (backing mem (walk addr i)) = dataArea bytes (l.offset (walk addr i)) := by
  rw [dataArea, ← heads.backing_eq regular accepted hi, UInt64.ofNat_toNat]

theorem readCacheline_cases (heads : l.Heads mem) (regular : l.Regular) (addr : UInt64) (size : Nat) :
    readCacheline mem addr size = none ∨
      (∀ i < size, l.offset (walk addr i) < l.size) ∧
        readCacheline mem addr size = some (peek (dataArea mem) (fun i => l.offset (walk addr i)) size) := by
  rw [readCacheline_eq]
  by_cases accepted : Accessible mem addr size
  · rw [if_pos accepted]
    refine Or.inr ⟨fun i hi => ?_, congrArg some (peek_congr fun i hi => mem_backing heads regular accepted hi mem)⟩
    rw [← heads.backing_eq regular accepted hi]
    exact heads.backing_lt accepted hi
  · exact Or.inl (if_neg accepted)

structure Written (l : Layout) (addr : UInt64) (data : List UInt8) (before after : Segment) : Prop where
  inside : ∀ i < data.length, l.offset (walk addr i) < l.size
  distinct : Distinct (fun i => l.offset (walk addr i)) data.length
  bytes : ∀ i (hi : i < data.length), dataArea after (l.offset (walk addr i)) = data[i]
  others : ∀ p : UInt64, (∀ i < data.length, l.offset (walk addr i) ≠ p.toNat) → after p = before p

variable {o : Nat}

theorem offset_toNat (below : o < l.size) : (UInt64.ofNat o).toNat = o := by
  have room := l.room
  rw [Layout.size] at below
  exact UInt64.toNat_ofNat_of_lt (show o < 2 ^ 64 by omega)

theorem writeCacheline_cases (heads : l.Heads mem) (regular : l.Regular) (addr : UInt64) (data : List UInt8) :
    writeCacheline mem addr data true = (mem, false) ∨
      (writeCacheline mem addr data true).2 = true ∧
        Written l addr data mem (writeCacheline mem addr data true).1 := by
  rw [writeCacheline_eq heads.moduloMode]
  by_cases accepted : Accessible mem addr data.length
  · rw [if_pos accepted]
    refine Or.inr ⟨rfl, fun i hi => ?_, fun i j hi hj same => ?_, fun i hi => ?_, fun p other => ?_⟩
    · rw [← heads.backing_eq regular accepted hi]
      exact heads.backing_lt accepted hi
    · refine backing_distinct mem addr accepted.2.1 i j hi hj (UInt64.toNat_inj.mp ?_)
      rw [heads.backing_eq regular accepted hi, heads.backing_eq regular accepted hj]
      exact same
    · rw [← mem_backing heads regular accepted hi]
      exact poke_at mem (fun i => backing mem (walk addr i)) data (backing_distinct mem addr accepted.2.1) hi
    · refine poke_other _ _ _ fun i hi same => other i hi ?_
      rw [← heads.backing_eq regular accepted hi, same]
  · exact Or.inl (if_neg accepted)

theorem Written.eq_poke {data : List UInt8} {before after : Segment} (written : Written l addr data before after)
    (below : o < l.size) :
    dataArea after o = poke (dataArea before) (fun i => l.offset (walk addr i)) data o := by
  rcases poke_cases (dataArea before) (fun i => l.offset (walk addr i)) data written.distinct o with
    ⟨i, hi, rfl, stored⟩ | ⟨other, kept⟩
  · rw [stored, written.bytes i hi]
  · rw [kept]
    exact written.others _ ((offset_toNat below).symm ▸ other)

end

theorem lastStored_congr (l : Layout) {initial initial' : Nat → UInt8} (same : initial o = initial' o)
    (writes : List (UInt64 × List UInt8)) : lastStored l initial writes o = lastStored l initial' writes o := by
  induction writes generalizing initial initial' with
  | nil => exact same
  | cons w writes ih => exact ih (poke_apply_congr _ w.2 same)

theorem Layout.Heads.run {l : Layout} {mem : Segment} (heads : l.Heads mem) (calls : List LineAccess) :
    l.Heads (calls.foldl LineAccess.apply mem) := by
  induction calls generalizing mem with
  | nil => exact heads
  | cons c calls ih =>
    cases c with
    | read addr size => exact ih heads
    | write addr data => exact ih (heads.write addr data true)

theorem dataArea_run {l : Layout} (regular : l.Regular) {mem : Segment} (heads : l.Heads mem) (calls : List LineAccess)
    (below : o < l.size) :
    dataArea (calls.foldl LineAccess.apply mem) o = lastStored l (dataArea mem) (succeeded mem calls) o := by
  induction calls generalizing mem with
  | nil => rfl
  | cons c calls ih =>
    cases c with
    | read addr size => exact ih heads
    | write addr data =>
      rw [List.foldl_cons, LineAccess.apply, ih (heads.write addr data true), succeeded]
      rcases writeCacheline_cases heads regular addr data with refused | ⟨done, written⟩
      · simp only [refused]
        rfl
      · simp only [if_pos done]
        exact lastStored_congr l (written.eq_poke below) _

def Layout.ofSize (shmSize base : UInt64) (capacity : 2 ^ 20 ≤ shmSize.toNat) : Layout where
  base := base
  lines := (shmSize - headerSize) / 64
  pos := by
    rw [lines_toNat (Nat.le_trans (by decide) capacity)]
    omega
  room := by
    have := shmSize.toNat_lt
    rw [lines_toNat (Nat.le_trans (by decide) capacity)]
    omega

/-- Every call after any sequence of calls fails and changes nothing, or moves its bytes from or to their offsets,
which hold what was last written there. -/
theorem byte_store (shmSize base : UInt64) (capacity : 2 ^ 20 ≤ shmSize.toNat)
    (regular : (Layout.ofSize shmSize base capacity).Regular) (mem : Segment)
    (heads : (Layout.ofSize shmSize base capacity).Heads mem) (calls : List LineAccess) :
    let l := Layout.ofSize shmSize base capacity
    let now := calls.foldl LineAccess.apply mem
    let bytes := lastStored l (dataArea mem) (succeeded mem calls)
    (∀ addr size, readCacheline now addr size = none ∨ (∀ i < size, l.offset (walk addr i) < l.size) ∧
        readCacheline now addr size = some (peek bytes (fun i => l.offset (walk addr i)) size)) ∧
    ∀ addr data, writeCacheline now addr data true = (now, false) ∨
      (writeCacheline now addr data true).2 = true ∧
        Written l addr data now (writeCacheline now addr data true).1 := by
  intro l now bytes
  have headsNow : l.Heads now := heads.run calls
  refine ⟨fun addr size => ?_, fun addr data => writeCacheline_cases headsNow regular addr data⟩
  rcases readCacheline_cases headsNow regular addr size with refused | ⟨inside, read⟩
  · exact Or.inl refused
  · refine Or.inr ⟨inside, read.trans (congrArg some (peek_congr fun i hi => ?_))⟩
    exact dataArea_run regular heads calls (inside i hi)

def overlapping : List LineAccess :=
  [.write 0x1004 [1, 2, 3, 4], .write 0x1006 [5, 6], .write 0x103E [7, 8, 9], .read 0x1000 8]

theorem byte_store_overlapping :
    let mem := freshMapping 0x100000 0x1000
    readCacheline (overlapping.foldl LineAccess.apply mem) 0x1004 4 = some [1, 2, 5, 6] := by
  intro mem
  have heads : (Layout.ofSize 0x100000 0x1000 (by decide)).Heads mem :=
    ⟨baseAddr_initializeHeader zero_unformatted, numCachelines_initializeHeader zero_unformatted⟩
  have accepted : readCacheline (overlapping.foldl LineAccess.apply mem) 0x1004 4 ≠ none := by decide +kernel
  have read := (byte_store 0x100000 0x1000 (by decide) (Or.inr ⟨by decide, by decide⟩) mem heads overlapping).1 0x1004 4
  refine (read.resolve_left accepted).2.trans (congrArg some ?_)
  decide +kernel

end CxlMemSim
