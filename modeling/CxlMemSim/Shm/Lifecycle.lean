import CxlMemSim.Shm.Access

/-! `SharedMemoryManager::initialize` on an object or a file that may be left over from an earlier use, and the range
that `get_shm_info` then advertises. -/
namespace CxlMemSim
open ByteMemory

/-- What persists between uses.  Bytes have the addresses they get in a mapping. -/
structure Backing where
  size : UInt64
  mem : Segment

def fileOffset (p : UInt64) : Nat := (p + headerSize).toNat

def Backing.zeroed (size : UInt64) : Backing := ⟨size, fun _ => 0⟩

def Backing.ftruncate (b : Backing) (size : UInt64) : Backing :=
  ⟨size, fun p => if fileOffset p < b.size.toNat ∧ fileOffset p < size.toNat then b.mem p else 0⟩

/-- How the manager is constructed, and `CXL_BASE_ADDR` as `strtoull` reads it. -/
structure ManagerConfig where
  useFileBacking : Bool
  capacityMb : UInt64
  baseAddrEnv : Option UInt64 := none

namespace ManagerConfig

def shmSize (cfg : ManagerConfig) : UInt64 := cfg.capacityMb * 1024 * 1024

def baseAddr (cfg : ManagerConfig) : UInt64 := cfg.baseAddrEnv.getD 0

end ManagerConfig

structure SystemCalls where
  opened : Bool := true
  statted : Bool := true
  created : Bool := true
  truncated : Bool := true
  mapped : Bool := true

/-- An object of another size is unlinked and made anew. -/
def createSharedMemory (os : SystemCalls) (shmSize : UInt64) (old : Option Backing) : Option Backing :=
  let recreated := if os.created ∧ os.truncated then some (Backing.zeroed shmSize) else none
  if os.opened then
    match old with
    | some b => if os.statted ∧ b.size = shmSize then some b else recreated
    | none => recreated
  else recreated

/-- A file is cut or extended, whatever it holds. -/
def createFileBacking (os : SystemCalls) (shmSize : UInt64) (old : Option Backing) : Option Backing :=
  if os.opened ∧ os.truncated then some ((old.getD (Backing.zeroed 0)).ftruncate shmSize) else none

/-- The mapping before anything is stored in it; an empty one cannot be made. -/
def attach (os : SystemCalls) (cfg : ManagerConfig) (old : Option Backing) : Option Backing :=
  let object := if cfg.useFileBacking then createFileBacking os cfg.shmSize old
    else createSharedMemory os cfg.shmSize old
  if os.mapped ∧ cfg.shmSize ≠ 0 then object else none

/-- The magic number is tested after `initialize_header`. -/
def initializeDataArea (shmSize : UInt64) (mem : Segment) : Segment :=
  if loadU64 mem (-56) ≠ magicNumber then fun p => if p.toNat < shmSize.toNat - 56 then 0 else mem p else mem

def initializeShm (os : SystemCalls) (cfg : ManagerConfig) (old : Option Backing) : Option Backing :=
  (attach os cfg old).map fun b =>
    { b with mem := initializeDataArea cfg.shmSize (initializeHeader cfg.shmSize cfg.baseAddr b.mem) }

structure SharedMemoryInfo where
  size : UInt64
  baseAddr : UInt64
  numCachelines : UInt64

def getShmInfo (shmSize : UInt64) (mem : Segment) : SharedMemoryInfo :=
  ⟨shmSize, baseAddr mem, numCachelines mem⟩

def setBaseAddr (mem : Segment) (addr : UInt64) : Segment := storeU64 mem (-8) addr

abbrev HeaderValid (mem : Segment) : Prop := loadU64 mem (-56) = magicNumber ∧ loadU64 mem (-48) = formatVersion

structure Initialized (cfg : ManagerConfig) (found mem : Segment) : Prop where
  inside : ∀ i, i < (numCachelines mem).toNat → 56 + i * 64 + 64 ≤ cfg.shmSize.toNat
  base : baseAddr mem = cfg.baseAddr
  cleared : ¬ HeaderValid found → ∀ p : UInt64, p.toNat < cfg.shmSize.toNat - 56 → mem p = 0

def InitializesSoundly (os : SystemCalls) (cfg : ManagerConfig) (old : Option Backing) : Prop :=
  ∀ found after, attach os cfg old = some found → initializeShm os cfg old = some after →
    Initialized cfg found.mem after.mem

/-- A header that is found describes the new configuration, and where none is found the data
area is clear already. -/
structure Suits (cfg : ManagerConfig) (found : Segment) : Prop where
  header : HeaderValid found →
    (numCachelines found).toNat * 64 + 56 ≤ cfg.shmSize.toNat ∧ baseAddr found = cfg.baseAddr
  data : ¬ HeaderValid found → ∀ p : UInt64, p.toNat < cfg.shmSize.toNat - 56 → found p = 0

section
variable {os : SystemCalls} {cfg : ManagerConfig} {old : Option Backing} {found : Backing} {mem : Segment}

theorem shmSize_ne_zero (attached : attach os cfg old = some found) : cfg.shmSize ≠ 0 := by
  rw [attach] at attached
  split at attached
  · rename_i done
    exact done.2
  · cases attached

theorem le_shmSize (attached : attach os cfg old = some found) : 2 ^ 20 ≤ cfg.shmSize.toNat := by
  have nonzero : cfg.shmSize.toNat ≠ 0 := fun zero => shmSize_ne_zero attached (UInt64.toNat_inj.mp zero)
  have size : cfg.shmSize.toNat = cfg.capacityMb.toNat * 1024 % 2 ^ 64 * 1024 % 2 ^ 64 := by
    rw [ManagerConfig.shmSize, UInt64.toNat_mul, UInt64.toNat_mul]
    rfl
  omega

theorem shmSize_mod (cfg : ManagerConfig) : cfg.shmSize.toNat % 64 = 0 := by
  have size : cfg.shmSize.toNat = cfg.capacityMb.toNat * 1024 % 2 ^ 64 * 1024 % 2 ^ 64 := by
    rw [ManagerConfig.shmSize, UInt64.toNat_mul, UInt64.toNat_mul]
    rfl
  omega

theorem headerValid_initializeHeader (shmSize base : UInt64) (mem : Segment) :
    HeaderValid (initializeHeader shmSize base mem) := by
  by_cases valid : HeaderValid mem
  · rw [initializeHeader, if_pos valid]
    exact valid
  · rw [initializeHeader, if_neg valid]
    constructor <;> simp (disch := decide) only [loadU64_storeU64_apart, loadU64_storeU64]

theorem initializeDataArea_initializeHeader (shmSize base : UInt64) (mem : Segment) :
    initializeDataArea shmSize (initializeHeader shmSize base mem) = initializeHeader shmSize base mem := by
  rw [initializeDataArea, if_neg]
  exact fun other => other (headerValid_initializeHeader shmSize base mem).1

variable {p : UInt64}

theorem storeU64_data (mem : Segment) (v : UInt64) {field : UInt64}
    (isField : 2 ^ 64 - 56 ≤ field.toNat ∧ field.toNat ≤ 2 ^ 64 - 8) (data : p.toNat < 2 ^ 64 - 56) :
    storeU64 mem field v p = mem p := by
  apply storeLE_other
  intro i hi same
  have place := congrArg UInt64.toNat same
  rw [walk_toNat] at place
  omega

theorem initializeHeader_data (shmSize base : UInt64) (mem : Segment) (data : p.toNat < 2 ^ 64 - 56) :
    initializeHeader shmSize base mem p = mem p := by
  rw [initializeHeader]
  split
  · rfl
  · rw [storeU64_data _ _ (by decide) data, storeU64_data _ _ (by decide) data, storeU64_data _ _ (by decide) data,
      storeU64_data _ _ (by decide) data, storeU64_data _ _ (by decide) data, storeU64_data _ _ (by decide) data,
      storeU64_data _ _ (by decide) data]

section
variable (large : 2 ^ 20 ≤ cfg.shmSize.toNat)
include large

theorem lines_succ : ((cfg.shmSize - headerSize) / 64).toNat + 1 = cfg.shmSize.toNat / 64 := by
  have size := shmSize_mod cfg
  rw [lines_toNat (le_trans (by decide) large)]
  omega

omit large in
theorem lines_inside_iff (large : 56 ≤ cfg.shmSize.toNat) (n : Nat) :
    (∀ i, i < n → 56 + i * 64 + 64 ≤ cfg.shmSize.toNat) ↔ n * 64 + 56 ≤ cfg.shmSize.toNat := by
  constructor
  · intro inside
    cases n with
    | zero => omega
    | succ n =>
      have last := inside n (Nat.lt_succ_self n)
      omega
  · intro fits i hi
    omega

theorem initialized_iff_of_valid (valid : HeaderValid mem) : Initialized cfg mem mem ↔ Suits cfg mem := by
  constructor
  · intro h
    exact ⟨fun _ => ⟨(lines_inside_iff (by omega) _).mp h.inside, h.base⟩, fun invalid => absurd valid invalid⟩
  · intro h
    obtain ⟨fits, base⟩ := h.header valid
    exact ⟨(lines_inside_iff (by omega) _).mpr fits, base, fun invalid => absurd valid invalid⟩

theorem initialized_iff_of_invalid (invalid : ¬ HeaderValid mem) :
    Initialized cfg mem (initializeHeader cfg.shmSize cfg.baseAddr mem) ↔ Suits cfg mem := by
  have bound := cfg.shmSize.toNat_lt
  have kept : ∀ p : UInt64, p.toNat < cfg.shmSize.toNat - 56 →
      initializeHeader cfg.shmSize cfg.baseAddr mem p = mem p := fun p data =>
    initializeHeader_data _ _ _ (by omega)
  constructor
  · intro h
    refine ⟨fun valid => absurd valid invalid, fun _ p data => ?_⟩
    rw [← kept p data]
    exact h.cleared invalid p data
  · intro h
    refine ⟨?_, baseAddr_initializeHeader invalid, fun _ p data => ?_⟩
    · have lines := lines_succ large
      rw [numCachelines_initializeHeader invalid, lines_inside_iff (by omega)]
      omega
    · rw [kept p data]
      exact h.data invalid p data

theorem initialized_iff_suits (mem : Segment) :
    Initialized cfg mem (initializeHeader cfg.shmSize cfg.baseAddr mem) ↔ Suits cfg mem := by
  by_cases valid : HeaderValid mem
  · rw [initializeHeader, if_pos valid]
    exact initialized_iff_of_valid large valid
  · exact initialized_iff_of_invalid large valid

end

def ManagerConfig.format (cfg : ManagerConfig) (b : Backing) : Backing :=
  ⟨b.size, initializeHeader cfg.shmSize cfg.baseAddr b.mem⟩

theorem format_mem (cfg : ManagerConfig) (b : Backing) :
    (cfg.format b).mem = initializeHeader cfg.shmSize cfg.baseAddr b.mem := by
  rw [ManagerConfig.format]

theorem initializeShm_eq (attached : attach os cfg old = some found) :
    initializeShm os cfg old = some (cfg.format found) := by
  rw [initializeShm, attached, Option.map_some, initializeDataArea_initializeHeader, ManagerConfig.format]

theorem attach_file (isFile : cfg.useFileBacking = true) (nonempty : cfg.shmSize ≠ 0) (old : Option Backing) :
    attach {} cfg old = some ((old.getD (Backing.zeroed 0)).ftruncate cfg.shmSize) := by
  simp [attach, createFileBacking, isFile, nonempty]

theorem attach_posix (isPosix : cfg.useFileBacking = false) (nonempty : cfg.shmSize ≠ 0)
    (same : ∀ b ∈ old, b.size = cfg.shmSize) :
    attach {} cfg old = some (old.getD (Backing.zeroed cfg.shmSize)) := by
  cases old with
  | none => simp [attach, createSharedMemory, isPosix, nonempty]
  | some b => simp [attach, createSharedMemory, isPosix, nonempty, same b rfl]

theorem InitializesSoundly.suits (sound : InitializesSoundly os cfg old) (attached : attach os cfg old = some found) :
    Suits cfg found.mem := by
  have initialized := sound found _ attached (initializeShm_eq attached)
  rwa [format_mem, initialized_iff_suits (le_shmSize attached)] at initialized

end

theorem initializesSoundly_iff (os : SystemCalls) (cfg : ManagerConfig) (old : Option Backing) :
    InitializesSoundly os cfg old ↔ ∀ found ∈ attach os cfg old, Suits cfg found.mem := by
  constructor
  · intro sound found attached
    exact sound.suits attached
  · intro suits found after attached done
    rw [initializeShm_eq attached] at done
    rw [← Option.some.inj done, format_mem, initialized_iff_suits (le_shmSize attached)]
    exact suits found attached

def largeFile : ManagerConfig := { useFileBacking := true, capacityMb := 2 }

def smallFile : ManagerConfig := { useFileBacking := true, capacityMb := 1 }

def posixObject : ManagerConfig := { useFileBacking := false, capacityMb := 1 }

def rebasedObject : ManagerConfig := { posixObject with baseAddrEnv := some 0x100000000 }

def foreignFile : Backing := ⟨64, fun p => if p = 0 then 0xff else 0⟩

/-- The line count of the larger file, the base address of the first use and the bytes of the
foreign file are all still there. -/
theorem not_initializesSoundly_reopened :
    ¬ InitializesSoundly {} smallFile (initializeShm {} largeFile none) ∧
      ¬ InitializesSoundly {} rebasedObject (initializeShm {} posixObject none) ∧
      ¬ InitializesSoundly {} smallFile (some foreignFile) := by
  have isFile : largeFile.useFileBacking = true := rfl
  have isPosix : posixObject.useFileBacking = false := rfl
  have large := initializeShm_eq (attach_file isFile (by decide) none)
  have first := initializeShm_eq
    (attach_posix isPosix (by decide) fun _ isNone => (Option.not_mem_none _ isNone).elim)
  rw [large, first]
  refine ⟨fun sound => ?_, fun sound => ?_, fun sound => ?_⟩
  · have suits := sound.suits (attach_file rfl (by decide) _)
    exact absurd (suits.header (by decide +kernel)).1 (by decide +kernel)
  · have suits := sound.suits (attach_posix rfl (by decide) fun b same => Option.some.inj same ▸ by decide)
    exact absurd (suits.header (by decide +kernel)).2 (by decide +kernel)
  · have suits := sound.suits (attach_file rfl (by decide) _)
    exact absurd (suits.data (by decide +kernel) 0 (by decide)) (by decide +kernel)

def SharedMemoryInfo.line (info : SharedMemoryInfo) (k : Nat) : UInt64 := info.baseAddr + UInt64.ofNat (k * 64)

/-- Every line of the range has bytes of the mapping, and no two lines share one. -/
structure RangeBacked (info : SharedMemoryInfo) (shmSize : UInt64) (mem : Segment) : Prop where
  accessible : ∀ k, k < info.size.toNat / 64 →
    ∃ data ∈ getCachelineData mem (info.line k), 56 + data.toNat + 64 ≤ shmSize.toNat
  disjoint : ∀ j k, j < k → k < info.size.toNat / 64 → ∀ a ∈ getCachelineData mem (info.line j),
    ∀ b ∈ getCachelineData mem (info.line k), a.toNat + 64 ≤ b.toNat ∨ b.toNat + 64 ≤ a.toNat

section
variable {shmSize : UInt64} {mem : Segment}

theorem offset_div {n : Nat} (small : n * 64 < 2 ^ 64) : UInt64.ofNat (n * 64) / 64 = UInt64.ofNat n := by
  apply UInt64.toNat_inj.mp
  rw [UInt64.toNat_div, UInt64.toNat_ofNat', UInt64.toNat_ofNat', Nat.mod_eq_of_lt small, Nat.mod_eq_of_lt (by omega)]
  exact Nat.mul_div_cancel n (by decide)

/-- The header takes a line's worth of the mapping, so the range has one line more than the
data area: the last one is refused, or shares its bytes with the first. -/
theorem not_rangeBacked (lines : (numCachelines mem).toNat + 1 = shmSize.toNat / 64)
    (some_lines : 0 < (numCachelines mem).toNat) : ¬ RangeBacked (getShmInfo shmSize mem) shmSize mem := by
  intro backed
  have bound := shmSize.toNat_lt
  set n := (numCachelines mem).toNat with count
  have last : n < (getShmInfo shmSize mem).size.toNat / 64 := by
    change n < shmSize.toNat / 64
    omega
  have quotient : UInt64.ofNat (n * 64) / 64 = numCachelines mem := by
    rw [offset_div (by omega), count, UInt64.ofNat_toNat]
  by_cases base : baseAddr mem = 0
  · have first : getCachelineData mem ((getShmInfo shmSize mem).line 0) = some 0 := by
      simp [getCachelineData, cachelineToIndex, getShmInfo, SharedMemoryInfo.line, base]
    have again : getCachelineData mem ((getShmInfo shmSize mem).line n) = some 0 := by
      simp only [getCachelineData, cachelineToIndex, getShmInfo, SharedMemoryInfo.line, base, if_true,
        UInt64.zero_add, quotient]
      rw [UInt64.mod_self, UInt64.zero_mul]
    have apart := backed.disjoint 0 n some_lines last 0 first 0 again
    simp at apart
  · obtain ⟨data, there, -⟩ := backed.accessible n last
    have inside := (isSome_getCachelineData_iff base _).mp (Option.isSome_iff_exists.mpr ⟨data, there⟩)
    rw [SharedMemoryInfo.line, getShmInfo, UInt64.add_comm, UInt64.add_sub_cancel, quotient] at inside
    exact UInt64.lt_irrefl _ inside.2

theorem numCachelines_setBaseAddr (mem : Segment) (addr : UInt64) :
    numCachelines (setBaseAddr mem addr) = numCachelines mem := by
  rw [numCachelines, numCachelines, setBaseAddr]
  exact loadU64_storeU64_apart _ _ (by decide)

end

/-- Whenever `initialize` writes the header, for whatever capacity and base address, and whether
or not the base address is set afterwards. -/
theorem rangeBacked_never (os : SystemCalls) (cfg : ManagerConfig) (old : Option Backing) {found after : Backing}
    (attached : attach os cfg old = some found) (fresh : ¬ HeaderValid found.mem)
    (done : initializeShm os cfg old = some after) (addr : UInt64) :
    ¬ RangeBacked (getShmInfo cfg.shmSize after.mem) cfg.shmSize after.mem ∧
      ¬ RangeBacked (getShmInfo cfg.shmSize (setBaseAddr after.mem addr)) cfg.shmSize (setBaseAddr after.mem addr) := by
  have large := le_shmSize attached
  have lines : (numCachelines after.mem).toNat + 1 = cfg.shmSize.toNat / 64 := by
    rw [initializeShm_eq attached] at done
    rw [← Option.some.inj done, format_mem, numCachelines_initializeHeader fresh, lines_succ large]
  constructor
  · exact not_rangeBacked lines (by omega)
  · rw [← numCachelines_setBaseAddr after.mem addr] at lines
    exact not_rangeBacked lines (by omega)

theorem rangeBacked_never_oneMiB :
    ¬ RangeBacked (getShmInfo 0x100000 (posixObject.format (Backing.zeroed 0x100000)).mem) 0x100000
      (posixObject.format (Backing.zeroed 0x100000)).mem :=
  have attached : attach {} posixObject none = some (Backing.zeroed 0x100000) :=
    attach_posix rfl (by decide) fun _ isNone => (Option.not_mem_none _ isNone).elim
  (rangeBacked_never {} posixObject none attached zero_unformatted (initializeShm_eq attached) 0).1

/-- The last of the 16384 lines in 1 MiB is the first one again, or has no bytes. -/
theorem last_line_unbacked :
    getCachelineData (freshMapping 0x100000 0) (16383 * 64) = some 0 ∧
      getCachelineData (freshMapping 0x100000 0) 0 = some 0 ∧
      getCachelineData (freshMapping 0x100000 0x100000000) (0x100000000 + 16383 * 64) = none ∧
      ¬ RangeBacked (getShmInfo 0x100000 (freshMapping 0x100000 0)) 0x100000 (freshMapping 0x100000 0) := by
  refine ⟨by decide +kernel, by decide +kernel, by decide +kernel, fun backed => ?_⟩
  have apart := backed.disjoint 0 16383 (by decide) (by decide) 0 (by decide +kernel) 0 (by decide +kernel)
  exact absurd apart (by decide)

end CxlMemSim
