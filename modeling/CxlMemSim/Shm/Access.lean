import CxlMemSim.Lib.Align
import CxlMemSim.Shm.Manager

/-! Every byte address has one backing byte, `backing`. The chunked loops of `read_cacheline` and `write_cacheline` are
byte-by-byte copies along it. -/
namespace CxlMemSim
open ByteMemory

theorem walk_toNat (p : UInt64) (i : Nat) : (walk p i).toNat = (p.toNat + i) % 2 ^ 64 := by
  simp only [walk, UInt64.toNat_add, UInt64.toNat_ofNat']
  omega

theorem walk_walk (p : UInt64) (i j : Nat) : walk (walk p i) j = walk p (i + j) := by
  apply UInt64.toNat_inj.mp
  simp only [walk_toNat]
  omega

@[simp] theorem walk_zero (p : UInt64) : walk p 0 = p := by
  apply UInt64.toNat_inj.mp
  have := p.toNat_lt
  rw [walk_toNat]
  omega

theorem walk_distinct (p : UInt64) {n : Nat} (h : n ≤ 2 ^ 64) : Distinct (walk p) n := by
  intro i j hi hj same
  have := congrArg UInt64.toNat same
  simp only [walk_toNat] at this
  omega

theorem addrToCacheline_toNat (addr : UInt64) : (addrToCacheline addr).toNat = addr.toNat / 64 * 64 :=
  Align.clearLow_toNat (k := 6) (by decide) (by decide) addr

theorem lineOffset_toNat (addr : UInt64) : (addr - addrToCacheline addr).toNat = addr.toNat % 64 := by
  have line := addrToCacheline_toNat addr
  have fits : addr.toNat < 2 ^ 64 := addr.toNat_lt
  rw [UInt64.toNat_sub, line]
  omega

theorem addrToCacheline_eq_iff {a b : UInt64} :
    addrToCacheline a = addrToCacheline b ↔ a.toNat / 64 = b.toNat / 64 := by
  rw [← UInt64.toNat_inj, addrToCacheline_toNat, addrToCacheline_toNat]
  omega

variable {addr : UInt64}

theorem walk_sameLine {i : Nat} (inLine : addr.toNat % 64 + i < 64) :
    addrToCacheline (walk addr i) = addrToCacheline addr := by
  have fits : addr.toNat < 2 ^ 64 := addr.toNat_lt
  rw [addrToCacheline_eq_iff, walk_toNat]
  omega

theorem walk_line (addr : UInt64) (i : Nat) : walk (addrToCacheline addr) (addr.toNat % 64 + i) = walk addr i := by
  have fits := addr.toNat_lt
  apply UInt64.toNat_inj.mp
  rw [walk_toNat, walk_toNat, addrToCacheline_toNat]
  omega

def backing (mem : Segment) (addr : UInt64) : UInt64 :=
  cachelineToIndex mem (addrToCacheline addr) * 64 + (addr - addrToCacheline addr)

theorem backing_toNat (mem : Segment) (addr : UInt64) :
    (backing mem addr).toNat =
      (cachelineToIndex mem (addrToCacheline addr)).toNat * 64 % 2 ^ 64 + addr.toNat % 64 := by
  rw [backing, UInt64.toNat_add, UInt64.toNat_mul, lineOffset_toNat]
  simp only [show (64 : UInt64).toNat = 64 from rfl]
  omega

theorem backing_mod (mem : Segment) (addr : UInt64) : (backing mem addr).toNat % 64 = addr.toNat % 64 := by
  rw [backing_toNat]
  omega

variable {mem : Segment}

theorem walk_backing {i : Nat} (inLine : addr.toNat % 64 + i < 64) :
    walk (backing mem addr) i = backing mem (walk addr i) := by
  have fits : addr.toNat < 2 ^ 64 := addr.toNat_lt
  apply UInt64.toNat_inj.mp
  rw [walk_toNat, backing_toNat, backing_toNat, walk_sameLine inLine, walk_toNat]
  omega

theorem backing_distinct (mem : Segment) (addr : UInt64) {n : Nat} (short : n ≤ 64) :
    Distinct (fun i => backing mem (walk addr i)) n := by
  intro i j hi hj same
  have residue := congrArg (fun p => p.toNat % 64) same
  simp only [backing_mod, walk_toNat] at residue
  omega

theorem readLoop_eq (mem : Segment) (addr : UInt64) (size fuel done : Nat) (buffer : List UInt8)
    (enough : size - done ≤ fuel) :
    readLoop mem addr size fuel done buffer =
      buffer ++ peek mem (fun i => backing mem (walk addr (done + i))) (size - done) := by
  induction fuel generalizing done buffer with
  | zero =>
    have : size - done = 0 := by omega
    simp [readLoop, this]
  | succ fuel ih =>
    by_cases more : done < size
    · simp only [readLoop, if_pos more, lineOffset_toNat]
      set chunk := min (size - done) (64 - (walk addr done).toNat % 64) with hchunk
      have rest : size - done = chunk + (size - (done + chunk)) := by omega
      -- one chunk stays inside one line
      have copied : peek mem (walk (backing mem (walk addr done))) chunk =
          peek mem (fun i => backing mem (walk addr (done + i))) chunk := by
        apply peek_congr
        intro i hi
        have inLine : (walk addr done).toNat % 64 + i < 64 := by omega
        rw [walk_backing inLine, walk_walk]
      rw [ih _ _ (by omega), List.append_assoc, rest, peek_add, ← backing, copied]
      simp only [Nat.add_assoc]
    · have : size - done = 0 := by omega
      simp [readLoop, more, this]

/-- `read_cacheline` succeeds on these requests and on no others. -/
def Accessible (mem : Segment) (addr : UInt64) (size : Nat) : Prop :=
  size ≠ 0 ∧ size ≤ 64 ∧ (baseAddr mem = 0 ∨
    ((getCachelineData mem (addrToCacheline addr)).isSome ∧ addr.toNat % 64 + size ≤ 64))
deriving Decidable

theorem getCachelineData_eq {cachelineAddr data : UInt64} (found : getCachelineData mem cachelineAddr = some data) :
    data = cachelineToIndex mem cachelineAddr * 64 := by
  simp only [getCachelineData] at found
  split_ifs at found <;> exact (Option.some.inj found).symm

theorem isSome_getCachelineData_iff (base : baseAddr mem ≠ 0) (cachelineAddr : UInt64) :
    (getCachelineData mem cachelineAddr).isSome ↔
      baseAddr mem ≤ cachelineAddr ∧ (cachelineAddr - baseAddr mem) / 64 < numCachelines mem := by
  simp only [getCachelineData, cachelineToIndex, if_neg base]
  by_cases below : cachelineAddr < baseAddr mem
  · rw [if_pos below]
    exact iff_of_false Bool.false_ne_true fun inside => UInt64.not_le.mpr below inside.1
  · rw [if_neg below]
    by_cases beyond : numCachelines mem ≤ (cachelineAddr - baseAddr mem) / 64
    · rw [if_pos beyond]
      exact iff_of_false Bool.false_ne_true fun inside => UInt64.not_lt.mpr beyond inside.2
    · rw [if_neg beyond]
      exact iff_of_true rfl ⟨UInt64.not_lt.mp below, UInt64.not_le.mp beyond⟩

theorem readCacheline_eq (mem : Segment) (addr : UInt64) (size : Nat) :
    readCacheline mem addr size =
      if Accessible mem addr size then some (peek mem (fun i => backing mem (walk addr i)) size)
      else none := by
  by_cases bad : size = 0 ∨ cachelineSize < size
  · rw [readCacheline, if_pos bad, if_neg]
    simp only [cachelineSize] at bad
    rintro ⟨h0, h64, -⟩
    omega
  have sizes : size ≠ 0 ∧ size ≤ 64 := by simp only [cachelineSize] at bad; omega
  rw [readCacheline, if_neg bad]
  by_cases base : baseAddr mem = 0
  · rw [if_pos base, if_pos ⟨sizes.1, sizes.2, Or.inl base⟩, readLoop_eq _ _ _ _ _ _ (by omega)]
    simp
  rw [if_neg base]
  cases line : getCachelineData mem (addrToCacheline addr) with
  | none => simp [Accessible, base, line]
  | some data =>
    simp only [lineOffset_toNat, cachelineSize, Accessible, base, line, Option.isSome_some, false_or, true_and]
    by_cases cross : 64 < addr.toNat % 64 + size
    · rw [if_pos cross, if_neg (by omega)]
    · rw [if_neg cross, if_pos (by omega)]
      apply congrArg some
      apply peek_congr
      intro i hi
      have inLine : addr.toNat % 64 + i < 64 := by omega
      rw [getCachelineData_eq line, ← walk_backing inLine, backing]

variable {mem mem' : Segment} {shmSize base : UInt64} {data : List UInt8}

theorem loadU64_congr {p : UInt64} (h : ∀ i, i < 8 → mem' (walk p i) = mem (walk p i)) :
    loadU64 mem' p = loadU64 mem p :=
  congrArg UInt64.ofNat (loadLE_congr h)

def InHeader (p : UInt64) : Prop := 2 ^ 64 - 56 ≤ p.toNat

section
variable (same : ∀ p, InHeader p → mem' p = mem p)
include same

theorem baseAddr_congr : baseAddr mem' = baseAddr mem := by
  rw [baseAddr, baseAddr]
  apply loadU64_congr
  intro i hi
  apply same
  have : (-8 : UInt64).toNat = 2 ^ 64 - 8 := by decide
  rw [InHeader, walk_toNat, this]
  omega

theorem numCachelines_congr : numCachelines mem' = numCachelines mem := by
  rw [numCachelines, numCachelines]
  apply loadU64_congr
  intro i hi
  apply same
  have : (-16 : UInt64).toNat = 2 ^ 64 - 16 := by decide
  rw [InHeader, walk_toNat, this]
  omega

theorem backing_congr : backing mem' = backing mem := by
  funext addr
  simp only [backing, cachelineToIndex, baseAddr_congr same, numCachelines_congr same]

end

/-- A header for modulo addressing whose data area ends before the header begins again. -/
structure ModuloMode (mem : Segment) : Prop where
  base : baseAddr mem = 0
  lines : 0 < (numCachelines mem).toNat
  room : (numCachelines mem).toNat * 64 + 56 ≤ 2 ^ 64

section
variable (h : ModuloMode mem)
include h

theorem ModuloMode.congr (same : ∀ p, InHeader p → mem' p = mem p) : ModuloMode mem' :=
  ⟨(baseAddr_congr same).trans h.base, by rw [numCachelines_congr same]; exact h.lines,
    by rw [numCachelines_congr same]; exact h.room⟩

theorem ModuloMode.index_toNat (cachelineAddr : UInt64) : (cachelineToIndex mem cachelineAddr).toNat =
      cachelineAddr.toNat / 64 % (numCachelines mem).toNat := by
  rw [cachelineToIndex, if_pos h.base, UInt64.toNat_mod, UInt64.toNat_div]
  rfl

theorem ModuloMode.backing_lt (addr : UInt64) : (backing mem addr).toNat < (numCachelines mem).toNat * 64 := by
  have index := h.index_toNat (addrToCacheline addr)
  have below := Nat.mod_lt ((addrToCacheline addr).toNat / 64) h.lines
  have room := h.room
  rw [backing_toNat, index]
  omega

theorem ModuloMode.backing_off_header (addr p : UInt64) (header : InHeader p) : backing mem addr ≠ p := by
  rintro rfl
  have below := h.backing_lt addr
  have room := h.room
  simp only [InHeader] at header
  omega

theorem ModuloMode.poke_header (addrs : Nat → UInt64) (bs : List UInt8) (p : UInt64) (header : InHeader p) :
    poke mem (fun i => backing mem (addrs i)) bs p = mem p :=
  poke_other _ _ _ fun _ _ => h.backing_off_header _ p header

omit h in
theorem writeLoop_eq (addr : UInt64) (data : List UInt8) (fuel done : Nat) (mem : Segment)
    (h : ModuloMode mem) (enough : data.length - done ≤ fuel) :
    writeLoop addr data fuel done mem =
      poke mem (fun i => backing mem (walk addr (done + i))) (data.drop done) := by
  induction fuel generalizing done mem with
  | zero =>
    have : data.drop done = [] := List.drop_eq_nil_of_le (by omega)
    simp [writeLoop, this]
  | succ fuel ih =>
    by_cases more : done < data.length
    · simp only [writeLoop, if_pos more, lineOffset_toNat]
      set chunk := min (data.length - done) (64 - (walk addr done).toNat % 64) with hchunk
      have length : ((data.drop done).take chunk).length = chunk := by
        rw [List.length_take, List.length_drop]
        omega
      have stored : poke mem (walk (backing mem (walk addr done))) ((data.drop done).take chunk) =
          poke mem (fun i => backing mem (walk addr (done + i))) ((data.drop done).take chunk) := by
        apply poke_congr
        intro i hi
        have inLine : (walk addr done).toNat % 64 + i < 64 := by omega
        rw [walk_backing inLine, walk_walk]
      rw [← backing, stored]
      have header := h.poke_header (fun i => walk addr (done + i)) ((data.drop done).take chunk)
      -- the header is intact after the chunk, so the rest of the loop sees the same mapping
      rw [ih _ _ (h.congr header) (by omega), backing_congr header]
      conv_rhs => rw [← List.take_append_drop chunk (data.drop done), poke_append, length, List.drop_drop]
      simp only [Nat.add_assoc]
    · have : data.drop done = [] := List.drop_eq_nil_of_le (by omega)
      simp [writeLoop, more, this]

theorem writeCacheline_modulo (addr : UInt64) (data : List UInt8)
    (msyncOk : Bool) (nonempty : data.length ≠ 0) (short : data.length ≤ 64) :
    writeCacheline mem addr data msyncOk =
      (poke mem (fun i => backing mem (walk addr i)) data, msyncOk) := by
  rw [writeCacheline, if_neg (by simp only [cachelineSize]; omega), if_pos h.base,
    writeLoop_eq addr data _ 0 mem h (by omega)]
  simp

end

theorem writeCacheline_of_not_accessible (msyncOk : Bool)
    (refused : ¬ Accessible mem addr data.length) : writeCacheline mem addr data msyncOk = (mem, false) := by
  rw [writeCacheline]
  by_cases bad : data.length = 0 ∨ cachelineSize < data.length
  · rw [if_pos bad]
  have sizes : data.length ≠ 0 ∧ data.length ≤ 64 := by simp only [cachelineSize] at bad; omega
  have base : baseAddr mem ≠ 0 := fun base => refused ⟨sizes.1, sizes.2, Or.inl base⟩
  rw [if_neg bad, if_neg base]
  cases line : getCachelineData mem (addrToCacheline addr) with
  | none => simp only [line]
  | some start =>
    have crosses : cachelineSize < (addr - addrToCacheline addr).toNat + data.length := by
      rw [lineOffset_toNat, cachelineSize]
      by_contra inside
      exact refused ⟨sizes.1, sizes.2, Or.inr ⟨by rw [line]; rfl, by omega⟩⟩
    simp only [line, if_pos crosses]

theorem writeCacheline_of_accessible (msyncOk : Bool)
    (accepted : Accessible mem addr data.length) : (writeCacheline mem addr data msyncOk).2 = msyncOk := by
  obtain ⟨nonempty, short, mode⟩ := accepted
  rw [writeCacheline, if_neg (by simp only [cachelineSize]; omega)]
  by_cases base : baseAddr mem = 0
  · rw [if_pos base]
  · rw [if_neg base]
    obtain ⟨found, inLine⟩ := mode.resolve_left base
    obtain ⟨start, line⟩ := Option.isSome_iff_exists.mp found
    have fits : ¬ cachelineSize < (addr - addrToCacheline addr).toNat + data.length := by
      rw [lineOffset_toNat, cachelineSize]
      omega
    simp only [line, if_neg fits]

/-- A write is the byte-by-byte copy along `backing`, in both addressing modes. -/
theorem writeCacheline_eq (mode : baseAddr mem = 0 → ModuloMode mem) (addr : UInt64)
    (data : List UInt8) (msyncOk : Bool) :
    writeCacheline mem addr data msyncOk =
      if Accessible mem addr data.length then (poke mem (fun i => backing mem (walk addr i)) data, msyncOk)
      else (mem, false) := by
  by_cases accepted : Accessible mem addr data.length
  · rw [if_pos accepted]
    obtain ⟨nonempty, short, inLine⟩ := accepted
    by_cases base : baseAddr mem = 0
    · exact writeCacheline_modulo (mode base) addr data msyncOk nonempty short
    · obtain ⟨found, fits⟩ := inLine.resolve_left base
      obtain ⟨start, line⟩ := Option.isSome_iff_exists.mp found
      have inside : ¬ cachelineSize < (addr - addrToCacheline addr).toNat + data.length := by
        rw [lineOffset_toNat, cachelineSize]
        omega
      rw [writeCacheline, if_neg (by simp only [cachelineSize]; omega), if_neg base]
      simp only [line, if_neg inside]
      refine congrArg (Prod.mk · msyncOk) (poke_congr mem data fun i hi => ?_)
      rw [getCachelineData_eq line, ← walk_backing (by omega), backing]
  · rw [if_neg accepted]
    exact writeCacheline_of_not_accessible msyncOk accepted

theorem writeCacheline_eq_self_iff (mode : baseAddr mem = 0 → ModuloMode mem) (addr : UInt64)
    (data : List UInt8) (msyncOk : Bool) :
    writeCacheline mem addr data msyncOk = (mem, true) ↔
      msyncOk = true ∧ readCacheline mem addr data.length = some data := by
  rw [writeCacheline_eq mode, readCacheline_eq]
  by_cases accepted : Accessible mem addr data.length
  · rw [if_pos accepted, if_pos accepted, Prod.mk.injEq, Option.some.injEq,
      poke_eq_self_iff _ _ _ (backing_distinct mem addr accepted.2.1), and_comm]
  · rw [if_neg accepted, if_neg accepted]
    simp

theorem loadU64_storeU64 (mem : Segment) (p v : UInt64) : loadU64 (storeU64 mem p v) p = v := by
  rw [loadU64, storeU64, loadLE_storeLE _ _ _ _ (walk_distinct p (by norm_num))]
  apply UInt64.toNat_inj.mp
  rw [UInt64.toNat_ofNat']
  have := v.toNat_lt
  omega

theorem storeU64_loadU64 (mem : Segment) (p : UInt64) : storeU64 mem p (loadU64 mem p) = mem := by
  have value : (loadU64 mem p).toNat = loadLE mem (walk p) 8 := by
    rw [loadU64, UInt64.toNat_ofNat']
    exact Nat.mod_eq_of_lt (loadLE_lt mem (walk p) 8)
  rw [storeU64, value, storeLE_loadLE]

theorem storeU64_eq_self_iff (mem : Segment) (p v : UInt64) : storeU64 mem p v = mem ↔ loadU64 mem p = v := by
  constructor
  · intro same
    rw [← loadU64_storeU64 mem p v, same]
  · rintro rfl
    exact storeU64_loadU64 mem p

theorem loadU64_storeU64_apart (mem : Segment) {p q : UInt64} (v : UInt64)
    (apart : ∀ i < 8, ∀ j < 8, walk p i ≠ walk q j) :
    loadU64 (storeU64 mem p v) q = loadU64 mem q :=
  loadU64_congr fun j hj => storeLE_other _ _ _ _ fun i hi => apart i hi j hj

def freshMapping (shmSize base : UInt64) : Segment := initializeHeader shmSize base fun _ => 0

section
variable (unformatted : ¬ (loadU64 mem (-56) = magicNumber ∧ loadU64 mem (-48) = formatVersion))
include unformatted

theorem numCachelines_initializeHeader :
    numCachelines (initializeHeader shmSize base mem) = (shmSize - headerSize) / 64 := by
  rw [initializeHeader, if_neg unformatted, numCachelines]
  exact loadU64_storeU64 _ _ _

theorem baseAddr_initializeHeader : baseAddr (initializeHeader shmSize base mem) = base := by
  rw [initializeHeader, if_neg unformatted, baseAddr]
  exact (loadU64_storeU64_apart _ _ (by decide)).trans (loadU64_storeU64 _ _ _)

omit unformatted in
theorem lines_toNat (header : 56 ≤ shmSize.toNat) :
    ((shmSize - headerSize) / 64).toNat = (shmSize.toNat - 56) / 64 := by
  have fits : headerSize ≤ shmSize := UInt64.le_iff_toNat_le.mpr header
  rw [UInt64.toNat_div, UInt64.toNat_sub_of_le _ _ fits]
  rfl

theorem initializeHeader_moduloMode (room : 120 ≤ shmSize.toNat) : ModuloMode (initializeHeader shmSize 0 mem) := by
  have count := lines_toNat (Nat.le_trans (by decide) room)
  have := shmSize.toNat_lt
  refine ⟨baseAddr_initializeHeader unformatted, ?_, ?_⟩ <;>
    rw [numCachelines_initializeHeader unformatted, count] <;> omega

end

theorem zero_unformatted :
    ¬ (loadU64 (fun _ => 0) (-56) = magicNumber ∧ loadU64 (fun _ => 0) (-48) = formatVersion) := by
  decide +kernel

theorem freshMapping_moduloMode (room : 120 ≤ shmSize.toNat) : ModuloMode (freshMapping shmSize 0) :=
  initializeHeader_moduloMode zero_unformatted room

end CxlMemSim
