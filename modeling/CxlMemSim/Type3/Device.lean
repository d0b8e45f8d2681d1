import Mathlib.Algebra.Ring.Nat
import Mathlib.Data.List.Basic
import Mathlib.Data.Option.Basic

/-! From the host address of a guest access through the HDM decoders to a device physical address (DPA) and the address
space that backs it. -/
namespace CxlMemSim.Type3
open UInt64

/-- One HDM decoder, with the fields IW, IG and COMMITTED of its control register. -/
structure HdmDecoder where
  baseLo : UInt32
  baseHi : UInt32
  sizeLo : UInt32
  sizeHi : UInt32
  dpaSkipLo : UInt32 := 0
  dpaSkipHi : UInt32 := 0
  iw : BitVec 4 := 0
  ig : BitVec 4 := 0
  committed : Bool := true

def registerPair (high low : UInt32) : UInt64 := (high.toUInt64 <<< 32) ||| (low &&& 0xf0000000).toUInt64

def make64BitMask (shift length : UInt64) : UInt64 := ((~~~0 : UInt64) >>> (64 - length)) <<< shift

def cxlInterleaveWaysDec : BitVec 4 → UInt64
  | 0 => 1
  | 1 => 2
  | 2 => 4
  | 3 => 8
  | 4 => 16
  | 8 => 3
  | 9 => 6
  | 10 => 12
  | _ => 0

namespace HdmDecoder

def deinterleave (d : HdmDecoder) (hpaOffset : UInt64) : UInt64 :=
  let ig := UInt64.ofNat d.ig.toNat
  let iw := UInt64.ofNat d.iw.toNat
  let low := make64BitMask 0 (8 + ig) &&& hpaOffset
  if d.iw < 8 then
    low ||| ((make64BitMask (8 + ig + iw) (64 - 8 - ig - iw) &&& hpaOffset) >>> iw)
  else
    low ||| ((((make64BitMask (ig + iw) (64 - ig - iw) &&& hpaOffset) >>> (ig + iw)) / 3) <<< (ig + 8))

end HdmDecoder

def cxlType3Dpa (hostAddr : UInt64) : List HdmDecoder → UInt64 → Option UInt64
  | [], _ => none
  | d :: rest, dpaBase =>
    let decoderBase := registerPair d.baseHi d.baseLo
    let decoderSize := registerPair d.sizeHi d.sizeLo
    let dpaBase := dpaBase + registerPair d.dpaSkipHi d.dpaSkipLo
    let hpaOffset := hostAddr - decoderBase
    if d.committed = false then none
    else if hostAddr < decoderBase ∨ decoderSize ≤ hpaOffset then
      let decodedIw := cxlInterleaveWaysDec d.iw
      if decodedIw = 0 then none else cxlType3Dpa hostAddr rest (dpaBase + decoderSize / decodedIw)
    else some (dpaBase + d.deinterleave hpaOffset)

structure CXLDCRegion where
  base : UInt64
  len : UInt64
  blockSize : UInt64
  blkBitmap : Nat → Bool

structure DynamicCapacity where
  regions : List CXLDCRegion := []
  totalCapacity : UInt64 := 0

/-- From the last region down; extents do not cross regions. -/
def cxlFindDcRegion (dc : DynamicCapacity) (dpa len : UInt64) : Option CXLDCRegion :=
  let first := (dc.regions.head?.map CXLDCRegion.base).getD 0
  if dpa < first ∨ first + dc.totalCapacity ≤ dpa then none
  else
    (dc.regions.reverse.find? fun region => region.base ≤ dpa).filter fun region =>
      dpa + len ≤ region.base + region.len

/-- All bits from the block of `dpa` on, as many as `len` has blocks. -/
def ct3TestRegionBlockBacked (dc : DynamicCapacity) (dpa len : UInt64) : Bool :=
  match cxlFindDcRegion dc dpa len with
  | none => false
  | some region =>
    let nr := ((dpa - region.base) / region.blockSize).toNat
    let nbits := ((len + region.blockSize - 1) / region.blockSize).toNat
    (List.range nbits).all fun k => region.blkBitmap (nr + k)

/-- The backends that are there, by their sizes.  Together they are memory of the host. -/
structure CXLType3Dev where
  hostvmem : Option UInt64 := none
  hostpmem : Option UInt64 := none
  hostDc : Option UInt64 := none
  dc : DynamicCapacity := {}
  decoders : List HdmDecoder := []
  mediaDisabled : Bool := false
  fits : (hostvmem.getD 0).toNat + (hostpmem.getD 0).toNat + (hostDc.getD 0).toNat < 2 ^ 64

inductive AddressSpace where
  | hostvmem
  | hostpmem
  | hostDc
deriving DecidableEq

inductive Errno where
  | enodev
  | einval
deriving DecidableEq

namespace CXLType3Dev
variable (ct3d : CXLType3Dev)

def vmrSize : UInt64 := ct3d.hostvmem.getD 0

def pmrSize : UInt64 := ct3d.hostpmem.getD 0

def dcSize : UInt64 := ct3d.hostDc.getD 0

def dpaToAs (dpa size : UInt64) : Except Errno (AddressSpace × UInt64) :=
  if ct3d.vmrSize + ct3d.pmrSize + ct3d.dcSize ≤ dpa then .error .einval
  else if dpa < ct3d.vmrSize then .ok (.hostvmem, dpa)
  else if dpa < ct3d.vmrSize + ct3d.pmrSize then .ok (.hostpmem, dpa - ct3d.vmrSize)
  else if ct3TestRegionBlockBacked ct3d.dc dpa size then .ok (.hostDc, dpa - (ct3d.vmrSize + ct3d.pmrSize))
  else .error .enodev

def hpaToAsAndDpa (hostAddr size : UInt64) : Except Errno (AddressSpace × UInt64) :=
  if ct3d.hostvmem.isNone ∧ ct3d.hostpmem.isNone ∧ ct3d.hostDc.isNone then .error .enodev
  else
    match cxlType3Dpa hostAddr ct3d.decoders 0 with
    | none => .error .einval
    | some dpa => ct3d.dpaToAs dpa size

def serverAddr (dpa size : UInt64) : Option UInt64 := (ct3d.dpaToAs dpa size).toOption.map Prod.snd

def Separates : Prop :=
  ∀ dpa dpa' size size' : UInt64, dpa ≠ dpa' →
    ∀ x ∈ ct3d.serverAddr dpa size, ∀ y ∈ ct3d.serverAddr dpa' size', x ≠ y

/-- One kind of static memory at most, and dynamic capacity is backed only as far above its
start as the static memory is long. -/
structure Spread : Prop where
  static : ct3d.vmrSize = 0 ∨ ct3d.pmrSize = 0
  dynamic : ∀ dpa size : UInt64, ct3d.vmrSize + ct3d.pmrSize ≤ dpa →
    dpa < ct3d.vmrSize + ct3d.pmrSize + ct3d.dcSize → ct3TestRegionBlockBacked ct3d.dc dpa size = true →
    ct3d.vmrSize + ct3d.pmrSize ≤ dpa - (ct3d.vmrSize + ct3d.pmrSize)

variable {ct3d} {dpa : UInt64}

theorem static_toNat : (ct3d.vmrSize + ct3d.pmrSize).toNat = ct3d.vmrSize.toNat + ct3d.pmrSize.toNat := by
  have fits := ct3d.fits
  rw [UInt64.toNat_add]
  exact Nat.mod_eq_of_lt (Nat.lt_of_le_of_lt (Nat.le_add_right _ _) fits)

theorem total_toNat : (ct3d.vmrSize + ct3d.pmrSize + ct3d.dcSize).toNat =
    ct3d.vmrSize.toNat + ct3d.pmrSize.toNat + ct3d.dcSize.toNat := by
  rw [UInt64.toNat_add, static_toNat]
  exact Nat.mod_eq_of_lt ct3d.fits

inductive Placed (ct3d : CXLType3Dev) (dpa size x : UInt64) : Prop
  | volatile (below : dpa.toNat < ct3d.vmrSize.toNat) (offset : x.toNat = dpa.toNat)
  | persistent (above : ct3d.vmrSize.toNat ≤ dpa.toNat)
      (below : dpa.toNat < ct3d.vmrSize.toNat + ct3d.pmrSize.toNat)
      (offset : x.toNat = dpa.toNat - ct3d.vmrSize.toNat)
  | dynamic (above : ct3d.vmrSize.toNat + ct3d.pmrSize.toNat ≤ dpa.toNat)
      (below : dpa.toNat < ct3d.vmrSize.toNat + ct3d.pmrSize.toNat + ct3d.dcSize.toNat)
      (backed : ct3TestRegionBlockBacked ct3d.dc dpa size = true)
      (offset : x.toNat = dpa.toNat - (ct3d.vmrSize.toNat + ct3d.pmrSize.toNat))

theorem placed_of_serverAddr {size x : UInt64} (sent : x ∈ ct3d.serverAddr dpa size) : Placed ct3d dpa size x := by
  have dynamicTotal := @total_toNat ct3d
  have staticTotal := @static_toNat ct3d
  rw [serverAddr, dpaToAs] at sent
  split_ifs at sent with outside volatile persistent backed
  · cases sent
  · cases sent
    exact .volatile (lt_iff_toNat_lt.mp volatile) rfl
  · cases sent
    rw [UInt64.not_lt] at volatile
    rw [lt_iff_toNat_lt, staticTotal] at persistent
    exact .persistent (UInt64.le_iff_toNat_le.mp volatile) persistent (UInt64.toNat_sub_of_le _ _ volatile)
  · cases sent
    rw [UInt64.not_le, UInt64.lt_iff_toNat_lt, dynamicTotal] at outside
    rw [UInt64.not_lt] at persistent
    have offset := UInt64.toNat_sub_of_le _ _ persistent
    rw [le_iff_toNat_le, staticTotal] at persistent
    rw [staticTotal] at offset
    exact .dynamic persistent outside backed offset
  · cases sent

theorem serverAddr_volatile (size : UInt64) (below : dpa.toNat < ct3d.vmrSize.toNat) :
    dpa ∈ ct3d.serverAddr dpa size := by
  have inside : ¬ ct3d.vmrSize + ct3d.pmrSize + ct3d.dcSize ≤ dpa := by
    rw [le_iff_toNat_le, total_toNat]
    omega
  rw [serverAddr, dpaToAs, if_neg inside, if_pos (lt_iff_toNat_lt.mpr below)]
  rfl

theorem serverAddr_persistent (size : UInt64) (above : ct3d.vmrSize.toNat ≤ dpa.toNat)
    (below : dpa.toNat < ct3d.vmrSize.toNat + ct3d.pmrSize.toNat) :
    dpa - ct3d.vmrSize ∈ ct3d.serverAddr dpa size := by
  have inside : ¬ ct3d.vmrSize + ct3d.pmrSize + ct3d.dcSize ≤ dpa := by
    rw [le_iff_toNat_le, total_toNat]
    omega
  have notVolatile : ¬ dpa < ct3d.vmrSize := by
    rw [lt_iff_toNat_lt]
    omega
  have persistent : dpa < ct3d.vmrSize + ct3d.pmrSize := by
    rw [lt_iff_toNat_lt, static_toNat]
    exact below
  rw [serverAddr, dpaToAs, if_neg inside, if_neg notVolatile, if_pos persistent]
  rfl

theorem serverAddr_dynamic {size : UInt64} (above : ct3d.vmrSize + ct3d.pmrSize ≤ dpa)
    (below : dpa < ct3d.vmrSize + ct3d.pmrSize + ct3d.dcSize)
    (backed : ct3TestRegionBlockBacked ct3d.dc dpa size = true) :
    dpa - (ct3d.vmrSize + ct3d.pmrSize) ∈ ct3d.serverAddr dpa size := by
  have notVolatile : ¬ dpa < ct3d.vmrSize := by
    rw [le_iff_toNat_le, static_toNat] at above
    rw [lt_iff_toNat_lt]
    omega
  rw [serverAddr, dpaToAs, if_neg (UInt64.not_le.mpr below), if_neg notVolatile, if_neg (UInt64.not_lt.mpr above),
    if_pos backed]
  rfl

theorem exists_static {x : UInt64} (single : ct3d.vmrSize = 0 ∨ ct3d.pmrSize = 0)
    (below : x.toNat < ct3d.vmrSize.toNat + ct3d.pmrSize.toNat) :
    x ∈ ct3d.serverAddr x 1 := by
  rcases single with none | none
  · have zero : ct3d.vmrSize.toNat = 0 := by rw [none]; rfl
    have sent := @serverAddr_persistent ct3d x 1 (by omega) below
    rwa [none, UInt64.sub_zero] at sent
  · have zero : ct3d.pmrSize.toNat = 0 := by rw [none]; rfl
    exact serverAddr_volatile 1 (by omega)

theorem Spread.separates (spread : ct3d.Spread) : ct3d.Separates := by
  intro dpa dpa' size size' different x sent y sent' same
  have apart : dpa.toNat ≠ dpa'.toNat := fun eq => different (UInt64.toNat_inj.mp eq)
  have single : ct3d.vmrSize.toNat = 0 ∨ ct3d.pmrSize.toNat = 0 :=
    spread.static.imp (fun zero => by rw [zero]; rfl) fun zero => by rw [zero]; rfl
  have above : ∀ {dpa size x : UInt64}, ct3d.vmrSize.toNat + ct3d.pmrSize.toNat ≤ dpa.toNat →
      dpa.toNat < ct3d.vmrSize.toNat + ct3d.pmrSize.toNat + ct3d.dcSize.toNat →
      ct3TestRegionBlockBacked ct3d.dc dpa size = true →
      x.toNat = dpa.toNat - (ct3d.vmrSize.toNat + ct3d.pmrSize.toNat) →
      ct3d.vmrSize.toNat + ct3d.pmrSize.toNat ≤ x.toNat := by
    intro dpa size x low high backed offset
    have start : ct3d.vmrSize + ct3d.pmrSize ≤ dpa := by
      rw [le_iff_toNat_le, static_toNat]
      exact low
    have far := spread.dynamic dpa size start (by rw [lt_iff_toNat_lt, total_toNat]; exact high) backed
    rw [UInt64.le_iff_toNat_le, UInt64.toNat_sub_of_le _ _ start, static_toNat] at far
    omega
  have sameNat : x.toNat = y.toNat := congrArg UInt64.toNat same
  rcases placed_of_serverAddr sent with ⟨b, o⟩ | ⟨a, b, o⟩ | ⟨a, b, backed, o⟩ <;>
    rcases placed_of_serverAddr sent' with ⟨b', o'⟩ | ⟨a', b', o'⟩ | ⟨a', b', backed', o'⟩
  · omega
  · omega
  · have := above a' b' backed' o'
    omega
  · omega
  · omega
  · have := above a' b' backed' o'
    omega
  · have := above a b backed o
    omega
  · have := above a b backed o
    omega
  · omega

theorem spread_of_separates (separates : ct3d.Separates) : ct3d.Spread := by
  have single : ct3d.vmrSize = 0 ∨ ct3d.pmrSize = 0 := by
    by_contra both
    rw [not_or] at both
    have volatile : ct3d.vmrSize.toNat ≠ 0 := fun zero => both.1 (UInt64.toNat_inj.mp zero)
    have persistent : ct3d.pmrSize.toNat ≠ 0 := fun zero => both.2 (UInt64.toNat_inj.mp zero)
    -- the first byte of either
    have first := @serverAddr_volatile ct3d 0 1 (Nat.pos_of_ne_zero volatile)
    have second := @serverAddr_persistent ct3d ct3d.vmrSize 1 (Nat.le_refl _) (by omega)
    rw [UInt64.sub_self] at second
    exact separates 0 ct3d.vmrSize 1 1 (fun zero => both.1 zero.symm) 0 first 0 second rfl
  refine ⟨single, fun dpa size start below backed => ?_⟩
  by_contra near
  rw [UInt64.not_le] at near
  have sent := serverAddr_dynamic start below backed
  have static := exists_static single (by rw [← static_toNat]; exact lt_iff_toNat_lt.mp near)
  refine separates _ _ _ _ (fun same => ?_) _ static _ sent rfl
  rw [same] at near
  exact UInt64.not_lt.mpr start near

end CXLType3Dev

theorem separates_iff_spread (ct3d : CXLType3Dev) : ct3d.Separates ↔ ct3d.Spread :=
  ⟨CXLType3Dev.spread_of_separates, CXLType3Dev.Spread.separates⟩

def threeRegions : CXLType3Dev where
  hostvmem := some 0x10000000
  hostpmem := some 0x10000000
  hostDc := some 0x10000000
  dc :=
    { regions := [{ base := 0x20000000, len := 0x10000000, blockSize := 0x200000, blkBitmap := fun k => k == 0 }]
      totalCapacity := 0x10000000 }
  fits := by decide

theorem regions_collide :
    threeRegions.serverAddr 0 8 = some 0 ∧ threeRegions.serverAddr 0x10000000 8 = some 0 ∧
      threeRegions.serverAddr 0x20000000 8 = some 0 ∧ ¬ threeRegions.Separates := by
  refine ⟨by decide +kernel, by decide +kernel, by decide +kernel, fun separates => ?_⟩
  exact separates 0 0x10000000 8 8 (by decide) 0 (by decide +kernel) 0 (by decide +kernel) rfl

end CxlMemSim.Type3
