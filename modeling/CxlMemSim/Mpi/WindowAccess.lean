import CxlMemSim.Mpi.Registration
import Mathlib.Data.Int.ModEq

/-! Each rank publishes base and size of its window in its own entry, and its displacement unit in the one field that
all ranks share. -/
namespace CxlMemSim.Mpi

/-- What a rank gives to `MPI_Win_create`: a buffer does not reach beyond the end of the address space. -/
structure WindowArgs where
  base : UInt64
  size : UInt64
  dispUnit : Int32
  fits : base.toNat + size.toNat ≤ 2 ^ 64

structure CxlWinRankInfo where
  baseRptr : UInt64
  size : UInt64

structure CxlWinShm (n : Nat) where
  ranks : Fin n → CxlWinRankInfo
  dispUnit : UInt32

variable {n : Nat}

section Window
variable (regionSize : UInt64) (args : Fin n → WindowArgs)

/-- `is_cxl_ptr` for the base of the rank's window, which is also its `cxl_enabled`. -/
def isCxlPtr (rank : Fin n) : Bool := (args rank).base < regionSize

def registerCxlWindow : CxlWinShm n where
  ranks rank := if isCxlPtr regionSize args rank then ⟨(args rank).base, (args rank).size⟩ else ⟨cxlRptrNull, 0⟩
  dispUnit := 1

def windowShm (order : List (Fin n)) : CxlWinShm n :=
  order.foldl (fun shm rank => { shm with dispUnit := (args rank).dispUnit.toUInt32 })
    (registerCxlWindow regionSize args)

end Window

inductive RmaKind where
  | put (typeSize : Int32)
  | get (typeSize : Int32)
  | accumulate (isSum isDouble isInt : Bool)

structure RmaCall (n : Nat) where
  kind : RmaKind
  origin : Fin n
  originCount : Int32
  target : Fin n
  targetDisp : Int64

namespace RmaCall
variable (call : RmaCall n)

def bytes : Option Nat :=
  match call.kind with
  | .put typeSize | .get typeSize =>
    some (call.originCount.toInt64.toUInt64 * typeSize.toInt64.toUInt64).toNat
  | .accumulate isSum isDouble isInt =>
    if isSum then
      if isDouble then some (8 * call.originCount.toInt.toNat)
      else if isInt then some (4 * call.originCount.toInt.toNat)
      else none
    else none

/-- The access to shared memory: its first byte and the number of bytes; nothing for a call that goes to MPI. -/
def access (enabled : Bool) (regionSize : UInt64) (shm : CxlWinShm n) : Option (UInt64 × Nat) :=
  if enabled then
    let info := shm.ranks call.target
    if info.baseRptr = cxlRptrNull ∨ regionSize ≤ info.baseRptr then none
    else call.bytes.map fun bytes => (info.baseRptr + call.targetDisp.toUInt64 * shm.dispUnit.toUInt64, bytes)
  else none

variable (regionSize : UInt64) (args : Fin n → WindowArgs)

def offset : Int := call.targetDisp.toInt * (args call.target).dispUnit.toInt

/-- Every byte of an access to shared memory is the one that is meant, in the window of the target. -/
def InWindow (order : List (Fin n)) : Prop :=
  ∀ start bytes, call.access (isCxlPtr regionSize args call.origin) regionSize (windowShm regionSize args order) =
      some (start, bytes) →
    ∀ i, i < bytes →
      ((start + UInt64.ofNat i).toNat : Int) = (args call.target).base.toNat + call.offset args + i ∧
      (args call.target).base ≤ start + UInt64.ofNat i ∧
      ((start + UInt64.ofNat i).toNat : Int) < (args call.target).base.toNat + (args call.target).size.toNat

def lastUnit (order : List (Fin n)) : Nat := (order.getLast?.elim 1 fun rank => (args rank).dispUnit.toUInt32).toNat

def Direct (bytes : Nat) : Prop :=
  isCxlPtr regionSize args call.origin = true ∧ isCxlPtr regionSize args call.target = true ∧ call.bytes = some bytes

/-- The access stays in the window, and the unit that was stored last leads to the same place. -/
structure Fitting (order : List (Fin n)) (bytes : Nat) : Prop where
  low : 0 ≤ call.offset args
  high : call.offset args + bytes ≤ (args call.target).size.toNat
  unit : call.targetDisp.toInt * lastUnit args order ≡ call.offset args [ZMOD 2 ^ 64]

end RmaCall

theorem toNat_add_modEq (a b : UInt64) : ((a + b).toNat : Int) ≡ a.toNat + b.toNat [ZMOD 2 ^ 64] := by
  rw [UInt64.toNat_add]
  push_cast
  exact Int.mod_modEq _ _

theorem toNat_mul_modEq (a b : UInt64) : ((a * b).toNat : Int) ≡ a.toNat * b.toNat [ZMOD 2 ^ 64] := by
  rw [UInt64.toNat_mul]
  push_cast
  exact Int.mod_modEq _ _

theorem toUInt64_modEq (x : Int64) : (x.toUInt64.toNat : Int) ≡ x.toInt [ZMOD 2 ^ 64] := by
  have value : x.toInt = if 2 * x.toUInt64.toNat < 2 ^ 64 then (x.toUInt64.toNat : Int)
      else x.toUInt64.toNat - 2 ^ 64 := BitVec.toInt_eq_toNat_cond _
  rw [value]
  split
  · rfl
  · exact Int.modEq_iff_dvd.mpr ⟨-1, by omega⟩

theorem toNat_eq_of_modEq {a : UInt64} {x : Int} (same : (a.toNat : Int) ≡ x [ZMOD 2 ^ 64]) (low : 0 ≤ x)
    (high : x < 2 ^ 64) : (a.toNat : Int) = x := by
  have bound := a.toNat_lt
  rw [Int.ModEq, Int.emod_eq_of_lt (by omega) (by omega), Int.emod_eq_of_lt low high] at same
  exact same

namespace RmaCall
variable (call : RmaCall n) (regionSize : UInt64) (args : Fin n → WindowArgs) (order : List (Fin n)) {bytes : Nat}

def start : UInt64 := (args call.target).base + call.targetDisp.toUInt64 * UInt64.ofNat (lastUnit args order)

theorem windowShm_dispUnit : (windowShm regionSize args order).dispUnit.toNat = lastUnit args order := by
  rw [lastUnit]
  congr 1
  induction order using List.reverseRecOn with
  | nil => rfl
  | append_singleton order rank =>
    rw [windowShm, List.foldl_append, List.getLast?_append]
    rfl

theorem windowShm_unit : (windowShm regionSize args order).dispUnit.toUInt64 = UInt64.ofNat (lastUnit args order) := by
  have bound : (windowShm regionSize args order).dispUnit.toNat < UInt64.size := by
    have small := (windowShm regionSize args order).dispUnit.toNat_lt
    rw [UInt64.size]
    omega
  rw [← windowShm_dispUnit regionSize, ← UInt64.toNat_inj, UInt32.toNat_toUInt64, UInt64.toNat_ofNat_of_lt' bound]

theorem windowShm_ranks : (windowShm regionSize args order).ranks = (registerCxlWindow regionSize args).ranks := by
  have keep : ∀ (shm : CxlWinShm n) (rank : Fin n), shm.ranks = (registerCxlWindow regionSize args).ranks →
      ({ shm with dispUnit := (args rank).dispUnit.toUInt32 } : CxlWinShm n).ranks =
        (registerCxlWindow regionSize args).ranks := fun _ _ same => same
  exact Run.invariant keep rfl order

theorem access_eq_some_iff {first : UInt64} :
    call.access (isCxlPtr regionSize args call.origin) regionSize (windowShm regionSize args order) =
        some (first, bytes) ↔
      call.Direct regionSize args bytes ∧ call.start args order = first := by
  rw [access, Direct, windowShm_ranks, windowShm_unit]
  cases isCxlPtr regionSize args call.origin with
  | false => simp
  | true =>
    cases inside : isCxlPtr regionSize args call.target with
    | false => simp [registerCxlWindow, inside]
    | true =>
      have below : (args call.target).base < regionSize := of_decide_eq_true inside
      have nonnull : (args call.target).base ≠ cxlRptrNull := by
        rintro null
        rw [null, UInt64.lt_iff_toNat_lt] at below
        have bound := regionSize.toNat_lt
        have most : cxlRptrNull.toNat = 18446744073709551615 := rfl
        omega
      have above : ¬regionSize ≤ (args call.target).base := UInt64.not_le.mpr below
      simp [registerCxlWindow, inside, nonnull, above, start, and_comm]

theorem start_modEq :
    ((call.start args order).toNat : Int) ≡
      (args call.target).base.toNat + call.targetDisp.toInt * lastUnit args order [ZMOD 2 ^ 64] := by
  have bound : lastUnit args order < UInt64.size := by
    have small := (order.getLast?.elim 1 fun rank => (args rank).dispUnit.toUInt32).toNat_lt
    rw [lastUnit, UInt64.size]
    omega
  have unit : (UInt64.ofNat (lastUnit args order)).toNat = lastUnit args order := UInt64.toNat_ofNat_of_lt' bound
  calc
    ((call.start args order).toNat : Int)
      ≡ (args call.target).base.toNat + (call.targetDisp.toUInt64 * UInt64.ofNat (lastUnit args order)).toNat
        [ZMOD 2 ^ 64] := toNat_add_modEq _ _
    _ ≡ (args call.target).base.toNat + call.targetDisp.toUInt64.toNat * (lastUnit args order : Nat) [ZMOD 2 ^ 64] := by
        have product := toNat_mul_modEq call.targetDisp.toUInt64 (UInt64.ofNat (lastUnit args order))
        rw [unit] at product
        exact Int.ModEq.add_left _ product
    _ ≡ (args call.target).base.toNat + call.targetDisp.toInt * lastUnit args order [ZMOD 2 ^ 64] :=
        Int.ModEq.add_left _ (Int.ModEq.mul_right _ (toUInt64_modEq _))

theorem byte_modEq (i : Nat) :
    ((call.start args order + UInt64.ofNat i).toNat : Int) ≡
      (args call.target).base.toNat + call.targetDisp.toInt * lastUnit args order + i [ZMOD 2 ^ 64] := by
  refine (toNat_add_modEq _ _).trans (Int.ModEq.add (call.start_modEq args order) ?_)
  rw [UInt64.toNat_ofNat']
  push_cast
  exact Int.mod_modEq _ _

variable {call regionSize args order}

theorem Fitting.byte (fitting : call.Fitting args order bytes) {i : Nat} (inside : i < bytes) :
    ((call.start args order + UInt64.ofNat i).toNat : Int) =
      (args call.target).base.toNat + call.offset args + i := by
  have low := fitting.low
  have high := fitting.high
  have fits := (args call.target).fits
  refine toNat_eq_of_modEq ((call.byte_modEq args order i).trans ?_) (by omega) (by omega)
  exact Int.ModEq.add_right _ (Int.ModEq.add_left _ fitting.unit)

theorem InWindow.fitting (window : call.InWindow regionSize args order)
    (direct : call.Direct regionSize args bytes) (some_byte : 0 < bytes) : call.Fitting args order bytes := by
  have here := window _ bytes ((call.access_eq_some_iff regionSize args order).mpr ⟨direct, rfl⟩)
  obtain ⟨first, low, -⟩ := here 0 some_byte
  obtain ⟨last, -, high⟩ := here (bytes - 1) (by omega)
  rw [UInt64.le_iff_toNat_le] at low
  refine ⟨by omega, by omega, ?_⟩
  have same := call.byte_modEq args order 0
  rw [first] at same
  exact (Int.ModEq.add_left_cancel' _ (Int.ModEq.add_right_cancel' _ same)).symm

/-- An access keeps to the target's window just if it fits and its offset comes out the same with the unit that some
rank stored last. -/
theorem inWindow_iff (call : RmaCall n) (regionSize : UInt64) (args : Fin n → WindowArgs) (order : List (Fin n)) :
    call.InWindow regionSize args order ↔
      ∀ bytes, call.Direct regionSize args bytes → 0 < bytes → call.Fitting args order bytes := by
  constructor
  · intro window bytes direct some_byte
    exact window.fitting direct some_byte
  · intro all first bytes accessed i inside
    obtain ⟨direct, rfl⟩ := (call.access_eq_some_iff regionSize args order).mp accessed
    have fitting := all bytes direct (by omega)
    have byte := fitting.byte inside
    have low := fitting.low
    have high := fitting.high
    rw [UInt64.le_iff_toNat_le]
    exact ⟨byte, by omega, by omega⟩

def twoUnits : Fin 2 → WindowArgs
  | 0 => ⟨0, 64, 1, by decide⟩
  | 1 => ⟨64, 64, 8, by decide⟩

/-- Rank 0 stores its unit last: eight bytes for the second unit of rank 1 go to its second byte. -/
theorem not_inWindow_twoUnits : ¬ RmaCall.InWindow ⟨.put 8, 0, 1, 1, 1⟩ 4096 twoUnits [1, 0] := by
  intro window
  exact absurd (window 65 8 (by decide) 0 (by decide)).1 (by decide)

-- In the same run eight bytes beyond the end of rank 0's window go to the window of rank 1.
example : ¬ RmaCall.InWindow ⟨.put 8, 1, 1, 0, 64⟩ 4096 twoUnits [1, 0] := by
  intro window
  exact absurd (window 64 8 (by decide) 0 (by decide)).2.2 (by decide)

end RmaCall
end CxlMemSim.Mpi
