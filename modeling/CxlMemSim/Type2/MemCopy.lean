import CxlMemSim.Type2.CoherencyLock

/-! Without a GPU backend the two copy commands move bytes between the command buffer and device memory. -/
namespace CxlMemSim.Type2
open ByteMemory CXLType2State CXLBARCoherencyState

inductive CopyCommand where
  | htod | dtoh

namespace CXLType2State

def loadBuffer (ct2d : CXLType2State) (data : Nat → UInt8) : CXLType2State := { ct2d with gpuData := data }

structure CopiedIn (before after : CXLType2State) (devPtr size : UInt64) : Prop where
  buffer : after.gpuData = before.gpuData
  copied : ∀ i, i < size.toNat → after.deviceMem (UInt64.ofNat (devPtr.toNat + i)) = before.gpuData i
  frame : ∀ a : UInt64, a.toNat < devPtr.toNat ∨ devPtr.toNat + size.toNat ≤ a.toNat →
    after.deviceMem a = before.deviceMem a

structure CopiedOut (before after : CXLType2State) (devPtr size : UInt64) : Prop where
  memory : after.deviceMem = before.deviceMem
  copied : ∀ i, i < size.toNat → after.gpuData i = before.deviceMem (UInt64.ofNat (devPtr.toNat + i))
  frame : ∀ i, size.toNat ≤ i → after.gpuData i = before.gpuData i

def Fitting (ct2d : CXLType2State) (devPtr size : UInt64) : Prop :=
  ∀ i, i < size.toNat → devPtr.toNat + i < ct2d.deviceMemSize.toNat ∧ i < gpuDataSize.toNat

def Accepts (ct2d : CXLType2State) (devPtr size : UInt64) : Prop :=
  size ≤ gpuDataSize ∧ devPtr + size ≤ ct2d.deviceMemSize

/-- After a copy to the device the command buffer may be filled anew; the copy back returns and brings the bytes
again. -/
def RoundTrip (ct2d : CXLType2State) (devPtr size : UInt64) (reply : GpuReply) : Prop :=
  (ct2d.memCopyHtod devPtr size reply).2 = .success → ∀ data,
    (((ct2d.memCopyHtod devPtr size reply).1.loadBuffer data).memCopyDtoh
      devPtr size reply).1.barCoherency.lock.relocked = false ∧
    (((ct2d.memCopyHtod devPtr size reply).1.loadBuffer data).memCopyDtoh devPtr size reply).2 = .success ∧
    ∀ i, i < size.toNat →
      (((ct2d.memCopyHtod devPtr size reply).1.loadBuffer data).memCopyDtoh devPtr size reply).1.gpuData i =
        ct2d.gpuData i

/-- The sum of pointer and size stays below `2 ^ 64`, or the command is refused all the same. -/
def Unwrapped (ct2d : CXLType2State) (devPtr size : UInt64) : Prop :=
  devPtr.toNat + size.toNat < 2 ^ 64 ∨ gpuDataSize < size ∨
    ct2d.deviceMemSize.toNat + 2 ^ 64 < devPtr.toNat + size.toNat

/-- The line of an accepted pointer is tracked already, or is not asked for. -/
def Answers (ct2d : CXLType2State) (devPtr size : UInt64) : Prop :=
  ct2d.Accepts devPtr size → ¬ ct2d.barCoherency.Notifies devPtr

end CXLType2State

namespace CopyCommand

def exec (ct2d : CXLType2State) (devPtr size : UInt64) (reply : GpuReply) : CopyCommand → CXLType2State × CXLGPUError
  | .htod => ct2d.memCopyHtod devPtr size reply
  | .dtoh => ct2d.memCopyDtoh devPtr size reply

def Copied (before after : CXLType2State) (devPtr size : UInt64) : CopyCommand → Prop
  | .htod => before.CopiedIn after devPtr size
  | .dtoh => before.CopiedOut after devPtr size

/-- The command returns.  If it reports success it has made its copy inside both memories; otherwise it reports an error
and leaves them as they are. -/
structure Truthful (ct2d : CXLType2State) (devPtr size : UInt64) (reply : GpuReply) (c : CopyCommand) : Prop where
  returns : (c.exec ct2d devPtr size reply).1.barCoherency.lock.relocked = false
  success : (c.exec ct2d devPtr size reply).2 = .success →
    ct2d.Fitting devPtr size ∧ c.Copied ct2d (c.exec ct2d devPtr size reply).1 devPtr size
  failure : (c.exec ct2d devPtr size reply).2 ≠ .success →
    (c.exec ct2d devPtr size reply).2 = .errorInvalidValue ∧
      (c.exec ct2d devPtr size reply).1.gpuData = ct2d.gpuData ∧
      (c.exec ct2d devPtr size reply).1.deviceMem = ct2d.deviceMem

end CopyCommand

namespace CXLType2State

variable {ct2d : CXLType2State} {devPtr size : UInt64}

section
variable (noBackend : ct2d.hetgpuInitialized = false)
include noBackend

theorem memCopyHtod_accepted (accepted : ct2d.Accepts devPtr size)
    (reply : GpuReply) : ct2d.memCopyHtod devPtr size reply =
      ((ct2d.copyIn devPtr ct2d.gpuData size).notifyGpuAccess devPtr true, .success) := by
  rw [memCopyHtod, if_neg (UInt64.not_lt.mpr accepted.1), noBackend, if_neg Bool.false_ne_true, if_pos accepted.2]

theorem memCopyDtoh_accepted (accepted : ct2d.Accepts devPtr size)
    (reply : GpuReply) : ct2d.memCopyDtoh devPtr size reply =
      ((ct2d.notifyGpuAccess devPtr false).fillGpuData (some (ct2d.copyOut devPtr)) size, .success) := by
  rw [memCopyDtoh, if_neg (UInt64.not_lt.mpr accepted.1), noBackend, if_neg Bool.false_ne_true, if_pos accepted.2]
  rfl

theorem memCopyHtod_refused (refused : ¬ct2d.Accepts devPtr size)
    (reply : GpuReply) : ct2d.memCopyHtod devPtr size reply = (ct2d, .errorInvalidValue) := by
  rw [memCopyHtod]
  split
  · rfl
  · rename_i fits
    rw [noBackend, if_neg Bool.false_ne_true, if_neg fun below => refused ⟨UInt64.not_lt.mp fits, below⟩]

theorem memCopyDtoh_refused (refused : ¬ct2d.Accepts devPtr size)
    (reply : GpuReply) : ct2d.memCopyDtoh devPtr size reply = (ct2d, .errorInvalidValue) := by
  rw [memCopyDtoh]
  split
  · rfl
  · rename_i fits
    rw [noBackend, if_neg Bool.false_ne_true, if_neg fun below => refused ⟨UInt64.not_lt.mp fits, below⟩]

end

theorem unwrapped_iff : ct2d.Unwrapped devPtr size ↔
    (ct2d.Accepts devPtr size → devPtr.toNat + size.toNat ≤ ct2d.deviceMemSize.toNat) := by
  have small := ct2d.deviceMemSize.toNat_lt
  have small' := devPtr.toNat_lt
  have small'' := size.toNat_lt
  rw [Unwrapped, Accepts, UInt64.lt_iff_toNat_lt, UInt64.le_iff_toNat_le, UInt64.le_iff_toNat_le, UInt64.toNat_add]
  omega

theorem walk_eq_ofNat (p : UInt64) (i : Nat) : walk p i = UInt64.ofNat (p.toNat + i) := by
  apply UInt64.toNat_inj.mp
  rw [walk_toNat, UInt64.toNat_ofNat']

theorem copyIn_at (data : Nat → UInt8) {i : Nat} (inside : i < size.toNat) :
    (ct2d.copyIn devPtr data size).deviceMem (walk devPtr i) = data i :=
  poke_peek_at ct2d.deviceMem data (walk_distinct devPtr size.toNat_lt.le) inside

theorem fillGpuData_at (data : Nat → UInt8) {i : Nat} (inside : i < size.toNat) :
    (ct2d.fillGpuData (some data) size).gpuData i = data i :=
  poke_peek_at ct2d.gpuData data (fun _ _ _ _ same => same) inside

theorem copyIn_copiedIn (below : devPtr.toNat + size.toNat ≤ ct2d.deviceMemSize.toNat) :
    ct2d.CopiedIn ((ct2d.copyIn devPtr ct2d.gpuData size).notifyGpuAccess devPtr true) devPtr size where
  buffer := rfl
  copied i inside := by
    rw [← walk_eq_ofNat]
    exact copyIn_at ct2d.gpuData inside
  frame a outside := by
    refine poke_other _ _ _ fun i inside here => ?_
    rw [peek_length] at inside
    have small := ct2d.deviceMemSize.toNat_lt
    have place := congrArg UInt64.toNat here
    rw [walk_toNat, Nat.mod_eq_of_lt (by omega)] at place
    omega

theorem fillGpuData_copiedOut :
    ct2d.CopiedOut ((ct2d.notifyGpuAccess devPtr false).fillGpuData (some (ct2d.copyOut devPtr)) size) devPtr
      size where
  memory := rfl
  copied i inside := by
    rw [fillGpuData_at _ inside, copyOut, walk_eq_ofNat]
  frame i outside := by
    refine poke_other _ _ _ fun j inside here => ?_
    rw [peek_length] at inside
    exact absurd here (by rw [id]; omega)

theorem inside_of_below (accepted : ct2d.Accepts devPtr size)
    (below : devPtr.toNat + size.toNat ≤ ct2d.deviceMemSize.toNat) : ct2d.Fitting devPtr size := by
  have buffer := UInt64.le_iff_toNat_le.mp accepted.1
  intro i hi
  exact ⟨by omega, by omega⟩

theorem below_of_inside (accepted : ct2d.Accepts devPtr size) (inside : ct2d.Fitting devPtr size) :
    devPtr.toNat + size.toNat ≤ ct2d.deviceMemSize.toNat := by
  have small := devPtr.toNat_lt
  have sum := UInt64.le_iff_toNat_le.mp accepted.2
  rw [UInt64.toNat_add] at sum
  by_cases empty : size.toNat = 0
  · omega
  · have last := (inside (size.toNat - 1) (by omega)).1
    omega

theorem roundTrip (noBackend : ct2d.hetgpuInitialized = false) (unlocked : ct2d.barCoherency.lock = {})
    (answers : ct2d.Answers devPtr size) (reply : GpuReply) : ct2d.RoundTrip devPtr size reply := by
  intro success data
  have accepted : ct2d.Accepts devPtr size := by
    by_contra refused
    rw [memCopyHtod_refused noBackend refused] at success
    cases success
  have free : ct2d.barCoherency.lock.held = false := by rw [unlocked]
  have first := notifyGpuAccess_locks free devPtr true
  have second := notifyGpuAccess_locks first.free devPtr false
  have between := first.once unlocked (answers accepted)
  rw [memCopyHtod_accepted noBackend accepted, memCopyDtoh_accepted (by exact noBackend) (by exact accepted)]
  refine ⟨(second.relocked_iff between).mpr (not_notifies_notifyGpuAccess free devPtr true), rfl, fun i inside => ?_⟩
  rw [fillGpuData_at _ inside]
  exact copyIn_at ct2d.gpuData inside

end CXLType2State

namespace CopyCommand

variable {ct2d : CXLType2State} {devPtr size : UInt64}

section
variable (noBackend : ct2d.hetgpuInitialized = false)
include noBackend

theorem exec_refused (refused : ¬ct2d.Accepts devPtr size)
    (reply : GpuReply) (c : CopyCommand) : c.exec ct2d devPtr size reply = (ct2d, .errorInvalidValue) := by
  cases c with
  | htod => exact memCopyHtod_refused noBackend refused reply
  | dtoh => exact memCopyDtoh_refused noBackend refused reply

theorem exec_success (accepted : ct2d.Accepts devPtr size)
    (reply : GpuReply) (c : CopyCommand) : (c.exec ct2d devPtr size reply).2 = .success := by
  cases c with
  | htod => exact congrArg Prod.snd (memCopyHtod_accepted noBackend accepted reply)
  | dtoh => exact congrArg Prod.snd (memCopyDtoh_accepted noBackend accepted reply)

theorem exec_copied (accepted : ct2d.Accepts devPtr size)
    (below : devPtr.toNat + size.toNat ≤ ct2d.deviceMemSize.toNat) (reply : GpuReply) (c : CopyCommand) :
    c.Copied ct2d (c.exec ct2d devPtr size reply).1 devPtr size := by
  cases c with
  | htod =>
    rw [exec, memCopyHtod_accepted noBackend accepted]
    exact copyIn_copiedIn below
  | dtoh =>
    rw [exec, memCopyDtoh_accepted noBackend accepted]
    exact fillGpuData_copiedOut

theorem exec_relocked (unlocked : ct2d.barCoherency.lock = {}) (reply : GpuReply) (c : CopyCommand) :
    (c.exec ct2d devPtr size reply).1.barCoherency.lock.relocked = false ↔ ct2d.Answers devPtr size := by
  have free : ct2d.barCoherency.lock.held = false := by rw [unlocked]
  rw [Answers, Accepts, ← not_and, and_assoc]
  cases c with
  | htod => rw [exec, (memCopyHtod_locks free devPtr size reply).relocked_iff unlocked, Relocks, UInt64.not_lt]
  | dtoh =>
    rw [exec, (memCopyDtoh_locks free devPtr size reply).relocked_iff unlocked, Relocks, UInt64.not_lt, noBackend,
      or_iff_right Bool.false_ne_true]

theorem truthful_of_unwrapped (unlocked : ct2d.barCoherency.lock = {}) (unwrapped : ct2d.Unwrapped devPtr size)
    (answers : ct2d.Answers devPtr size) (reply : GpuReply) (c : CopyCommand) :
    c.Truthful ct2d devPtr size reply := by
  have returns := (exec_relocked noBackend unlocked reply c).mpr answers
  by_cases accepted : ct2d.Accepts devPtr size
  · have below := unwrapped_iff.mp unwrapped accepted
    have success := exec_success noBackend accepted reply c
    exact ⟨returns, fun _ => ⟨inside_of_below accepted below, exec_copied noBackend accepted below reply c⟩,
      fun failed => absurd success failed⟩
  · have refused := exec_refused noBackend accepted reply c
    refine ⟨returns, ?_, ?_⟩
    · intro success
      rw [refused] at success
      cases success
    · intro _
      rw [refused]
      exact ⟨rfl, rfl, rfl⟩

theorem unwrapped_of_truthful {reply : GpuReply} {c : CopyCommand}
    (truthful : c.Truthful ct2d devPtr size reply) : ct2d.Unwrapped devPtr size := by
  by_contra wrapped
  have accepted : ct2d.Accepts devPtr size := by
    by_contra refused
    exact wrapped (unwrapped_iff.mpr fun accepted => absurd accepted refused)
  have inside := (truthful.success (exec_success noBackend accepted reply c)).1
  exact wrapped (unwrapped_iff.mpr fun _ => below_of_inside accepted inside)

end

/-- Without a backend a copy command does what it reports, and there and back brings the same bytes, just if the sum of
pointer and size does not wrap into the device's memory and the notification does not take the lock twice. -/
theorem memCopy_truthful_iff (ct2d : CXLType2State) (devPtr size : UInt64) (reply : GpuReply) (c : CopyCommand)
    (noBackend : ct2d.hetgpuInitialized = false) (unlocked : ct2d.barCoherency.lock = {}) :
    c.Truthful ct2d devPtr size reply ∧ ct2d.RoundTrip devPtr size reply ↔
      ct2d.Unwrapped devPtr size ∧ ct2d.Answers devPtr size := by
  constructor
  · rintro ⟨truthful, -⟩
    exact ⟨unwrapped_of_truthful noBackend truthful, (exec_relocked noBackend unlocked reply c).mp truthful.returns⟩
  · rintro ⟨unwrapped, answers⟩
    exact ⟨truthful_of_unwrapped noBackend unlocked unwrapped answers reply c,
      roundTrip noBackend unlocked answers reply⟩

/-- The CPU's first line is tracked, as after a `cxl_bar_snoop_insert`. -/
def firstLineTracked : CXLType2State :=
  let ct2d := realize { deviceMemSize := 4096, cacheSize := 4096 }
  { ct2d with barCoherency := ct2d.barCoherency.snoopInsert 0 .shared .cpu }

theorem memCopy_truthful_firstByte :
    CopyCommand.htod.Truthful firstLineTracked 0 1 ⟨true, none⟩ ∧ firstLineTracked.RoundTrip 0 1 ⟨true, none⟩ :=
  (memCopy_truthful_iff firstLineTracked 0 1 ⟨true, none⟩ .htod rfl rfl).mpr
    ⟨.inl (by decide), fun _ notifies => notifies.2.2 rfl⟩

/-- The byte before the device's memory is taken for its first one: the command reports success. -/
theorem not_truthful_wrapped :
    ¬CopyCommand.htod.Truthful (realize { deviceMemSize := 4096, cacheSize := 4096 }) (-1) 1 ⟨true, none⟩ ∧
      (CopyCommand.htod.exec (realize { deviceMemSize := 4096, cacheSize := 4096 })
        (-1) 1 ⟨true, none⟩).1.barCoherency.lock = {} ∧
      (CopyCommand.htod.exec (realize { deviceMemSize := 4096, cacheSize := 4096 }) (-1) 1 ⟨true, none⟩).2 =
        .success := by
  have accepted : (realize { deviceMemSize := 4096, cacheSize := 4096 }).Accepts (-1) 1 := ⟨by decide, by decide⟩
  have success := exec_success rfl accepted ⟨true, none⟩ .htod
  refine ⟨fun truthful => ?_, rfl, success⟩
  have inside := ((truthful.success success).1 0 (by decide)).1
  exact absurd inside (by decide)

end CopyCommand
end CxlMemSim.Type2
