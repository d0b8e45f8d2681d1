import CxlMemSim.Lib.Run

/-! The reorder buffer of the simulator: instructions enter at the tail, and a tick retires up to four from the head. -/
namespace CxlMemSim.Simulator
open List

structure InstructionGroup where
  address : Int64
  cycleCount : Int64
  retireTimestamp : Int64

/-- A latency as `canRetire` rounds it, which is at least 1. -/
abbrev Latency := { l : Int64 // 1 ≤ l }

structure Rob where
  currentCycle : Int64
  queue : List InstructionGroup := []
  stallCount : Int64 := 0
  stallEventCount : Int64 := 0
  curLatency : Int64 := 0

namespace Rob
variable (s : Rob)

def stall : Rob := { s with stallCount := s.stallCount + 1, stallEventCount := s.stallEventCount + 1 }

def issue (maxSize : Nat) (ins : InstructionGroup) : Rob × Bool :=
  if maxSize ≤ s.queue.length then (s.stall, false) else ({ s with queue := s.queue ++ [ins] }, true)

def charge (ins : InstructionGroup) (latency : Latency) : Rob × InstructionGroup :=
  if s.curLatency = 0 then
    let stallCount := s.stallCount + latency.val
    ({ s with
        curLatency := latency.val
        stallCount
        stallEventCount := if stallCount % 2 = 0 then s.stallEventCount + 1 else s.stallEventCount
        currentCycle := s.currentCycle + latency.val },
      { ins with retireTimestamp := ins.retireTimestamp + latency.val })
  else ({ s with curLatency := 1, currentCycle := s.currentCycle + 1 }, ins)

def canRetire (ins : InstructionGroup) (latency : Latency) : Rob × InstructionGroup × Bool :=
  if ins.address = 0 then (s, ins, true)
  else
    let charged := s.charge ins latency
    let waitTime := (charged.1.currentCycle - charged.2.cycleCount).toUInt64
    if waitTime < (charged.1.curLatency / 2).toUInt64 then (charged.1.stall, charged.2, false)
    else ({ charged.1 with curLatency := 0 }, charged.2, true)

def retire (latency : Nat → Latency) : Nat → Rob → Rob × List InstructionGroup
  | 0, s => (s, [])
  | n + 1, s =>
    match s.queue with
    | [] => (s, [])
    | ins :: rest =>
      let result := s.canRetire ins (latency n)
      if result.2.2 then
        let later := retire latency n { result.1 with queue := rest }
        (later.1, result.2.1 :: later.2)
      else ({ result.1 with queue := result.2.1 :: rest }, [])

def maxRetirePerCycle : Nat := 4

def tick (latency : Nat → Latency) : Rob × List InstructionGroup :=
  retire latency maxRetirePerCycle { s with currentCycle := s.currentCycle + 1 }

end Rob

structure Traced where
  rob : Rob
  issued : List InstructionGroup := []
  retired : List InstructionGroup := []

inductive Event
  | issue (ins : InstructionGroup)
  | tick (latency : Nat → Latency)

def Traced.step (maxSize : Nat) (t : Traced) : Event → Traced
  | .issue ins =>
    let result := t.rob.issue maxSize ins
    { t with rob := result.1, issued := if result.2 then t.issued ++ [ins] else t.issued }
  | .tick latency =>
    let result := t.rob.tick latency
    { t with rob := result.1, retired := t.retired ++ result.2 }

def InstructionGroup.key (ins : InstructionGroup) : Int64 × Int64 := (ins.address, ins.cycleCount)

structure Traced.InOrder (maxSize : Nat) (t : Traced) : Prop where
  order : (t.retired ++ t.rob.queue).map (·.key) = t.issued.map (·.key)
  within : t.rob.queue.length ≤ maxSize

namespace Rob
variable {s : Rob}

theorem canRetire_key (s : Rob) (ins : InstructionGroup) (latency : Latency) :
    (s.canRetire ins latency).2.1.key = ins.key := by
  have charged : (s.charge ins latency).2.key = ins.key := by
    rw [charge]
    split <;> rfl
  rw [canRetire]
  split_ifs
  · rfl
  · dsimp only
    split_ifs <;> exact charged

/-- An instruction waits only when its latency is asked for, so it waits once. -/
theorem canRetire_refused {ins : InstructionGroup} {latency : Latency}
    (refused : (s.canRetire ins latency).2.2 = false) :
    s.curLatency = 0 ∧ (s.canRetire ins latency).1.curLatency ≠ 0 := by
  rw [canRetire] at refused ⊢
  split_ifs at refused ⊢ with register
  dsimp only at refused ⊢
  split_ifs at refused ⊢ with waits
  by_cases fresh : s.curLatency = 0
  · refine ⟨fresh, ?_⟩
    rw [charge, if_pos fresh]
    have positive := latency.property
    intro zero
    change latency.val = 0 at zero
    rw [zero] at positive
    exact absurd positive (by decide)
  · rw [charge, if_neg fresh] at waits
    have none : ((1 : Int64) / 2).toUInt64 = 0 := by decide
    exact absurd (none ▸ waits) (Nat.not_lt_zero _)

theorem retire_keys (latency : Nat → Latency) (n : Nat) (s : Rob) :
    ((retire latency n s).2 ++ (retire latency n s).1.queue).map (·.key) = s.queue.map (·.key) := by
  induction n generalizing s with
  | zero => rfl
  | succ n ih =>
    rw [retire]
    cases queue : s.queue with
    | nil => simp [queue]
    | cons ins rest =>
      have key := s.canRetire_key ins (latency n)
      dsimp only
      split
      · rw [cons_append, map_cons, ih, key, map_cons]
      · rw [nil_append, map_cons, key, map_cons]

theorem length_retire (latency : Nat → Latency) (n : Nat) (s : Rob) :
    (retire latency n s).1.queue.length ≤ s.queue.length := by
  have lengths := congrArg length (retire_keys latency n s)
  rw [length_map, length_map, length_append] at lengths
  omega

def ticksLeft (s : Rob) : Nat := 2 * s.queue.length - if s.curLatency = 0 then 0 else 1

theorem ticksLeft_tick (latency : Nat → Latency) : (s.tick latency).1.ticksLeft ≤ s.ticksLeft - 1 := by
  rw [tick, maxRetirePerCycle, retire]
  cases queue : s.queue with
  | nil => simp [ticksLeft, queue]
  | cons ins rest =>
    dsimp only
    split
    · have shorter := length_retire latency 3
        { (canRetire { s with currentCycle := s.currentCycle + 1 } ins (latency 3)).1 with queue := rest }
      simp only [ticksLeft, queue, length_cons] at shorter ⊢
      split_ifs <;> omega
    · rename_i refused
      obtain ⟨fresh, waits⟩ := canRetire_refused (eq_false_of_ne_true refused)
      simp only [ticksLeft, queue, length_cons, if_neg waits, if_pos fresh]
      omega

end Rob

theorem Traced.InOrder.step {maxSize : Nat} {t : Traced} (h : t.InOrder maxSize) (event : Event) :
    (t.step maxSize event).InOrder maxSize := by
  cases event with
  | issue ins =>
    by_cases full : maxSize ≤ t.rob.queue.length
    · rw [Traced.step, Rob.issue, if_pos full]
      exact ⟨h.order, h.within⟩
    · rw [Traced.step, Rob.issue, if_neg full]
      refine ⟨?_, ?_⟩
      · dsimp only
        rw [if_pos rfl, ← append_assoc, map_append, h.order, map_append]
      · dsimp only
        rw [length_append, length_singleton]
        exact Nat.lt_of_not_le full
  | tick latency =>
    refine ⟨?_, Nat.le_trans (Rob.length_retire latency 4 _) h.within⟩
    have order : ((t.rob.tick latency).2 ++ (t.rob.tick latency).1.queue).map (·.key) = t.rob.queue.map (·.key) :=
      Rob.retire_keys latency 4 _
    rw [Traced.step, append_assoc, map_append, order, ← map_append, h.order]

/-- In any run instructions are retired in the order in which they were issued, none is lost or retired twice, and no
more than fit are in the buffer. -/
theorem retires_inOrder (maxSize : Nat) (cycle : Int64) (events : List Event) :
    (events.foldl (Traced.step maxSize) { rob := { currentCycle := cycle } }).InOrder maxSize :=
  Run.invariant (I := Traced.InOrder maxSize) (fun _ event h => h.step event) ⟨rfl, Nat.zero_le _⟩ events

theorem drains (s : Rob) (latencies : List (Nat → Latency)) (enough : 2 * s.queue.length ≤ latencies.length) :
    (latencies.foldl (fun s latency => (s.tick latency).1) s).queue = [] := by
  have bound : s.ticksLeft ≤ latencies.length := Nat.le_trans (Nat.sub_le _ _) enough
  clear enough
  induction latencies generalizing s with
  | nil =>
    rw [length_nil, Rob.ticksLeft] at bound
    rw [foldl_nil, ← length_eq_zero_iff]
    split at bound <;> omega
  | cons latency rest ih =>
    rw [length_cons] at bound
    exact ih _ (Nat.le_trans (Rob.ticksLeft_tick latency) (Nat.sub_le_of_le_add bound))

theorem drains_waiting :
    ([fun _ => ⟨9, by decide⟩, fun _ => ⟨5, by decide⟩].foldl (fun (s : Rob) latency => (s.tick latency).1)
      ⟨0, [⟨0x40, 7, 0⟩], 0, 0, 0⟩).queue = [] :=
  drains ⟨0, [⟨0x40, 7, 0⟩], 0, 0, 0⟩ [fun _ => ⟨9, by decide⟩, fun _ => ⟨5, by decide⟩] (by decide)

end CxlMemSim.Simulator
