import CxlMemSim.Lib.Count
import CxlMemSim.Mpi.RankMailbox

/-! The steps of `cxl_register_rank`, executed once by each rank, in any order. -/
namespace CxlMemSim.Mpi
open Count Function Run List

def cxlRptrNull : UInt64 := 0xFFFFFFFFFFFFFFFF

structure CxlShmHeader where
  numRanks : UInt32
  collBarrierCount : UInt32
  collBarrierSense : UInt32
  collPhase : UInt32
  collMaxRanks : UInt32
  collDataRptr : Nat → UInt64

structure RankEntry where
  mailbox : RankMailbox
  active : UInt32

structure CxlShm where
  header : CxlShmHeader
  mailboxes : Nat → RankEntry

/-- Where a call to `cxl_register_rank` is; rank 0 goes through all, the others stay at `start` while they wait. -/
inductive RegisterPc where
  | start
  | clearing (field : Nat)
  | zeroing
  | opening
  | settingHead
  | settingTail
  | activating
  | counting
  | returned
deriving DecidableEq

def CxlShmHeader.clear (header : CxlShmHeader) : Nat → CxlShmHeader
  | 0 => { header with collBarrierCount := 0 }
  | 1 => { header with collBarrierSense := 0 }
  | 2 => { header with collPhase := 0 }
  | i + 3 => { header with collDataRptr := update header.collDataRptr i cxlRptrNull }

namespace CxlShm

def setHeader (shm : CxlShm) (header : CxlShmHeader) : CxlShm := { shm with header }

def setEntry (shm : CxlShm) (rank : Nat) (entry : RankEntry) : CxlShm :=
  { shm with mailboxes := update shm.mailboxes rank entry }

end CxlShm

def RegisterPc.advance (worldSize : UInt32) (rank : Nat) (shm : CxlShm) : RegisterPc → CxlShm × RegisterPc
  | .start =>
    if rank = 0 then (shm.setHeader { shm.header with collMaxRanks := 0 }, .clearing 0)
    else (shm, if shm.header.collMaxRanks ≠ worldSize then .start else .settingHead)
  | .clearing field =>
    (shm.setHeader (shm.header.clear field),
      if field + 1 < 3 + cxlMaxRanks.toNat then .clearing (field + 1) else .zeroing)
  | .zeroing => (shm.setHeader { shm.header with numRanks := 0 }, .opening)
  | .opening => (shm.setHeader { shm.header with collMaxRanks := worldSize }, .settingHead)
  | .settingHead =>
    let entry := shm.mailboxes rank
    (shm.setEntry rank { entry with mailbox := { entry.mailbox with head := 0 } }, .settingTail)
  | .settingTail =>
    let entry := shm.mailboxes rank
    (shm.setEntry rank { entry with mailbox := { entry.mailbox with tail := 0 } }, .activating)
  | .activating => (shm.setEntry rank { shm.mailboxes rank with active := 1 }, .counting)
  | .counting => (shm.setHeader { shm.header with numRanks := shm.header.numRanks + 1 }, .returned)
  | .returned => (shm, .returned)

def RegisterPc.resets : RegisterPc → Bool
  | .start | .clearing _ | .zeroing | .opening => true
  | .settingHead | .settingTail | .activating | .counting | .returned => false

structure Startup (last : Fin cxlMaxRanks.toNat) where
  shm : CxlShm
  pc : Fin (last + 1) → RegisterPc := fun _ => .start

namespace Startup
variable {last : Fin cxlMaxRanks.toNat} {leftover : CxlShm} {pc : Fin (last + 1) → RegisterPc} {rank : Fin (last + 1)}

def worldSize (last : Fin cxlMaxRanks.toNat) : UInt32 := UInt32.ofNat (last + 1)

def step (s : Startup last) (rank : Fin (last + 1)) : Startup last where
  shm := ((s.pc rank).advance (worldSize last) rank s.shm).1
  pc := update s.pc rank ((s.pc rank).advance (worldSize last) rank s.shm).2

def Resetting (s : Startup last) (rank : Fin (last + 1)) : Prop := rank = 0 ∧ (s.pc rank).resets = true

def ResetsFirst (s : Startup last) (rank : Fin (last + 1)) : Prop := s.Resetting rank → ∀ k, s.pc k ≠ .returned

def Done (s : Startup last) : Prop := ∀ k, s.pc k = .returned

structure Ready (s : Startup last) : Prop where
  numRanks : s.shm.header.numRanks = worldSize last
  active : ∀ k : Fin (last + 1), (s.shm.mailboxes k).active = 1

def Handshake (last : Fin cxlMaxRanks.toNat) (leftover : CxlShm) (order : List (Fin (last + 1))) : Prop :=
  (order.foldl step ⟨leftover, fun _ => .start⟩).Done →
    (order.foldl step ⟨leftover, fun _ => .start⟩).Ready ∧ EveryStep step ResetsFirst ⟨leftover, fun _ => .start⟩ order

def returnedCount (pc : Fin (last + 1) → RegisterPc) : Nat := count (· = .returned) pc

theorem returnedCount_update {p : RegisterPc} (before : pc rank ≠ .returned) (after : p ≠ .returned) :
    returnedCount (update pc rank p) = returnedCount pc :=
  count_update_same ((decide_eq_false after).trans (decide_eq_false before).symm)

theorem returnedCount_return (before : pc rank ≠ .returned) :
    returnedCount (update pc rank .returned) = returnedCount pc + 1 :=
  count_update_enter (decide_eq_false before) rfl

theorem returnedCount_done {s : Startup last} (done : s.Done) : returnedCount s.pc = last + 1 := by
  have all : ∀ k, decide (s.pc k = .returned) = true := fun k => decide_eq_true (done k)
  rw [returnedCount, count_of_forall all, Fintype.card_fin]

structure Closed (s : Startup last) : Prop where
  resetting : (s.pc 0).resets = true
  waiting : ∀ k, k ≠ 0 → s.pc k = .start
  closed : last.val ≠ 0 → s.shm.header.collMaxRanks ≠ worldSize last
  zeroed : s.pc 0 = .opening → s.shm.header.numRanks = 0

structure Opened (s : Startup last) : Prop where
  opened : s.shm.header.collMaxRanks = worldSize last
  later : ∀ k, (s.pc k).resets = false ∨ k ≠ 0 ∧ s.pc k = .start
  counted : s.shm.header.numRanks = UInt32.ofNat (returnedCount s.pc)
  active : ∀ k : Fin (last + 1), s.pc k = .counting ∨ s.pc k = .returned → (s.shm.mailboxes k).active = 1

theorem worldSize_ne_zero : worldSize last ≠ 0 := by
  intro zero
  have value := congrArg UInt32.toNat zero
  have bound : last.val < 256 := last.isLt
  rw [worldSize, UInt32.toNat_ofNat_of_lt' (by rw [UInt32.size]; omega)] at value
  cases value

theorem closed_start (differs : last.val = 0 ∨ leftover.header.collMaxRanks ≠ worldSize last) :
    (⟨leftover, fun _ => .start⟩ : Startup last).Closed where
  resetting := rfl
  waiting _ _ := rfl
  closed := differs.resolve_left
  zeroed opening := by cases opening

theorem clear_collMaxRanks (header : CxlShmHeader) (field : Nat) :
    (header.clear field).collMaxRanks = header.collMaxRanks := by
  unfold CxlShmHeader.clear
  split <;> rfl

section Step
variable {s : Startup last} {rank : Fin (last + 1)} {p : RegisterPc}

theorem Closed.reset (inv : s.Closed) (after : p.resets = true) {header : CxlShmHeader}
    (closed : last.val ≠ 0 → header.collMaxRanks ≠ worldSize last) (zeroed : p = .opening → header.numRanks = 0) :
    Closed ⟨s.shm.setHeader header, update s.pc 0 p⟩ where
  resetting := by
    dsimp only
    rw [update_self]
    exact after
  waiting k other := (update_of_ne other _ _).trans (inv.waiting k other)
  closed := closed
  zeroed opening := by
    dsimp only at opening
    rw [update_self] at opening
    exact zeroed opening

theorem Closed.letGo (inv : s.Closed) (opening : s.pc 0 = .opening) :
    Opened ⟨s.shm.setHeader { s.shm.header with collMaxRanks := worldSize last }, update s.pc 0 .settingHead⟩ := by
  have none : returnedCount (update s.pc 0 .settingHead) = 0 := by
    refine count_eq_zero_iff.mpr ((forall_update_iff s.pc fun _ q => decide (q = .returned) = false).mpr ?_)
    refine ⟨rfl, fun k other => ?_⟩
    rw [inv.waiting k other]
    rfl
  refine ⟨rfl, ?_, ?_, ?_⟩
  · refine (forall_update_iff s.pc fun k q => q.resets = false ∨ k ≠ 0 ∧ q = .start).mpr ⟨.inl rfl, ?_⟩
    exact fun k other => .inr ⟨other, inv.waiting k other⟩
  · dsimp only
    rw [none]
    exact inv.zeroed opening
  · refine (forall_update_iff s.pc fun k q => q = .counting ∨ q = .returned →
      (s.shm.mailboxes k).active = 1).mpr ⟨fun late => ?_, fun k other late => ?_⟩
    · rcases late with late | late <;> cases late
    · rw [inv.waiting k other] at late
      rcases late with late | late <;> cases late

theorem Closed.step (inv : s.Closed) (rank : Fin (last + 1)) : (s.step rank).Closed ∨ (s.step rank).Opened := by
  have resetting := inv.resetting
  by_cases first : rank = 0
  · subst first
    rw [Startup.step]
    cases now : s.pc 0 with
    | start =>
      rw [RegisterPc.advance, if_pos (Fin.val_zero _)]
      exact .inl (inv.reset rfl (fun _ => worldSize_ne_zero.symm) fun opening => by cases opening)
    | clearing field =>
      have closed : last.val ≠ 0 → (s.shm.header.clear field).collMaxRanks ≠ worldSize last := by
        rw [clear_collMaxRanks]
        exact inv.closed
      rw [RegisterPc.advance]
      dsimp only
      split <;> exact .inl (inv.reset rfl closed fun opening => by cases opening)
    | zeroing => exact .inl (inv.reset rfl inv.closed fun _ => rfl)
    | opening => exact .inr (inv.letGo now)
    | settingHead | settingTail | activating | counting | returned =>
      rw [now] at resetting
      cases resetting
  · have nonzero : rank.val ≠ 0 := fun zero => first (Fin.ext zero)
    have several : last.val ≠ 0 := by
      have inside := rank.isLt
      omega
    have start := inv.waiting rank first
    rw [Startup.step, start, RegisterPc.advance, if_neg nonzero]
    dsimp only
    rw [if_pos (inv.closed several), ← start, update_eq_self]
    exact .inl inv

theorem Opened.go (inv : s.Opened) (after : p.resets = false) {shm : CxlShm}
    (opened : shm.header.collMaxRanks = s.shm.header.collMaxRanks)
    (counted : shm.header.numRanks = UInt32.ofNat (returnedCount (update s.pc rank p)))
    (own : p = .counting ∨ p = .returned → (shm.mailboxes rank).active = 1)
    (others : ∀ k : Fin (last + 1), k ≠ rank → shm.mailboxes k = s.shm.mailboxes k) :
    Opened ⟨shm, update s.pc rank p⟩ where
  opened := opened.trans inv.opened
  later := (forall_update_iff s.pc fun k q => q.resets = false ∨ k ≠ 0 ∧ q = .start).mpr
    ⟨.inl after, fun k _ => inv.later k⟩
  counted := counted
  active := by
    refine (forall_update_iff s.pc fun k q => q = .counting ∨ q = .returned →
      (shm.mailboxes k).active = 1).mpr ⟨own, fun k other late => ?_⟩
    rw [others k other]
    exact inv.active k late

theorem Opened.entry (inv : s.Opened) (before : s.pc rank ≠ .returned) (after : p.resets = false)
    (more : p ≠ .returned) {entry : RankEntry} (own : p = .counting → entry.active = 1) :
    Opened ⟨s.shm.setEntry rank entry, update s.pc rank p⟩ := by
  refine inv.go after rfl ?_ (fun late => ?_) fun k other => ?_
  · rw [returnedCount_update before more]
    exact inv.counted
  · rw [CxlShm.setEntry]
    dsimp only
    rw [update_self]
    exact own (late.resolve_right more)
  · exact update_of_ne (fun same => other (Fin.ext same)) _ _

theorem Opened.step (inv : s.Opened) (rank : Fin (last + 1)) : (s.step rank).Opened := by
  have later := inv.later rank
  rw [Startup.step]
  cases now : s.pc rank with
  | start =>
    obtain ⟨other, -⟩ := later.resolve_left (by rw [now]; exact Bool.noConfusion)
    have nonzero : rank.val ≠ 0 := fun zero => other (Fin.ext zero)
    rw [RegisterPc.advance, if_neg nonzero]
    dsimp only
    rw [if_neg (not_not.mpr inv.opened)]
    refine inv.go rfl rfl ?_ (fun late => ?_) fun _ _ => rfl
    · rw [returnedCount_update (by rw [now]; exact RegisterPc.noConfusion) RegisterPc.noConfusion]
      exact inv.counted
    · rcases late with late | late <;> cases late
  | clearing | zeroing | opening =>
    rw [now] at later
    obtain resets | ⟨-, start⟩ := later
    · cases resets
    · cases start
  | settingHead | settingTail =>
    exact inv.entry (by rw [now]; exact RegisterPc.noConfusion) rfl RegisterPc.noConfusion
      fun counting => by cases counting
  | activating =>
    exact inv.entry (by rw [now]; exact RegisterPc.noConfusion) rfl RegisterPc.noConfusion fun _ => rfl
  | counting =>
    rw [RegisterPc.advance]
    refine inv.go rfl rfl ?_ (fun _ => inv.active rank (.inl now)) fun _ _ => rfl
    rw [returnedCount_return (by rw [now]; exact RegisterPc.noConfusion), UInt32.ofNat_add, ← inv.counted]
    rfl
  | returned =>
    rw [RegisterPc.advance]
    dsimp only
    rw [← now, update_eq_self]
    exact inv

theorem step_closed_or_opened (inv : s.Closed ∨ s.Opened) (rank : Fin (last + 1)) :
    (s.step rank).Closed ∨ (s.step rank).Opened :=
  inv.elim (fun closed => closed.step rank) fun opened => .inr (opened.step rank)

theorem resetsFirst_of_inv (inv : s.Closed ∨ s.Opened) (rank : Fin (last + 1)) : s.ResetsFirst rank := by
  rintro ⟨rfl, resetting⟩ k returned
  obtain closed | opened := inv
  · by_cases first : k = 0
    · rw [first] at returned
      rw [returned] at resetting
      cases resetting
    · rw [closed.waiting k first] at returned
      cases returned
  · obtain resets | ⟨zero, -⟩ := opened.later 0
    · cases resets.symm.trans resetting
    · exact zero rfl

theorem done_opened (start : s.Closed) {order : List (Fin (last + 1))} (done : (order.foldl step s).Done) :
    (order.foldl step s).Opened := by
  have inv := invariant (I := fun s : Startup last => s.Closed ∨ s.Opened)
    (fun _ rank before => step_closed_or_opened before rank) (.inl start) order
  refine inv.resolve_left fun closed => ?_
  have resetting := closed.resetting
  rw [done 0] at resetting
  cases resetting

theorem Opened.ready (inv : s.Opened) (done : s.Done) : s.Ready where
  numRanks := by
    rw [inv.counted, returnedCount_done done]
    rfl
  active k := inv.active k (.inr (done k))

def toGo : RegisterPc → Nat
  | .start => 12 + cxlMaxRanks.toNat
  | .clearing field => 8 + (cxlMaxRanks.toNat + 3 - field)
  | .zeroing => 7
  | .opening => 6
  | .settingHead => 5
  | .settingTail => 4
  | .activating => 3
  | .counting => 2
  | .returned => 0

theorem step_other (s : Startup last) {k : Fin (last + 1)} (other : k ≠ rank) : (s.step rank).pc k = s.pc k :=
  update_of_ne other _ _

theorem step_toGo (moves : rank = 0 ∨ s.shm.header.collMaxRanks = worldSize last) (before : s.pc rank ≠ .returned) :
    toGo ((s.step rank).pc rank) < toGo (s.pc rank) := by
  rw [Startup.step]
  dsimp only
  rw [update_self]
  cases now : s.pc rank with
  | start =>
    rw [RegisterPc.advance]
    by_cases first : rank.val = 0
    · rw [if_pos first]
      simp only [toGo]
      omega
    · have isOpen := moves.resolve_left fun zero => first (congrArg Fin.val zero)
      rw [if_neg first]
      dsimp only
      rw [if_neg (not_not.mpr isOpen)]
      simp only [toGo]
      omega
  | clearing field =>
    rw [RegisterPc.advance]
    dsimp only
    split <;> (simp only [toGo]; omega)
  | returned => exact absurd now before
  | zeroing | opening | settingHead | settingTail | activating | counting => simp [RegisterPc.advance, toGo]

theorem step_collMaxRanks (other : rank ≠ 0) (isOpen : s.shm.header.collMaxRanks = worldSize last) :
    (s.step rank).shm.header.collMaxRanks = worldSize last := by
  have nonzero : rank.val ≠ 0 := fun zero => other (Fin.ext zero)
  rw [Startup.step]
  dsimp only
  cases s.pc rank with
  | start => rwa [RegisterPc.advance, if_neg nonzero]
  | clearing field => exact (clear_collMaxRanks _ _).trans isOpen
  | opening => rfl
  | zeroing | settingHead | settingTail | activating | counting | returned => exact isOpen

/-- Rank 0 is past its reset only where it has announced the world size, also if the header that was left had it. -/
theorem step_announced (inv : (s.pc 0).resets = false → s.shm.header.collMaxRanks = worldSize last)
    (rank : Fin (last + 1)) (past : ((s.step rank).pc 0).resets = false) :
    (s.step rank).shm.header.collMaxRanks = worldSize last := by
  by_cases first : rank = 0
  · subst first
    rw [Startup.step] at past ⊢
    dsimp only at past ⊢
    rw [update_self] at past
    cases now : s.pc 0 with
    | start =>
      rw [now, RegisterPc.advance, if_pos (Fin.val_zero _)] at past
      cases past
    | clearing field =>
      rw [now, RegisterPc.advance] at past
      dsimp only at past
      split at past <;> cases past
    | zeroing =>
      rw [now] at past
      cases past
    | opening => rfl
    | settingHead | settingTail | activating | counting | returned =>
      rw [now] at inv
      exact inv rfl
  · rw [step_other s (Ne.symm first)] at past
    exact step_collMaxRanks first (inv past)

theorem exists_returns (s : Startup last) (rank : Fin (last + 1))
    (moves : rank = 0 ∨ s.shm.header.collMaxRanks = worldSize last) :
    ∃ count, ((List.replicate count rank).foldl step s).pc rank = .returned ∧
      (∀ k, k ≠ rank → ((List.replicate count rank).foldl step s).pc k = s.pc k) ∧
      (rank ≠ 0 → ((List.replicate count rank).foldl step s).shm.header.collMaxRanks = worldSize last) := by
  induction bound : toGo (s.pc rank) using Nat.strong_induction_on generalizing s with
  | _ n ih =>
    by_cases before : s.pc rank = .returned
    · exact ⟨0, before, fun _ _ => rfl, fun other => moves.resolve_left other⟩
    · have fewer := step_toGo moves before
      have moves' : rank = 0 ∨ (s.step rank).shm.header.collMaxRanks = worldSize last := by
        by_cases first : rank = 0
        · exact .inl first
        · exact .inr (step_collMaxRanks first (moves.resolve_left first))
      obtain ⟨count, returned, others, isOpen⟩ := ih _ (bound ▸ fewer) (s.step rank) moves' rfl
      refine ⟨count + 1, returned, fun k other => ?_, isOpen⟩
      exact (others k other).trans (step_other s other)

theorem exists_allReturn (ranks : List (Fin (last + 1))) (s : Startup last)
    (isOpen : s.shm.header.collMaxRanks = worldSize last) (others : ∀ k ∈ ranks, k ≠ 0) :
    ∃ order : List (Fin (last + 1)), (∀ k ∈ ranks, (order.foldl step s).pc k = .returned) ∧
      ∀ k, k ∉ ranks → (order.foldl step s).pc k = s.pc k := by
  induction ranks generalizing s with
  | nil => exact ⟨[], fun _ member => absurd member not_mem_nil, fun _ _ => rfl⟩
  | cons rank ranks ih =>
    obtain ⟨count, returned, same, still⟩ := exists_returns s rank (.inr isOpen)
    obtain ⟨order, all, rest⟩ := ih ((List.replicate count rank).foldl step s)
      (still (others rank mem_cons_self)) fun k member => others k (mem_cons_of_mem _ member)
    refine ⟨List.replicate count rank ++ order, fun k member => ?_, fun k outside => ?_⟩
    · rw [foldl_append]
      by_cases later : k ∈ ranks
      · exact all k later
      · rw [rest k later, (mem_cons.mp member).resolve_right later]
        exact returned
    · obtain ⟨other, later⟩ := not_or.mp (mt mem_cons.mpr outside)
      rw [foldl_append, rest k later, same k other]

end Step

theorem not_handshake_of_stale (several : last.val ≠ 0)
    (stale : leftover.header.collMaxRanks = worldSize last) : ∃ order, ¬Handshake last leftover order := by
  obtain ⟨order, all, same⟩ := exists_allReturn ((List.finRange (last + 1)).filter (· ≠ 0))
    (⟨leftover, fun _ => .start⟩ : Startup last) stale fun k member => by simpa using (mem_filter.mp member).2
  have others : ∀ k, k ≠ 0 → (order.foldl step (⟨leftover, fun _ => .start⟩ : Startup last)).pc k = .returned :=
    fun k other => all k (mem_filter.mpr ⟨mem_finRange k, by simpa using other⟩)
  have first : (order.foldl step (⟨leftover, fun _ => .start⟩ : Startup last)).pc 0 = .start :=
    same 0 fun member => by simpa using (mem_filter.mp member).2
  obtain ⟨count, returned, kept, -⟩ := exists_returns (order.foldl step ⟨leftover, fun _ => .start⟩) 0 (.inl rfl)
  refine ⟨order ++ List.replicate count 0, fun handshake => ?_⟩
  have done : ((order ++ List.replicate count 0).foldl step ⟨leftover, fun _ => .start⟩).Done := by
    intro k
    rw [foldl_append]
    by_cases zero : k = 0
    · rw [zero]
      exact returned
    · rw [kept k zero]
      exact others k zero
  obtain ⟨-, resets⟩ := handshake done
  cases count with
  | zero => cases first.symm.trans returned
  | succ count =>
    have second : (⟨1, by omega⟩ : Fin (last + 1)) ≠ 0 := fun same => by cases congrArg Fin.val same
    have resetting : (order.foldl step (⟨leftover, fun _ => .start⟩ : Startup last)).Resetting 0 :=
      ⟨rfl, by rw [first]; rfl⟩
    exact resets.at_split resetting _ (others _ second)

/-- Whatever the order of the steps, the handshake brings all ranks to a common start just if there is only one rank or
the header that was left does not have the world size in `coll_max_ranks`. -/
theorem handshake_iff (last : Fin cxlMaxRanks.toNat) (leftover : CxlShm) :
    (∀ order, Handshake last leftover order) ↔
      last.val = 0 ∨ leftover.header.collMaxRanks ≠ worldSize last := by
  constructor
  · intro all
    by_contra stale
    obtain ⟨several, same⟩ := not_or.mp stale
    obtain ⟨order, failed⟩ := not_handshake_of_stale several (not_not.mp same)
    exact failed (all order)
  · intro differs order done
    have start := closed_start differs
    refine ⟨(done_opened start done).ready done, ?_⟩
    exact EveryStep.mono (P := fun _ _ => True) (fun _ rank inv _ => step_closed_or_opened inv rank)
      (fun _ rank inv _ => resetsFirst_of_inv inv rank) (.inl start) (everyStep_of_forall fun _ _ _ => trivial)

def twoLeft : CxlShm where
  header :=
    { numRanks := 0, collBarrierCount := 0, collBarrierSense := 0, collPhase := 0, collMaxRanks := 2,
      collDataRptr := fun _ => cxlRptrNull }
  mailboxes := fun _ => ⟨{}, 0⟩

def secondOfTwo : Fin cxlMaxRanks.toNat := ⟨1, by decide⟩

def secondFirst : List (Fin (secondOfTwo + 1)) := List.replicate 5 1 ++ List.replicate 266 0

theorem not_handshake_secondFirst : ¬Handshake secondOfTwo twoLeft secondFirst := by
  intro handshake
  have done : ∀ k, ((secondFirst.foldl step ⟨twoLeft, fun _ => .start⟩).pc k) = .returned := by decide +kernel
  obtain ⟨-, resets⟩ := handshake done
  have resetting : ((List.replicate 5 1).foldl step (⟨twoLeft, fun _ => .start⟩ : Startup secondOfTwo)).Resetting 0 :=
    ⟨rfl, by decide +kernel⟩
  have split : EveryStep step ResetsFirst ⟨twoLeft, fun _ => .start⟩
      (List.replicate 5 1 ++ 0 :: List.replicate 265 0) := resets
  exact split.at_split resetting 1 (by decide +kernel)

def mpiFinalize (shm : CxlShm) (rank : Nat) : CxlShm :=
  let shm := shm.setEntry rank { shm.mailboxes rank with active := 0 }
  shm.setHeader { shm.header with numRanks := shm.header.numRanks - 1 }

/-- A run leaves the header such that the next one with as many ranks can fail. -/
theorem not_handshake_again (several : last.val ≠ 0) {order : List (Fin (last + 1))}
    (done : (order.foldl step ⟨leftover, fun _ => .start⟩).Done) (finals : List Nat) :
    ∃ again, ¬Handshake last (finals.foldl mpiFinalize (order.foldl step ⟨leftover, fun _ => .start⟩).shm) again := by
  have announced : (order.foldl step ⟨leftover, fun _ => .start⟩).shm.header.collMaxRanks = worldSize last := by
    refine invariant (I := fun s : Startup last => (s.pc 0).resets = false →
      s.shm.header.collMaxRanks = worldSize last) (fun _ rank inv => step_announced inv rank) (fun past => ?_) order ?_
    · cases past
    · rw [done 0]
      rfl
  have keeps : ∀ (shm : CxlShm) (rank : Nat), shm.header.collMaxRanks = worldSize last →
      (mpiFinalize shm rank).header.collMaxRanks = worldSize last := fun _ _ same => same
  refine not_handshake_of_stale several ?_
  exact invariant (I := fun shm : CxlShm => shm.header.collMaxRanks = worldSize last) keeps announced finals

def firstFirst : List (Fin (secondOfTwo + 1)) := List.replicate 266 0 ++ List.replicate 5 1

theorem not_handshake_again_twoRanks : ∃ again, ¬Handshake secondOfTwo
    ([0, 1].foldl mpiFinalize (firstFirst.foldl step ⟨twoLeft, fun _ => .start⟩).shm) again := by
  have done : ∀ k, (firstFirst.foldl step ⟨twoLeft, fun _ => .start⟩).pc k = .returned := by decide +kernel
  exact not_handshake_again (by decide) done [0, 1]

end Startup
end CxlMemSim.Mpi
