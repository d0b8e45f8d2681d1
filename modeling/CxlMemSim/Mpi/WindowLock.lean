import CxlMemSim.Lib.Count
import CxlMemSim.Lib.Run

/-! An exclusive lock is the rank in `exclusive_lock`, shared locks are counted in `lock_count`, and an unlock asks
`sync_state` which of the two it has to undo. -/
namespace CxlMemSim.Mpi
open Count Function Run

inductive WinSyncState where
  | unlocked | fenceEpoch | lockExclusive | lockShared | postWait | startComplete
deriving DecidableEq

inductive LockType where
  | exclusive | shared
deriving DecidableEq

def LockType.state : LockType → WinSyncState
  | .exclusive => .lockExclusive
  | .shared => .lockShared

def noRank : UInt32 := 0xFFFFFFFF

structure LockWords where
  lockCount : UInt32 := 0
  exclusiveLock : UInt32 := noRank
  syncState : WinSyncState := .unlocked
deriving DecidableEq

def LockWords.without (words : LockWords) : LockType → LockWords
  | .exclusive => { words with exclusiveLock := noRank }
  | .shared => { words with lockCount := words.lockCount - 1 }

abbrev WinRank := Fin (2 ^ 31)

def rankWord (rank : WinRank) : UInt32 := UInt32.ofNat rank

inductive LockPc where
  | idle
  | acquiring (type : LockType)
  /-- A shared lock that has found no exclusive one. -/
  | counting
  | marking (type : LockType)
  | holding (type : LockType)
  | loading (type : LockType)
  /-- An unlock that has found the state of a lock of type `seen`. -/
  | releasing (type seen : LockType)
  | clearing
deriving DecidableEq

namespace LockPc

def holds (type : LockType) : LockPc → Bool
  | .marking own | .holding own | .loading own | .releasing own _ => own = type
  | .idle | .acquiring _ | .counting | .clearing => false

/-- The next step of the rank; a weak exchange may fail although the word is as expected. -/
def advance (rank : WinRank) (spurious : Bool) (words : LockWords) : LockPc → LockWords × LockPc
  | .acquiring .exclusive =>
    if words.exclusiveLock = noRank ∧ spurious = false then
      ({ words with exclusiveLock := rankWord rank }, .marking .exclusive)
    else (words, .acquiring .exclusive)
  | .acquiring .shared => (words, if words.exclusiveLock ≠ noRank then .acquiring .shared else .counting)
  | .counting => ({ words with lockCount := words.lockCount + 1 }, .marking .shared)
  | .marking type => ({ words with syncState := type.state }, .holding type)
  | .loading type =>
    (words, if words.syncState = .lockExclusive then .releasing type .exclusive
      else if words.syncState = .lockShared then .releasing type .shared
      else .clearing)
  | .releasing _ .exclusive => ({ words with exclusiveLock := noRank }, .clearing)
  | .releasing _ .shared => ({ words with lockCount := words.lockCount - 1 }, .clearing)
  | .clearing => ({ words with syncState := .unlocked }, .idle)
  | .idle => (words, .idle)
  | .holding type => (words, .holding type)

end LockPc

structure WindowLock where
  words : LockWords := {}
  pc : WinRank → LockPc := fun _ => .idle

inductive LockStep where
  | lock (rank : WinRank) (type : LockType)
  | unlock (rank : WinRank)
  | go (rank : WinRank) (spurious : Bool)

namespace WindowLock

def step (s : WindowLock) : LockStep → WindowLock
  | .lock rank type => { s with pc := if s.pc rank = .idle then update s.pc rank (.acquiring type) else s.pc }
  | .unlock rank =>
    match s.pc rank with
    | .holding type => { s with pc := update s.pc rank (.loading type) }
    | _ => s
  | .go rank spurious =>
    { words := ((s.pc rank).advance rank spurious s.words).1
      pc := update s.pc rank ((s.pc rank).advance rank spurious s.words).2 }

/-- An exclusive lock is the only one, and without locks the words are as at the beginning. -/
structure Excludes (s : WindowLock) : Prop where
  alone : ∀ rank, (s.pc rank).holds .exclusive = true → ∀ k, k ≠ rank → ∀ type, (s.pc k).holds type = false
  clean : (∀ rank type, (s.pc rank).holds type = false) → s.words.lockCount = 0 ∧ s.words.exclusiveLock = noRank

def ReleasesOwn (s : WindowLock) (c : LockStep) : Prop :=
  ∀ rank type, (s.pc rank).holds type = true → ((s.step c).pc rank).holds type = false →
    (s.step c).words = s.words.without type ∧ (type = .exclusive → s.words.exclusiveLock = rankWord rank)

/-- An exclusive lock is taken while no shared one is counted, a shared one is counted while there is still no
exclusive one, and an unlock finds the state of its own lock. -/
def Guarded (s : WindowLock) : LockStep → Prop
  | .go rank spurious =>
    match s.pc rank with
    | .acquiring .exclusive => s.words.exclusiveLock = noRank → spurious = false → s.words.lockCount = 0
    | .counting => s.words.exclusiveLock = noRank
    | .loading _ => s.words.syncState = .lockExclusive ∨ s.words.syncState = .lockShared
    | .releasing type seen => seen = type
    | _ => True
  | _ => True

theorem rankWord_toNat (rank : WinRank) : (rankWord rank).toNat = rank := by
  have bound := rank.isLt
  rw [rankWord, UInt32.toNat_ofNat_of_lt' (by rw [UInt32.size]; omega)]

theorem rankWord_ne_noRank (rank : WinRank) : rankWord rank ≠ noRank := by
  intro same
  have value := congrArg UInt32.toNat same
  have bound := rank.isLt
  have none : noRank.toNat = 4294967295 := rfl
  rw [rankWord_toNat, none] at value
  omega

theorem rankWord_injective {rank k : WinRank} (same : rankWord rank = rankWord k) : rank = k := by
  have value := congrArg UInt32.toNat same
  rw [rankWord_toNat, rankWord_toNat] at value
  exact Fin.ext value

structure Inv (s : WindowLock) : Prop where
  own : ∀ rank, (s.pc rank).holds .exclusive = true → s.words.exclusiveLock = rankWord rank
  owner : s.words.exclusiveLock ≠ noRank → ∃ rank, (s.pc rank).holds .exclusive = true
  counted : s.words.lockCount = UInt32.ofNat (count (LockPc.holds .shared) s.pc)
  apart : ∀ rank, (s.pc rank).holds .exclusive = true → ∀ k, (s.pc k).holds .shared = false

theorem inv_start : Inv {} where
  own _ held := by cases held
  owner used := absurd rfl used
  counted := by
    have none : count (LockPc.holds .shared) (fun _ : WinRank => LockPc.idle) = 0 :=
      count_eq_zero_iff.mpr fun _ => rfl
    dsimp only
    rw [none]
    rfl
  apart _ held := by cases held

section Step
variable {s : WindowLock} {rank : WinRank} {p : LockPc} {words : LockWords} {c : LockStep} {spurious : Bool}

section
variable (inv : s.Inv)
include inv

theorem Inv.lockCount_eq_zero_iff : s.words.lockCount = 0 ↔ ∀ k, (s.pc k).holds .shared = false := by
  have bound := count_le (LockPc.holds .shared) s.pc
  rw [Fintype.card_fin] at bound
  rw [← count_eq_zero_iff, inv.counted, ← UInt32.toNat_inj, UInt32.toNat_ofNat_of_lt' (by rw [UInt32.size]; omega)]
  rfl

theorem Inv.free_iff : s.words.exclusiveLock = noRank ↔ ∀ k, (s.pc k).holds .exclusive = false := by
  constructor
  · intro free k
    by_contra held
    rw [inv.own k (Bool.eq_true_of_not_eq_false held)] at free
    exact rankWord_ne_noRank k free
  · intro none
    by_contra used
    obtain ⟨k, held⟩ := inv.owner used
    cases (none k).symm.trans held

theorem Inv.excludes : s.Excludes where
  alone rank held k other type := by
    cases type with
    | shared => exact inv.apart rank held k
    | exclusive =>
      by_contra also
      have same := (inv.own k (Bool.eq_true_of_not_eq_false also)).symm.trans (inv.own rank held)
      exact other (rankWord_injective same)
  clean none := ⟨inv.lockCount_eq_zero_iff.mpr fun k => none k .shared, inv.free_iff.mpr fun k => none k .exclusive⟩

omit inv in
theorem holds_update_self (type : LockType) : (update s.pc rank p rank).holds type = p.holds type := by
  rw [update_self]

omit inv in
theorem holds_update_of_ne {k : WinRank} (other : k ≠ rank) (type : LockType) :
    (update s.pc rank p k).holds type = (s.pc k).holds type := by
  rw [update_of_ne other]

theorem Inv.quiet (same : ∀ type, p.holds type = (s.pc rank).holds type)
    (lock : words.exclusiveLock = s.words.exclusiveLock) (number : words.lockCount = s.words.lockCount) :
    Inv ⟨words, update s.pc rank p⟩ := by
  have all : ∀ k type, (update s.pc rank p k).holds type = (s.pc k).holds type := by
    intro k type
    by_cases here : k = rank
    · rw [here, holds_update_self, same]
    · exact holds_update_of_ne here type
  refine ⟨fun k held => ?_, fun used => ?_, ?_, fun k held j => ?_⟩
  · rw [all] at held
    exact lock.trans (inv.own k held)
  · obtain ⟨k, held⟩ := inv.owner (lock ▸ used)
    exact ⟨k, (all k .exclusive).trans held⟩
  · dsimp only
    rw [number, inv.counted, count_update_same (same .shared)]
  · rw [all] at held ⊢
    exact inv.apart k held j

theorem Inv.takeExclusive (free : s.words.exclusiveLock = noRank) (none : s.words.lockCount = 0)
    (before : (s.pc rank).holds .shared = false) :
    Inv ⟨{ s.words with exclusiveLock := rankWord rank }, update s.pc rank (.marking .exclusive)⟩ := by
  have unlocked := inv.free_iff.mp free
  have unshared := inv.lockCount_eq_zero_iff.mp none
  refine ⟨fun k held => ?_, fun _ => ⟨rank, by rw [holds_update_self]; rfl⟩, ?_, fun _ _ k => ?_⟩
  · by_cases here : k = rank
    · rw [here]
    · rw [holds_update_of_ne here, unlocked k] at held
      cases held
  · dsimp only
    rw [inv.counted, count_update_same]
    rw [before]
    rfl
  · by_cases here : k = rank
    · rw [here, holds_update_self]
      rfl
    · rw [holds_update_of_ne here]
      exact unshared k

omit inv in
theorem Inv.of_unlocked {pc : WinRank → LockPc} (still : ∀ k, (pc k).holds .exclusive = false)
    (free : words.exclusiveLock = noRank)
    (counted : words.lockCount = UInt32.ofNat (count (LockPc.holds .shared) pc)) : Inv ⟨words, pc⟩ where
  own k held := by cases (still k).symm.trans held
  owner used := absurd free used
  counted := counted
  apart k held := by cases (still k).symm.trans held

omit inv in
theorem unlocked_update (unlocked : ∀ k, k ≠ rank → (s.pc k).holds .exclusive = false)
    (own : p.holds .exclusive = false) (k : WinRank) : (update s.pc rank p k).holds .exclusive = false :=
  (forall_update_iff s.pc fun _ q => LockPc.holds .exclusive q = false).mpr ⟨own, unlocked⟩ k

theorem Inv.takeShared (free : s.words.exclusiveLock = noRank) (before : (s.pc rank).holds .shared = false) :
    Inv ⟨{ s.words with lockCount := s.words.lockCount + 1 }, update s.pc rank (.marking .shared)⟩ := by
  refine .of_unlocked (unlocked_update (fun k _ => inv.free_iff.mp free k) rfl) free ?_
  rw [inv.counted, count_update_enter before rfl, UInt32.ofNat_add]
  rfl

theorem Inv.giveExclusive (held : (s.pc rank).holds .exclusive = true) :
    Inv ⟨s.words.without .exclusive, update s.pc rank .clearing⟩ := by
  have same : LockPc.clearing.holds .shared = (s.pc rank).holds .shared := (inv.apart rank held rank).symm
  refine .of_unlocked (unlocked_update (fun k other => inv.excludes.alone rank held k other .exclusive) rfl) rfl ?_
  rw [count_update_same same]
  exact inv.counted

theorem Inv.giveShared (held : (s.pc rank).holds .shared = true) :
    Inv ⟨s.words.without .shared, update s.pc rank .clearing⟩ := by
  have unlocked : ∀ k, (s.pc k).holds .exclusive = false := by
    intro k
    by_contra also
    cases (inv.apart k (Bool.eq_true_of_not_eq_false also) rank).symm.trans held
  have fewer := count_update_leave held (show LockPc.clearing.holds .shared = false from rfl)
  refine .of_unlocked (unlocked_update (fun k _ => unlocked k) rfl) (inv.free_iff.mpr unlocked) ?_
  rw [LockWords.without]
  dsimp only
  rw [inv.counted, ← fewer, UInt32.ofNat_add]
  exact UInt32.add_sub_cancel _ _

omit inv in
theorem step_go (spurious : Bool) (now : s.pc rank = p) :
    s.step (.go rank spurious) =
      ⟨(p.advance rank spurious s.words).1, update s.pc rank (p.advance rank spurious s.words).2⟩ := by
  rw [step, now]

theorem Inv.go (guarded : s.Guarded (.go rank spurious)) : (s.step (.go rank spurious)).Inv := by
  cases now : s.pc rank with
  | idle | holding | marking | clearing =>
    rw [step_go spurious now]
    exact inv.quiet (fun _ => by rw [now]; rfl) rfl rfl
  | acquiring type =>
    cases type with
    | exclusive =>
      rw [step_go spurious now, LockPc.advance]
      split
      · rename_i taken
        simp only [Guarded, now] at guarded
        exact inv.takeExclusive taken.1 (guarded taken.1 taken.2) (by rw [now]; rfl)
      · exact inv.quiet (fun _ => by rw [now]) rfl rfl
    | shared =>
      rw [step_go spurious now, LockPc.advance]
      dsimp only
      split
      · exact inv.quiet (fun _ => by rw [now]) rfl rfl
      · exact inv.quiet (fun _ => by rw [now]; rfl) rfl rfl
  | counting =>
    simp only [Guarded, now] at guarded
    rw [step_go spurious now]
    exact inv.takeShared guarded (by rw [now]; rfl)
  | loading type =>
    simp only [Guarded, now] at guarded
    rw [step_go spurious now, LockPc.advance]
    rcases guarded with state | state
    · rw [if_pos state]
      exact inv.quiet (fun _ => by rw [now]; rfl) rfl rfl
    · rw [if_neg (by rw [state]; decide), if_pos state]
      exact inv.quiet (fun _ => by rw [now]; rfl) rfl rfl
  | releasing type seen =>
    simp only [Guarded, now] at guarded
    subst guarded
    rw [step_go spurious now]
    cases seen with
    | exclusive => exact inv.giveExclusive (by rw [now]; rfl)
    | shared => exact inv.giveShared (by rw [now]; rfl)

theorem Inv.step (guarded : s.Guarded c) : (s.step c).Inv := by
  cases c with
  | go rank spurious => exact inv.go guarded
  | lock rank type =>
    rw [WindowLock.step]
    split
    · rename_i now
      exact inv.quiet (fun _ => by rw [now]; rfl) rfl rfl
    · exact inv
  | unlock rank =>
    rw [WindowLock.step]
    split
    · rename_i type now
      exact inv.quiet (fun _ => by rw [now]; rfl) rfl rfl
    · exact inv

end

theorem calls_hold (call : ∀ rank spurious, c ≠ .go rank spurious) (k : WinRank) (type : LockType) :
    ((s.step c).pc k).holds type = (s.pc k).holds type := by
  cases c with
  | go rank spurious => exact absurd rfl (call rank spurious)
  | lock rank own =>
    rw [WindowLock.step]
    dsimp only
    split
    · rename_i now
      by_cases here : k = rank
      · rw [here, holds_update_self, now]
        rfl
      · exact holds_update_of_ne here type
    · rfl
  | unlock rank =>
    rw [WindowLock.step]
    split
    · rename_i own now
      by_cases here : k = rank
      · rw [here, holds_update_self, now]
        rfl
      · exact holds_update_of_ne here type
    · rfl

theorem go_other (spurious : Bool) {k : WinRank} (other : k ≠ rank) : (s.step (.go rank spurious)).pc k = s.pc k :=
  update_of_ne other _ _

theorem go_self (spurious : Bool) (now : s.pc rank = p) :
    (s.step (.go rank spurious)).pc rank = (p.advance rank spurious s.words).2 := by
  rw [step_go spurious now]
  exact update_self _ _ _

theorem Inv.releasesOwn (inv : s.Inv) (guarded : s.Guarded c) : s.ReleasesOwn c := by
  intro k type held given
  cases c with
  | lock | unlock =>
    rw [calls_hold (fun _ _ => LockStep.noConfusion)] at given
    cases held.symm.trans given
  | go rank spurious =>
    by_cases here : k = rank
    · subst here
      cases now : s.pc k with
      | releasing own seen =>
        simp only [Guarded, now] at guarded
        rw [now] at held
        obtain rfl : own = type := of_decide_eq_true held
        subst guarded
        rw [step_go spurious now]
        refine ⟨by cases seen <;> rfl, ?_⟩
        rintro rfl
        exact inv.own k (by rw [now]; rfl)
      | loading own =>
        simp only [Guarded, now] at guarded
        rw [now] at held
        rw [go_self spurious now, LockPc.advance] at given
        rcases guarded with state | state
        · rw [if_pos state] at given
          cases held.symm.trans given
        · rw [if_neg (by rw [state]; decide), if_pos state] at given
          cases held.symm.trans given
      | marking own | holding own =>
        rw [now] at held
        rw [go_self spurious now] at given
        cases held.symm.trans given
      | idle | acquiring own | counting | clearing =>
        rw [now] at held
        cases held
    · rw [go_other spurious here] at given
      cases held.symm.trans given

theorem ne_sub_one (number : UInt32) : number ≠ number - 1 := by
  intro same
  have value : number + 1 = number - 1 + 1 := congrArg (· + 1) same
  rw [UInt32.sub_add_cancel] at value
  simp at value

theorem without_injective {other type : LockType}
    (same : words.without other = words.without type) : other = type := by
  have number := congrArg LockWords.lockCount same
  cases type with
  | exclusive =>
    cases other with
    | exclusive => rfl
    | shared => exact absurd number.symm (ne_sub_one _)
  | shared =>
    cases other with
    | shared => rfl
    | exclusive => exact absurd number (ne_sub_one _)

theorem Inv.without_ne (inv : s.Inv) {type : LockType} (held : (s.pc rank).holds type = true) :
    s.words ≠ s.words.without type := by
  intro same
  cases type with
  | exclusive =>
    have lock := congrArg LockWords.exclusiveLock same
    exact rankWord_ne_noRank rank ((inv.own rank held).symm.trans lock)
  | shared =>
    have number := congrArg LockWords.lockCount same
    exact ne_sub_one _ number

theorem Inv.guarded_go (inv : s.Inv) (excludes : (s.step (.go rank spurious)).Excludes)
    (releases : s.ReleasesOwn (.go rank spurious)) : s.Guarded (.go rank spurious) := by
  cases now : s.pc rank with
  | acquiring type =>
    cases type with
    | shared => simp only [Guarded, now]
    | exclusive =>
      simp only [Guarded, now]
      intro free firm
      rw [inv.lockCount_eq_zero_iff]
      intro k
      by_contra also
      have after : (s.step (.go rank spurious)).pc rank = .marking .exclusive := by
        rw [go_self spurious now, LockPc.advance, if_pos ⟨free, firm⟩]
      have differ : k ≠ rank := by
        rintro rfl
        rw [now] at also
        exact also rfl
      have alone := excludes.alone rank (by rw [after]; rfl) k differ .shared
      rw [go_other spurious differ] at alone
      exact also alone
  | counting =>
    simp only [Guarded, now]
    by_contra used
    obtain ⟨k, held⟩ := inv.owner used
    have differ : k ≠ rank := by
      rintro rfl
      rw [now] at held
      cases held
    have after : (s.step (.go rank spurious)).pc rank = .marking .shared := go_self spurious now
    have alone := excludes.alone k (by rw [go_other spurious differ]; exact held) rank differ.symm .shared
    rw [after] at alone
    cases alone
  | loading type =>
    simp only [Guarded, now]
    by_contra lost
    obtain ⟨first, second⟩ := not_or.mp lost
    have held : (s.pc rank).holds type = true := by
      rw [now]
      exact decide_eq_true rfl
    have after : (s.step (.go rank spurious)).pc rank = .clearing := by
      rw [go_self spurious now, LockPc.advance, if_neg first, if_neg second]
    have words : (s.step (.go rank spurious)).words = s.words := by rw [step_go spurious now, LockPc.advance]
    obtain ⟨released, -⟩ := releases rank type held (by rw [after]; rfl)
    rw [words] at released
    exact inv.without_ne held released
  | releasing type seen =>
    simp only [Guarded, now]
    have held : (s.pc rank).holds type = true := by
      rw [now]
      exact decide_eq_true rfl
    have after : (s.step (.go rank spurious)).pc rank = .clearing := by
      rw [go_self spurious now]
      cases seen <;> rfl
    have words : (s.step (.go rank spurious)).words = s.words.without seen := by
      rw [step_go spurious now]
      cases seen <;> rfl
    obtain ⟨released, -⟩ := releases rank type held (by rw [after]; rfl)
    rw [words] at released
    exact without_injective released
  | idle | marking type | holding type | clearing => simp only [Guarded, now]

theorem Inv.guarded_iff (inv : s.Inv) (c : LockStep) : (s.step c).Excludes ∧ s.ReleasesOwn c ↔ s.Guarded c := by
  constructor
  · rintro ⟨excludes, releases⟩
    cases c with
    | go rank spurious => exact inv.guarded_go excludes releases
    | lock | unlock => trivial
  · exact fun guarded => ⟨(inv.step guarded).excludes, inv.releasesOwn guarded⟩

end Step

/-- The locks exclude one another and are released as they were taken just if no step falls into a gap between the
words. -/
theorem locks_exclude_iff (steps : List LockStep) :
    (∀ before, before <+: steps → (before.foldl step {}).Excludes) ∧ EveryStep step ReleasesOwn {} steps ↔
      EveryStep step Guarded {} steps := by
  rw [forall_prefix_iff_everyStep, and_iff_right inv_start.excludes, ← everyStep_and_iff]
  exact everyStep_congr_of_invariant inv_start (fun _ _ _ inv => inv.step) fun _ c _ inv => inv.guarded_iff c

def sharedThenExclusive : List LockStep :=
  [.lock 0 .shared, .go 0 false, .go 0 false, .go 0 false, .lock 1 .exclusive, .go 1 false, .go 1 false]

theorem not_excludes_sharedThenExclusive : ¬(sharedThenExclusive.foldl step {}).Excludes := by
  intro excludes
  have held : ((sharedThenExclusive.foldl step {}).pc 0).holds .shared = true := by decide
  have alone := excludes.alone 1 (by decide) 0 (by decide) .shared
  rw [held] at alone
  cases alone

end WindowLock
end CxlMemSim.Mpi
