import Mathlib.Data.Finset.Card

/-! A directory records for a line the state, an owner and a set of sharers. -/
namespace Moesi
open Finset

inductive State where
  | invalid
  | shared
  | exclusive
  | modified
  | owned
deriving DecidableEq, Repr

@[ext] structure Line (ν : Type*) where
  state : State := .invalid
  owner : ν
  sharers : Finset ν := ∅
deriving DecidableEq

/-- `read` and `write` are the accesses of a node, `leave` gives up the node's copy and `yield`
turns the sole dirty copy into one that others may read. -/
inductive Event (ν : Type*) where
  | keep
  | read (n : ν)
  | write (n : ν)
  | leave (n : ν)
  | yield

variable {ν : Type*} [DecidableEq ν]

namespace Line

def read (l : Line ν) (n : ν) : Line ν :=
  if l.owner = n ∧ (l.state = .exclusive ∨ l.state = .modified ∨ l.state = .owned) then l
  else if n ∈ l.sharers then l
  else match l.state with
    | .invalid => { state := .shared, owner := n, sharers := insert n l.sharers }
    | .shared | .owned => { l with sharers := insert n l.sharers }
    | .exclusive => { l with state := .shared, sharers := insert n (insert l.owner l.sharers) }
    | .modified => { l with state := .owned, sharers := insert n l.sharers }

def leave (nobody : ν) (l : Line ν) (n : ν) : Line ν :=
  if l.owner = n then { state := .invalid, owner := nobody, sharers := l.sharers.erase n }
  else { l with sharers := l.sharers.erase n }

def apply (nobody : ν) (l : Line ν) : Event ν → Line ν
  | .keep => l
  | .read n => l.read n
  | .write n => { state := .modified, owner := n, sharers := ∅ }
  | .leave n => l.leave nobody n
  | .yield => { l with state := if l.state = .modified then .owned else l.state }

def holders (l : Line ν) : Finset ν :=
  if l.state = .invalid then l.sharers else insert l.owner l.sharers

end Line

structure Coherent (nobody : ν) (l : Line ν) : Prop where
  invalid : l.state = .invalid → l.owner = nobody ∧ l.sharers = ∅
  shared : l.state = .shared → l.owner ∈ l.sharers
  not_exclusive : l.state ≠ .exclusive
  modified : l.state = .modified → l.sharers = ∅
  owned : l.state = .owned → l.owner ∉ l.sharers

structure Flagged (l : Line ν) (dirty : Bool) : Prop where
  clean : l.state = .invalid ∨ l.state = .shared → dirty = false
  modified : l.state = .modified → dirty = true
  owned : l.state = .owned → dirty = true ∧ l.sharers.Nonempty

def DirtyElsewhere (l : Line ν) (n : ν) : Prop := (l.state = .modified ∨ l.state = .owned) ∧ l.owner ≠ n

instance (l : Line ν) (n : ν) : Decidable (DirtyElsewhere l n) := inferInstanceAs (Decidable (_ ∧ _))

def LastToLeave (l : Line ν) : Event ν → Prop
  | .leave n => l.owner = n → l.sharers ⊆ {n}
  | _ => True

def Event.copies (held : Finset ν) : Event ν → Finset ν
  | .keep | .yield => held
  | .read n => insert n held
  | .write n => {n}
  | .leave n => held.erase n

def Event.Spares (n : ν) : Event ν → Prop
  | .write m => m = n
  | .leave m => m ≠ n
  | _ => True

instance (n : ν) (e : Event ν) : Decidable (e.Spares n) := by
  cases e <;> unfold Event.Spares <;> infer_instance

section Rules
variable {nobody n : ν} {l : Line ν} {e : Event ν}

omit [DecidableEq ν] in
theorem Coherent.empty (nobody : ν) : Coherent nobody { owner := nobody } :=
  ⟨fun _ => ⟨rfl, rfl⟩, nofun, nofun, nofun, nofun⟩

section
variable (h : Coherent nobody l)
include h

theorem Coherent.read (n : ν) : Coherent nobody (l.read n) := by
  obtain ⟨state, owner, sharers⟩ := l
  unfold Line.read
  split
  · exact h
  · rename_i miss
    split
    · exact h
    · rename_i fresh
      cases state with
      | invalid => exact ⟨nofun, fun _ => mem_insert_self n _, nofun, nofun, nofun⟩
      | shared => exact ⟨nofun, fun _ => mem_insert_of_mem (h.shared rfl), nofun, nofun, nofun⟩
      | exclusive => exact (h.not_exclusive rfl).elim
      | modified =>
        have other : owner ≠ n := fun same => miss ⟨same, .inr (.inl rfl)⟩
        have none_shares : sharers = ∅ := h.modified rfl
        refine ⟨nofun, nofun, nofun, nofun, fun _ => ?_⟩
        simp [none_shares, other]
      | owned =>
        have other : owner ≠ n := fun same => miss ⟨same, .inr (.inr rfl)⟩
        have outside : owner ∉ sharers := h.owned rfl
        refine ⟨nofun, nofun, nofun, nofun, fun _ => ?_⟩
        simp [other, outside]

omit h in
theorem Coherent.write (n : ν) : Coherent nobody (l.apply nobody (.write n)) :=
  ⟨nofun, nofun, nofun, fun _ => rfl, nofun⟩

theorem Coherent.yield : Coherent nobody (l.apply nobody .yield) := by
  obtain ⟨state, owner, sharers⟩ := l
  cases state with
  | modified =>
    have none_shares : sharers = ∅ := h.modified rfl
    refine ⟨nofun, nofun, nofun, nofun, fun _ => ?_⟩
    simp [Line.apply, none_shares]
  | invalid | shared | exclusive | owned => exact h

theorem Coherent.leave (last : l.owner = n → l.sharers ⊆ {n}) : Coherent nobody (l.leave nobody n) := by
  unfold Line.leave
  split
  · rename_i own
    refine ⟨fun _ => ⟨rfl, ?_⟩, nofun, nofun, nofun, nofun⟩
    exact (erase_eq_empty_iff _ _).mpr (subset_singleton_iff.mp (last own))
  · rename_i other
    refine ⟨fun inv => ?_, fun sh => ?_, h.not_exclusive, fun m => ?_, fun o inside => ?_⟩
    · obtain ⟨no_owner, none_shares⟩ := h.invalid inv
      exact ⟨no_owner, by simp [none_shares]⟩
    · exact mem_erase.mpr ⟨other, h.shared sh⟩
    · simp [h.modified m]
    · exact h.owned o (mem_of_mem_erase inside)

theorem Coherent.apply (last : LastToLeave l e) : Coherent nobody (l.apply nobody e) := by
  cases e with
  | keep => exact h
  | read n => exact h.read n
  | write n => exact .write n
  | leave n => exact h.leave last
  | yield => exact h.yield

theorem invalid_clean_iff_last (e : Event ν) : ((l.apply nobody e).state = .invalid →
      (l.apply nobody e).owner = nobody ∧ (l.apply nobody e).sharers = ∅) ↔ LastToLeave l e := by
  constructor
  · intro clean
    cases e with
    | leave n =>
      intro own
      have shape : l.apply nobody (.leave n) =
          { state := .invalid, owner := nobody, sharers := l.sharers.erase n } := if_pos own
      rw [shape] at clean
      exact subset_singleton_iff.mpr ((erase_eq_empty_iff _ _).mp (clean rfl).2)
    | keep | read _ | write _ | yield => trivial
  · exact fun last => (h.apply last).invalid

theorem holders_of_invalid (inv : l.state = .invalid) : l.holders = ∅ := by
  rw [Line.holders, if_pos inv, (h.invalid inv).2]

omit h in
theorem holders_of_valid (valid : l.state ≠ .invalid) : l.holders = insert l.owner l.sharers := if_neg valid

omit h in
theorem owner_or_sharer (held : n ∈ l.holders) : l.owner = n ∨ n ∈ l.sharers := by
  unfold Line.holders at held
  split at held
  · exact .inr held
  · exact (mem_insert.mp held).imp_left Eq.symm

theorem holders_read (n : ν) : (l.read n).holders = insert n l.holders := by
  obtain ⟨state, owner, sharers⟩ := l
  unfold Line.read
  split
  · rename_i hit
    have valid : state ≠ .invalid := by
      rcases hit.2 with e | e | e <;> simp_all
    have held : n ∈ Line.holders ⟨state, owner, sharers⟩ := by
      rw [holders_of_valid valid, ← hit.1]
      exact mem_insert_self _ _
    exact (insert_eq_of_mem held).symm
  · split
    · rename_i sharer
      have held : n ∈ Line.holders ⟨state, owner, sharers⟩ := by
        unfold Line.holders
        split
        · exact sharer
        · exact mem_insert_of_mem sharer
      exact (insert_eq_of_mem held).symm
    · cases state with
      | invalid => simp [Line.holders]
      | shared | modified | owned => exact insert_comm _ _ _
      | exclusive => exact (h.not_exclusive rfl).elim

theorem card_others (n : ν) :
    (l.holders.erase n).card = (l.sharers.erase n).card + if DirtyElsewhere l n then 1 else 0 := by
  obtain ⟨state, owner, sharers⟩ := l
  cases state with
  | invalid => simp [Line.holders, DirtyElsewhere]
  | shared =>
    have inside : owner ∈ sharers := h.shared rfl
    simp [Line.holders, DirtyElsewhere, inside]
  | exclusive => exact (h.not_exclusive rfl).elim
  | modified =>
    obtain rfl : sharers = ∅ := h.modified rfl
    by_cases own : owner = n
    · simp [Line.holders, DirtyElsewhere, own]
    · simp [Line.holders, DirtyElsewhere, own, Ne.symm own]
  | owned =>
    have outside : owner ∉ sharers := h.owned rfl
    by_cases own : owner = n
    · subst own
      simp [Line.holders, DirtyElsewhere]
    · have apart : owner ∉ sharers.erase n := fun inside => outside (mem_of_mem_erase inside)
      simp [Line.holders, DirtyElsewhere, own, erase_insert_of_ne own, card_insert_of_notMem apart]

theorem holders_leave (last : l.owner = n → l.sharers ⊆ {n}) : (l.leave nobody n).holders = l.holders.erase n := by
  by_cases inv : l.state = .invalid
  · have still : (l.leave nobody n).state = .invalid := by
      unfold Line.leave
      split
      · rfl
      · exact inv
    rw [holders_of_invalid (h.leave last) still, holders_of_invalid h inv, erase_empty]
  · rw [holders_of_valid inv]
    unfold Line.leave
    split
    · rename_i own
      rw [subset_singleton_iff] at last
      rcases last own with empty | single
      · simp [Line.holders, own, empty]
      · simp [Line.holders, own, single]
    · rename_i other
      exact (if_neg inv).trans (erase_insert_of_ne other).symm

theorem holders_apply (last : LastToLeave l e) : (l.apply nobody e).holders = e.copies l.holders := by
  cases e with
  | keep | write => rfl
  | read n => exact holders_read h n
  | leave n => exact holders_leave h last
  | yield =>
    obtain ⟨state, owner, sharers⟩ := l
    cases state <;> rfl

end

theorem Event.Spares.holds (spares : e.Spares n) (h : Coherent nobody l)
    (last : LastToLeave l e) (held : n ∈ l.holders) : n ∈ (l.apply nobody e).holders := by
  rw [holders_apply h last]
  cases e with
  | keep | yield => exact held
  | read m => exact mem_insert_of_mem held
  | write m => exact mem_singleton.mpr spares.symm
  | leave m => exact mem_erase.mpr ⟨spares.symm, held⟩

theorem Flagged.read {dirty : Bool} (h : Flagged l dirty) (coherent : Coherent nobody l) (n : ν) :
    Flagged (l.read n) dirty := by
  obtain ⟨state, owner, sharers⟩ := l
  unfold Line.read
  split
  · exact h
  · split
    · exact h
    · cases state with
      | invalid => exact ⟨fun _ => h.clean (.inl rfl), nofun, nofun⟩
      | shared => exact ⟨fun _ => h.clean (.inr rfl), nofun, nofun⟩
      | exclusive => exact (coherent.not_exclusive rfl).elim
      | modified => exact ⟨by simp, nofun, fun _ => ⟨h.modified rfl, insert_nonempty _ _⟩⟩
      | owned => exact ⟨by simp, nofun, fun _ => ⟨(h.owned rfl).1, insert_nonempty _ _⟩⟩

theorem Flagged.write (n : ν) : Flagged (l.apply nobody (.write n)) true :=
  ⟨by simp [Line.apply], fun _ => rfl, nofun⟩

end Rules
end Moesi
