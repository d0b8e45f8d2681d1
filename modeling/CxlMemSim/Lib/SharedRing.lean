import CxlMemSim.Lib.RingBuffer
import Mathlib.Data.List.Infix

/-! A put or a take is a sequence of atomic steps: load the head, load the tail and compare, copy the cell, store the
index. -/
namespace RingBuffer
open Function Queue

variable {n : Nat} {τ α : Type*} {q : Queue n α}

inductive Put (n : Nat) (α : Type*) where
  | idle
  | loaded (x : α) (head : Fin n)
  | checked (x : α) (head : Fin n)
  | copied (x : α) (head : Fin n)

inductive Take (n : Nat) (α : Type*) where
  | idle
  | loaded (head : Fin n)
  | checked (tail : Fin n)
  | copied (tail : Fin n) (x : α)

def Put.left : Put n α → Nat
  | .idle => 3
  | .loaded _ _ => 2
  | .checked _ _ => 1
  | .copied _ _ => 0

def Take.left : Take n α → Nat
  | .idle => 3
  | .loaded _ => 2
  | .checked _ => 1
  | .copied _ _ => 0

theorem Put.left_le (p : Put n α) : p.left ≤ 3 := by
  cases p <;> simp [left]

theorem Take.left_le (p : Take n α) : p.left ≤ 3 := by
  cases p <;> simp [left]

/-- The calls under way, what the puts that succeeded have put, and what the takes have returned. -/
structure Calls (n : Nat) (τ α : Type*) where
  puts : τ → Put n α := fun _ => .idle
  takes : τ → Take n α := fun _ => .idle
  accepted : List α := []
  taken : List α := []

structure SharedRing (n : Nat) (τ α : Type*) extends Calls n τ α where
  ring : Queue n α

namespace SharedRing
variable [DecidableEq τ]

def put (c : SharedRing n τ α) (t : τ) (x : α) : SharedRing n τ α × Option Bool :=
  match c.puts t with
  | .idle => ({ c with puts := update c.puts t (.loaded x c.ring.head) }, none)
  | .loaded x head =>
    if place head 1 = c.ring.tail then ({ c with puts := update c.puts t .idle }, some false)
    else ({ c with puts := update c.puts t (.checked x head) }, none)
  | .checked x head =>
    ({ c with
      puts := update c.puts t (.copied x head)
      ring := { c.ring with cells := update c.ring.cells head x } }, none)
  | .copied x head =>
    ({ c with
      puts := update c.puts t .idle
      accepted := c.accepted ++ [x]
      ring := { c.ring with head := place head 1 } }, some true)

def take (c : SharedRing n τ α) (t : τ) : SharedRing n τ α × Option (Option α) :=
  match c.takes t with
  | .idle => ({ c with takes := update c.takes t (.loaded c.ring.head) }, none)
  | .loaded head =>
    if head = c.ring.tail then ({ c with takes := update c.takes t .idle }, some none)
    else ({ c with takes := update c.takes t (.checked c.ring.tail) }, none)
  | .checked tail => ({ c with takes := update c.takes t (.copied tail (c.ring.cells tail)) }, none)
  | .copied tail x =>
    ({ c with
      takes := update c.takes t .idle
      taken := c.taken ++ [x]
      ring := { c.ring with tail := place tail 1 } }, some (some x))

def PutAlone (c : SharedRing n τ α) (t : τ) : Prop := c.puts t = .idle → ∀ u, u ≠ t → c.puts u = .idle

def TakeAlone (c : SharedRing n τ α) (t : τ) : Prop := c.takes t = .idle → ∀ u, u ≠ t → c.takes u = .idle

end SharedRing

def Put.Fits (q : Queue n α) : Put n α → Prop
  | .idle => True
  | .loaded _ head => head = q.head
  | .checked _ head => head = q.head ∧ q.length + 1 < n
  | .copied x head => head = q.head ∧ q.length + 1 < n ∧ q.cells head = x

/-- The head may have moved on since it was loaded, the tail not. -/
def Take.Fits (q : Queue n α) : Take n α → Prop
  | .idle => True
  | .loaded head => head ≠ q.tail → 0 < q.length
  | .checked tail => tail = q.tail ∧ 0 < q.length
  | .copied tail x => tail = q.tail ∧ 0 < q.length ∧ q.cells tail = x

theorem Put.Fits.release {p : Put n α} (fits : p.Fits q) (nonempty : 0 < q.length) :
    p.Fits { q with tail := place q.tail 1 } := by
  have shorter := length_release nonempty
  cases p with
  | idle => trivial
  | loaded x head => exact fits
  | checked x head => exact ⟨fits.1, by have := fits.2; omega⟩
  | copied x head => exact ⟨fits.1, by have := fits.2.1; omega, fits.2.2⟩

variable {p : Take n α}

theorem Take.Fits.advance (fits : p.Fits q) (room : q.length + 1 < n) : p.Fits { q with head := place q.head 1 } := by
  have longer := length_advance room
  cases p with
  | idle => trivial
  | loaded head => exact fun _ => by omega
  | checked tail => exact ⟨fits.1, by omega⟩
  | copied tail x => exact ⟨fits.1, by omega, fits.2.2⟩

theorem Take.Fits.write (fits : p.Fits q) (x : α) : p.Fits { q with cells := update q.cells q.head x } := by
  cases p with
  | idle => trivial
  | loaded | checked => exact fits
  | copied tail y =>
    obtain ⟨rfl, nonempty, cell⟩ := fits
    have apart : q.tail ≠ q.head := fun same => nonempty.ne' (length_eq_zero_iff.mpr same.symm)
    exact ⟨rfl, nonempty, (update_of_ne apart _ _).trans cell⟩

namespace SharedRing

structure Sound (c : SharedRing n τ α) : Prop where
  onePut : ∀ t u, c.puts t ≠ .idle → c.puts u ≠ .idle → t = u
  oneTake : ∀ t u, c.takes t ≠ .idle → c.takes u ≠ .idle → t = u
  putFits : ∀ t, (c.puts t).Fits c.ring
  takeFits : ∀ t, (c.takes t).Fits c.ring
  log : c.accepted = c.taken ++ c.ring.contents

theorem sound_of_idle {c : SharedRing n τ α} (puts : ∀ t, c.puts t = .idle) (takes : ∀ t, c.takes t = .idle)
    (log : c.accepted = c.taken ++ c.ring.contents) : c.Sound where
  onePut t _ busy := absurd (puts t) busy
  oneTake t _ busy := absurd (takes t) busy
  putFits t := by rw [puts t]; trivial
  takeFits t := by rw [takes t]; trivial
  log := log

variable [DecidableEq τ] {c : SharedRing n τ α} {t u : τ} {ring : Queue n α}

omit [DecidableEq τ] in
theorem Sound.put_alone (sound : c.Sound) (inside : c.puts t ≠ .idle) (u : τ) (other : u ≠ t) : c.puts u = .idle := by
  by_contra busy
  exact other (sound.onePut u t busy inside)

omit [DecidableEq τ] in
theorem Sound.take_alone (sound : c.Sound) (inside : c.takes t ≠ .idle) (u : τ) (other : u ≠ t) :
    c.takes u = .idle := by
  by_contra busy
  exact other (sound.oneTake u t busy inside)

theorem eq_of_update_ne {β : Type*} {f : τ → β} {rest v : β} (others : ∀ u, u ≠ t → f u = rest) (u w : τ)
    (hu : update f t v u ≠ rest) (hw : update f t v w ≠ rest) : u = w := by
  have at_t : ∀ u, update f t v u ≠ rest → u = t := by
    intro u differs
    by_contra apart
    exact differs ((update_of_ne apart _ _).trans (others u apart))
  exact (at_t u hu).trans (at_t w hw).symm

theorem forall_update {β : Type*} {f : τ → β} {P : β → Prop} {rest v : β} (others : ∀ u, u ≠ t → f u = rest)
    (of_rest : P rest) (of_v : P v) (u : τ) : P (update f t v u) := by
  by_cases same : u = t
  · rwa [same, update_self]
  · rwa [update_of_ne same, others u same]

theorem Sound.of_put (sound : c.Sound) (others : ∀ u, u ≠ t → c.puts u = .idle) {p : Put n α}
    {accepted : List α} (putFits : p.Fits ring) (takeFits : ∀ u, (c.takes u).Fits ring)
    (log : accepted = c.taken ++ ring.contents) :
    Sound { c with puts := update c.puts t p, accepted := accepted, ring := ring } where
  onePut := eq_of_update_ne others
  oneTake := sound.oneTake
  putFits := forall_update (P := fun p : Put n α => p.Fits ring) others trivial putFits
  takeFits := takeFits
  log := log

theorem Sound.of_take (sound : c.Sound) (others : ∀ u, u ≠ t → c.takes u = .idle)
    {taken : List α} (takeFits : p.Fits ring) (putFits : ∀ u, (c.puts u).Fits ring)
    (log : c.accepted = taken ++ ring.contents) :
    Sound { c with takes := update c.takes t p, taken := taken, ring := ring } where
  onePut := sound.onePut
  oneTake := eq_of_update_ne others
  putFits := putFits
  takeFits := forall_update (P := fun p : Take n α => p.Fits ring) others trivial takeFits
  log := log

theorem Sound.put (sound : c.Sound) (alone : c.PutAlone t) (x : α) : (c.put t x).1.Sound := by
  have fits := sound.putFits t
  have others : ∀ u, u ≠ t → c.puts u = .idle := by
    by_cases inside : c.puts t = .idle
    · exact alone inside
    · exact sound.put_alone inside
  rw [SharedRing.put]
  cases phase : c.puts t with
  | idle => exact sound.of_put others rfl sound.takeFits sound.log
  | loaded y head =>
    obtain rfl : head = c.ring.head := by rwa [phase] at fits
    dsimp only
    split
    · exact sound.of_put others trivial sound.takeFits sound.log
    · rename_i notFull
      have room : c.ring.length + 1 < n :=
        Nat.lt_of_le_of_ne length_lt fun full => notFull (full_iff.mpr full)
      exact sound.of_put others ⟨rfl, room⟩ sound.takeFits sound.log
  | checked y head =>
    obtain ⟨rfl, room⟩ : head = c.ring.head ∧ c.ring.length + 1 < n := by rwa [phase] at fits
    refine sound.of_put others ⟨rfl, room, update_self _ _ _⟩ (fun u => (sound.takeFits u).write y) ?_
    rw [contents_write, sound.log]
  | copied y head =>
    obtain ⟨rfl, room, cell⟩ : head = c.ring.head ∧ c.ring.length + 1 < n ∧ c.ring.cells head = y := by
      rwa [phase] at fits
    refine sound.of_put others trivial (fun u => (sound.takeFits u).advance room) ?_
    rw [contents_advance room, cell, sound.log, List.append_assoc]

theorem Sound.take (sound : c.Sound) (alone : c.TakeAlone t) : (c.take t).1.Sound := by
  have fits := sound.takeFits t
  have others : ∀ u, u ≠ t → c.takes u = .idle := by
    by_cases inside : c.takes t = .idle
    · exact alone inside
    · exact sound.take_alone inside
  rw [SharedRing.take]
  cases phase : c.takes t with
  | idle =>
    refine sound.of_take others (fun nonempty => ?_) sound.putFits sound.log
    exact Nat.pos_of_ne_zero fun zero => nonempty (length_eq_zero_iff.mp zero)
  | loaded head =>
    dsimp only
    split
    · exact sound.of_take others trivial sound.putFits sound.log
    · rename_i differ
      have nonempty : 0 < c.ring.length := by
        rw [phase] at fits
        exact fits differ
      exact sound.of_take others ⟨rfl, nonempty⟩ sound.putFits sound.log
  | checked tail =>
    obtain ⟨rfl, nonempty⟩ : tail = c.ring.tail ∧ 0 < c.ring.length := by rwa [phase] at fits
    exact sound.of_take others ⟨rfl, nonempty, rfl⟩ sound.putFits sound.log
  | copied tail x =>
    obtain ⟨rfl, nonempty, cell⟩ : tail = c.ring.tail ∧ 0 < c.ring.length ∧ c.ring.cells tail = x := by
      rwa [phase] at fits
    refine sound.of_take others trivial (fun u => (sound.putFits u).release nonempty) ?_
    rw [sound.log, contents_release nonempty, cell, List.append_assoc, List.singleton_append]

section effects
variable (c : SharedRing n τ α) (t : τ) (x : α)

@[simp] theorem puts_take : (c.take t).1.puts = c.puts := by
  unfold take
  repeat' split
  all_goals rfl

@[simp] theorem accepted_take : (c.take t).1.accepted = c.accepted := by
  unfold take
  repeat' split
  all_goals rfl

@[simp] theorem takes_put : (c.put t x).1.takes = c.takes := by
  unfold put
  repeat' split
  all_goals rfl

@[simp] theorem taken_put : (c.put t x).1.taken = c.taken := by
  unfold put
  repeat' split
  all_goals rfl

@[simp] theorem tail_put : (c.put t x).1.ring.tail = c.ring.tail := by
  unfold put
  repeat' split
  all_goals rfl

theorem accepted_put : c.accepted <+: (c.put t x).1.accepted := by
  unfold put
  repeat' split
  · exact List.prefix_refl _
  · exact List.prefix_refl _
  · exact List.prefix_refl _
  · exact List.prefix_refl _
  · exact List.prefix_append _ _

theorem puts_put_of_ne (other : u ≠ t) : (c.put t x).1.puts u = c.puts u := by
  unfold put
  repeat' split
  all_goals exact update_of_ne other _ _

theorem takes_take_of_ne (other : u ≠ t) : (c.take t).1.takes u = c.takes u := by
  unfold take
  repeat' split
  all_goals exact update_of_ne other _ _

theorem takes_take_ends {c : SharedRing n τ α} {t : τ} (ends : (c.take t).2 ≠ none) :
    (c.take t).1.takes t = .idle := by
  revert ends
  unfold take
  repeat' split
  · exact fun ends => absurd rfl ends
  · exact fun _ => update_self _ _ _
  · exact fun ends => absurd rfl ends
  · exact fun ends => absurd rfl ends
  · exact fun _ => update_self _ _ _

theorem take_ring {c : SharedRing n τ α} {t : τ} (goes : ∀ x, (c.take t).2 ≠ some (some x)) :
    (c.take t).1.ring = c.ring ∧ (c.take t).1.taken = c.taken := by
  revert goes
  unfold take
  repeat' split
  · exact fun _ => ⟨rfl, rfl⟩
  · exact fun _ => ⟨rfl, rfl⟩
  · exact fun _ => ⟨rfl, rfl⟩
  · exact fun _ => ⟨rfl, rfl⟩
  · exact fun goes => absurd rfl (goes _)

variable {x : α}

theorem take_returns {c : SharedRing n τ α} {t : τ} (returns : (c.take t).2 = some (some x)) :
    (∃ tail, c.takes t = .copied tail x) ∧ (c.take t).1.taken = c.taken ++ [x] := by
  revert returns
  unfold take
  repeat' split
  · exact nofun
  · exact nofun
  · exact nofun
  · exact nofun
  · rename_i tail y phase
    intro returns
    obtain rfl : y = x := Option.some.inj (Option.some.inj returns)
    exact ⟨⟨tail, phase⟩, rfl⟩

theorem taken_take_le : c.taken.length ≤ (c.take t).1.taken.length := by
  unfold take
  repeat' split
  · exact Nat.le_refl _
  · exact Nat.le_refl _
  · exact Nat.le_refl _
  · exact Nat.le_refl _
  · rw [List.length_append]
    exact Nat.le_add_right _ _

end effects

open Classical in
noncomputable def waiting (c : SharedRing n τ α) : Nat := c.ring.length + if ∃ t, c.puts t ≠ .idle then 1 else 0

omit [DecidableEq τ] in
theorem waiting_eq_zero_iff : c.waiting = 0 ↔ c.ring.contents = [] ∧ ∀ t, c.puts t = .idle := by
  rw [waiting, Nat.add_eq_zero_iff, ← length_contents, List.length_eq_zero_iff]
  refine and_congr_right fun _ => ?_
  simp

omit [DecidableEq τ] in
theorem waiting_of_inside (inside : c.puts t ≠ .idle) : c.waiting = c.ring.length + 1 := by
  rw [waiting, if_pos ⟨t, inside⟩]

omit [DecidableEq τ] in
theorem waiting_of_idle (idle : ∀ t, c.puts t = .idle) : c.waiting = c.ring.length := by
  rw [waiting, if_neg fun ⟨t, inside⟩ => inside (idle t), Nat.add_zero]

omit [DecidableEq τ] in
theorem waiting_le (c : SharedRing n τ α) : c.waiting ≤ c.ring.length + 1 := by
  unfold waiting
  split <;> omega

theorem Sound.waiting_put_le (sound : c.Sound) (inside : c.puts t ≠ .idle) (x : α) :
    (c.put t x).1.waiting ≤ c.waiting := by
  rw [waiting_of_inside inside]
  have fits := sound.putFits t
  have others := sound.put_alone inside
  rw [SharedRing.put]
  cases phase : c.puts t with
  | idle => exact absurd phase inside
  | loaded y head =>
    dsimp only
    split
    · exact waiting_le _
    · exact waiting_le _
  | checked y head => exact waiting_le _
  | copied y head =>
    obtain ⟨rfl, room, -⟩ : head = c.ring.head ∧ c.ring.length + 1 < n ∧ c.ring.cells head = y := by
      rwa [phase] at fits
    rw [waiting_of_idle]
    · exact (length_advance room).le
    · exact forall_update (P := fun p : Put n α => p = .idle) others rfl rfl

theorem waiting_take (c : SharedRing n τ α) (t : τ) :
    (c.take t).1.waiting + c.ring.length = c.waiting + (c.take t).1.ring.length := by
  by_cases busy : ∃ u, c.puts u ≠ .idle
  · obtain ⟨u, inside⟩ := busy
    have after : (c.take t).1.puts u ≠ .idle := by rwa [puts_take]
    rw [waiting_of_inside inside, waiting_of_inside after]
    omega
  · have idle : ∀ u, c.puts u = .idle := fun u => by_contra fun inside => busy ⟨u, inside⟩
    have after : ∀ u, (c.take t).1.puts u = .idle := by rwa [puts_take]
    rw [waiting_of_idle idle, waiting_of_idle after]
    omega

theorem waiting_take_same (goes : ∀ x, (c.take t).2 ≠ some (some x)) : (c.take t).1.waiting = c.waiting := by
  have moves := waiting_take c t
  rw [(take_ring goes).1] at moves
  omega

theorem Sound.waiting_take_returns (sound : c.Sound) (returns : (c.take t).2 = some (some x)) :
    (c.take t).1.waiting + 1 = c.waiting := by
  have moves := waiting_take c t
  obtain ⟨⟨tail, phase⟩, -⟩ := take_returns returns
  have fits := sound.takeFits t
  obtain ⟨rfl, nonempty, -⟩ : tail = c.ring.tail ∧ 0 < c.ring.length ∧ c.ring.cells tail = x := by rwa [phase] at fits
  have ring : (c.take t).1.ring = ⟨c.ring.head, place c.ring.tail 1, c.ring.cells⟩ := by
    rw [SharedRing.take, phase]
  have shorter := length_release nonempty
  rw [ring] at moves
  omega

theorem Sound.waiting_take_le (sound : c.Sound) : (c.take t).1.waiting ≤ c.waiting := by
  by_cases returns : ∃ x, (c.take t).2 = some (some x)
  · obtain ⟨x, returns⟩ := returns
    have := sound.waiting_take_returns returns
    omega
  · exact (waiting_take_same fun x same => returns ⟨x, same⟩).le

theorem left_put (goes : (c.put t x).2 = none) : ((c.put t x).1.puts t).left < (c.puts t).left := by
  revert goes
  unfold put
  cases phase : c.puts t with
  | idle | checked => simp [Put.left]
  | loaded y head =>
    dsimp only
    split
    · exact nofun
    · simp [Put.left]
  | copied y head => exact nofun

theorem left_take (goes : (c.take t).2 = none) : ((c.take t).1.takes t).left < (c.takes t).left := by
  revert goes
  unfold take
  cases phase : c.takes t with
  | idle | checked => simp [Take.left]
  | loaded head =>
    dsimp only
    split
    · exact nofun
    · simp [Take.left]
  | copied tail x => exact nofun

/-- The caller has loaded the head when the ring was empty, and will find it empty whatever comes in now. -/
def Stale (c : SharedRing n τ α) (t : τ) : Prop := c.takes t = .loaded c.ring.tail

theorem stale_of_empty (ends : (c.take t).2 = some none) : c.Stale t := by
  revert ends
  unfold take Stale
  cases phase : c.takes t with
  | idle | checked | copied => exact nofun
  | loaded head =>
    dsimp only
    split
    · rename_i same
      exact fun _ => by rw [same]
    · exact nofun

theorem stale_put : (c.put u x).1.Stale t ↔ c.Stale t := by
  rw [Stale, Stale, takes_put, tail_put]

theorem Sound.stale_take_of_ne (sound : c.Sound) (other : t ≠ u) : (c.take u).1.Stale t ↔ c.Stale t := by
  rw [Stale, Stale, takes_take_of_ne c u other]
  by_cases inside : c.takes t = .idle
  · rw [inside]
    exact ⟨nofun, nofun⟩
  · have idle := sound.take_alone inside u other.symm
    have goes : ∀ x, (c.take u).2 ≠ some (some x) := by
      intro x
      rw [SharedRing.take, idle]
      exact nofun
    rw [(take_ring goes).1]

theorem not_stale_take (nonempty : c.ring.contents ≠ []) (goes : (c.take t).2 = none) : ¬ (c.take t).1.Stale t := by
  have apart : c.ring.head ≠ c.ring.tail := fun same => nonempty (contents_of_empty same)
  revert goes
  unfold take Stale
  cases phase : c.takes t with
  | idle => simpa using apart
  | loaded head =>
    dsimp only
    split
    · exact nofun
    · simp
  | checked tail => simp
  | copied tail x => exact nofun

end SharedRing

end RingBuffer
