import CxlMemSim.Lib.Run

/-! One message manager at the level of its mutexes: `pending_mutex_` and one for each request. -/
namespace CxlMemSim.Dist.Pending
open Function Run

inductive Lock where
  | pending
  | request (r : Nat)
deriving DecidableEq

structure PendingRequest where
  msgId : UInt32
  completed : Bool

/-- Where a thread is.  In `send_message_wait_response` it has the request `r`, and in
`process_message` a message with the id `id`. -/
inductive Pc where
  | idle
  | inserting (r : Nat)
  | inserted (r : Nat)
  | sending (r : Nat)
  | failing (r : Nat)
  | failed (r : Nat)
  | locking (r : Nat)
  | checking (r : Nat)
  | waiting (r : Nat)
  | waking (r : Nat) (expired : Bool)
  | timedOut (r : Nat)
  | erasing (r : Nat)
  | releasing (r : Nat)
  | succeeded (r : Nat)
  | cleaning (r : Nat)
  | cleaned (r : Nat)
  | receiving (id : UInt32)
  | finding (id : UInt32)
  | completing (id : UInt32) (r : Nat)
  | marking (id : UInt32) (r : Nat)
  | notifying (id : UInt32)
  | handling (id : UInt32)
deriving DecidableEq

/-- The requests are numbered in the order of their creation. -/
structure Manager where
  owner : Lock → Option Nat := fun _ => none
  pendingRequests : UInt32 → Option Nat := fun _ => none
  requests : Nat → PendingRequest := fun _ => ⟨0, false⟩
  nextRequest : Nat := 0
  threads : Nat → Pc := fun _ => .idle

inductive Event where
  | call (t : Nat) (msgId : UInt32)
  | receive (t : Nat) (msgId : UInt32)
  | send (t : Nat) (ok : Bool)
  | wake (t : Nat) (expired : Bool)
  | advance (t : Nat)
deriving DecidableEq

namespace Manager
variable (m : Manager)

def goto (t : Nat) (next : Pc) : Manager := { m with threads := update m.threads t next }

def insertPending (r : Nat) : Manager :=
  { m with pendingRequests := update m.pendingRequests (m.requests r).msgId (some r) }

def erasePending (r : Nat) : Manager :=
  { m with pendingRequests := update m.pendingRequests (m.requests r).msgId none }

def complete (r : Nat) : Manager :=
  { m with requests := update m.requests r { m.requests r with completed := true } }

def acquire (t : Nat) (lock : Lock) (next : Pc) : Manager :=
  if m.owner lock = none then { m with owner := update m.owner lock (some t) }.goto t next else m

def release (t : Nat) (lock : Lock) (next : Pc) : Manager :=
  { m with owner := update m.owner lock none }.goto t next

/-- What a thread does next.  What it does under a lock is part of the step that takes the lock. -/
def advance (t : Nat) : Manager :=
  match m.threads t with
  | .idle | .sending _ | .waiting _ => m
  | .inserting r => if m.owner .pending = none then (m.insertPending r).acquire t .pending (.inserted r) else m
  | .inserted r => m.release t .pending (.sending r)
  | .failing r => if m.owner .pending = none then (m.erasePending r).acquire t .pending (.failed r) else m
  | .failed _ => m.release t .pending .idle
  | .locking r => m.acquire t (.request r) (.checking r)
  -- The predicate of `wait_for` is tested before each wait, and once more when the time is over.
  | .checking r =>
    if (m.requests r).completed then m.goto t (.succeeded r) else m.release t (.request r) (.waiting r)
  | .waking r expired =>
    m.acquire t (.request r)
      (if expired then if (m.requests r).completed then .succeeded r else .timedOut r else .checking r)
  | .timedOut r => if m.owner .pending = none then (m.erasePending r).acquire t .pending (.erasing r) else m
  | .erasing r => m.release t .pending (.releasing r)
  | .releasing r => m.release t (.request r) .idle
  | .succeeded r => m.release t (.request r) (.cleaning r)
  | .cleaning r => if m.owner .pending = none then (m.erasePending r).acquire t .pending (.cleaned r) else m
  | .cleaned _ => m.release t .pending .idle
  | .receiving id => m.acquire t .pending (.finding id)
  | .finding id =>
    match m.pendingRequests id with
    | some r => m.goto t (.completing id r)
    | none => m.release t .pending (.handling id)
  | .completing id r =>
    if m.owner (.request r) = none then (m.complete r).acquire t (.request r) (.marking id r) else m
  | .marking id r => m.release t (.request r) (.notifying id)
  | .notifying _ => m.release t .pending .idle
  | .handling _ => m.goto t .idle

def step : Event → Manager
  | .call t msgId =>
    if m.threads t = .idle then
      { m with
        requests := update m.requests m.nextRequest ⟨msgId, false⟩
        nextRequest := m.nextRequest + 1 }.goto t (.inserting m.nextRequest)
    else m
  | .receive t msgId => if m.threads t = .idle then m.goto t (.receiving msgId) else m
  | .send t ok =>
    match m.threads t with
    | .sending r => m.goto t (if ok then .locking r else .failing r)
    | _ => m
  | .wake t expired =>
    match m.threads t with
    | .waiting r => m.goto t (.waking r expired)
    | _ => m
  | .advance t => m.advance t

end Manager

def Pc.wants : Pc → Option Lock
  | .inserting _ | .failing _ | .timedOut _ | .cleaning _ | .receiving _ => some .pending
  | .locking r | .waking r _ | .completing _ r => some (.request r)
  | _ => none

/-- One thread has `pending_mutex_` and waits for the mutex of a request, and another has that and
waits for `pending_mutex_`. -/
def Manager.CircularWait (m : Manager) : Prop :=
  ∃ t u r, m.owner .pending = some t ∧ (m.threads t).wants = some (.request r) ∧
    m.owner (.request r) = some u ∧ (m.threads u).wants = some .pending

def Pc.processing : Pc → Option UInt32
  | .receiving id | .finding id | .completing id _ | .marking id _ | .notifying id => some id
  | _ => none

def Pc.expired : Pc → Option Nat
  | .waking r true | .timedOut r => some r
  | _ => none

/-- A call's time runs out only while no thread processes a message with its id, and no thread takes
up such a message before the call has erased its entry. -/
def Event.Timely (m : Manager) : Event → Prop
  | .wake t true => ∀ r, m.threads t = .waiting r → ∀ u, (m.threads u).processing ≠ some (m.requests r).msgId
  | .receive _ msgId => ∀ u r, (m.threads u).expired = some r → (m.requests r).msgId ≠ msgId
  | _ => True

def Pc.holds : Pc → List Lock
  | .inserted _ | .failed _ | .cleaned _ | .finding _ | .completing _ _ | .notifying _ => [.pending]
  | .checking r | .timedOut r | .releasing r | .succeeded r => [.request r]
  | .erasing r | .marking _ r => [.pending, .request r]
  | _ => []

def Pc.request : Pc → Option Nat
  | .idle | .receiving _ | .finding _ | .notifying _ | .handling _ => none
  | .inserting r | .inserted r | .sending r | .failing r | .failed r | .locking r | .checking r | .waiting r
  | .waking r _ | .timedOut r | .erasing r | .releasing r | .succeeded r | .cleaning r | .cleaned r
  | .completing _ r | .marking _ r => some r

def Pc.found : Pc → Option (UInt32 × Nat)
  | .completing id r | .marking id r => some (id, r)
  | _ => none

def Manager.Has (m : Manager) (r : Nat) (id : UInt32) : Prop := r < m.nextRequest ∧ (m.requests r).msgId = id

structure Manager.Sound (m : Manager) : Prop where
  held : ∀ lock t, m.owner lock = some t → lock ∈ (m.threads t).holds
  created : ∀ t r, (m.threads t).request = some r → r < m.nextRequest
  found : ∀ t id r, (m.threads t).found = some (id, r) → m.Has r id
  pending : ∀ id r, m.pendingRequests id = some r → m.Has r id
  apart : ∀ t u id r, (m.threads t).processing = some id → (m.threads u).expired = some r → ¬ m.Has r id

theorem Pc.not_expired {pc : Pc} {id : UInt32} (processing : pc.processing = some id) : pc.expired = none := by
  cases pc <;> first | rfl | cases processing

variable {r : Nat}

theorem Pc.request_of_expired {pc : Pc} (expired : pc.expired = some r) : pc.request = some r := by
  cases pc with
  | waking _ elapsed =>
    cases elapsed with
    | true => exact expired
    | false => cases expired
  | timedOut _ => exact expired
  | _ => cases expired

/-- The thread `t` goes to `next`, and all else is as before, as far as soundness can tell. -/
structure Moved (m m' : Manager) (t : Nat) (next : Pc) : Prop where
  threads : m'.threads = update m.threads t next
  own : ∀ lock, m'.owner lock = some t → lock ∈ next.holds
  others : ∀ lock u, u ≠ t → m'.owner lock = some u → m.owner lock = some u
  has : ∀ r id, m.Has r id → m'.Has r id
  had : ∀ r id, r < m.nextRequest → m'.Has r id → m.Has r id
  pending : ∀ id r, m'.pendingRequests id = some r → m'.Has r id
  created : ∀ r, next.request = some r → r < m'.nextRequest
  found : ∀ id r, next.found = some (id, r) → m'.Has r id

theorem Manager.Sound.moved {m m' : Manager} {t : Nat} {next : Pc} (sound : m.Sound) (moved : Moved m m' t next)
    (processing : ∀ id, next.processing = some id → (m.threads t).processing = some id ∨
      ∀ u r, (m.threads u).expired = some r → ¬ m.Has r id)
    (expired : ∀ r, next.expired = some r → (m.threads t).expired = some r ∨
      r < m.nextRequest ∧ ∀ u id, (m.threads u).processing = some id → ¬ m.Has r id) : m'.Sound := by
  have self : m'.threads t = next := by rw [moved.threads, update_self]
  have other : ∀ u, u ≠ t → m'.threads u = m.threads u := by
    intro u differs
    rw [moved.threads, update_of_ne differs]
  have old : ∀ u r, (m.threads u).expired = some r → r < m.nextRequest := fun u r elapsed =>
    sound.created u r (Pc.request_of_expired elapsed)
  refine ⟨fun lock u owned => ?_, fun u r has => ?_, fun u id r has => ?_, moved.pending,
    fun t' u id r busy elapsed has => ?_⟩
  · by_cases same : u = t
    · rw [same] at owned ⊢
      rw [self]
      exact moved.own lock owned
    · rw [other u same]
      exact sound.held lock u (moved.others lock u same owned)
  · by_cases same : u = t
    · rw [same, self] at has
      exact moved.created r has
    · rw [other u same] at has
      exact (moved.has r _ ⟨sound.created u r has, rfl⟩).1
  · by_cases same : u = t
    · rw [same, self] at has
      exact moved.found id r has
    · rw [other u same] at has
      exact moved.has r id (sound.found u id r has)
  · -- One of the two threads may be `t`, and not both.
    by_cases mine : t' = t
    · rw [mine, self] at busy
      by_cases same : u = t
      · rw [same, self, Pc.not_expired busy] at elapsed
        cases elapsed
      · rw [other u same] at elapsed
        have had := moved.had r id (old u r elapsed) has
        rcases processing id busy with before | none_expired
        · exact sound.apart t u id r before elapsed had
        · exact none_expired u r elapsed had
    · rw [other t' mine] at busy
      by_cases same : u = t
      · rw [same, self] at elapsed
        rcases expired r elapsed with before | ⟨created, none_busy⟩
        · exact sound.apart t' t id r busy before (moved.had r id (old t r before) has)
        · exact none_busy t' id busy (moved.had r id created has)
      · rw [other u same] at elapsed
        exact sound.apart t' u id r busy elapsed (moved.had r id (old u r elapsed) has)

structure Pc.Calm (pc next : Pc) : Prop where
  processing : next.processing = none ∨ next.processing = pc.processing
  expired : next.expired = none ∨ next.expired = pc.expired
  request : next.request = none ∨ next.request = pc.request
  found : next.found = none ∨ next.found = pc.found

theorem eq_some_of_calm {α : Type} {new old : Option α} {x : α} (calm : new = none ∨ new = old) (here : new = some x) :
    old = some x := by
  rcases calm with none | same
  · exact absurd (here.symm.trans none) nofun
  · exact same.symm.trans here

namespace Manager
variable {m : Manager} {t : Nat} {pc next : Pc} {lock : Lock}

section
variable (sound : m.Sound)
include sound

section
variable (here : m.threads t = pc)
include here

theorem Sound.calm (calm : pc.Calm next) (owner : Lock → Option Nat)
    (own : ∀ lock, owner lock = some t → lock ∈ next.holds)
    (others : ∀ lock u, u ≠ t → owner lock = some u → m.owner lock = some u) :
    ({ m with owner }.goto t next).Sound := by
  subst here
  have moved : Moved m ({ m with owner }.goto t next) t next := {
    threads := rfl
    own := own
    others := others
    has := fun _ _ has => has
    had := fun _ _ _ has => has
    pending := sound.pending
    created := fun r here => sound.created t r (eq_some_of_calm calm.request here)
    found := fun id r here => sound.found t id r (eq_some_of_calm calm.found here) }
  refine sound.moved moved (fun id here => .inl ?_) fun r here => .inl ?_
  · exact eq_some_of_calm calm.processing here
  · exact eq_some_of_calm calm.expired here

theorem Sound.holds {lock : Lock} (owned : m.owner lock = some t) :
    lock ∈ pc.holds := here ▸ sound.held lock t owned

theorem Sound.goto (calm : pc.Calm next) (holds : pc.holds ⊆ next.holds) : (m.goto t next).Sound :=
  sound.calm here calm m.owner (fun _ owned => holds (sound.holds here owned)) fun _ _ _ owned => owned

theorem Sound.acquire (calm : pc.Calm next)
    (holds : lock :: pc.holds ⊆ next.holds) : (m.acquire t lock next).Sound := by
  unfold Manager.acquire
  split
  · refine sound.calm here calm _ (fun l owned => ?_) fun l u differs owned => ?_
    · by_cases same : l = lock
      · exact holds (same ▸ List.mem_cons_self)
      · rw [update_of_ne same] at owned
        exact holds (List.mem_cons_of_mem _ (sound.holds here owned))
    · by_cases same : l = lock
      · rw [same, update_self] at owned
        exact absurd (Option.some.inj owned).symm differs
      · rwa [update_of_ne same] at owned
  · exact sound

theorem Sound.release (calm : pc.Calm next)
    (holds : pc.holds ⊆ lock :: next.holds) : (m.release t lock next).Sound := by
  refine sound.calm here calm _ (fun l owned => ?_) fun l u _ owned => ?_
  · by_cases same : l = lock
    · rw [same, update_self] at owned
      cases owned
    · rw [update_of_ne same] at owned
      exact (List.mem_cons.mp (holds (sound.holds here owned))).resolve_left same
  · by_cases same : l = lock
    · rw [same, update_self] at owned
      cases owned
    · rwa [update_of_ne same] at owned

end

theorem Sound.insertPending (created : r < m.nextRequest) : (m.insertPending r).Sound := by
  refine ⟨sound.held, sound.created, sound.found, fun id r' here => ?_, sound.apart⟩
  change update m.pendingRequests (m.requests r).msgId (some r) id = some r' at here
  by_cases same : id = (m.requests r).msgId
  · rw [same, update_self] at here
    cases here
    exact ⟨created, same.symm⟩
  · rw [update_of_ne same] at here
    exact sound.pending id r' here

theorem Sound.erasePending (r : Nat) : (m.erasePending r).Sound := by
  refine ⟨sound.held, sound.created, sound.found, fun id r' here => ?_, sound.apart⟩
  change update m.pendingRequests (m.requests r).msgId none id = some r' at here
  by_cases same : id = (m.requests r).msgId
  · rw [same, update_self] at here
    cases here
  · rw [update_of_ne same] at here
    exact sound.pending id r' here

end

theorem has_complete (r r' : Nat) (id : UInt32) : (m.complete r).Has r' id ↔ m.Has r' id := by
  have same : ((m.complete r).requests r').msgId = (m.requests r').msgId := by
    by_cases self : r' = r
    · rw [self]
      simp [Manager.complete]
    · simp [Manager.complete, update_of_ne self]
  rw [Has, Has, same]
  rfl

section
variable (sound : m.Sound)
include sound

theorem Sound.complete (r : Nat) : (m.complete r).Sound := by
  refine ⟨sound.held, sound.created, fun t id r' here => ?_, fun id r' here => ?_, fun t u id r' busy elapsed has => ?_⟩
  · exact (has_complete r r' id).mpr (sound.found t id r' here)
  · exact (has_complete r r' id).mpr (sound.pending id r' here)
  · exact sound.apart t u id r' busy elapsed ((has_complete r r' id).mp has)

theorem Sound.acquireErase (here : m.threads t = pc) (calm : pc.Calm next) (holds : .pending :: pc.holds ⊆ next.holds) :
    (if m.owner .pending = none then (m.erasePending r).acquire t .pending next else m).Sound := by
  split
  · exact (sound.erasePending r).acquire here calm holds
  · exact sound

theorem Sound.moved_goto (here : m.threads t = pc) (holds : pc.holds ⊆ next.holds)
    (created : ∀ r, next.request = some r → r < m.nextRequest)
    (found : ∀ id r, next.found = some (id, r) → m.Has r id) : Moved m (m.goto t next) t next where
  threads := rfl
  own _ owned := holds (sound.holds here owned)
  others _ _ _ owned := owned
  has _ _ has := has
  had _ _ _ has := has
  pending := sound.pending
  created := created
  found := found

theorem Sound.find {id : UInt32} (here : m.threads t = .finding id)
    (entry : m.pendingRequests id = some r) : (m.goto t (.completing id r)).Sound := by
  have has := sound.pending id r entry
  have moved : Moved m (m.goto t (.completing id r)) t (.completing id r) := by
    refine sound.moved_goto here (List.Subset.refl _) (fun r' same => Option.some.inj same ▸ has.1)
      fun id' r' same => ?_
    cases same
    exact has
  refine sound.moved moved (fun id' busy => .inl ?_) nofun
  rw [here]
  exact busy

theorem Sound.receive {msgId : UInt32} (here : m.threads t = .idle)
    (timely : ∀ u r, (m.threads u).expired = some r → (m.requests r).msgId ≠ msgId) :
    (m.goto t (.receiving msgId)).Sound := by
  refine sound.moved (sound.moved_goto here (List.nil_subset _) nofun nofun) (fun id busy => .inr ?_) nofun
  obtain rfl : msgId = id := Option.some.inj busy
  exact fun u r elapsed has => timely u r elapsed has.2

theorem Sound.expire (here : m.threads t = .waiting r)
    (timely : ∀ u, (m.threads u).processing ≠ some (m.requests r).msgId) : (m.goto t (.waking r true)).Sound := by
  have created : r < m.nextRequest := sound.created t r (by rw [here, Pc.request])
  refine sound.moved (sound.moved_goto here (List.nil_subset _) (fun r' same => Option.some.inj same ▸ created) nofun)
    nofun fun r' elapsed => .inr ?_
  obtain rfl : r = r' := Option.some.inj elapsed
  exact ⟨created, fun u id busy has => timely u (has.2 ▸ busy)⟩

theorem Sound.advance (t : Nat) : (m.advance t).Sound := by
  have refl := fun locks : List Lock => List.Subset.refl locks
  unfold Manager.advance
  cases here : m.threads t with
  | idle | sending _ | waiting _ => exact sound
  | inserting r =>
    have created : r < m.nextRequest := sound.created t r (by rw [here, Pc.request])
    dsimp only
    split
    · exact (sound.insertPending created).acquire here ⟨.inl rfl, .inl rfl, .inr rfl, .inl rfl⟩ (refl _)
    · exact sound
  | inserted r | erasing r | succeeded r => exact sound.release here ⟨.inl rfl, .inl rfl, .inr rfl, .inl rfl⟩ (refl _)
  | failed _ | releasing _ | cleaned _ | notifying _ =>
    exact sound.release here ⟨.inl rfl, .inl rfl, .inl rfl, .inl rfl⟩ (refl _)
  | failing r | timedOut r | cleaning r =>
    exact sound.acquireErase here ⟨.inl rfl, .inl rfl, .inr rfl, .inl rfl⟩ (refl _)
  | locking r => exact sound.acquire here ⟨.inl rfl, .inl rfl, .inr rfl, .inl rfl⟩ (refl _)
  | checking r =>
    dsimp only
    split
    · exact sound.goto here ⟨.inl rfl, .inl rfl, .inr rfl, .inl rfl⟩ (refl _)
    · exact sound.release here ⟨.inl rfl, .inl rfl, .inr rfl, .inl rfl⟩ (refl _)
  | waking r expired =>
    cases expired with
    | false => exact sound.acquire here ⟨.inl rfl, .inl rfl, .inr rfl, .inl rfl⟩ (refl _)
    | true =>
      dsimp only
      rw [if_pos rfl]
      split
      · exact sound.acquire here ⟨.inl rfl, .inl rfl, .inr rfl, .inl rfl⟩ (refl _)
      · exact sound.acquire here ⟨.inl rfl, .inr rfl, .inr rfl, .inl rfl⟩ (refl _)
  | receiving id => exact sound.acquire here ⟨.inr rfl, .inl rfl, .inl rfl, .inl rfl⟩ (refl _)
  | finding id =>
    dsimp only
    split
    · rename_i r entry
      exact sound.find here entry
    · exact sound.release here ⟨.inl rfl, .inl rfl, .inl rfl, .inl rfl⟩ (refl _)
  | completing id r =>
    dsimp only
    split
    · refine (sound.complete r).acquire here ⟨.inr rfl, .inl rfl, .inr rfl, .inr rfl⟩ ?_
      simp [Pc.holds]
    · exact sound
  | marking id r =>
    refine sound.release here ⟨.inr rfl, .inl rfl, .inl rfl, .inl rfl⟩ ?_
    simp [Pc.holds]
  | handling id => exact sound.goto here ⟨.inl rfl, .inl rfl, .inl rfl, .inl rfl⟩ (refl _)

theorem Sound.call (here : m.threads t = .idle) (msgId : UInt32) :
    ({ m with
      requests := update m.requests m.nextRequest ⟨msgId, false⟩
      nextRequest := m.nextRequest + 1 }.goto t (.inserting m.nextRequest)).Sound := by
  have old : ∀ r id, r < m.nextRequest →
      ((update m.requests m.nextRequest ⟨msgId, false⟩ r).msgId = id ↔ (m.requests r).msgId = id) := by
    intro r id created
    rw [update_of_ne (Nat.ne_of_lt created)]
  have moved : Moved m ({ m with
      requests := update m.requests m.nextRequest ⟨msgId, false⟩
      nextRequest := m.nextRequest + 1 }.goto t (.inserting m.nextRequest)) t (.inserting m.nextRequest) := {
    threads := rfl
    own := fun _ owned => absurd (sound.holds here owned) List.not_mem_nil
    others := fun _ _ _ owned => owned
    has := fun r id has => ⟨Nat.lt_succ_of_lt has.1, (old r id has.1).mpr has.2⟩
    had := fun r id created has => ⟨created, (old r id created).mp has.2⟩
    pending := fun id r entry =>
      have has := sound.pending id r entry
      ⟨Nat.lt_succ_of_lt has.1, (old r id has.1).mpr has.2⟩
    created := fun r same => Option.some.inj same ▸ Nat.lt_succ_self _
    found := nofun }
  exact sound.moved moved nofun nofun

theorem Sound.step (e : Event) (timely : e.Timely m) : (m.step e).Sound := by
  cases e with
  | call t msgId =>
    simp only [Manager.step]
    split
    · rename_i here
      exact sound.call here msgId
    · exact sound
  | receive t msgId =>
    simp only [Manager.step]
    split
    · rename_i here
      exact sound.receive here timely
    · exact sound
  | send t ok =>
    simp only [Manager.step]
    split
    · rename_i r here
      cases ok with
      | true | false => exact sound.goto here ⟨.inl rfl, .inl rfl, .inr rfl, .inl rfl⟩ (List.nil_subset _)
    · exact sound
  | wake t expired =>
    simp only [Manager.step]
    split
    · rename_i r here
      cases expired with
      | true => exact sound.expire here (timely r here)
      | false => exact sound.goto here ⟨.inl rfl, .inl rfl, .inr rfl, .inl rfl⟩ (List.nil_subset _)
    · exact sound
  | advance t => exact sound.advance t

end

theorem sound_initial : ({} : Manager).Sound := ⟨nofun, nofun, nofun, nofun, nofun⟩

/-- Who has `pending_mutex_` and asks for a request's is completing it, and who has the request's and asks for
`pending_mutex_` has timed out. -/
theorem Sound.no_circularWait (sound : m.Sound) : ¬ m.CircularWait := by
  rintro ⟨t, u, r, has_pending, wants_request, has_request, wants_pending⟩
  have first := sound.held _ t has_pending
  have second := sound.held _ u has_request
  obtain ⟨id, completing⟩ : ∃ id, m.threads t = .completing id r := by
    cases here : m.threads t with
    | completing id r' =>
      rw [here] at wants_request
      cases wants_request
      exact ⟨id, rfl⟩
    | locking _ | waking _ _ =>
      rw [here] at first
      cases first
    | _ =>
      rw [here] at wants_request
      cases wants_request
  have timedOut : m.threads u = .timedOut r := by
    cases here : m.threads u with
    | timedOut r' =>
      rw [here] at second
      cases second with
      | head => rfl
      | tail _ none => cases none
    | inserting _ | failing _ | cleaning _ | receiving _ =>
      rw [here] at second
      cases second
    | _ =>
      rw [here] at wants_pending
      cases wants_pending
  refine sound.apart t u id r ?_ ?_ (sound.found t id r ?_)
  · rw [completing, Pc.processing]
  · rw [timedOut, Pc.expired]
  · rw [completing, Pc.found]

end Manager

theorem no_circularWait_of_timely (events : List Event)
    (timely : EveryStep Manager.step (fun m e => e.Timely m) {} events) :
    ¬ (events.foldl Manager.step {}).CircularWait :=
  (invariant_of_everyStep (I := Manager.Sound) (fun _ e sound timely => sound.step e timely) Manager.sound_initial
    timely).no_circularWait

def waitsForAnswer : List Event :=
  [.call 0 1, .advance 0, .advance 0, .send 0 true, .advance 0, .advance 0]

def timesOut : List Event := waitsForAnswer ++ [.wake 0 true, .advance 0]

def timesOutAtAnswer : List Event :=
  waitsForAnswer ++ [.receive 1 1, .advance 1, .advance 1, .wake 0 true, .advance 0]

theorem no_circularWait_of_timely_timesOut :
    (timesOut.foldl Manager.step {}).threads 0 = .timedOut 0 ∧ ¬ (timesOut.foldl Manager.step {}).CircularWait := by
  refine ⟨by decide +kernel, no_circularWait_of_timely timesOut ?_⟩
  have quiet : ∀ u, ((waitsForAnswer.foldl Manager.step {}).threads u).processing = none := by
    intro u
    by_cases self : u = 0
    · rw [self]
      decide +kernel
    · simp [waitsForAnswer, Manager.step, Manager.advance, Manager.acquire, Manager.release, Manager.goto,
        Manager.insertPending, self, Pc.processing]
  refine ⟨trivial, trivial, trivial, trivial, trivial, trivial, fun r _ u busy => ?_, trivial, trivial⟩
  exact Option.some_ne_none _ (busy.symm.trans (quiet u))

/-- Thread 1 has `pending_mutex_` and asks for the request's, and thread 0 the other way round. -/
theorem circularWait_at_timeout : (timesOutAtAnswer.foldl Manager.step {}).CircularWait :=
  ⟨1, 0, 0, by decide +kernel, by decide +kernel, by decide +kernel, by decide +kernel⟩

end CxlMemSim.Dist.Pending
