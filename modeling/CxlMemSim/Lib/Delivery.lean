import Mathlib.Data.Nat.Find
import Mathlib.Data.Set.Insert

/-! A message is given to a queue, where receives may wait, or put on a shelf, which a receive looks at when it is
called. -/
namespace Delivery
open List

structure Log (κ ρ : Type) where
  sent : List κ
  called : List ρ
  queue : Set Nat
  posted : Set Nat
  shelf : Set Nat
  taken : List (Nat × Nat)

variable {r m : Nat}

namespace Log
variable {κ ρ τ : Type} (fits : ρ → κ → Prop) (lane : κ → τ) (s : Log κ ρ)

def Fits (r m : Nat) : Prop := ∃ x k, s.called[r]? = some x ∧ s.sent[m]? = some k ∧ fits x k

def Alike (m m' : Nat) : Prop := ∃ k, s.sent[m]? = some k ∧ s.sent[m']? = some k

def SameLane (m m' : Nat) : Prop := ∃ k k', s.sent[m]? = some k ∧ s.sent[m']? = some k' ∧ lane k = lane k'

/-- What a queue that does not let messages overtake may deliver. -/
structure CanDeliver (r m : Nat) : Prop where
  posted : r ∈ s.posted
  queued : m ∈ s.queue
  fit : s.Fits fits r m
  first : ∀ m' ∈ s.queue, m' < m → s.SameLane lane m' m → ¬ s.Fits fits r m'
  next : ∀ r' ∈ s.posted, r' < r → ¬ s.Fits fits r' m

/-- Every message is held or received, once, by a receive that fits it, and in order. -/
structure Orderly : Prop where
  once : (s.taken.map Prod.snd).Nodup
  single : (s.taken.map Prod.fst).Nodup
  kept : ∀ m, m < s.sent.length → m ∈ s.queue ∨ m ∈ s.shelf ∨ ∃ r, (r, m) ∈ s.taken
  matching : ∀ r m, (r, m) ∈ s.taken → s.Fits fits r m
  ordered : ∀ m m' r', m < m' → s.Alike m m' → (r', m') ∈ s.taken → ∃ r, r < r' ∧ (r, m) ∈ s.taken

/-- Moreover, where the queue has nothing to deliver, nobody waits for a message that has been sent. -/
structure Law : Prop extends Orderly fits s where
  served : (∀ r m, ¬ s.CanDeliver fits lane r m) → ∀ r ∈ s.posted, ∀ m, (∀ r', (r', m) ∉ s.taken) →
    ¬ s.Fits fits r m

inductive Step : Log κ ρ → Prop
  | queue (k : κ) : Step { s with sent := s.sent ++ [k], queue := insert s.sent.length s.queue }
  | shelve (k : κ) (unwaited : ∀ r ∈ s.posted, ∀ x, s.called[r]? = some x → ¬ fits x k) :
      Step { s with sent := s.sent ++ [k], shelf := insert s.sent.length s.shelf }
  | post (x : ρ) (absent : ∀ m ∈ s.shelf, ∀ k, s.sent[m]? = some k → ¬ fits x k) :
      Step { s with called := s.called ++ [x], posted := insert s.called.length s.posted }
  | deliver (r m : Nat) (can : s.CanDeliver fits lane r m) :
      Step { s with queue := s.queue \ {m}, posted := s.posted \ {r}, taken := s.taken ++ [(r, m)] }
  | take (x : ρ) (m : Nat) (k : κ) (there : m ∈ s.shelf) (sent : s.sent[m]? = some k) (fit : fits x k)
      (first : ∀ m', m' ∈ s.queue ∨ m' ∈ s.shelf → m' < m → ¬ s.Alike m' m) :
      Step { s with
        called := s.called ++ [x], shelf := s.shelf \ {m}, taken := s.taken ++ [(s.called.length, m)] }

structure Inv : Prop extends Orderly fits s where
  queue_lt : ∀ m ∈ s.queue, m < s.sent.length
  shelf_lt : ∀ m ∈ s.shelf, m < s.sent.length
  posted_lt : ∀ r ∈ s.posted, r < s.called.length
  queue_fresh : ∀ m ∈ s.queue, m ∉ s.shelf ∧ ∀ r, (r, m) ∉ s.taken
  shelf_fresh : ∀ m ∈ s.shelf, ∀ r, (r, m) ∉ s.taken
  posted_fresh : ∀ r ∈ s.posted, ∀ m, (r, m) ∉ s.taken
  apart : ∀ r ∈ s.posted, ∀ m ∈ s.shelf, ¬ s.Fits fits r m
  later : ∀ r m r', (r, m) ∈ s.taken → r' ∈ s.posted → s.Fits fits r' m → r < r'

variable {fits lane s} {s' : Log κ ρ}

theorem Fits.recv_lt (fit : s.Fits fits r m) : r < s.called.length := by
  obtain ⟨x, k, called, -, -⟩ := fit
  exact (List.getElem?_eq_some_iff.mp called).1

theorem Fits.msg_lt (fit : s.Fits fits r m) : m < s.sent.length := by
  obtain ⟨x, k, -, sent, -⟩ := fit
  exact (List.getElem?_eq_some_iff.mp sent).1

theorem Fits.of_alike {r m m' : Nat} (alike : s.Alike m m') (fit : s.Fits fits r m') : s.Fits fits r m := by
  obtain ⟨x, k, called, sent, fit⟩ := fit
  obtain ⟨k', sent', same⟩ := alike
  obtain rfl : k = k' := Option.some.inj (sent.symm.trans same)
  exact ⟨x, k, called, sent', fit⟩

theorem sameLane_of_alike {m m' : Nat} (alike : s.Alike m m') : s.SameLane lane m m' := by
  obtain ⟨k, sent, sent'⟩ := alike
  exact ⟨k, k, sent, sent', rfl⟩

theorem exists_canDeliver (lane : κ → τ) (posted : r ∈ s.posted) (queued : m ∈ s.queue) (fit : s.Fits fits r m) :
    ∃ r m, s.CanDeliver fits lane r m := by
  classical
  have waits : ∃ r, r ∈ s.posted ∧ ∃ m ∈ s.queue, s.Fits fits r m := ⟨r, posted, m, queued, fit⟩
  obtain ⟨waiting, there⟩ := Nat.find_spec waits
  obtain ⟨held, fit⟩ := Nat.find_spec there
  refine ⟨Nat.find waits, Nat.find there, waiting, held, fit, ?_, ?_⟩
  · intro m' queued' less _ fit'
    exact Nat.find_min there less ⟨queued', fit'⟩
  · intro r' posted' less fit'
    exact Nat.find_min waits less ⟨posted', _, held, fit'⟩

theorem Inv.law (inv : s.Inv fits) : s.Law fits lane where
  toOrderly := inv.toOrderly
  served := by
    intro nothing r posted m untaken fit
    rcases inv.kept m fit.msg_lt with queued | shelved | ⟨r', taken⟩
    · obtain ⟨r, m, can⟩ := exists_canDeliver lane posted queued fit
      exact nothing r m can
    · exact inv.apart r posted m shelved fit
    · exact untaken r' taken

theorem Fits.grow (fit : s.Fits fits r m) (called : s.called <+: s'.called) (sent : s.sent <+: s'.sent) :
    s'.Fits fits r m := by
  have recv := fit.recv_lt
  have msg := fit.msg_lt
  obtain ⟨calls, called⟩ := called
  obtain ⟨sends, sent⟩ := sent
  rw [Fits, ← called, ← sent, getElem?_append_left recv, getElem?_append_left msg]
  exact fit

theorem Fits.of_grow (fit : s'.Fits fits r m) (called : s.called <+: s'.called)
    (sent : s.sent <+: s'.sent) (recv : r < s.called.length) (msg : m < s.sent.length) : s.Fits fits r m := by
  obtain ⟨calls, called⟩ := called
  obtain ⟨sends, sent⟩ := sent
  rw [Fits, ← called, ← sent, getElem?_append_left recv, getElem?_append_left msg] at fit
  exact fit

theorem alike_grow (sent : s.sent <+: s'.sent) {m m' : Nat} (lt : m < s.sent.length) (lt' : m' < s.sent.length) :
    s'.Alike m m' ↔ s.Alike m m' := by
  obtain ⟨sends, sent⟩ := sent
  rw [Alike, Alike, ← sent, getElem?_append_left lt, getElem?_append_left lt']

theorem nodup_concat {f : Nat × Nat → Nat} {taken : List (Nat × Nat)} (nodup : (taken.map f).Nodup)
    (fresh : ∀ r' m', (r', m') ∈ taken → f (r', m') ≠ f (r, m)) : ((taken ++ [(r, m)]).map f).Nodup := by
  rw [map_append, nodup_append]
  refine ⟨nodup, pairwise_singleton _ _, ?_⟩
  intro a old b new
  obtain ⟨⟨r', m'⟩, taken, rfl⟩ := mem_map.mp old
  obtain rfl : b = f (r, m) := mem_singleton.mp new
  exact fresh r' m' taken

theorem mem_concat {taken : List (Nat × Nat)} {r m r' m' : Nat} :
    (r', m') ∈ taken ++ [(r, m)] ↔ (r', m') ∈ taken ∨ r' = r ∧ m' = m := by
  rw [mem_append, mem_singleton, Prod.mk.injEq]

theorem Orderly.receive (orderly : s.Orderly fits) (called : s.called <+: s'.called) (sent : s'.sent = s.sent)
    (taken : s'.taken = s.taken ++ [(r, m)]) (new : ∀ r', (r', m) ∉ s.taken) (waits : ∀ m', (r, m') ∉ s.taken)
    (fit : s'.Fits fits r m) (kept : ∀ m', m' ≠ m → m' ∈ s.queue ∨ m' ∈ s.shelf → m' ∈ s'.queue ∨ m' ∈ s'.shelf)
    (first : ∀ m', m' < m → s.Alike m' m → ∃ r', r' < r ∧ (r', m') ∈ s.taken) : s'.Orderly fits := by
  refine ⟨?_, ?_, fun m' less => ?_, fun r' m' member => ?_, fun m' m'' r'' less alike member => ?_⟩
  · rw [taken]
    exact nodup_concat orderly.once fun r' m' there (same : m' = m) => new r' (same ▸ there)
  · rw [taken]
    exact nodup_concat orderly.single fun r' m' there (same : r' = r) => waits m' (same ▸ there)
  · rw [taken]
    by_cases here : m' = m
    · exact .inr (.inr ⟨r, mem_concat.mpr (.inr ⟨rfl, here⟩)⟩)
    · rcases or_assoc.mpr (orderly.kept m' (sent ▸ less)) with held | ⟨r', there⟩
      · exact or_assoc.mp (.inl (kept m' here held))
      · exact .inr (.inr ⟨r', mem_concat.mpr (.inl there)⟩)
  · rw [taken] at member
    rcases mem_concat.mp member with there | ⟨rfl, rfl⟩
    · exact (orderly.matching r' m' there).grow called (sent ▸ prefix_rfl)
    · exact fit
  · rw [Alike, sent] at alike
    rw [taken] at member ⊢
    have earlier : ∃ r', r' < r'' ∧ (r', m') ∈ s.taken := by
      rcases mem_concat.mp member with there | ⟨rfl, rfl⟩
      · exact orderly.ordered m' m'' r'' less alike there
      · exact first m' less alike
    obtain ⟨r', before, there⟩ := earlier
    exact ⟨r', before, mem_concat.mpr (.inl there)⟩

theorem Orderly.grow (ordered : s.Orderly fits) (called : s.called <+: s'.called) (sent : s.sent <+: s'.sent)
    (taken : s'.taken = s.taken)
    (kept : ∀ m, m < s'.sent.length → m ∈ s'.queue ∨ m ∈ s'.shelf ∨ ∃ r, (r, m) ∈ s.taken) : s'.Orderly fits where
  once := taken ▸ ordered.once
  single := taken ▸ ordered.single
  kept := taken ▸ kept
  matching := by
    intro r m member
    rw [taken] at member
    exact (ordered.matching r m member).grow called sent
  ordered := by
    intro m m' r' less alike member
    rw [taken] at member ⊢
    have bound := (ordered.matching r' m' member).msg_lt
    exact ordered.ordered m m' r' less ((alike_grow sent (by omega) bound).mp alike) member

theorem inv_empty (shelf : s.shelf = ∅) (queue : s.queue = ∅) (posted : s.posted = ∅) (sent : s.sent = [])
    (taken : s.taken = []) : s.Inv fits := by
  refine ⟨⟨?_, ?_, ?_, ?_, ?_⟩, ?_, ?_, ?_, ?_, ?_, ?_, ?_, ?_⟩ <;> simp [shelf, queue, posted, sent, taken]

variable (inv : s.Inv fits)
include inv

theorem Inv.recv_lt (taken : (r, m) ∈ s.taken) : r < s.called.length := (inv.matching r m taken).recv_lt

theorem Inv.msg_lt (taken : (r, m) ∈ s.taken) : m < s.sent.length := (inv.matching r m taken).msg_lt

theorem Inv.apart_grow (fit : s'.Fits fits r m) (posted : r ∈ s.posted) (shelved : m ∈ s.shelf)
    (called : s.called <+: s'.called) (sent : s.sent <+: s'.sent) : False :=
  inv.apart r posted m shelved (fit.of_grow called sent (inv.posted_lt r posted) (inv.shelf_lt m shelved))

theorem Inv.later_grow {r m r' : Nat} (fit : s'.Fits fits r' m) (taken : (r, m) ∈ s.taken) (posted : r' ∈ s.posted)
    (called : s.called <+: s'.called) (sent : s.sent <+: s'.sent) : r < r' :=
  inv.later r m r' taken posted (fit.of_grow called sent (inv.posted_lt r' posted) (inv.msg_lt taken))

theorem Inv.queue (k : κ) : Inv fits { s with sent := s.sent ++ [k], queue := insert s.sent.length s.queue } := by
  have sent : s.sent <+: s.sent ++ [k] := prefix_append _ _
  have long : (s.sent ++ [k]).length = s.sent.length + 1 := length_append
  refine ⟨inv.toOrderly.grow (prefix_refl _) sent rfl ?_, ?_, ?_, inv.posted_lt, ?_, inv.shelf_fresh,
    inv.posted_fresh, ?_, ?_⟩
  · intro m less
    change m < (s.sent ++ [k]).length at less
    by_cases new : m = s.sent.length
    · exact .inl (.inl new)
    · exact (inv.kept m (by omega)).imp_left .inr
  · rintro m (rfl | queued)
    · exact long ▸ Nat.lt_succ_self _
    · exact long ▸ Nat.lt_succ_of_lt (inv.queue_lt m queued)
  · intro m shelved
    exact long ▸ Nat.lt_succ_of_lt (inv.shelf_lt m shelved)
  · rintro m (rfl | queued)
    · exact ⟨fun shelved => Nat.lt_irrefl _ (inv.shelf_lt _ shelved),
        fun r taken => Nat.lt_irrefl _ (inv.msg_lt taken)⟩
    · exact inv.queue_fresh m queued
  · intro r posted m shelved fit
    exact inv.apart_grow fit posted shelved (prefix_refl _) sent
  · intro r m r' taken posted fit
    exact inv.later_grow fit taken posted (prefix_refl _) sent

theorem Inv.shelve (k : κ) (unwaited : ∀ r ∈ s.posted, ∀ x, s.called[r]? = some x → ¬ fits x k) :
    Inv fits { s with sent := s.sent ++ [k], shelf := insert s.sent.length s.shelf } := by
  have sent : s.sent <+: s.sent ++ [k] := prefix_append _ _
  have long : (s.sent ++ [k]).length = s.sent.length + 1 := length_append
  refine ⟨inv.toOrderly.grow (prefix_refl _) sent rfl ?_, ?_, ?_, inv.posted_lt, ?_, ?_, inv.posted_fresh, ?_, ?_⟩
  · intro m less
    change m < (s.sent ++ [k]).length at less
    by_cases new : m = s.sent.length
    · exact .inr (.inl (.inl new))
    · exact (inv.kept m (by omega)).imp_right (Or.imp_left .inr)
  · intro m queued
    exact long ▸ Nat.lt_succ_of_lt (inv.queue_lt m queued)
  · rintro m (rfl | shelved)
    · exact long ▸ Nat.lt_succ_self _
    · exact long ▸ Nat.lt_succ_of_lt (inv.shelf_lt m shelved)
  · intro m queued
    refine ⟨?_, (inv.queue_fresh m queued).2⟩
    rintro (rfl | shelved)
    · exact Nat.lt_irrefl _ (inv.queue_lt _ queued)
    · exact (inv.queue_fresh m queued).1 shelved
  · rintro m (rfl | shelved) r taken
    · exact Nat.lt_irrefl _ (inv.msg_lt taken)
    · exact inv.shelf_fresh m shelved r taken
  · rintro r posted m (rfl | shelved) fit
    · obtain ⟨x, k', called, there, fit⟩ := fit
      obtain rfl : k = k' := Option.some.inj (getElem?_concat_length.symm.trans there)
      exact unwaited r posted x called fit
    · exact inv.apart_grow fit posted shelved (prefix_refl _) sent
  · intro r m r' taken posted fit
    exact inv.later_grow fit taken posted (prefix_refl _) sent

theorem Inv.post (x : ρ) (absent : ∀ m ∈ s.shelf, ∀ k, s.sent[m]? = some k → ¬ fits x k) :
    Inv fits { s with called := s.called ++ [x], posted := insert s.called.length s.posted } := by
  have called : s.called <+: s.called ++ [x] := prefix_append _ _
  have long : (s.called ++ [x]).length = s.called.length + 1 := length_append
  refine ⟨inv.toOrderly.grow called (prefix_refl _) rfl inv.kept, inv.queue_lt, inv.shelf_lt, ?_, inv.queue_fresh,
    inv.shelf_fresh, ?_, ?_, ?_⟩
  · rintro r (rfl | posted)
    · exact long ▸ Nat.lt_succ_self _
    · exact long ▸ Nat.lt_succ_of_lt (inv.posted_lt r posted)
  · rintro r (rfl | posted) m taken
    · exact Nat.lt_irrefl _ (inv.recv_lt taken)
    · exact inv.posted_fresh r posted m taken
  · rintro r (rfl | posted) m shelved fit
    · obtain ⟨x', k, there, sent, fit⟩ := fit
      obtain rfl : x = x' := Option.some.inj (getElem?_concat_length.symm.trans there)
      exact absent m shelved k sent fit
    · exact inv.apart_grow fit posted shelved called (prefix_refl _)
  · rintro r m r' taken (rfl | posted) fit
    · exact inv.recv_lt taken
    · exact inv.later_grow fit taken posted called (prefix_refl _)

theorem Inv.deliver (can : s.CanDeliver fits lane r m) :
    Inv fits { s with queue := s.queue \ {m}, posted := s.posted \ {r}, taken := s.taken ++ [(r, m)] } := by
  refine ⟨inv.toOrderly.receive (prefix_refl _) rfl rfl (inv.queue_fresh m can.queued).2
    (inv.posted_fresh r can.posted) can.fit ?_ ?_, ?_, inv.shelf_lt, ?_, ?_, ?_, ?_, ?_, ?_⟩
  · exact fun m' other held => held.imp_left fun queued => ⟨queued, other⟩
  · intro m' less alike
    have fit : s.Fits fits r m' := .of_alike alike can.fit
    rcases inv.kept m' fit.msg_lt with queued | shelved | ⟨r', taken⟩
    · exact absurd fit (can.first m' queued less (sameLane_of_alike alike))
    · exact absurd fit (inv.apart r can.posted m' shelved)
    · exact ⟨r', inv.later r' m' r taken can.posted fit, taken⟩
  · exact fun m' queued => inv.queue_lt m' queued.1
  · exact fun r' posted => inv.posted_lt r' posted.1
  · intro m' queued
    refine ⟨(inv.queue_fresh m' queued.1).1, fun r' member => ?_⟩
    rcases mem_concat.mp member with taken | ⟨-, same⟩
    · exact (inv.queue_fresh m' queued.1).2 r' taken
    · exact queued.2 same
  · intro m' shelved r' member
    rcases mem_concat.mp member with taken | ⟨-, rfl⟩
    · exact inv.shelf_fresh m' shelved r' taken
    · exact (inv.queue_fresh m' can.queued).1 shelved
  · intro r' posted m' member
    rcases mem_concat.mp member with taken | ⟨same, -⟩
    · exact inv.posted_fresh r' posted.1 m' taken
    · exact posted.2 same
  · exact fun r' posted m' shelved => inv.apart r' posted.1 m' shelved
  · intro r' m' r'' member posted fit
    rcases mem_concat.mp member with taken | ⟨rfl, rfl⟩
    · exact inv.later r' m' r'' taken posted.1 fit
    · have notBefore : ¬ r'' < r' := fun less => can.next r'' posted.1 less fit
      have other : r'' ≠ r' := posted.2
      omega

theorem Inv.take (x : ρ) {m : Nat} {k : κ} (there : m ∈ s.shelf) (sent : s.sent[m]? = some k) (fit : fits x k)
    (first : ∀ m', m' ∈ s.queue ∨ m' ∈ s.shelf → m' < m → ¬ s.Alike m' m) :
    Inv fits { s with
      called := s.called ++ [x], shelf := s.shelf \ {m}, taken := s.taken ++ [(s.called.length, m)] } := by
  have called : s.called <+: s.called ++ [x] := prefix_append _ _
  have long : (s.called ++ [x]).length = s.called.length + 1 := length_append
  refine ⟨inv.toOrderly.receive called rfl rfl (inv.shelf_fresh m there) (fun m' taken => (inv.recv_lt taken).false)
    ⟨x, k, getElem?_concat_length, sent, fit⟩ ?_ ?_, inv.queue_lt, ?_, ?_, ?_, ?_, ?_, ?_, ?_⟩
  · exact fun m' other held => held.imp_right fun shelved => ⟨shelved, other⟩
  · intro m' less alike
    have bound := inv.shelf_lt m there
    rcases or_assoc.mpr (inv.kept m' (by omega)) with held | ⟨r', taken⟩
    · exact absurd alike (first m' held less)
    · exact ⟨r', inv.recv_lt taken, taken⟩
  · exact fun m' shelved => inv.shelf_lt m' shelved.1
  · exact fun r' posted => long ▸ Nat.lt_succ_of_lt (inv.posted_lt r' posted)
  · intro m' queued
    refine ⟨fun shelved => (inv.queue_fresh m' queued).1 shelved.1, fun r' member => ?_⟩
    rcases mem_concat.mp member with taken | ⟨-, rfl⟩
    · exact (inv.queue_fresh m' queued).2 r' taken
    · exact (inv.queue_fresh m' queued).1 there
  · intro m' shelved r' member
    rcases mem_concat.mp member with taken | ⟨-, same⟩
    · exact inv.shelf_fresh m' shelved.1 r' taken
    · exact shelved.2 same
  · intro r' posted m' member
    rcases mem_concat.mp member with taken | ⟨rfl, -⟩
    · exact inv.posted_fresh r' posted m' taken
    · exact Nat.lt_irrefl _ (inv.posted_lt _ posted)
  · exact fun r' posted m' shelved fit' => inv.apart_grow fit' posted shelved.1 called (prefix_refl _)
  · intro r' m' r'' member posted fit'
    rcases mem_concat.mp member with taken | ⟨rfl, rfl⟩
    · exact inv.later_grow fit' taken posted called (prefix_refl _)
    · exact (inv.apart_grow fit' posted there called (prefix_refl _)).elim

theorem Inv.step (step : s.Step fits lane s') : s'.Inv fits := by
  cases step with
  | queue k => exact inv.queue k
  | shelve k unwaited => exact inv.shelve k unwaited
  | post x absent => exact inv.post x absent
  | deliver r m can => exact inv.deliver can
  | take x m k there sent fit first => exact inv.take x there sent fit first

theorem Inv.steps (steps : Relation.ReflTransGen (Step fits lane) s s') : s'.Inv fits := by
  induction steps with
  | refl => exact inv
  | tail _ step ih => exact ih.step step

end Log
end Delivery
