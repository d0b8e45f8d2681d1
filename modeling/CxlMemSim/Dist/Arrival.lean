import CxlMemSim.Dist.Polling
import Mathlib.Algebra.Order.BigOperators.Group.Finset
import Mathlib.Data.Prod.Lex
import Mathlib.Tactic.FinCases

/-! Why a message is taken by a worker that keeps running: the messages before it get fewer, and while they do not, the
worker's poll moves on. -/
namespace CxlMemSim.Dist
open Function RingBuffer Run SharedRing List

theorem Poll.length_todo_le (p : Poll) : p.todo.length ≤ 16 :=
  p.suffix.length_le.trans_eq length_finRange

variable {p : Poll} {n i : Node} {before : List (ManagerStep DistMsgType)} {rest : List Node}

theorem Poll.le_of_mem {j : Node} (todo : p.todo = i :: rest) (member : j ∈ p.todo) : i ≤ j := by
  have sorted := (pairwise_lt_finRange distMaxNodes).sublist p.suffix.sublist
  rw [todo] at sorted member
  rcases mem_cons.mp member with same | later
  · exact same.ge
  · exact ((pairwise_cons.mp sorted).1 j later).le

theorem Poll.todo_next (todo : p.todo = i :: rest) : p.next.todo = rest := by
  change p.todo.tail = rest
  rw [todo, tail_cons]

namespace Managers
variable {μ : Type} (src dst : Node) (k total : Nat) (m : Managers μ)

noncomputable def work : Nat :=
  (total - (m.channel (src, dst)).taken.length) +
    ∑ i ∈ Finset.univ.filter (· < src), (m.channel (i, dst)).waiting

def Reaches (p : Poll) : Prop := p.processed < 100 ∧ src ∈ p.todo ∧ ¬ (m.channel (src, dst)).Stale k

open Classical in
noncomputable def lap (p : Poll) : Nat :=
  if m.Reaches src dst k p then p.todo.length else (100 - p.processed) * 17 + 17 + p.todo.length

def outboxLeft (outbox : List (Node × μ)) : Nat :=
  match outbox with
  | [] => 0
  | (peer, _) :: _ => outbox.length * 4 + ((m.channel (dst, peer)).puts k).left

def stageLeft (p : Poll) : Nat :=
  match p.stage, p.todo with
  | .source, _ => 6
  | .loop, _ => 5
  | .dequeue, [] => 0
  | .dequeue, i :: _ => ((m.channel (i, dst)).takes k).left + 1

def poll : Poll :=
  match (m.threads dst k).job with
  | .polling p => p
  | _ => Poll.start

def left : Nat := m.outboxLeft dst k (m.threads dst k).outbox + m.stageLeft dst k (m.poll dst k)

noncomputable def rank : Nat ×ₗ Nat ×ₗ Nat :=
  toLex (m.work src dst total, toLex (m.lap src dst k (m.poll dst k), m.left dst k))

variable {src dst k total m} {after : Managers μ} {k' : Nat} {q : Poll} {ch : SharedRing 4096 Nat μ} {msg : μ}

theorem rank_lt_of_work (less : after.work src dst total < m.work src dst total) :
    after.rank src dst k total < m.rank src dst k total :=
  Prod.Lex.toLex_lt_toLex.mpr (.inl less)

theorem rank_lt {outbox outbox' : List (Node × μ)}
    (thread : m.threads dst k = ⟨outbox, .polling p⟩) (thread' : after.threads dst k = ⟨outbox', .polling q⟩)
    (work : after.work src dst total ≤ m.work src dst total)
    (closer : after.lap src dst k q < m.lap src dst k p ∨ after.lap src dst k q ≤ m.lap src dst k p ∧
        after.outboxLeft dst k outbox' + after.stageLeft dst k q < m.outboxLeft dst k outbox + m.stageLeft dst k p) :
    after.rank src dst k total < m.rank src dst k total := by
  rcases Nat.lt_or_eq_of_le work with less | same
  · exact rank_lt_of_work less
  · refine Prod.Lex.toLex_lt_toLex.mpr (.inr ⟨same, Prod.Lex.toLex_lt_toLex.mpr ?_⟩)
    simp only [poll, left, thread, thread']
    omega

theorem lap_of_reaches (reaches : m.Reaches src dst k p) : m.lap src dst k p = p.todo.length :=
  if_pos reaches

theorem lap_of_misses (misses : ¬ m.Reaches src dst k p) :
    m.lap src dst k p = (100 - p.processed) * 17 + 17 + p.todo.length :=
  if_neg misses

theorem lap_congr (same : after.Reaches src dst k p ↔ m.Reaches src dst k p) :
    after.lap src dst k p = m.lap src dst k p := by
  by_cases reaches : m.Reaches src dst k p
  · rw [lap_of_reaches reaches, lap_of_reaches (same.mpr reaches)]
  · rw [lap_of_misses reaches, lap_of_misses (mt same.mp reaches)]

theorem lap_lt_of_misses (misses : ¬ m.Reaches src dst k p)
    (reaches : after.Reaches src dst k q) : after.lap src dst k q < m.lap src dst k p := by
  rw [lap_of_misses misses, lap_of_reaches reaches]
  have := q.length_todo_le
  omega

/-- A poll that can miss the source only if it did before gets closer with each source it has done. -/
theorem lap_le (keeps : m.Reaches src dst k p → after.Reaches src dst k q)
    (processed : q.processed = p.processed) (todo : q.todo.length ≤ p.todo.length) :
    after.lap src dst k q ≤ m.lap src dst k p := by
  by_cases reaches : m.Reaches src dst k p
  · rwa [lap_of_reaches reaches, lap_of_reaches (keeps reaches)]
  · by_cases back : after.Reaches src dst k q
    · exact (lap_lt_of_misses reaches back).le
    · rw [lap_of_misses reaches, lap_of_misses back, processed]
      omega

theorem lap_lt (keeps : m.Reaches src dst k p → after.Reaches src dst k q)
    (processed : q.processed = p.processed) (todo : q.todo.length < p.todo.length) :
    after.lap src dst k q < m.lap src dst k p := by
  by_cases reaches : m.Reaches src dst k p
  · rwa [lap_of_reaches reaches, lap_of_reaches (keeps reaches)]
  · by_cases back : after.Reaches src dst k q
    · exact lap_lt_of_misses reaches back
    · rw [lap_of_misses reaches, lap_of_misses back, processed]
      omega

section work
variable {i n : Node} {ch : SharedRing 4096 Nat μ}

theorem work_setChannel_le (taken : (i, n) = (src, dst) → (m.channel (i, n)).taken.length ≤ ch.taken.length)
    (waiting : i < src → n = dst → ch.waiting ≤ (m.channel (i, n)).waiting) :
    (m.setChannel (i, n) ch).work src dst total ≤ m.work src dst total := by
  rw [work, work, channel_setChannel]
  refine Nat.add_le_add ?_ (Finset.sum_le_sum fun j member => ?_)
  · by_cases here : (src, dst) = (i, n)
    · rw [here, update_self]
      exact Nat.sub_le_sub_left (taken here.symm) _
    · rw [update_of_ne here]
  · by_cases here : (j, dst) = (i, n)
    · cases here
      rw [update_self]
      exact waiting (Finset.mem_filter.mp member).2 rfl
    · rw [update_of_ne here]

theorem work_setChannel_lt (low : i ≤ src) (unfinished : (m.channel (src, dst)).taken.length < total)
    (taken : (m.channel (i, dst)).taken.length < ch.taken.length)
    (waiting : ch.waiting < (m.channel (i, dst)).waiting) :
    (m.setChannel (i, dst) ch).work src dst total < m.work src dst total := by
  rw [work, work, channel_setChannel]
  rcases lt_or_eq_of_le low with below | rfl
  · have apart : (src, dst) ≠ (i, dst) := fun same => below.ne' (Prod.mk.inj same).1
    rw [update_of_ne apart]
    refine Nat.add_lt_add_left (Finset.sum_lt_sum (fun j _ => ?_) ⟨i, by simpa using below, ?_⟩) _
    · by_cases here : (j, dst) = (i, dst)
      · rw [here, update_self]
        exact waiting.le
      · rw [update_of_ne here]
    · rwa [update_self]
  · rw [update_self]
    refine Nat.add_lt_add_of_lt_of_le (by omega) (Finset.sum_le_sum fun j member => ?_)
    have apart : (j, dst) ≠ (i, dst) := fun same => (Finset.mem_filter.mp member).2.ne (Prod.mk.inj same).1
    rw [update_of_ne apart]

end work

structure SameView (src dst : Node) (k : Nat) (m after : Managers μ) : Prop where
  thread : after.threads dst k = m.threads dst k
  puts : ∀ peer, (after.channel (dst, peer)).puts k = (m.channel (dst, peer)).puts k
  takes : ∀ i, (after.channel (i, dst)).takes k = (m.channel (i, dst)).takes k
  stale : (after.channel (src, dst)).Stale k ↔ (m.channel (src, dst)).Stale k
  work : ∀ total, after.work src dst total ≤ m.work src dst total

theorem SameView.rank_le (view : SameView src dst k m after) :
    after.rank src dst k total ≤ m.rank src dst k total := by
  have poll : after.poll dst k = m.poll dst k := by rw [Managers.poll, view.thread, Managers.poll]
  have lap : after.lap src dst k (m.poll dst k) = m.lap src dst k (m.poll dst k) :=
    lap_congr (and_congr_right fun _ => and_congr_right fun _ => not_congr view.stale)
  have left : after.left dst k = m.left dst k := by
    simp only [Managers.left, outboxLeft, stageLeft, poll, view.thread, view.puts, view.takes]
  rcases Nat.lt_or_eq_of_le (view.work total) with less | same
  · exact (rank_lt_of_work less).le
  · rw [rank, rank, same, poll, lap, left]

theorem SameView.setThread (other : (dst, k) ≠ (n, k'))
    (view : SameView src dst k m after) (th : Thread μ) : SameView src dst k m (after.setThread n k' th) where
  thread := (threads_setThread_of_ne other th).trans view.thread
  puts := view.puts
  takes := view.takes
  stale := view.stale
  work := view.work

theorem SameView.deregisterNode (n : Node) : SameView src dst k m (m.deregisterNode n) where
  thread := rfl
  puts _ := by rw [channel_deregisterNode]
  takes _ := by rw [channel_deregisterNode]
  stale := by rw [channel_deregisterNode]
  work total := by rw [Managers.work, Managers.work, channel_deregisterNode]

theorem SameView.setChannel (puts : i = dst → ch.puts k = (m.channel (i, n)).puts k)
    (takes : n = dst → ch.takes k = (m.channel (i, n)).takes k)
    (stale : (i, n) = (src, dst) → (ch.Stale k ↔ (m.channel (i, n)).Stale k))
    (work : ∀ total, (m.setChannel (i, n) ch).work src dst total ≤ m.work src dst total) :
    SameView src dst k m (m.setChannel (i, n) ch) where
  thread := rfl
  puts peer := forall_setChannel (P := fun c ch => c.1 = dst → ch.puts k = (m.channel c).puts k) puts
    (fun _ _ => rfl) (dst, peer) rfl
  takes j := forall_setChannel (P := fun c ch => c.2 = dst → ch.takes k = (m.channel c).takes k) takes
    (fun _ _ => rfl) (j, dst) rfl
  stale := forall_setChannel (P := fun c ch => c = (src, dst) → (ch.Stale k ↔ (m.channel c).Stale k)) stale
    (fun _ _ => Iff.rfl) (src, dst) rfl
  work := work

section
variable (sound : m.Sound)
include sound

theorem Sound.work_put (nonempty : m.header.queued src dst ≠ []) {peer : Node}
    {rest responses : List (Node × μ)} (outbox : (m.threads n k').outbox = (peer, msg) :: rest)
    (meets : m.Meets (.run n k' responses)) :
    (m.afterPut n peer k' msg).work src dst total ≤ m.work src dst total := by
  simp only [Meets, outbox] at meets
  refine work_setChannel_le (fun _ => by rw [taken_put]) fun below same => ?_
  subst same
  by_cases idle : (m.channel (n, peer)).puts k' = .idle
  · exact absurd ((meets.2 idle).2.2 src below) nonempty
  · exact (sound.channel (n, peer)).waiting_put_le idle msg

theorem Sound.work_take : (m.afterTake i n k').work src dst total ≤ m.work src dst total :=
  work_setChannel_le (fun _ => taken_take_le _ _) fun _ _ => (sound.channel (i, n)).waiting_take_le

theorem Sound.sameView_put (nonempty : m.header.queued src dst ≠ [])
    (other : (dst, k) ≠ (n, k')) {peer : Node} {rest responses : List (Node × μ)}
    (outbox : (m.threads n k').outbox = (peer, msg) :: rest) (meets : m.Meets (.run n k' responses)) :
    SameView src dst k m (m.afterPut n peer k' msg) := by
  refine .setChannel (fun same => ?_) (fun _ => by rw [takes_put]) (fun _ => stale_put)
    fun _ => sound.work_put nonempty outbox meets
  exact puts_put_of_ne _ _ _ fun eq => other (by rw [same, eq])

theorem Sound.sameView_take (other : (dst, k) ≠ (n, k')) (i : Node) : SameView src dst k m (m.afterTake i n k') := by
  refine .setChannel (fun _ => by rw [puts_take]) (fun same => ?_) (fun same => ?_) fun _ => sound.work_take
  · exact takes_take_of_ne _ _ fun eq => other (by rw [same, eq])
  · exact (sound.channel (i, n)).stale_take_of_ne fun eq => other (by rw [(Prod.mk.inj same).2, eq])

theorem Sound.sameView_run (nonempty : m.header.queued src dst ≠ [])
    (other : (dst, k) ≠ (n, k')) {responses : List (Node × μ)} (meets : m.Meets (.run n k' responses)) :
    SameView src dst k m (m.run n k' responses) := by
  have effect := run_effect m n k' responses
  generalize m.run n k' responses = after at effect ⊢
  have same : SameView src dst k m m := ⟨rfl, fun _ => rfl, fun _ => rfl, Iff.rfl, fun _ => Nat.le_refl _⟩
  cases effect with
  | none => exact same
  | putting outbox => exact sound.sameView_put nonempty other outbox meets
  | sent outbox => exact (sound.sameView_put nonempty other outbox meets).setThread other _
  | deregistered => exact (SameView.deregisterNode n).setThread other _
  | polled => exact same.setThread other _
  | taking => exact sound.sameView_take other _
  | empty | processed => exact (sound.sameView_take other _).setThread other _

end

theorem outboxLeft_lt (peer : Node) (msg : μ) (rest : List (Node × μ)) :
    after.outboxLeft dst k rest < m.outboxLeft dst k ((peer, msg) :: rest) := by
  cases rest with
  | nil =>
    simp only [outboxLeft, length_singleton]
    omega
  | cons next rest =>
    have := ((after.channel (dst, next.1)).puts k).left_le
    simp only [outboxLeft, length_cons]
    omega

theorem stageLeft_congr (takes : ∀ i, (after.channel (i, dst)).takes k = (m.channel (i, dst)).takes k) (p : Poll) :
    after.stageLeft dst k p = m.stageLeft dst k p := by
  simp only [stageLeft, takes]

theorem put_keeps (m : Managers μ) (src dst : Node) (k : Nat) (peer : Node) (msg : μ) :
    (∀ i, ((m.afterPut dst peer k msg).channel (i, dst)).takes k = (m.channel (i, dst)).takes k) ∧
      (((m.afterPut dst peer k msg).channel (src, dst)).Stale k ↔ (m.channel (src, dst)).Stale k) := by
  constructor
  · intro i
    exact forall_setChannel (P := fun c ch => ch.takes k = (m.channel c).takes k)
      (by rw [takes_put]) (fun _ => rfl) (i, dst)
  · exact forall_setChannel (P := fun c ch => ch.Stale k ↔ (m.channel c).Stale k) stale_put
      (fun _ => Iff.rfl) (src, dst)

theorem stageLeft_source (stage : p.stage = .source) : m.stageLeft dst k p = 6 := by
  rw [stageLeft, stage]

theorem stageLeft_loop (stage : p.stage = .loop) : m.stageLeft dst k p = 5 := by
  rw [stageLeft, stage]

theorem stageLeft_dequeue (todo : p.todo = i :: rest)
    (stage : p.stage = .dequeue) : m.stageLeft dst k p = ((m.channel (i, dst)).takes k).left + 1 := by
  rw [stageLeft, stage, todo]

section own
variable {p : Poll} {responses : List (Node × μ)}

section put
variable {peer : Node} {msg : μ} {rest : List (Node × μ)}

theorem Sound.rank_putting (sound : m.Sound) (nonempty : m.header.queued src dst ≠ [])
    (thread : m.threads dst k = ⟨(peer, msg) :: rest, .polling p⟩)
    (goes : ((m.channel (dst, peer)).put k msg).2 = none) (meets : m.Meets (.run dst k responses)) :
    (m.afterPut dst peer k msg).rank src dst k total < m.rank src dst k total := by
  obtain ⟨takes, stale⟩ := put_keeps m src dst k peer msg
  refine rank_lt thread thread (sound.work_put nonempty (by rw [thread]) meets) (.inr ⟨?_, ?_⟩)
  · exact (lap_congr (and_congr_right fun _ => and_congr_right fun _ => not_congr stale)).le
  · refine Nat.add_lt_add_of_lt_of_le ?_ (stageLeft_congr takes p).le
    have less := left_put goes
    simp only [outboxLeft, channel_setChannel, update_self]
    omega

theorem Sound.rank_sent (sound : m.Sound) (nonempty : m.header.queued src dst ≠ [])
    (thread : m.threads dst k = ⟨(peer, msg) :: rest, .polling p⟩) (meets : m.Meets (.run dst k responses)) :
    ((m.afterPut dst peer k msg).setThread dst k
      { m.threads dst k with outbox := rest }).rank src dst k total < m.rank src dst k total := by
  obtain ⟨takes, stale⟩ := put_keeps m src dst k peer msg
  refine rank_lt thread ((threads_setThread_self _ _ _).trans (by rw [thread]))
    (sound.work_put nonempty (by rw [thread]) meets) (.inr ⟨?_, ?_⟩)
  · exact (lap_congr (and_congr_right fun _ => and_congr_right fun _ => not_congr stale)).le
  · exact Nat.add_lt_add_of_lt_of_le (outboxLeft_lt peer msg rest) (stageLeft_congr takes p).le

end put

theorem Sound.rank_polled (sound : m.Sound) (nonempty : m.header.queued src dst ≠ [])
    (thread : m.threads dst k = ⟨[], .polling p⟩) (moves : m.PollMove dst p q) :
    (m.setJob dst k (.polling q)).rank src dst k total < m.rank src dst k total := by
  have later : (m.setJob dst k (.polling q)).threads dst k = ⟨[], .polling q⟩ := by
    rw [setJob, threads_setThread_self, thread]
  refine rank_lt thread later (Nat.le_refl _) ?_
  -- no channel has changed
  have lap : (m.setJob dst k (.polling q)).lap src dst k q = m.lap src dst k q := lap_congr Iff.rfl
  have stage : (m.setJob dst k (.polling q)).stageLeft dst k q = m.stageLeft dst k q := stageLeft_congr (fun _ => rfl) q
  have starts : m.Reaches src dst k Poll.start := by
    refine ⟨by decide, mem_finRange src, fun stale => ?_⟩
    have there := sound.taker dst k src (by rw [stale]; nofun)
    rw [thread] at there
    exact moves.not_dequeuing src there
  rw [lap, stage]
  cases moves with
  | finish todo => exact .inl (lap_lt_of_misses (fun reaches => by simpa [todo] using reaches.2.1) starts)
  | restart _ above => exact .inl (lap_lt_of_misses (fun reaches => absurd reaches.1 above.not_gt) starts)
  | skip todo _ skipped =>
    refine .inl (lap_lt (fun reaches => ⟨reaches.1, ?_, reaches.2.2⟩) rfl (by simp [Poll.todo_next todo, todo]))
    have member := reaches.2.1
    rw [todo] at member
    have busy : (m.channel (src, dst)).waiting ≠ 0 := fun zero => nonempty (waiting_eq_zero_iff.mp zero).1
    obtain ⟨apart, active⟩ := sound.sender src dst busy
    rcases mem_cons.mp member with rfl | later
    · rcases skipped with own | inactive
      · exact absurd own.symm apart
      · rw [active] at inactive
        cases inactive
    · rwa [Poll.todo_next todo]
  | enter todo source =>
    refine .inr ⟨lap_le id rfl (Nat.le_refl _), Nat.add_lt_add_left ?_ 0⟩
    rw [stageLeft_source source, stageLeft_loop rfl]
    decide
  | call todo loop below =>
    refine .inr ⟨lap_le id rfl (Nat.le_refl _), Nat.add_lt_add_left ?_ 0⟩
    rw [stageLeft_loop loop, stageLeft_dequeue (p := p.call below) todo rfl]
    exact Nat.succ_lt_succ (Nat.lt_succ_of_le (Take.left_le _))
  | limit todo _ above =>
    exact .inl (lap_lt (fun reaches => absurd reaches.1 above.not_gt) rfl (by simp [Poll.todo_next todo, todo]))

section take
variable {i : Node} {rest : List Node}

theorem Sound.rank_taking (sound : m.Sound) (nonempty : m.header.queued src dst ≠ [])
    (thread : m.threads dst k = ⟨[], .polling p⟩) (todo : p.todo = i :: rest) (stage : p.stage = .dequeue)
    (goes : ((m.channel (i, dst)).take k).2 = none) :
    (m.afterTake i dst k).rank src dst k total < m.rank src dst k total := by
  refine rank_lt thread thread sound.work_take (.inr ⟨lap_le (fun reaches => ?_) rfl (Nat.le_refl _), ?_⟩)
  · refine ⟨reaches.1, reaches.2.1, ?_⟩
    rw [channel_setChannel]
    by_cases here : (src, dst) = (i, dst)
    · cases here
      rw [update_self]
      exact not_stale_take nonempty goes
    · rw [update_of_ne here]
      exact reaches.2.2
  · refine Nat.add_lt_add_left ?_ 0
    rw [stageLeft_dequeue todo stage, stageLeft_dequeue todo stage, channel_setChannel, update_self]
    exact Nat.succ_lt_succ (left_take goes)

theorem Sound.rank_empty (sound : m.Sound) (thread : m.threads dst k = ⟨[], .polling p⟩)
    (todo : p.todo = i :: rest) (ends : ((m.channel (i, dst)).take k).2 = some none) :
    ((m.afterTake i dst k).setJob dst k (.polling p.next)).rank src dst k total <
      m.rank src dst k total := by
  have later : ((m.afterTake i dst k).setJob dst k (.polling p.next)).threads dst k =
      ⟨[], .polling p.next⟩ := by
    rw [setJob, threads_setThread_self, afterTake, Managers.setChannel, thread]
  refine rank_lt thread later sound.work_take (.inl (lap_lt (fun reaches => ?_) rfl ?_))
  · have apart : src ≠ i := fun same => reaches.2.2 (same ▸ stale_of_empty ends)
    refine ⟨reaches.1, ?_, ?_⟩
    · have member := reaches.2.1
      rw [todo] at member
      rw [Poll.todo_next todo]
      exact (mem_cons.mp member).resolve_left apart
    · rw [setJob, channel_setThread, channel_setChannel, update_of_ne fun same => apart (Prod.mk.inj same).1]
      exact reaches.2.2
  · simp [Poll.todo_next todo, todo]

theorem Sound.rank_processed (sound : m.Sound) (unfinished : (m.channel (src, dst)).taken.length < total)
    (thread : m.threads dst k = ⟨[], .polling p⟩) (todo : p.todo = i :: rest) (stage : p.stage = .dequeue)
    (ends : ((m.channel (i, dst)).take k).2 = some (some msg)) (sends : List (Node × μ)) :
    ((m.afterTake i dst k).setThread dst k
      { outbox := sends, job := .polling p.count }).rank src dst k total < m.rank src dst k total := by
  by_cases reaches : m.Reaches src dst k p
  · refine rank_lt_of_work (work_setChannel_lt (p.le_of_mem todo reaches.2.1) unfinished ?_ ?_)
    · rw [(take_returns ends).2, length_append]
      exact Nat.lt_succ_self _
    · exact Nat.lt_of_succ_le ((sound.channel (i, dst)).waiting_take_returns ends).le
  · refine rank_lt thread (threads_setThread_self _ _ _) sound.work_take (.inl ?_)
    by_cases back : ((m.afterTake i dst k).setThread dst k
        { outbox := sends, job := .polling p.count }).Reaches src dst k p.count
    · exact lap_lt_of_misses reaches back
    · have below := p.room stage
      rw [lap_of_misses reaches, lap_of_misses back, show p.count.processed = p.processed + 1 from rfl,
        show p.count.todo = p.todo from rfl]
      omega

end take

theorem Sound.rank_run (sound : m.Sound) (nonempty : m.header.queued src dst ≠ [])
    (unfinished : (m.channel (src, dst)).taken.length < total) (worker : k < 2)
    (meets : m.Meets (.run dst k responses)) :
    (m.run dst k responses).rank src dst k total < m.rank src dst k total := by
  obtain ⟨p, polling⟩ := sound.worker dst k worker
  have thread {outbox : List (Node × μ)} (here : (m.threads dst k).outbox = outbox) :
      m.threads dst k = ⟨outbox, .polling p⟩ := by rw [← here, ← polling]
  have effect := run_effect m dst k responses
  generalize m.run dst k responses = after at effect ⊢
  cases effect with
  | none job => rw [polling] at job; cases job
  | putting outbox goes => exact sound.rank_putting nonempty (thread outbox) goes meets
  | sent outbox => exact sound.rank_sent nonempty (thread outbox) meets
  | deregistered _ job => rw [polling] at job; cases job
  | polled outbox job moves =>
    obtain rfl := Job.polling.inj (polling.symm.trans job)
    exact sound.rank_polled nonempty (thread outbox) moves
  | taking outbox job todo stage goes =>
    obtain rfl := Job.polling.inj (polling.symm.trans job)
    exact sound.rank_taking nonempty (thread outbox) todo stage goes
  | empty outbox job todo stage ends =>
    obtain rfl := Job.polling.inj (polling.symm.trans job)
    exact sound.rank_empty (thread outbox) todo ends
  | processed outbox job todo stage ends =>
    obtain rfl := Job.polling.inj (polling.symm.trans job)
    exact sound.rank_processed unfinished (thread outbox) todo stage ends responses

end own

theorem Sound.sameView_assign (sound : m.Sound) (worker : k < 2) (n : Node) (k' : Nat) (th : Thread μ) :
    SameView src dst k m (m.assign n k' th) := by
  have same : SameView src dst k m m := ⟨rfl, fun _ => rfl, fun _ => rfl, Iff.rfl, fun _ => Nat.le_refl _⟩
  rw [Managers.assign]
  split
  · rename_i free
    refine same.setThread (fun here => ?_) th
    cases here
    obtain ⟨p, polling⟩ := sound.worker dst k worker
    rw [polling] at free
    cases free
  · exact same

theorem Sound.rank_step (sound : m.Sound) (nonempty : m.header.queued src dst ≠ [])
    (unfinished : (m.channel (src, dst)).taken.length < total) (worker : k < 2) {s : ManagerStep μ}
    (meets : m.Meets s) : (m.step s).rank src dst k total ≤ m.rank src dst k total := by
  cases s with
  | send n k' msgs => exact (sound.sameView_assign worker n k' _).rank_le
  | leave n k' msg => exact (sound.sameView_assign worker n k' _).rank_le
  | run n k' responses =>
    by_cases own : (dst, k) = (n, k')
    · cases own
      exact (sound.rank_run nonempty unfinished worker meets).le
    · exact (sound.sameView_run nonempty own meets).rank_le

theorem accepted_setChannel {c : Node × Node} (grows : (m.channel c).accepted <+: ch.accepted) (d : Node × Node) :
    (m.channel d).accepted <+: ((m.setChannel c ch).channel d).accepted := by
  exact forall_setChannel (P := fun c ch => (m.channel c).accepted <+: ch.accepted) grows
    (fun _ => prefix_refl _) d

theorem accepted_step (s : ManagerStep μ) (c : Node × Node) :
    (m.channel c).accepted <+: ((m.step s).channel c).accepted := by
  have assign (n : Node) (k : Nat) (th : Thread μ) :
      (m.channel c).accepted <+: ((m.assign n k th).channel c).accepted := by
    rw [Managers.assign]
    split <;> exact prefix_refl _
  cases s with
  | send n k msgs => exact assign n k _
  | leave n k msg => exact assign n k _
  | run n k responses =>
    have effect := run_effect m n k responses
    change _ <+: ((m.run n k responses).channel c).accepted
    generalize m.run n k responses = after at effect ⊢
    cases effect with
    | none | polled => exact prefix_refl _
    | putting | sent => exact accepted_setChannel (accepted_put _ _ _) c
    | deregistered =>
      rw [setJob, channel_setThread, channel_deregisterNode]
    | taking | empty | processed => exact accepted_setChannel (by rw [accepted_take]) c

end Managers

section run
variable {μ : Type} (header : DistShmHeader μ) (steps : Nat → ManagerStep μ) (src dst : Node)

def managersAt (t : Nat) : Managers μ := states Managers.step (.start header) steps t

def acceptedAt (t : Nat) : List μ := ((managersAt header steps t).channel (src, dst)).accepted

def processedAt (t : Nat) : List μ := ((managersAt header steps t).channel (src, dst)).taken

def KeepsPolling : Prop := ∃ k, k < 2 ∧ ∀ t, ∃ u, t ≤ u ∧ ∃ responses, steps u = .run dst k responses

/-- Nothing is processed that was not accepted, or more often than that; and a destination that keeps polling comes
to process all that was accepted. -/
def ExactlyOnce : Prop :=
  (∀ t, (processedAt header steps src dst t).Subperm (acceptedAt header steps src dst t)) ∧
    (KeepsPolling steps dst →
      ∀ t, ∃ u, t ≤ u ∧ (acceptedAt header steps src dst t).Subperm (processedAt header steps src dst u))

variable {header steps src dst}

theorem processedAt_of_unpolled {xs : List μ} {t u : Nat} (later : t ≤ u)
    (unpolled : (managersAt header steps t).Unpolled src dst xs) : processedAt header steps src dst u = xs := by
  have still : (managersAt header steps u).Unpolled src dst xs := by
    induction u, later using Nat.le_induction with
    | base => exact unpolled
    | succ u _ ih => exact ih.step (steps u)
  exact still.taken

theorem acceptedAt_mono {t u : Nat} (later : t ≤ u) :
    acceptedAt header steps src dst t <+: acceptedAt header steps src dst u := by
  induction u, later using Nat.le_induction with
  | base => exact prefix_refl _
  | succ u _ ih => exact ih.trans (Managers.accepted_step (steps u) (src, dst))

theorem sound_managersAt (empty : ∀ c, (header.queues c).head = (header.queues c).tail)
    (meets : ∀ t, (managersAt header steps t).Meets (steps t)) (t : Nat) : (managersAt header steps t).Sound :=
  states_invariant (fun _ _ sound meets => sound.step meets) (Managers.sound_start empty) meets t

theorem exactlyOnce_of_meets (empty : ∀ c, (header.queues c).head = (header.queues c).tail)
    (meets : ∀ t, (managersAt header steps t).Meets (steps t)) : ExactlyOnce header steps src dst := by
  have sound := sound_managersAt empty meets
  have log t : acceptedAt header steps src dst t =
      processedAt header steps src dst t ++ (managersAt header steps t).header.queued src dst :=
    ((sound t).channel (src, dst)).log
  refine ⟨fun t => ?_, ?_⟩
  · rw [log t]
    exact (sublist_append_left _ _).subperm
  · rintro ⟨k, worker, often⟩ t
    -- while fewer messages are processed than were accepted up to `t`, one of them waits
    have nonempty : ∀ u, t ≤ u →
        ¬ (acceptedAt header steps src dst t).length ≤ (processedAt header steps src dst u).length →
        (managersAt header steps u).header.queued src dst ≠ [] := by
      intro u later unfinished none
      have longer : (acceptedAt header steps src dst t).length ≤ (acceptedAt header steps src dst u).length :=
        (acceptedAt_mono later).length_le
      rw [log u, none, append_nil] at longer
      exact unfinished longer
    obtain ⟨u, later, finished⟩ := eventually_of_rank
      (fun u => (managersAt header steps u).rank src dst k (acceptedAt header steps src dst t).length)
      (fun u later unfinished => (sound u).rank_step (nonempty u later unfinished) (Nat.lt_of_not_le unfinished) worker
        (meets u))
      (fun u later unfinished ⟨responses, runs⟩ => by
        have lower := (sound u).rank_run (nonempty u later unfinished) (Nat.lt_of_not_le unfinished) worker
          (runs ▸ meets u)
        change (Managers.step _ (steps u)).rank src dst k _ < _
        rw [runs]
        exact lower)
      often
    refine ⟨u, later, (List.IsPrefix.sublist ?_).subperm⟩
    exact prefix_of_prefix_length_le (acceptedAt_mono later) (log u ▸ prefix_append _ _) finished

end run

structure Managers.Lone {μ : Type} (n : Node) (k : Nat) (m : Managers μ) : Prop where
  thread : ∃ p, m.threads n k = ⟨[], .polling p⟩
  idle : ∀ src u, u ≠ k → (m.channel (src, n)).takes u = .idle

theorem Managers.Lone.meets {μ : Type} {k : Nat} {m : Managers μ} (lone : m.Lone n k) : m.Meets (.run n k []) := by
  obtain ⟨p, thread⟩ := lone.thread
  simp only [Meets, thread]
  exact fun _ src _ _ u other => lone.idle src u other

theorem Managers.Lone.run {μ : Type} {k : Nat} {m : Managers μ} (lone : m.Lone n k) : (m.run n k []).Lone n k := by
  obtain ⟨p, thread⟩ := lone.thread
  have take (i : Node) : ∀ src u, u ≠ k →
      ((m.afterTake i n k).channel (src, n)).takes u = .idle := by
    intro src u other
    refine forall_setChannel (P := fun c ch => c.2 = n → ch.takes u = .idle) (fun _ => ?_) ?_ (src, n) rfl
    · rw [takes_take_of_ne _ _ other]
      exact lone.idle i u other
    · rintro ⟨j, _⟩ rfl
      exact lone.idle j u other
  have effect := run_effect m n k []
  generalize m.run n k [] = after at effect ⊢
  cases effect with
  | none => exact lone
  | putting outbox | sent outbox => rw [thread] at outbox; cases outbox
  | deregistered _ job => rw [thread] at job; cases job
  | polled => exact ⟨⟨_, by rw [setJob, threads_setThread_self, thread]⟩, lone.idle⟩
  | taking => exact ⟨⟨p, thread⟩, take _⟩
  | empty => exact ⟨⟨_, by rw [setJob, threads_setThread_self, afterTake, Managers.setChannel, thread]⟩, take _⟩
  | processed => exact ⟨⟨_, threads_setThread_self _ _ _⟩, take _⟩

def bothReady : DistShmHeader DistMsgType :=
  { @DistShmHeader.blank DistMsgType ⟨.none⟩ 0 with
    nodes := fun n => if n < 2 then { state := .ready } else {} }

def thenPolls (before : List (ManagerStep DistMsgType)) (n : Node) (t : Nat) : ManagerStep DistMsgType :=
  before.getD t (.run n 0 [])

theorem thenPolls_of_le {t : Nat} (later : before.length ≤ t) (n : Node) : thenPolls before n t = .run n 0 [] := by
  rw [thenPolls, getD_eq_getElem?_getD, getElem?_eq_none later, Option.getD_none]

theorem managersAt_thenPolls {t : Nat} (later : before.length ≤ t) (header : DistShmHeader DistMsgType) (n : Node) :
    managersAt header (thenPolls before n) (t + 1) = (managersAt header (thenPolls before n) t).run n 0 [] := by
  change (managersAt header (thenPolls before n) t).step (thenPolls before n t) = _
  rw [thenPolls_of_le later]
  rfl

theorem keepsPolling_thenPolls (before : List (ManagerStep DistMsgType)) (n : Node) :
    KeepsPolling (thenPolls before n) n := by
  refine ⟨0, by decide, fun t => ⟨t + before.length, Nat.le_add_right _ _, [], ?_⟩⟩
  exact thenPolls_of_le (Nat.le_add_left _ _) n

def sending : List (ManagerStep DistMsgType) := .send 0 2 [(1, .nodeHeartbeat)] :: List.replicate 4 (.run 0 2 [])

def bothWorkers : List (ManagerStep DistMsgType) :=
  sending ++ List.replicate 5 (.run 1 0 []) ++ List.replicate 6 (.run 1 1 [])

def leaving : List (ManagerStep DistMsgType) := .leave 1 2 .nodeDeregister :: List.replicate 5 (.run 1 2 [])

theorem lone_sending (t : Nat) (later : 5 ≤ t) : (managersAt bothReady (thenPolls sending 1) t).Lone 1 0 := by
  induction t, later using Nat.le_induction with
  | base =>
    refine ⟨⟨Poll.start, rfl⟩, fun src u _ => ?_⟩
    fin_cases src <;> rfl
  | succ t later ih =>
    rw [managersAt_thenPolls later]
    exact ih.run

theorem meets_sending (t : Nat) : (managersAt bothReady (thenPolls sending 1) t).Meets (thenPolls sending 1 t) := by
  match t with
  | 0 => trivial
  | 1 => exact ⟨fun _ _ _ => rfl, fun _ => ⟨by decide, by decide, fun _ _ => Queue.contents_of_empty rfl⟩⟩
  | 2 => exact ⟨nofun, nofun⟩
  | 3 => exact ⟨nofun, nofun⟩
  | 4 => exact ⟨nofun, nofun⟩
  | t + 5 =>
    have later : 5 ≤ t + 5 := Nat.le_add_left 5 t
    rw [thenPolls_of_le later]
    exact (lone_sending (t + 5) later).meets

theorem exactlyOnce_sending : ExactlyOnce bothReady (thenPolls sending 1) 0 1 ∧
    KeepsPolling (thenPolls sending 1) 1 ∧ acceptedAt bothReady (thenPolls sending 1) 0 1 5 = [.nodeHeartbeat] :=
  ⟨exactlyOnce_of_meets (fun _ => rfl) meets_sending, keepsPolling_thenPolls sending 1, by decide +kernel⟩

theorem unpolled_leaving : (managersAt bothReady (thenPolls leaving 0) 6).Unpolled 1 0 [] := by
  refine ⟨by decide +kernel, fun k p job _ => ?_, by decide +kernel⟩
  change (if k < 2 then ({ job := .polling Poll.start } : Thread DistMsgType) else {}).job = .polling p at job
  split at job
  · obtain rfl := Job.polling.inj job
    rfl
  · cases job

theorem processedAt_leaving (t : Nat) : processedAt bothReady (thenPolls leaving 0) 1 0 t = [] := by
  by_cases later : 6 ≤ t
  · exact processedAt_of_unpolled later unpolled_leaving
  · have early : ∀ t : Fin 6, processedAt bothReady (thenPolls leaving 0) 1 0 t = [] := by decide +kernel
    exact early ⟨t, Nat.lt_of_not_le later⟩

/-- A message is processed twice; and a node's NODE_DEREGISTER is never processed by a node that keeps polling. -/
theorem not_exactlyOnce :
    (acceptedAt bothReady (thenPolls bothWorkers 1) 0 1 17 = [.nodeHeartbeat] ∧
      processedAt bothReady (thenPolls bothWorkers 1) 0 1 17 = [.nodeHeartbeat, .nodeHeartbeat] ∧
      ¬ ExactlyOnce bothReady (thenPolls bothWorkers 1) 0 1) ∧
    acceptedAt bothReady (thenPolls leaving 0) 1 0 6 = [.nodeDeregister] ∧
      KeepsPolling (thenPolls leaving 0) 0 ∧ (∀ t, processedAt bothReady (thenPolls leaving 0) 1 0 t = []) ∧
      ¬ ExactlyOnce bothReady (thenPolls leaving 0) 1 0 := by
  have once : acceptedAt bothReady (thenPolls bothWorkers 1) 0 1 17 = [.nodeHeartbeat] := by decide +kernel
  have twice : processedAt bothReady (thenPolls bothWorkers 1) 0 1 17 = [.nodeHeartbeat, .nodeHeartbeat] := by
    decide +kernel
  have sent : acceptedAt bothReady (thenPolls leaving 0) 1 0 6 = [.nodeDeregister] := by decide +kernel
  have polls := keepsPolling_thenPolls leaving 0
  refine ⟨⟨once, twice, fun exactly => ?_⟩, sent, polls, processedAt_leaving, fun exactly => ?_⟩
  · have atMost := (exactly.1 17).length_le
    rw [once, twice] at atMost
    exact absurd atMost (by decide)
  · obtain ⟨u, -, delivered⟩ := exactly.2 polls 6
    have atLeast := delivered.length_le
    rw [sent, processedAt_leaving u] at atLeast
    exact absurd atLeast (by decide)

end CxlMemSim.Dist
