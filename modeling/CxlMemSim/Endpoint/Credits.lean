import CxlMemSim.Endpoint.Expander
import CxlMemSim.Lib.Run

/-! A request is outstanding until requests are processed at or after its completion time. -/
namespace CxlMemSim.Endpoint
open Function CXLMemExpander List

inductive Call
  | insert (timestamp tid physAddr : UInt64) (index : Int)
  | calculateLatency (elem : List (UInt64 × UInt64))

namespace CXLMemExpander

def issued (timing : Timing) (now : UInt64) : List CXLRequest → CXLMemExpander → List CXLRequest
  | [], _ => []
  | req :: rest, e =>
    if e.inFlight.length < maxQueueSize / 2 ∧ e.hasCredits req.isRead then
      let stamped := stamp timing now (rest.length + 1) req
      stamped :: issued timing now rest ((e.consumeCredit req.isRead).launch stamped)
    else []

def call (e : CXLMemExpander) (timing : Timing) : Call → CXLMemExpander
  | .insert timestamp tid physAddr index => (e.insert timing timestamp tid physAddr index).2
  | .calculateLatency elem => (e.calculateLatency timing elem).2

def processingTime (e : CXLMemExpander) : Call → Option UInt64
  | .insert timestamp _ _ index => if index = e.id then some timestamp else none
  | .calculateLatency elem => elem.getLast?.map Prod.fst

end CXLMemExpander

structure Observed where
  expander : CXLMemExpander
  outstanding : List CXLRequest

namespace Observed

def start (id : Int) : Observed := ⟨{ id }, []⟩

def step (timing : Timing) (s : Observed) (c : Call) : Observed where
  expander := s.expander.call timing c
  outstanding := match s.expander.processingTime c with
    | none => s.outstanding
    | some now =>
      let e := s.expander.completeRequests now
      s.outstanding.filter (fun req => now < req.completeTime) ++ issued timing now e.requestQueue e

def count (requests : List CXLRequest) (isRead : Bool) : Nat := requests.countP fun req => req.isRead = isRead

/-- Credits and outstanding requests of each kind add up, and when the latter
are complete processing takes a request from the queue. -/
structure FlowControlled (timing : Timing) (s : Observed) : Prop where
  conserved : ∀ isRead, s.expander.credits isRead + count s.outstanding isRead = initialCredits
  progress : ∀ now, (∀ req ∈ s.outstanding, req.completeTime ≤ now) → s.expander.requestQueue ≠ [] →
    (s.expander.processQueuedRequests timing now).requestQueue.length < s.expander.requestQueue.length

end Observed

def admitted : (free : Bool → Nat) → List CXLRequest → List CXLRequest
  | _, [] => []
  | free, req :: rest =>
    if 0 < free req.isRead then
      req :: admitted (update free req.isRead (free req.isRead - 1)) rest
    else []

namespace CXLMemExpander

def running (e : CXLMemExpander) (now : UInt64) : List CXLRequest :=
  e.inFlight.filter fun req => now < req.completeTime

def due (e : CXLMemExpander) (now : UInt64) : List CXLRequest :=
  e.inFlight.filter fun req => req.completeTime ≤ now

def Apart (e : CXLMemExpander) (now : UInt64) : Prop :=
  let free := fun isRead => e.credits isRead + Observed.count (e.due now) isRead
  ((e.running now ++ admitted free e.requestQueue).map CXLRequest.address).Nodup
deriving Decidable

end CXLMemExpander

def Observed.CallApart (s : Observed) (c : Call) : Prop :=
  ∀ now ∈ s.expander.processingTime c, s.expander.Apart now

-- by the one time there is, not by all of them
instance (s : Observed) (c : Call) : Decidable (s.CallApart c) :=
  match processes : s.expander.processingTime c with
  | none => isTrue fun _ member => absurd (processes.symm.trans member) (Option.some_ne_none _).symm
  | some now => decidable_of_iff (s.expander.Apart now)
      ⟨fun apart _ member => Option.some.inj (processes.symm.trans member) ▸ apart, fun all => all now processes⟩

namespace CXLMemExpander

variable (e : CXLMemExpander)
include e

@[simp] theorem credits_consumeCredit (isRead : Bool) :
    (e.consumeCredit isRead).credits = update e.credits isRead (e.credits isRead - 1) := by
  funext other
  cases isRead <;> cases other <;> rfl

@[simp] theorem inFlight_consumeCredit (isRead : Bool) : (e.consumeCredit isRead).inFlight = e.inFlight := by
  cases isRead <;> rfl

theorem credits_releaseCredit (isRead : Bool) (room : e.credits isRead < initialCredits) :
    (e.releaseCredit isRead).credits = update e.credits isRead (e.credits isRead + 1) := by
  cases isRead with
  | false =>
    have taken : e.releaseCredit false = { e with writeCredits := e.writeCredits + 1 } := if_pos room
    rw [taken]
    funext other
    cases other <;> rfl
  | true =>
    have taken : e.releaseCredit true = { e with readCredits := e.readCredits + 1 } := if_pos room
    rw [taken]
    funext other
    cases other <;> rfl

theorem releaseCredit_frame (isRead : Bool) :
    (e.releaseCredit isRead).inFlight = e.inFlight ∧ (e.releaseCredit isRead).requestQueue = e.requestQueue := by
  unfold releaseCredit
  split <;> split <;> exact ⟨rfl, rfl⟩

end CXLMemExpander

namespace Observed

@[simp] theorem count_nil (isRead : Bool) : count [] isRead = 0 := rfl

theorem count_cons (req : CXLRequest) (requests : List CXLRequest) (isRead : Bool) :
    count (req :: requests) isRead = count requests isRead + if req.isRead = isRead then 1 else 0 := by
  simp only [count, countP_cons, decide_eq_true_eq]

theorem count_append (requests others : List CXLRequest) (isRead : Bool) :
    count (requests ++ others) isRead = count requests isRead + count others isRead :=
  countP_append

theorem length_eq_count (requests : List CXLRequest) :
    requests.length = count requests true + count requests false := by
  induction requests with
  | nil => rfl
  | cons req requests ih =>
    rw [length_cons, ih, count_cons, count_cons]
    cases req.isRead <;> simp <;> omega

end Observed

open Observed (count count_nil count_cons count_append length_eq_count)

variable {e : CXLMemExpander} {c : Call} {req : CXLRequest}

namespace CXLMemExpander

theorem foldl_releaseCredit (done : List CXLRequest) (e : CXLMemExpander)
    (room : ∀ isRead, e.credits isRead + count done isRead ≤ initialCredits) :
    let e' := done.foldl (fun e req => e.releaseCredit req.isRead) e
    e'.inFlight = e.inFlight ∧ e'.requestQueue = e.requestQueue ∧
      ∀ isRead, e'.credits isRead = e.credits isRead + count done isRead := by
  induction done generalizing e with
  | nil => exact ⟨rfl, rfl, fun _ => rfl⟩
  | cons req done ih =>
    have here := room req.isRead
    rw [count_cons, if_pos rfl] at here
    have released := credits_releaseCredit e req.isRead (by omega)
    have each : ∀ isRead, (e.releaseCredit req.isRead).credits isRead + count done isRead =
        e.credits isRead + count (req :: done) isRead := by
      intro isRead
      rw [released, count_cons, update_apply]
      by_cases same : isRead = req.isRead
      · rw [if_pos same, if_pos same.symm, same]
        omega
      · rw [if_neg same, if_neg (Ne.symm same), Nat.add_zero]
    obtain ⟨inFlight, queue, credits⟩ := ih (e.releaseCredit req.isRead) fun isRead => by
      rw [each]
      exact room isRead
    obtain ⟨keptInFlight, keptQueue⟩ := releaseCredit_frame e req.isRead
    refine ⟨inFlight.trans keptInFlight, queue.trans keptQueue, fun isRead => ?_⟩
    exact (credits isRead).trans (each isRead)

/-- What is in flight and the credits of each kind make up the initial ones. -/
def Conserves (e : CXLMemExpander) : Prop :=
  ∀ isRead, e.credits isRead + count e.inFlight isRead = initialCredits

theorem count_due_add_running (e : CXLMemExpander) (now : UInt64) (isRead : Bool) :
    count (e.due now) isRead + count (e.running now) isRead = count e.inFlight isRead := by
  unfold due running
  induction e.inFlight with
  | nil => rfl
  | cons req rest ih =>
    by_cases late : req.completeTime ≤ now
    · have notRunning : ¬ now < req.completeTime := UInt64.not_lt.mpr late
      simp only [filter_cons, late, notRunning, decide_true, decide_false, if_true, Bool.false_eq_true,
        if_false, count_cons]
      omega
    · have isRunning : now < req.completeTime := UInt64.not_le.mp late
      simp only [filter_cons, late, isRunning, decide_true, decide_false, if_true, Bool.false_eq_true,
        if_false, count_cons]
      omega

theorem completeRequests_spec (conserves : e.Conserves) (now : UInt64) :
    (e.completeRequests now).inFlight = e.running now ∧
      (e.completeRequests now).requestQueue = e.requestQueue ∧
      ∀ isRead, (e.completeRequests now).credits isRead = e.credits isRead + count (e.due now) isRead := by
  have room : ∀ isRead, e.credits isRead + count (e.due now) isRead ≤ initialCredits := by
    intro isRead
    have total := conserves isRead
    rw [← count_due_add_running e now] at total
    omega
  obtain ⟨inFlight, queue, credits⟩ := foldl_releaseCredit (e.due now) e room
  exact ⟨congrArg (List.filter _) inFlight, queue, credits⟩

theorem Conserves.completeRequests (conserves : e.Conserves) (now : UInt64) : (e.completeRequests now).Conserves := by
  obtain ⟨inFlight, _, credits⟩ := completeRequests_spec conserves now
  intro isRead
  rw [inFlight, credits, Nat.add_assoc, count_due_add_running]
  exact conserves isRead

theorem Conserves.length_inFlight (conserves : e.Conserves) : e.inFlight.length < maxQueueSize / 2 := by
  have reads := conserves true
  have writes := conserves false
  rw [length_eq_count]
  unfold initialCredits maxQueueSize at *
  omega

theorem launch_inFlight
    (fresh : req.address ∉ e.inFlight.map CXLRequest.address) : (e.launch req).inFlight = e.inFlight ++ [req] := by
  have others : e.inFlight.filter (fun other => other.address ≠ req.address) = e.inFlight := by
    rw [filter_eq_self]
    intro other member
    exact decide_eq_true fun same => fresh (same ▸ mem_map_of_mem member)
  exact congrArg (· ++ [req]) others

section
variable (timing : Timing)
include timing

theorem issueRequests_requestQueue (now : UInt64) (queue : List CXLRequest) (e : CXLMemExpander) :
    (issueRequests timing now queue e).requestQueue = queue.drop (issued timing now queue e).length := by
  induction queue generalizing e with
  | nil => rfl
  | cons req rest ih =>
    unfold issueRequests issued
    split
    · exact ih _
    · rfl

theorem issueRequests_spec (now : UInt64) (queue : List CXLRequest) (conserves : e.Conserves)
    (apart : ((e.inFlight ++ admitted e.credits queue).map CXLRequest.address).Nodup) :
    (issueRequests timing now queue e).inFlight = e.inFlight ++ issued timing now queue e ∧
      (issueRequests timing now queue e).Conserves := by
  -- the requests admitted from here on are those admitted later and the one at the front
  induction queue generalizing e with
  | nil => exact ⟨(append_nil _).symm, conserves⟩
  | cons req rest ih =>
    by_cases free : 0 < e.credits req.isRead
    · have guard : e.inFlight.length < maxQueueSize / 2 ∧ e.hasCredits req.isRead = true :=
        ⟨conserves.length_inFlight, decide_eq_true free⟩
      rw [issueRequests, issued, if_pos guard, if_pos guard]
      set stamped := stamp timing now (rest.length + 1) req with stampedEq
      rw [admitted, if_pos free, map_append, map_cons, nodup_append] at apart
      have fresh : stamped.address ∉ (e.consumeCredit req.isRead).inFlight.map CXLRequest.address := by
        rw [inFlight_consumeCredit]
        exact fun member => apart.2.2 _ member _ mem_cons_self rfl
      have launched := launch_inFlight fresh
      rw [inFlight_consumeCredit] at launched
      have next : ((e.consumeCredit req.isRead).launch stamped).Conserves := by
        intro isRead
        have total := conserves isRead
        have credits : ((e.consumeCredit req.isRead).launch stamped).credits = _ := credits_consumeCredit e req.isRead
        rw [launched, credits, count_append, count_cons, count_nil, update_apply]
        by_cases same : isRead = req.isRead
        · rw [if_pos same, if_pos (show stamped.isRead = isRead from same.symm), ← same]
          rw [← same] at free
          omega
        · rw [if_neg same, if_neg (show ¬ stamped.isRead = isRead from Ne.symm same)]
          omega
      obtain ⟨inFlight, conserved⟩ := ih next (by
        rw [launched, show ((e.consumeCredit req.isRead).launch stamped).credits = _ from
          credits_consumeCredit e req.isRead, append_assoc, map_append, nodup_append]
        exact apart)
      refine ⟨?_, conserved⟩
      rw [inFlight, launched, append_assoc, singleton_append]
    · have guard : ¬ (e.inFlight.length < maxQueueSize / 2 ∧ e.hasCredits req.isRead = true) :=
        fun taken => free (of_decide_eq_true taken.2)
      rw [issueRequests, issued, if_neg guard, if_neg guard, append_nil]
      exact ⟨rfl, conserves⟩

theorem processQueuedRequests_spec {now : UInt64} (conserves : e.Conserves) (apart : e.Apart now) :
    let completed := e.completeRequests now
    (e.processQueuedRequests timing now).inFlight =
        e.running now ++ issued timing now completed.requestQueue completed ∧
      (e.processQueuedRequests timing now).Conserves := by
  obtain ⟨inFlight, queue, credits⟩ := completeRequests_spec conserves now
  have spec := issueRequests_spec timing now (e.completeRequests now).requestQueue (conserves.completeRequests now) (by
    rw [inFlight, queue, funext credits]
    exact apart)
  rw [inFlight] at spec
  exact spec

theorem issueRequests_length_lt (now : UInt64) {queue : List CXLRequest}
    (pending : queue ≠ []) (idle : e.inFlight = []) (free : ∀ isRead, e.credits isRead = initialCredits) :
    (issueRequests timing now queue e).requestQueue.length < queue.length := by
  obtain ⟨req, rest, rfl⟩ := exists_cons_of_ne_nil pending
  have guard : e.inFlight.length < maxQueueSize / 2 ∧ e.hasCredits req.isRead = true := by
    rw [idle, hasCredits, free]
    decide
  rw [issueRequests, if_pos guard, issueRequests_requestQueue, length_drop, length_cons]
  omega

theorem processQueuedRequests_stuck {rest : List CXLRequest}
    (queue : e.requestQueue = req :: rest) (idle : e.inFlight = []) (spent : e.credits req.isRead = 0)
    (now : UInt64) : (e.processQueuedRequests timing now).requestQueue = e.requestQueue := by
  have nothing : e.completeRequests now = e := by
    rw [completeRequests, idle]
    dsimp only [filter_nil, foldl_nil]
    rw [idle, filter_nil, ← idle]
  have guard : ¬ (e.inFlight.length < maxQueueSize / 2 ∧ e.hasCredits req.isRead = true) := by
    rw [hasCredits, spent]
    exact fun taken => absurd (of_decide_eq_true taken.2) (Nat.lt_irrefl 0)
  rw [processQueuedRequests, nothing, queue, issueRequests, if_neg guard]

end

def SameFlow (e e' : CXLMemExpander) : Prop := e'.inFlight = e.inFlight ∧ e'.credits = e.credits

theorem SameFlow.trans {e e' e'' : CXLMemExpander} (first : SameFlow e e') (second : SameFlow e' e'') :
    SameFlow e e'' := ⟨second.1.trans first.1, second.2.trans first.2⟩

theorem SameFlow.conserves {e e' : CXLMemExpander} (same : SameFlow e e') (conserves : e.Conserves) :
    e'.Conserves := by
  intro isRead
  rw [same.1, same.2]
  exact conserves isRead

theorem isAddressLocal_sameFlow (e : CXLMemExpander) (addr : UInt64) : SameFlow e (e.isAddressLocal addr).2 := by
  unfold isAddressLocal updateRangeCache
  split <;> exact ⟨rfl, rfl⟩

theorem localAccesses_sameFlow (elem : List (UInt64 × UInt64)) (e : CXLMemExpander) :
    SameFlow e (localAccesses elem e).2 := by
  induction elem generalizing e with
  | nil => exact ⟨rfl, rfl⟩
  | cons access rest ih => exact (isAddressLocal_sameFlow e access.2).trans (ih (e.isAddressLocal access.2).2)

theorem updateAddressCache_sameFlow (e : CXLMemExpander) : SameFlow e e.updateAddressCache := by
  unfold updateAddressCache
  split <;> exact ⟨rfl, rfl⟩

-- `insert` dates the expander before it processes requests, which do not read the date
theorem releaseCredit_dated (e : CXLMemExpander) (timestamp : UInt64) (isRead : Bool) :
    (e.dated timestamp).releaseCredit isRead = (e.releaseCredit isRead).dated timestamp := by
  unfold releaseCredit dated
  split <;> split <;> rfl

theorem consumeCredit_dated (e : CXLMemExpander) (timestamp : UInt64) (isRead : Bool) :
    (e.dated timestamp).consumeCredit isRead = (e.consumeCredit isRead).dated timestamp := by
  cases isRead <;> rfl

theorem completeRequests_dated (e : CXLMemExpander) (timestamp now : UInt64) :
    (e.dated timestamp).completeRequests now = (e.completeRequests now).dated timestamp := by
  have folded : ∀ (done : List CXLRequest) (e : CXLMemExpander),
      done.foldl (fun e req => e.releaseCredit req.isRead) (e.dated timestamp) =
        (done.foldl (fun e req => e.releaseCredit req.isRead) e).dated timestamp := by
    intro done
    induction done with
    | nil => exact fun _ => rfl
    | cons req done ih =>
      intro e
      rw [foldl_cons, foldl_cons, releaseCredit_dated, ih]
  have same := folded (e.due now) e
  exact congrArg (fun e : CXLMemExpander => { e with inFlight := e.running now }) same

theorem issued_dated (timing : Timing) (now timestamp : UInt64) (queue : List CXLRequest) (e : CXLMemExpander) :
    issued timing now queue (e.dated timestamp) = issued timing now queue e := by
  induction queue generalizing e with
  | nil => rfl
  | cons req rest ih =>
    have next := ih ((e.consumeCredit req.isRead).launch (stamp timing now (rest.length + 1) req))
    have moved : ((e.consumeCredit req.isRead).launch (stamp timing now (rest.length + 1) req)).dated timestamp =
        ((e.dated timestamp).consumeCredit req.isRead).launch (stamp timing now (rest.length + 1) req) := by
      rw [consumeCredit_dated]
      rfl
    rw [moved] at next
    unfold issued
    dsimp only
    rw [next]
    rfl

theorem record_sameFlow (e : CXLMemExpander) (timestamp tid physAddr : UInt64) :
    SameFlow e (e.record timestamp tid physAddr).2 := by
  unfold record
  split
  · split
    · dsimp only
      split <;> exact ⟨rfl, rfl⟩
    · exact ⟨rfl, rfl⟩
  · exact ⟨rfl, rfl⟩

theorem calculateLatency_sameFlow (timing : Timing) (e : CXLMemExpander) {elem : List (UInt64 × UInt64)}
    {last : UInt64 × UInt64} (found : elem.getLast? = some last) :
    SameFlow (e.processQueuedRequests timing last.1) (e.calculateLatency timing elem).2 := by
  unfold calculateLatency
  rw [found]
  exact (updateAddressCache_sameFlow (e.processQueuedRequests timing last.1)).trans (localAccesses_sameFlow elem _)

theorem call_sameFlow (timing : Timing) {now : UInt64} (processes : e.processingTime c = some now) :
    ∃ date, SameFlow ((e.dated date).processQueuedRequests timing now) (e.call timing c) := by
  cases c with
  | insert timestamp tid physAddr index =>
    by_cases own : index = e.id
    · have when : now = timestamp := Option.some.inj (processes.symm.trans (if_pos own))
      rw [when, call, insert, if_pos own]
      exact ⟨_, record_sameFlow _ timestamp tid physAddr⟩
    · exact absurd (processes.symm.trans (if_neg own)) (Option.some_ne_none now)
  | calculateLatency elem =>
    obtain ⟨last, found, rfl⟩ := Option.map_eq_some_iff.mp processes
    exact ⟨e.lastTimestamp, calculateLatency_sameFlow timing e found⟩

theorem call_of_not_processing (timing : Timing) (idle : e.processingTime c = none) : e.call timing c = e := by
  cases c with
  | insert timestamp tid physAddr index =>
    by_cases own : index = e.id
    · exact absurd (idle.symm.trans (if_pos own)) (Option.some_ne_none timestamp).symm
    · simp only [call, insert, if_neg own]
  | calculateLatency elem =>
    have empty : elem.getLast? = none := Option.map_eq_none_iff.mp idle
    simp only [call, calculateLatency, empty]

end CXLMemExpander

namespace Observed

structure Tracks (s : Observed) : Prop where
  inFlight : s.expander.inFlight = s.outstanding
  conserves : s.expander.Conserves

theorem Tracks.step (timing : Timing) {s : Observed} (tracks : s.Tracks) (apart : s.CallApart c) :
    (s.step timing c).Tracks := by
  cases processes : s.expander.processingTime c with
  | none =>
    have same : s.step timing c = s := by
      unfold Observed.step
      rw [call_of_not_processing timing processes, processes]
    rw [same]
    exact tracks
  | some now =>
    obtain ⟨date, same⟩ := call_sameFlow timing processes
    obtain ⟨inFlight, conserves⟩ := processQueuedRequests_spec timing
      (show (s.expander.dated date).Conserves from tracks.conserves)
      (show (s.expander.dated date).Apart now from apart now processes)
    refine ⟨?_, same.conserves conserves⟩
    unfold Observed.step
    dsimp only
    rw [processes, same.1, inFlight, completeRequests_dated, issued_dated]
    exact congrArg (fun requests => List.filter _ requests ++ _) tracks.inFlight

theorem Tracks.flowControlled (timing : Timing) {s : Observed} (tracks : s.Tracks) : s.FlowControlled timing where
  conserved := by
    rw [← tracks.inFlight]
    exact tracks.conserves
  progress := by
    intro now complete pending
    rw [← tracks.inFlight] at complete
    obtain ⟨inFlight, queue, _⟩ := completeRequests_spec tracks.conserves now
    have idle : (s.expander.completeRequests now).inFlight = [] := by
      rw [inFlight, running, filter_eq_nil_iff]
      intro req member
      rw [decide_eq_true_eq]
      exact UInt64.not_lt.mpr (complete req member)
    have free : ∀ isRead, (s.expander.completeRequests now).credits isRead = initialCredits := by
      intro isRead
      have total := tracks.conserves.completeRequests now isRead
      rw [idle, count_nil, Nat.add_zero] at total
      exact total
    rw [← queue] at pending ⊢
    exact issueRequests_length_lt timing now pending idle free

theorem start_tracks (id : Int) : (start id).Tracks := by
  refine ⟨rfl, fun isRead => ?_⟩
  cases isRead <;> rfl

theorem flowControlled_of_apart (timing : Timing) (id : Int) {calls before : List Call}
    (apart : Run.EveryStep (step timing) CallApart (start id) calls) (reached : before <+: calls) :
    (before.foldl (step timing) (start id)).FlowControlled timing := by
  obtain ⟨after, rfl⟩ := reached
  have tracks := Run.invariant_of_everyStep (I := Tracks) (fun _ _ => Tracks.step timing) (start_tracks id)
    apart.of_append
  exact tracks.flowControlled timing

def serverTiming : Timing := fun now _ req => now + if req.isRead then 151 else 201

theorem flowControlled_of_apart_spaced :
    let calls := [Call.insert 0 1 0x1000 0, .insert 1 1 0x2000 0, .insert 500 1 0x1000 0, .insert 1000 1 0x1000 0,
      .calculateLatency [(1500, 0x1000)]]
    (calls.foldl (step serverTiming) (start 0)).FlowControlled serverTiming :=
  flowControlled_of_apart serverTiming 0 (by decide +kernel) (prefix_refl _)

def repeatedCalls : List Call :=
  [.insert 0 1 0x1000 0, .insert 1 1 0x1000 0, .insert 2 1 0x2000 0, .insert 3 1 0x2000 0, .insert 4 1 0x3000 0,
    .calculateLatency [(1000, 0x3000)]]

/-- Nothing is outstanding, and the request at the front waits for a write credit that never comes back. -/
theorem write_credits_lost :
    let s := repeatedCalls.foldl (step serverTiming) (start 0)
    s.outstanding = [] ∧ s.expander.writeCredits = 0 ∧ s.expander.requestQueue.length = 1 ∧
      (∀ now, (s.expander.processQueuedRequests serverTiming now).requestQueue = s.expander.requestQueue) ∧
      ¬ s.FlowControlled serverTiming := by
  intro s
  have none : s.outstanding = [] := by decide +kernel
  have spent : s.expander.writeCredits = 0 := by decide +kernel
  have queue : s.expander.requestQueue = [⟨4, 0x3000, 1, false, true, 0, 0⟩] := by decide +kernel
  have idle : s.expander.inFlight = [] := by decide +kernel
  refine ⟨none, spent, congrArg List.length queue, ?_, fun flow => ?_⟩
  · exact processQueuedRequests_stuck serverTiming queue idle spent
  · have total : s.expander.credits false + count s.outstanding false = initialCredits := flow.conserved false
    rw [none, show s.expander.credits false = 0 from spent] at total
    exact absurd total (by decide)

end Observed

end CxlMemSim.Endpoint
