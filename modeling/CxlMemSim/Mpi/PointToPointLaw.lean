import CxlMemSim.Mpi.PointToPoint

/-! As long as no rank's traffic is split between its mailbox and the original library, the two together keep what MPI
promises. -/
namespace CxlMemSim.Mpi
open Delivery Function CxlMsg List

variable {d : Nat} {c : CxlMsg} {x : Receive} {msg : Message} {box : RankMailbox} {source tag : Int} {p : Nat}
  {a : SendArgs} {s : Sending} {sending : Nat → Option Sending}

def Sound (sending : Nat → Option Sending) (d : Nat) (box : RankMailbox) : Prop :=
  ∃ base, Tended (fun q => (sending q).elim Post.emptyLetter Sending.letter) (pcTo sending d) box base

theorem pcTo_self (call : sending p = some s) : pcTo sending s.args.dest p = s.pc := by
  simp [pcTo, call, Option.filter]

theorem pcTo_other (call : sending p = some s) (other : s.args.dest ≠ d) : pcTo sending d p = .start := by
  simp [pcTo, call, Option.filter, other]

namespace Sound

theorem take (sound : Sound sending d box) (source tag : Int) : Sound sending d (box.take source tag).1 ∧
    (box.take source tag).2 = box.pending.find? (selected source tag) ∧
    (box.take source tag).1.pending = box.pending.eraseP (selected source tag) := by
  obtain ⟨base, tended⟩ := sound
  obtain ⟨after, found, erased⟩ := tended.take source tag
  refine ⟨⟨_, after⟩, ?_, ?_⟩
  · rw [RankMailbox.pending, tended.pending_eq]
    exact found
  · rw [RankMailbox.pending, RankMailbox.pending, after.pending_eq, erased, tended.pending_eq]

theorem idle (sound : Sound sending d box) {later : Option Sending} (before : (pcTo sending d p).busy = false)
    (after : (pcTo (update sending p later) d p).busy = false) : Sound (update sending p later) d box := by
  obtain ⟨base, tended⟩ := sound
  refine ⟨base, tended.congr fun q => ?_⟩
  by_cases here : q = p
  · subst here
    exact .inr ⟨before, after⟩
  · exact .inl (by simp only [pcTo, update_of_ne here, and_self])

theorem advance (sound : Sound sending s.args.dest box) (call : sending p = some s) (number : Nat)
    (sole : Solely (pcTo sending s.args.dest) box p)
    {next : RankMailbox × SendPc} (stepped : s.pc.advance s.letter s.args.allocated number box = next) :
    (∀ later, later = none ∧ next.2.busy = false ∨ later = some { s with pc := next.2 } →
      Sound (update sending p later) s.args.dest next.1) ∧
    ((∀ head, next.2 = .returned (some head) → s.pc = .returned (some head)) ∧ next.1.pending = box.pending ∨
      (∃ head, s.pc = .advancing head) ∧ (∃ head, next.2 = .returned (some head)) ∧
        ∃ msg, Bears s.letter number msg ∧ next.1.pending = box.pending ++ [msg]) := by
  obtain ⟨base, tended⟩ := sound
  have own := pcTo_self call
  have leads := tended.advance s.args.allocated number p sole
  simp only [Leads, own, call, Option.elim_some, stepped] at leads
  obtain ⟨base', after, outcome⟩ := leads
  refine ⟨fun later which => ⟨base', after.congr fun q => ?_⟩, ?_⟩
  · by_cases here : q = p
    · subst here
      rcases which with ⟨rfl, idle⟩ | rfl
      · rw [update_self]
        exact .inr ⟨idle, by simp [pcTo, SendPc.busy]⟩
      · left
        rw [update_self, update_self, call]
        exact ⟨pcTo_self (s := { s with pc := next.2 }) (update_self ..), rfl⟩
    · exact .inl (by simp only [pcTo, update_of_ne here, and_self])
  · rcases outcome with keeps | publishes
    · exact .inl ⟨keeps.returned, after.pending_eq.trans (keeps.pending_eq.trans tended.pending_eq.symm)⟩
    · obtain ⟨msg, bears, appended⟩ := publishes.appended
      refine .inr ⟨⟨_, publishes.advancing⟩, ⟨_, publishes.returned⟩, msg, bears, ?_⟩
      rw [RankMailbox.pending, after.pending_eq, appended, RankMailbox.pending, tended.pending_eq]

end Sound

def Message.fields (y : Message) : Nat × Nat × Nat × List UInt8 := (y.source, y.tag, y.data.length, y.data)

structure Sending.Valid (groups : Nat → List Nat) (p : Nat) (s : Sending) : Prop where
  message : s.args.message groups p = some s.message
  running : ∀ result, s.pc ≠ .returned result

theorem toNat_ofNat_int32 {k : Nat} (small : k < 2 ^ 31) : (Int32.ofNat k).toUInt32.toNat = k :=
  Nat.mod_eq_of_lt (by omega)

namespace Sending.Valid
variable {groups : Nat → List Nat} (valid : Valid groups p s)
include valid

theorem inWorld : p < (groups 0).length := by
  by_contra outside
  have message := valid.message
  rw [SendArgs.message, if_neg fun all => outside all.1] at message
  cases message

theorem fields : s.letter.fields = s.message.fields := by
  have message := valid.message
  rw [SendArgs.message] at message
  split at message
  · rename_i bounds
    obtain ⟨dest, -, same⟩ := Option.map_eq_some_iff.mp message
    rw [Letter.fields, letter, ← same, toNat_ofNat_int32 bounds.2.1, toNat_ofNat_int32 bounds.2.2]
    rfl
  · cases message

end Sending.Valid

namespace Job
variable {groups : Nat → List Nat} {job job' : Job} {m : Nat} {called : List Receive} {sent : List Message}

theorem log_length : job.log.sent.length = job.sent.length := length_map _

theorem log_sent {y : Message} (sent : job.sent[m]? = some y) : job.log.sent[m]? = some y.toEnvelope := by
  rw [log, Traffic.log, getElem?_map, sent, Option.map_some]

theorem log_fits (r m : Nat) : job.log.Fits (fitting groups) r m ↔ job.fits groups r m = true := by
  simp only [Log.Fits, log, Traffic.log, fits, getElem?_map, Option.any_eq_true]
  constructor
  · rintro ⟨x, k, called, sent, fit⟩
    obtain ⟨y, found, rfl⟩ := Option.map_eq_some_iff.mp sent
    exact ⟨x, called, y, found, fit⟩
  · rintro ⟨x, called, y, sent, fit⟩
    exact ⟨x, y.toEnvelope, called, Option.map_eq_some_iff.mpr ⟨y, sent, rfl⟩, fit⟩

theorem log_sameLane (m m' : Nat) : job.log.SameLane Envelope.lane m m' ↔ job.sameLane m m' = true := by
  simp only [Log.SameLane, log, Traffic.log, sameLane, getElem?_map, Option.any_eq_true, decide_eq_true_eq]
  constructor
  · rintro ⟨k, k', sent, sent', lane⟩
    obtain ⟨y, found, rfl⟩ := Option.map_eq_some_iff.mp sent
    obtain ⟨y', found', rfl⟩ := Option.map_eq_some_iff.mp sent'
    exact ⟨y, found, y', found', lane⟩
  · rintro ⟨y, sent, y', sent', lane⟩
    exact ⟨_, _, Option.map_eq_some_iff.mpr ⟨y, sent, rfl⟩, Option.map_eq_some_iff.mpr ⟨y', sent', rfl⟩, lane⟩

theorem log_canDeliver {r : Nat} (can : job.canDeliver groups r m = true) :
    job.log.CanDeliver (fitting groups) Envelope.lane r m := by
  simp only [canDeliver, Bool.and_eq_true, contains_iff_mem, all_eq_true, Bool.not_eq_true',
    Bool.and_eq_false_imp, decide_eq_true_eq] at can
  obtain ⟨⟨⟨⟨posted, queued⟩, fit⟩, first⟩, next⟩ := can
  refine ⟨posted, queued, (log_fits r m).mpr fit, ?_, ?_⟩
  · intro m' queued' less lane fit'
    have no := first m' queued' ⟨less, (log_sameLane m' m).mp lane⟩
    rw [(log_fits r m').mp fit'] at no
    cases no
  · intro r' posted' less fit'
    have no := next r' posted' less
    rw [(log_fits r' m).mp fit'] at no
    cases no

def Letters (job : Job) : Prop :=
  ∀ d, ∀ c ∈ (job.mailboxes d).pending, ∃ y, job.sent[c.number]? = some y ∧ y.dest = d ∧ c.fields = y.fields

structure Tidy (groups : Nat → List Nat) (job : Job) : Prop where
  inv : job.log.Inv (fitting groups)
  boxes : ∀ d, Sound job.sending d (job.mailboxes d)
  calls : ∀ p s, job.sending p = some s → s.Valid groups p
  letters : job.Letters
  sorted : ∀ d, ((job.mailboxes d).pending.map number).Pairwise (· < ·)
  intact : ∀ d ∈ job.received, job.Intact d

theorem Tidy.law (tidy : job.Tidy groups) : job.Law groups := ⟨tidy.inv.law, tidy.intact⟩

structure Follows (groups : Nat → List Nat) (job job' : Job) : Prop where
  steps : Relation.ReflTransGen (Log.Step (fitting groups) Envelope.lane) job.log job'.log
  tidy : job'.Tidy groups

theorem Tidy.stays (tidy : job.Tidy groups) : job.Follows groups job := ⟨.refl, tidy⟩

theorem Tidy.after (tidy : job.Tidy groups) (step : job.log.Step (fitting groups) Envelope.lane job'.log)
    (boxes : ∀ d, Sound job'.sending d (job'.mailboxes d))
    (calls : ∀ p s, job'.sending p = some s → s.Valid groups p) (letters : job'.Letters)
    (sorted : ∀ d, ((job'.mailboxes d).pending.map number).Pairwise (· < ·))
    (intact : ∀ d ∈ job'.received, job'.Intact d) : job.Follows groups job' :=
  ⟨.single step, tidy.inv.step step, boxes, calls, letters, sorted, intact⟩

theorem Follows.trans {job'' : Job} (first : job.Follows groups job') (second : job'.Follows groups job'') :
    job.Follows groups job'' :=
  ⟨first.steps.trans second.steps, second.tidy⟩

theorem mem_shelf (letters : job.Letters) : m ∈ job.shelf ↔ ∃ d, ∃ c ∈ (job.mailboxes d).pending, c.number = m := by
  constructor
  · rintro ⟨y, sent, c, there, number⟩
    exact ⟨y.dest, c, there, number⟩
  · rintro ⟨d, c, there, rfl⟩
    obtain ⟨y, sent, rfl, -⟩ := letters d c there
    exact ⟨y, sent, c, there, rfl⟩

theorem Letters.number_lt (letters : job.Letters) (there : c ∈ (job.mailboxes d).pending) :
    c.number < job.sent.length := by
  obtain ⟨y, sent, -⟩ := letters d c there
  exact (List.getElem?_eq_some_iff.mp sent).1

structure Still (groups : Nat → List Nat) (job job' : Job) : Prop where
  boxes : ∀ d, Sound job'.sending d (job'.mailboxes d)
  calls : ∀ p s, job'.sending p = some s → s.Valid groups p
  same : ∀ d, (job'.mailboxes d).pending = (job.mailboxes d).pending

theorem Letters.still (letters : job.Letters) (still : job.Still groups job') (sent : job.sent <+: job'.sent) :
    job'.Letters := by
  intro d c there
  rw [still.same] at there
  obtain ⟨y, found, rest⟩ := letters d c there
  obtain ⟨later, sent⟩ := sent
  refine ⟨y, ?_, rest⟩
  rw [← sent, getElem?_append_left (letters.number_lt there), found]

theorem shelf_still (letters : job.Letters) (still : job.Still groups job') (sent : job.sent <+: job'.sent) :
    job'.shelf = job.shelf := by
  ext m
  rw [mem_shelf letters, mem_shelf (letters.still still sent)]
  simp only [still.same]

theorem Intact.grow {d : Delivered} (intact : job.Intact d) (called : job.called <+: job'.called)
    (sent : job.sent <+: job'.sent) : job'.Intact d := by
  obtain ⟨x, y, recv, msg, data⟩ := intact
  obtain ⟨calls, called⟩ := called
  obtain ⟨sends, sent⟩ := sent
  refine ⟨x, y, ?_, ?_, data⟩
  · rw [← called, List.getElem?_append_left (List.getElem?_eq_some_iff.mp recv).1, recv]
  · rw [← sent, List.getElem?_append_left (List.getElem?_eq_some_iff.mp msg).1, msg]

theorem insert_setOf (xs : List Nat) (x : Nat) : {y | y ∈ xs ++ [x]} = insert x {y | y ∈ xs} := by
  ext y
  simp [or_comm]

theorem sdiff_setOf (xs : List Nat) (x : Nat) : {y | y ∈ xs.filter (· ≠ x)} = {y | y ∈ xs} \ {x} := by
  ext y
  simp

theorem absent_of_missed (missed : job.missed groups x = true)
    (real : x.source ≠ .procNull) : ∀ m ∈ job.log.shelf, ∀ k, job.log.sent[m]? = some k → ¬ fitting groups x k := by
  rintro m ⟨y, sent, c, there, rfl⟩ k found fit
  obtain rfl : y.toEnvelope = k := Option.some.inj ((log_sent sent).symm.trans found)
  rw [Job.missed, decide_eq_false real, Bool.false_or, all_eq_true] at missed
  have rank : x.rank = y.dest := by
    simp only [fitting, Receive.fits, Bool.and_eq_true, decide_eq_true_eq] at fit
    exact fit.1.1.1
  have no := missed c (rank ▸ there)
  rw [sent, Option.all_some, fit] at no
  cases no

section Still
variable (tidy : job.Tidy groups) (still : job.Still groups job')
include tidy still

theorem Tidy.of_still (sends : job.sent <+: job'.sent) (calls : job.called <+: job'.called)
    (received : job'.received = job.received)
    (steps : Relation.ReflTransGen (Log.Step (fitting groups) Envelope.lane) job.log (job'.toTraffic.log job.shelf)) :
    job.Follows groups job' := by
  rw [← shelf_still tidy.letters still sends] at steps
  refine ⟨steps, tidy.inv.steps steps, still.boxes, still.calls, tidy.letters.still still sends, fun d => ?_, ?_⟩
  · rw [still.same]
    exact tidy.sorted d
  · exact fun d member => (tidy.intact d (received ▸ member)).grow calls sends

theorem Tidy.quiet (same : job'.toTraffic = job.toTraffic) : job.Follows groups job' := by
  refine tidy.of_still still ?_ ?_ ?_ ?_ <;> rw [same]
  exact .refl

theorem Tidy.queue (same : job'.toTraffic = job.toTraffic.queue msg) : job.Follows groups job' := by
  refine tidy.of_still still ?_ ?_ ?_ (.single ?_) <;> rw [same]
  · exact prefix_append _ _
  · exact prefix_rfl
  · rfl
  · rw [Traffic.log, Traffic.queue, insert_setOf, Traffic.mail, map_append, ← log_length]
    exact .queue msg.toEnvelope

theorem Tidy.post (missed : job.missed groups x = true) (real : x.source ≠ .procNull)
    (same : job'.toTraffic = job.toTraffic.post x) : job.Follows groups job' := by
  refine tidy.of_still still ?_ ?_ ?_ (.single ?_) <;> rw [same]
  · exact prefix_rfl
  · exact prefix_append _ _
  · rfl
  · rw [Traffic.log, Traffic.post, insert_setOf]
    exact .post x (absent_of_missed missed real)

end Still

theorem Tidy.deliver (tidy : job.Tidy groups) {r : Nat} (can : job.canDeliver groups r m = true) :
    job.Follows groups (job.deliver r m) := by
  have able := log_canDeliver can
  obtain ⟨x, k, called, sent, fit⟩ := able.fit
  rw [log, Traffic.log, getElem?_map] at sent
  obtain ⟨y, found, rfl⟩ := Option.map_eq_some_iff.mp sent
  have called : job.called[r]? = some x := called
  rw [Job.deliver, called, found]
  refine tidy.after ?_ tidy.boxes tidy.calls tidy.letters tidy.sorted ?_
  · nth_rewrite 2 [log]
    rw [Traffic.log]
    dsimp only
    rw [sdiff_setOf, sdiff_setOf, map_append]
    exact .deliver r m able
  · intro d member
    rcases mem_append.mp member with old | new
    · exact tidy.intact d old
    · obtain rfl := mem_singleton.mp new
      exact ⟨x, y, called, found, rfl⟩

theorem boxes_update (boxes : job'.mailboxes = update job.mailboxes d box)
    {P : Nat → RankMailbox → Prop} (here : P d box) (others : ∀ e, P e (job.mailboxes e)) (e : Nat) :
    P e (job'.mailboxes e) := by
  rw [boxes]
  by_cases same : e = d
  · subst same
    rwa [update_self]
  · rw [update_of_ne same]
    exact others e

theorem mem_pending_append (boxes : job'.mailboxes = update job.mailboxes d box)
    (appended : box.pending = (job.mailboxes d).pending ++ [c]) (e : Nat) (c' : CxlMsg) :
    c' ∈ (job'.mailboxes e).pending ↔ c' ∈ (job.mailboxes e).pending ∨ e = d ∧ c' = c := by
  rw [boxes]
  by_cases same : e = d
  · subst same
    rw [update_self, appended, mem_append, mem_singleton]
    simp
  · rw [update_of_ne same]
    simp [same]

theorem shelf_append (letters : job.Letters) (letters' : job'.Letters)
    (boxes : job'.mailboxes = update job.mailboxes d box)
    (appended : box.pending = (job.mailboxes d).pending ++ [c]) : job'.shelf = insert c.number job.shelf := by
  have pending := mem_pending_append boxes appended
  ext m
  rw [mem_shelf letters', Set.mem_insert_iff, mem_shelf letters]
  constructor
  · rintro ⟨e, c', there, rfl⟩
    rcases (pending e c').mp there with old | ⟨rfl, rfl⟩
    · exact .inr ⟨e, c', old, rfl⟩
    · exact .inl rfl
  · rintro (rfl | ⟨e, c', there, rfl⟩)
    · exact ⟨d, c, (pending d c).mpr (.inr ⟨rfl, rfl⟩), rfl⟩
    · exact ⟨e, c', (pending e c').mpr (.inl there), rfl⟩

section
variable (tidy : job.Tidy groups)
include tidy

theorem Tidy.mail (boxes : job'.mailboxes = update job.mailboxes d box)
    (sound : ∀ d, Sound job'.sending d (job'.mailboxes d)) (calls : ∀ p s, job'.sending p = some s → s.Valid groups p)
    (appended : box.pending = (job.mailboxes d).pending ++ [c]) (dest : msg.dest = d)
    (number_eq : c.number = job.sent.length) (fields : c.fields = msg.fields)
    (unwaited : ∀ r ∈ job.posted, ∀ x, job.called[r]? = some x → ¬ fitting groups x msg.toEnvelope)
    (same : job'.toTraffic = job.toTraffic.mail msg) : job.Follows groups job' := by
  have letters : job'.Letters := by
    intro e c' there
    rw [same, Traffic.mail]
    rcases (mem_pending_append boxes appended e c').mp there with old | ⟨rfl, rfl⟩
    · rw [getElem?_append_left (tidy.letters.number_lt old)]
      exact tidy.letters e c' old
    · rw [number_eq, getElem?_concat_length]
      exact ⟨msg, rfl, dest, fields⟩
  refine tidy.after ?_ sound calls letters ?_ ?_
  · nth_rewrite 2 [log]
    rw [shelf_append tidy.letters letters boxes appended, number_eq, same, Traffic.log, Traffic.mail, map_append,
      ← log_length]
    exact .shelve msg.toEnvelope unwaited
  · refine boxes_update boxes (P := fun _ box => (box.pending.map number).Pairwise (· < ·)) ?_ tidy.sorted
    rw [appended, map_append, map_singleton, pairwise_append]
    refine ⟨tidy.sorted d, pairwise_singleton _ _, ?_⟩
    intro a old b new
    obtain ⟨c', there, rfl⟩ := mem_map.mp old
    rw [mem_singleton.mp new, number_eq]
    exact tidy.letters.number_lt there
  · intro delivered member
    rw [same] at member
    refine (tidy.intact delivered member).grow ?_ ?_ <;> rw [same]
    · exact prefix_rfl
    · exact prefix_append _ _

theorem Tidy.split (found : (job.mailboxes d).pending.find? (selected source tag) = some c) :
    ∃ before after, (job.mailboxes d).pending = before ++ c :: after ∧
      (job.mailboxes d).pending.eraseP (selected source tag) = before ++ after ∧
      (∀ c' ∈ before, c'.number < c.number ∧ c'.selected source tag = false) ∧ ∀ c' ∈ after, c.number < c'.number := by
  obtain ⟨selected, before, after, split, unselected⟩ := find?_eq_some_iff_append.mp found
  have sorted := tidy.sorted d
  rw [split, map_append, map_cons, pairwise_append, pairwise_cons] at sorted
  obtain ⟨-, ⟨behind, -⟩, across⟩ := sorted
  refine ⟨before, after, split, ?_, ?_, ?_⟩
  · rw [split, eraseP_append_right, eraseP_cons_of_pos selected]
    intro c' member
    simpa using unselected c' member
  · intro c' member
    exact ⟨across _ (mem_map_of_mem member) _ mem_cons_self, by simpa using unselected c' member⟩
  · intro c' member
    exact behind _ (mem_map_of_mem member)

omit tidy in
theorem Letters.box_eq (letters : job.Letters) {d e : Nat} {c c' : CxlMsg} (there : c ∈ (job.mailboxes d).pending)
    (there' : c' ∈ (job.mailboxes e).pending) (same : c.number = c'.number) : d = e := by
  obtain ⟨y, sent, rfl, -⟩ := letters d c there
  obtain ⟨y', sent', rfl, -⟩ := letters e c' there'
  rw [same] at sent
  rw [Option.some.inj (sent.symm.trans sent')]

theorem Tidy.mem_pending_erase (boxes : job'.mailboxes = update job.mailboxes d box)
    (found : (job.mailboxes d).pending.find? (selected source tag) = some c)
    (erased : box.pending = (job.mailboxes d).pending.eraseP (selected source tag)) (e : Nat) (c' : CxlMsg) :
    c' ∈ (job'.mailboxes e).pending ↔ c' ∈ (job.mailboxes e).pending ∧ c'.number ≠ c.number := by
  have member := mem_of_find?_eq_some found
  rw [boxes]
  by_cases same : e = d
  · subst same
    obtain ⟨before, after, split, rest, less, more⟩ := tidy.split found
    rw [update_self, erased, rest, split, mem_append, mem_append, mem_cons]
    constructor
    · rintro (old | new)
      · exact ⟨.inl old, Nat.ne_of_lt (less c' old).1⟩
      · exact ⟨.inr (.inr new), Nat.ne_of_gt (more c' new)⟩
    · rintro ⟨old | rfl | new, differ⟩
      · exact .inl old
      · exact absurd rfl differ
      · exact .inr new
  · rw [update_of_ne same]
    exact ⟨fun there => ⟨there, fun number => same (tidy.letters.box_eq there member number)⟩, And.left⟩

theorem Tidy.first (found : (job.mailboxes d).pending.find? (selected source tag) = some c) (mailed : m ∈ job.shelf)
    (less : m < c.number) : ¬ job.log.Alike m c.number := by
  rintro ⟨k, sent, sent'⟩
  have member := mem_of_find?_eq_some found
  obtain ⟨y, here, dest, fields⟩ := tidy.letters d c member
  obtain ⟨e, c', there, rfl⟩ := (mem_shelf tidy.letters).mp mailed
  obtain ⟨y', here', dest', fields'⟩ := tidy.letters e c' there
  have alike : y'.toEnvelope = y.toEnvelope :=
    Option.some.inj ((log_sent here').symm.trans (sent.trans (sent'.symm.trans (log_sent here))))
  obtain rfl : e = d := by
    rw [← dest, ← dest', alike]
  obtain ⟨before, after, split, -, less', more⟩ := tidy.split found
  have place : c' ∈ before := by
    rw [split, mem_append, mem_cons] at there
    rcases there with old | rfl | new
    · exact old
    · exact absurd less (Nat.lt_irrefl _)
    · exact absurd less (Nat.lt_asymm (more c' new))
  have unselected := (less' c' place).2
  have selected := find?_some found
  simp only [CxlMsg.fields, Message.fields, Prod.mk.injEq] at fields fields'
  rw [CxlMsg.selected, fields'.1, fields'.2.1, alike, ← fields.1, ← fields.2.1] at unselected
  rw [CxlMsg.selected, unselected] at selected
  cases selected

omit tidy in
theorem not_alike_of_queued {m' : Nat} {y : Message} (sent : job.sent[m']? = some y)
    (older : (!(decide (m < m') && job.sent[m]?.any fun z => z.toEnvelope = y.toEnvelope)) = true) (less : m < m') :
    ¬ job.log.Alike m m' := by
  rintro ⟨k, old, new⟩
  rw [log, Traffic.log, getElem?_map] at old
  obtain ⟨z, earlier, rfl⟩ := Option.map_eq_some_iff.mp old
  have same : z.toEnvelope = y.toEnvelope := Option.some.inj (new.symm.trans (log_sent sent))
  rw [decide_eq_true less, earlier, Option.any_some, decide_eq_true same] at older
  cases older

theorem Tidy.shelf_erase (letters : job'.Letters) (boxes : job'.mailboxes = update job.mailboxes d box)
    (found : (job.mailboxes d).pending.find? (selected source tag) = some c)
    (erased : box.pending = (job.mailboxes d).pending.eraseP (selected source tag)) :
    job'.shelf = job.shelf \ {c.number} := by
  have pending := tidy.mem_pending_erase boxes found erased
  ext m
  rw [mem_shelf letters, Set.mem_sdiff, mem_shelf tidy.letters, Set.mem_singleton_iff]
  constructor
  · rintro ⟨e, c', there, rfl⟩
    obtain ⟨there, differ⟩ := (pending e c').mp there
    exact ⟨⟨e, c', there, rfl⟩, differ⟩
  · rintro ⟨⟨e, c', there, rfl⟩, differ⟩
    exact ⟨e, c', (pending e c').mpr ⟨there, differ⟩, rfl⟩

theorem Tidy.take (boxes : job'.mailboxes = update job.mailboxes x.rank box) (sending : job'.sending = job.sending)
    (sound : Sound job.sending x.rank box)
    (found : (job.mailboxes x.rank).pending.find? (selected x.source.code (tagCode x.tag)) = some c)
    (erased : box.pending = (job.mailboxes x.rank).pending.eraseP (selected x.source.code (tagCode x.tag)))
    (picks : job.picks groups x c = true)
    (same : job'.toTraffic = job.toTraffic.accept x c) : job.Follows groups job' := by
  have member := mem_of_find?_eq_some found
  obtain ⟨y, sent, dest, fields⟩ := tidy.letters x.rank c member
  rw [Job.picks, sent, Option.all_some, Bool.and_eq_true] at picks
  obtain ⟨fit, oldest⟩ := picks
  have letters : job'.Letters := by
    intro e c' there
    rw [same]
    exact tidy.letters e c' ((tidy.mem_pending_erase boxes found erased e c').mp there).1
  refine tidy.after ?_ ?_ (sending ▸ tidy.calls) letters ?_ ?_
  · nth_rewrite 2 [log]
    rw [tidy.shelf_erase letters boxes found erased, same, Traffic.log, Traffic.accept, map_append]
    refine .take x c.number y.toEnvelope ((mem_shelf tidy.letters).mpr ⟨x.rank, c, member, rfl⟩) (log_sent sent) fit ?_
    rintro m (queued | mailed) less
    · exact not_alike_of_queued sent (all_eq_true.mp oldest m queued) less
    · exact tidy.first found mailed less
  · rw [sending]
    exact boxes_update boxes (P := Sound job.sending) sound tidy.boxes
  · refine boxes_update boxes (P := fun _ box => (box.pending.map number).Pairwise (· < ·)) ?_ tidy.sorted
    rw [erased]
    exact (tidy.sorted x.rank).sublist (eraseP_sublist.map _)
  · intro delivered member
    rw [same] at member
    rcases mem_append.mp member with old | new
    · refine (tidy.intact delivered old).grow ?_ ?_ <;> rw [same]
      · exact prefix_append _ _
      · exact prefix_rfl
    · obtain rfl := mem_singleton.mp new
      refine ⟨x, y, ?_, ?_, ?_⟩
      · rw [same]
        exact getElem?_concat_length
      · rw [same]
        exact sent
      · simp only [CxlMsg.fields, Message.fields, Prod.mk.injEq] at fields
        rw [copied, fields.2.2.1, fields.2.2.2]
        exact take_eq_take_iff.mpr (by omega)

theorem Tidy.still (boxes : job'.mailboxes = job.mailboxes) (sending : job'.sending = job.sending) :
    job.Still groups job' := by
  refine ⟨?_, sending ▸ tidy.calls, fun d => by rw [boxes]⟩
  rw [boxes, sending]
  exact tidy.boxes

theorem Tidy.still_update (boxes : job'.mailboxes = update job.mailboxes d box) (sending : job'.sending = job.sending)
    (sound : Sound job.sending d box) (same : box.pending = (job.mailboxes d).pending) : job.Still groups job' := by
  refine ⟨?_, sending ▸ tidy.calls, ?_⟩
  · rw [sending]
    exact boxes_update boxes (P := Sound job.sending) sound tidy.boxes
  · exact boxes_update boxes (P := fun e box => box.pending = (job.mailboxes e).pending) same fun _ => rfl

end

theorem toTraffic_tryRecv (job : Job) (x : Receive) : (job.tryRecv x).1.toTraffic = job.toTraffic := by
  rw [tryRecv]
  split <;> rfl

section
variable (tidy : job.Tidy groups)
include tidy

theorem Tidy.tryRecv_none (nothing : (job.tryRecv x).2 = none) : job.Still groups (job.tryRecv x).1 := by
  by_cases enabled : job.enabled x.rank = true
  · rw [tryRecv, if_pos enabled] at nothing ⊢
    obtain ⟨sound, found, erased⟩ := (tidy.boxes x.rank).take x.source.code (tagCode x.tag)
    refine tidy.still_update rfl rfl sound (erased.trans (eraseP_of_forall_not ?_))
    rw [nothing] at found
    simpa using found.symm
  · rw [tryRecv, if_neg enabled]
    exact tidy.still rfl rfl

theorem Tidy.tryRecv_some (got : (job.tryRecv x).2 = some c)
    (picks : job.picks groups x c = true) (boxes : job'.mailboxes = (job.tryRecv x).1.mailboxes)
    (sending : job'.sending = (job.tryRecv x).1.sending) (same : job'.toTraffic = job.toTraffic.accept x c) :
    job.Follows groups job' := by
  rw [tryRecv] at got boxes sending
  split at got
  · rename_i enabled
    rw [if_pos enabled] at boxes sending
    obtain ⟨sound, found, erased⟩ := (tidy.boxes x.rank).take x.source.code (tagCode x.tag)
    exact tidy.take boxes sending sound (found.symm.trans got) erased picks same
  · cases got

theorem Tidy.unsent {job' : Job} (still : job.Still groups job') (same : job'.toTraffic = job.toTraffic)
    (recv : Option Receive) : job.Follows groups (job'.unsent p msg recv) := by
  cases recv with
  | none => exact tidy.queue ⟨still.boxes, still.calls, still.same⟩ (congrArg (Traffic.queue · msg) same)
  | some x => exact tidy.quiet ⟨still.boxes, still.calls, still.same⟩ same

theorem Tidy.calls_update {later : Option Sending} (valid : ∀ s, later = some s → s.Valid groups p) :
    ∀ q s, update job.sending p later q = some s → s.Valid groups q :=
  (forall_update_iff job.sending fun p later => ∀ s, later = some s → s.Valid groups p).mpr
    ⟨valid, fun q _ => tidy.calls q⟩

theorem Tidy.startSend (free : job.sending p = none) (message : a.message groups p = some msg)
    (recv : Option Receive) : job.Follows groups (job.startSend p a msg recv) := by
  rw [Job.startSend]
  split
  · refine tidy.quiet ⟨fun d => ?_, ?_, fun d => rfl⟩ rfl
    · refine (tidy.boxes d).idle ?_ ?_
      · simp [pcTo, free, SendPc.busy]
      · rw [pcTo, update_self]
        by_cases here : a.dest = d <;> simp [Option.filter, here, SendPc.busy]
    · refine tidy.calls_update ?_
      rintro s ⟨⟩
      exact ⟨message, nofun⟩
  · exact tidy.unsent (tidy.still rfl rfl) rfl recv

theorem Tidy.sole (call : job.sending p = some s) (unsplit : job.unsplit groups (.advance p) = true) :
    Solely (pcTo job.sending s.args.dest) (job.mailboxes s.args.dest) p := by
  intro head checking isEmpty
  rw [pcTo_self call] at checking
  rw [Job.unsplit, call, Option.all_some, checking] at unsplit
  simp only [Job.sole, isEmpty, ne_eq, not_true_eq_false, decide_false, Bool.false_or, Bool.and_eq_true,
    decide_eq_true_eq, all_eq_true, mem_range, Bool.not_eq_true'] at unsplit
  refine ⟨unsplit.1.1, unsplit.1.2, fun q => ?_⟩
  cases other : job.sending q with
  | none => simp [pcTo, other, SendPc.busy]
  | some s' => exact unsplit.2 q (tidy.calls q s' other).inWorld

theorem Tidy.advance (unsplit : job.unsplit groups (.advance p) = true) : job.Follows groups (job.advance p) := by
  rw [Job.advance]
  cases call : job.sending p with
  | none => exact tidy.stays
  | some s =>
    have valid := tidy.calls p s call
    dsimp only
    generalize stepped : s.pc.advance s.letter s.args.allocated job.sent.length (job.mailboxes s.args.dest) = next
    obtain ⟨own, outcome⟩ := (tidy.boxes s.args.dest).advance call _ (tidy.sole call unsplit) stepped
    have sound : ∀ later, later = none ∧ next.2.busy = false ∨ later = some { s with pc := next.2 } →
        ∀ d, Sound (update job.sending p later) d (update job.mailboxes s.args.dest next.1 d) := by
      intro later which d
      by_cases here : d = s.args.dest
      · subst here
        rw [update_self]
        exact own later which
      · rw [update_of_ne here]
        refine (tidy.boxes d).idle ?_ ?_
        · rw [pcTo_other call (Ne.symm here)]
          rfl
        · rcases which with ⟨rfl, -⟩ | rfl
          · simp [pcTo, SendPc.busy]
          · rw [pcTo_other (s := { s with pc := next.2 }) (update_self ..) (Ne.symm here)]
            rfl
    obtain ⟨box, pc⟩ := next
    rcases outcome with ⟨returned, same⟩ | ⟨⟨head, advancing⟩, ⟨_, rfl⟩, msg, bears, appended⟩
    · have pending : ∀ d, (update job.mailboxes s.args.dest box d).pending = (job.mailboxes d).pending :=
        (forall_update_iff job.mailboxes fun e box => box.pending = (job.mailboxes e).pending).mpr
          ⟨same, fun _ _ => rfl⟩
      cases pc with
      | returned result =>
        cases result with
        | some head => exact absurd (returned head rfl) (valid.running _)
        | none =>
          have still : job.Still groups { job with
              mailboxes := update job.mailboxes s.args.dest box, sending := update job.sending p none } :=
            ⟨sound none (.inl ⟨rfl, rfl⟩), tidy.calls_update nofun, pending⟩
          exact tidy.unsent still rfl s.recv
      | start | headLoaded | waiting | checking | filling | marking | advancing =>
        refine tidy.quiet ⟨sound _ (.inr rfl), tidy.calls_update ?_, pending⟩ rfl
        rintro _ ⟨⟩
        exact ⟨valid.message, nofun⟩
    · rw [Job.unsplit, call, Option.all_some, advancing] at unsplit
      simp only [Job.mails, Bool.and_eq_true, decide_eq_true_eq, all_eq_true] at unsplit
      refine tidy.mail rfl (sound none (.inl ⟨rfl, rfl⟩)) (tidy.calls_update nofun) appended unsplit.1
        bears.number_eq (bears.fields.trans valid.fields) ?_ rfl
      intro r posted x called fit
      have no := unsplit.2 r posted
      rw [called, Option.all_some, fit] at no
      cases no

end

structure Posts (orig : Job → Receive → Job) : Prop where
  null : ∀ job x, x.source = .procNull → orig job x = job
  kept : ∀ job x, x.source ≠ .procNull → (orig job x).mailboxes = job.mailboxes ∧ (orig job x).sending = job.sending
  traffic : ∀ job x, x.source ≠ .procNull → (orig job x).toTraffic = job.toTraffic.post x

theorem posts_origIrecv : Posts origIrecv where
  null := fun _ _ null => if_pos null
  kept := fun job x real => by
    rw [origIrecv, if_neg real]
    exact ⟨rfl, rfl⟩
  traffic := fun job x real => by rw [origIrecv, if_neg real]

theorem posts_origRecv : Posts origRecv where
  null := fun _ _ null => if_pos null
  kept := fun job x real => by
    rw [origRecv, if_neg real]
    exact posts_origIrecv.kept job x real
  traffic := fun job x real => by
    rw [origRecv, if_neg real]
    exact posts_origIrecv.traffic job x real

section
variable (tidy : job.Tidy groups)
include tidy

theorem Tidy.orig {orig : Job → Receive → Job} (posts : Posts orig)
    (missed : job.missed groups x = true) (still : job.Still groups job') (same : job'.toTraffic = job.toTraffic) :
    job.Follows groups (orig job' x) := by
  by_cases null : x.source = .procNull
  · rw [posts.null job' x null]
    exact tidy.quiet still same
  · obtain ⟨boxes, sending⟩ := posts.kept job' x null
    refine tidy.post ⟨?_, sending ▸ still.calls, boxes ▸ still.same⟩ missed null ?_
    · rw [boxes, sending]
      exact still.boxes
    · rw [posts.traffic job' x null, same]

theorem Tidy.recvCall {orig : Job → Receive → Job} (posts : Posts orig)
    (looks : job.looks groups x = true) : job.Follows groups (job.recvCall orig x) := by
  rw [Job.looks] at looks
  rw [Job.recvCall]
  cases got : (job.tryRecv x).2 with
  | some c =>
    rw [got] at looks
    exact tidy.tryRecv_some got looks rfl rfl (congrArg (Traffic.accept · x c) (job.toTraffic_tryRecv x))
  | none =>
    rw [got] at looks
    exact tidy.orig posts looks (tidy.tryRecv_none got) (job.toTraffic_tryRecv x)

omit tidy in
theorem missed_grow (letters : job.Letters) (boxes : job'.mailboxes = job.mailboxes) (sent : job.sent <+: job'.sent)
    (missed : job.missed groups x = true) : job'.missed groups x = true := by
  rw [Job.missed, Bool.or_eq_true] at missed ⊢
  refine missed.imp_right fun all => ?_
  rw [all_eq_true] at all ⊢
  intro c member
  rw [boxes] at member
  obtain ⟨later, sent⟩ := sent
  rw [← sent, getElem?_append_left (letters.number_lt member)]
  exact all c member

theorem Tidy.proceed (unsplit : job.unsplit groups (.proceed p) = true) : job.Follows groups (job.proceed p) := by
  rw [Job.unsplit] at unsplit
  rw [Job.proceed]
  cases exchange : job.exchange p with
  | none => exact tidy.stays
  | some e =>
    rw [exchange, Option.all_some] at unsplit
    by_cases polling : (job.enabled p && decide (e.tries < polls)) = true
    · rw [if_pos polling] at unsplit
      dsimp only
      rw [if_pos polling]
      have same := job.toTraffic_tryRecv e.recv
      cases got : (job.tryRecv e.recv).2 with
      | some c =>
        rw [got, Option.all_some, Bool.and_eq_true] at unsplit
        obtain ⟨sent, picks⟩ := unsplit
        dsimp only
        rw [if_pos sent]
        exact tidy.tryRecv_some got picks rfl rfl (congrArg (Traffic.accept · e.recv c) same)
      | none =>
        have still := tidy.tryRecv_none got
        exact tidy.quiet ⟨still.boxes, still.calls, still.same⟩ same
    · rw [if_neg polling, Bool.and_eq_true] at unsplit
      dsimp only
      rw [if_neg polling]
      obtain ⟨unsent, missed⟩ := unsplit
      have sentAs : e.sentAs = none := by simpa using unsent
      have queued : job.Follows groups (job.origSend e.message) := tidy.queue (tidy.still rfl rfl) rfl
      have absent : (job.origSend e.message).missed groups e.recv = true := by
        refine missed_grow tidy.letters ?_ (prefix_append _ _) missed
        rfl
      have posted : job.Follows groups ((job.origSend e.message).origRecv e.recv) :=
        queued.trans (queued.tidy.orig posts_origRecv absent (queued.tidy.still rfl rfl) rfl)
      rw [origSendrecv, resend, sentAs]
      exact posted.trans (posted.tidy.quiet (posted.tidy.still rfl rfl) rfl)

omit tidy in
theorem tidy_start (groups : Nat → List Nat) (enabled active : Nat → Bool) : (jobStart enabled active).Tidy groups where
  inv := by
    refine Log.inv_empty ?_ ?_ ?_ rfl rfl
    · ext m
      simp [log, Traffic.log, shelf, jobStart]
    · ext m
      simp [log, Traffic.log, jobStart]
    · ext r
      simp [log, Traffic.log, jobStart]
  boxes := fun d => ⟨{}, (Post.registered_sound fun _ => {}).inv, nofun, fun _ => rfl, fun _ => trivial⟩
  calls := fun _ _ call => by cases call
  letters := fun d c there => by cases there
  sorted := fun d => List.Pairwise.nil
  intact := fun d member => by cases member

theorem Tidy.unlessBusy {next : Job} (free : job.busy p = false → job.Follows groups next) :
    job.Follows groups (if job.busy p then job else next) := by
  cases busy : job.busy p with
  | true => exact tidy.stays
  | false => exact free busy

theorem Tidy.send (a : SendArgs) (recv : Option Receive) : job.Follows groups
    (if job.busy p then job else (a.message groups p).elim job fun msg => job.startSend p a msg recv) := by
  refine tidy.unlessBusy fun free => ?_
  cases message : a.message groups p with
  | none => exact tidy.stays
  | some msg =>
    rw [busy, Bool.or_assoc, Bool.or_eq_false_iff, Option.isSome_eq_false_iff, Option.isNone_iff_eq_none] at free
    exact tidy.startSend free.1 message recv

theorem Tidy.step {event : Event} (unsplit : job.unsplit groups event = true) :
    job.Follows groups (job.step groups event) := by
  cases event with
  | send p a | isend p a => exact tidy.send a none
  | sendrecv a x => exact tidy.send a (some x)
  | recv x =>
    refine tidy.unlessBusy fun free => tidy.recvCall posts_origRecv ?_
    rwa [Job.unsplit, free, Bool.false_or] at unsplit
  | irecv x =>
    refine tidy.unlessBusy fun free => tidy.recvCall posts_origIrecv ?_
    rwa [Job.unsplit, free, Bool.false_or] at unsplit
  | advance p => exact tidy.advance unsplit
  | proceed p => exact tidy.proceed unsplit
  | deliver r m =>
    rw [Job.step]
    split
    · rename_i can
      exact tidy.deliver can
    · exact tidy.stays

end

theorem follows_run (groups : Nat → List Nat) (enabled active : Nat → Bool) (events : List Event)
    (unsplit : Run.EveryStep (Job.step groups) (fun job event => job.unsplit groups event = true)
      (jobStart enabled active) events) :
    (jobStart enabled active).Follows groups (jobRun groups enabled active events) :=
  Run.invariant_of_everyStep (I := (jobStart enabled active).Follows groups)
    (fun _ _ follows unsplit => follows.trans (follows.tidy.step unsplit)) (tidy_start groups enabled active).stays
      unsplit

end Job

theorem point_to_point_law (groups : Nat → List Nat) (enabled active : Nat → Bool) (events : List Event)
    (unsplit : Run.EveryStep (Job.step groups) (fun job event => job.unsplit groups event = true)
      (jobStart enabled active) events) : (jobRun groups enabled active events).Law groups :=
  (Job.follows_run groups enabled active events unsplit).tidy.law

def pair : Nat → List Nat := fun _ => [0, 1]

def everyone : Nat → Bool := fun _ => true

def alone (call : Event) (p : Nat) : List Event := call :: List.replicate 10 (.advance p)

def bothWays : List Event :=
  alone (.send 0 ⟨0, 1, 5, [1, 2], true⟩) 0 ++ [.recv ⟨1, 0, .rank 0, some 5, 8⟩] ++
    alone (.isend 0 ⟨0, 1, 5, List.replicate 4097 7, false⟩) 0 ++ [.irecv ⟨1, 0, .any, none, 5000⟩, .deliver 1 1] ++
    alone (.isend 1 ⟨0, 0, 6, [3], true⟩) 1 ++ alone (.sendrecv ⟨0, 1, 7, [4], true⟩ ⟨0, 0, .rank 1, none, 8⟩) 0 ++
    [.proceed 0, .recv ⟨1, 0, .rank 0, some 7, 8⟩]

theorem point_to_point_law_bothWays : (jobRun pair everyone everyone bothWays).Law pair :=
  point_to_point_law _ _ _ _ (by decide +kernel)

namespace Job
variable {groups : Nat → List Nat} {job : Job}

theorem not_law_of_stuck (r m : Nat)
    (stuck : (job.queued.isEmpty && job.posted.contains r && job.received.all (·.msg ≠ m) &&
      job.fits groups r m) = true) :
    ¬ job.Law groups := by
  simp only [Bool.and_eq_true, List.isEmpty_iff, List.contains_iff_mem, List.all_eq_true, decide_eq_true_eq] at stuck
  obtain ⟨⟨⟨queued, posted⟩, untaken⟩, fit⟩ := stuck
  intro law
  refine law.delivery.served ?_ r posted m ?_ ((log_fits r m).mpr fit)
  · intro r' m' can
    have member : m' ∈ job.queued := can.queued
    rw [queued] at member
    cases member
  · intro r' taken
    obtain ⟨d, member, same⟩ := mem_map.mp taken
    exact untaken d member (Prod.mk.inj same).2

theorem not_law_of_overtaken (m m' : Nat)
    (overtaken : (decide (m < m') && job.received.any (·.msg = m') && job.received.all (·.msg ≠ m) &&
      job.sent[m]?.any fun y => job.sent[m']?.any fun y' => y.toEnvelope = y'.toEnvelope) = true) :
    ¬ job.Law groups := by
  simp only [Bool.and_eq_true, any_eq_true, all_eq_true, decide_eq_true_eq, Option.any_eq_true] at overtaken
  obtain ⟨⟨⟨less, d, member, rfl⟩, untaken⟩, y, sent, y', sent', alike⟩ := overtaken
  intro law
  have both : job.log.Alike m d.msg := ⟨y.toEnvelope, log_sent sent, alike ▸ log_sent sent'⟩
  obtain ⟨r, -, taken⟩ := law.delivery.ordered m d.msg d.recv less both (mem_map.mpr ⟨d, member, rfl⟩)
  obtain ⟨d', member', same⟩ := mem_map.mp taken
  exact untaken d' member' (Prod.mk.inj same).2

theorem not_law_of_twice (twice : ¬ (job.received.map Delivered.msg).Nodup) : ¬ job.Law groups := by
  intro law
  have once := law.delivery.once
  rw [log, Traffic.log, map_map] at once
  exact twice once

theorem not_law_of_lost (m : Nat)
    (lost : (decide (m < job.sent.length) && job.queued.all (· ≠ m) && job.received.all (·.msg ≠ m) &&
      job.sent[m]?.all fun y => (job.mailboxes y.dest).pending.all (·.number ≠ m)) = true) : ¬ job.Law groups := by
  simp only [Bool.and_eq_true, all_eq_true, decide_eq_true_eq] at lost
  obtain ⟨⟨⟨sent, unqueued⟩, untaken⟩, unmailed⟩ := lost
  intro law
  rcases law.delivery.kept m (log_length ▸ sent) with queued | ⟨y, found, c, there, number⟩ | ⟨r, taken⟩
  · exact unqueued m queued rfl
  · rw [found, Option.all_some, all_eq_true] at unmailed
    exact of_decide_eq_true (unmailed c there) number
  · obtain ⟨d, member, same⟩ := mem_map.mp taken
    exact untaken d member (Prod.mk.inj same).2

theorem not_law_of_misfit (misfit : (job.received.any fun d => !job.fits groups d.recv d.msg) = true) :
    ¬ job.Law groups := by
  obtain ⟨d, member, no⟩ := any_eq_true.mp misfit
  intro law
  have fit := law.delivery.matching d.recv d.msg (mem_map.mpr ⟨d, member, rfl⟩)
  rw [(log_fits d.recv d.msg).mp fit] at no
  cases no

end Job

def receiveFirst : List Event := .recv ⟨1, 0, .rank 0, some 5, 8⟩ :: alone (.send 0 ⟨0, 1, 5, [1, 2], true⟩) 0

def longFirst : List Event :=
  alone (.send 0 ⟨0, 1, 5, List.replicate 4097 7, false⟩) 0 ++ alone (.send 0 ⟨0, 1, 5, [1, 2], true⟩) 0 ++
    [.recv ⟨1, 0, .rank 0, some 5, 5000⟩]

def unanswered : List Event :=
  alone (.sendrecv ⟨0, 1, 7, [4], true⟩ ⟨0, 0, .rank 1, none, 8⟩) 0 ++ List.replicate 11 (.proceed 0) ++
    [.recv ⟨1, 0, .rank 0, some 7, 8⟩, .recv ⟨1, 0, .rank 0, some 7, 8⟩, .deliver 2 0]

def otherComm : List Event := alone (.send 0 ⟨1, 1, 5, [1, 2], true⟩) 0 ++ [.recv ⟨1, 0, .rank 0, some 5, 8⟩]

def together : List Event :=
  .send 0 ⟨0, 2, 5, [1], true⟩ :: .send 1 ⟨0, 2, 5, [2], true⟩ ::
    (List.replicate 10 [.advance 0, .advance 1]).flatten

theorem point_to_point_law_broken :
    ¬ (jobRun pair everyone everyone receiveFirst).Law pair ∧ ¬ (jobRun pair everyone everyone longFirst).Law pair ∧
      ¬ (jobRun pair everyone everyone unanswered).Law pair ∧ ¬ (jobRun pair everyone everyone otherComm).Law pair ∧
      ¬ (jobRun (fun _ => [0, 1, 2]) everyone everyone together).Law fun _ => [0, 1, 2] := by
  refine ⟨?_, ?_, ?_, ?_, ?_⟩
  · exact Job.not_law_of_stuck 0 0 (by decide +kernel)
  · exact Job.not_law_of_overtaken 0 1 (by decide +kernel)
  · exact Job.not_law_of_twice (by decide +kernel)
  · exact Job.not_law_of_misfit (by decide +kernel)
  · exact Job.not_law_of_lost 0 (by decide +kernel)

end CxlMemSim.Mpi
