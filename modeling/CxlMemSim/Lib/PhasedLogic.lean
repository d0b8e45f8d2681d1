import CxlMemSim.Lib.ByteMemory
import CxlMemSim.Lib.Phased
import CxlMemSim.Lib.Run

/-! A plan says which calls all processes make, and what each one has published at a call that ends a writing phase. -/
namespace Phased
open Function List

inductive Offer where
  | any
  | null
  | block (bytes : List UInt8)

/-- The phases are numbered by the calls made before them; the phases without offers are for reading. -/
structure Plan (ι γ : Type) where
  script : List γ
  offers : Nat → Option (ι → Offer)

structure Own where
  start : Nat
  size : Nat
  content : Nat → UInt8

/-- What a process knows of itself in a phase for writing, and of the others in one for reading. -/
structure Local where
  own : Option Own := none
  pub : Option (Option Nat) := none
  known : List (Nat × List UInt8) := []

def Local.Keeps (l : Local) : Offer → Prop
  | .any => True
  | .null => l.pub = some none
  | .block bytes => ∃ own, l.own = some own ∧ l.pub = some (some own.start) ∧ bytes.length ≤ own.size ∧
      ∀ i byte, bytes[i]? = some byte → own.content i = byte

theorem Local.Keeps.congr {l l' : Local} {offer : Offer} (keeps : l.Keeps offer) (own : l'.own = l.own)
    (pub : l'.pub = l.pub) : l'.Keeps offer := by
  cases offer with
  | any => trivial
  | null => exact pub.trans keeps
  | block bytes =>
    obtain ⟨o, has, published, rest⟩ := keeps
    exact ⟨o, own.trans has, pub.trans published, rest⟩

variable {ι γ α β : Type}

variable {own : Own} {p : ι} {e : Nat × List UInt8}

namespace Plan
variable (plan : Plan ι γ)

def offer (t : Nat) (p : ι) : Offer := ((plan.offers t).map (· p)).getD .any

def after (t : Nat) (l : Local) : Local :=
  if (plan.offers t).isSome ∧ plan.offers (t + 1) = none then { l with known := [] } else {}

variable {plan} {t : Nat} {l : Local}

theorem own_of_after (has : (plan.after t l).own = some own) : l.own = some own := by
  rw [after] at has
  split at has
  · exact has
  · cases has

theorem pub_of_after {v : Option Nat} (has : (plan.after t l).pub = some v) : l.pub = some v := by
  rw [after] at has
  split at has
  · exact has
  · cases has

@[simp] theorem known_after (plan : Plan ι γ) (t : Nat) (l : Local) : (plan.after t l).known = [] := by
  rw [after]
  split <;> rfl

theorem writing_of_offer (offered : plan.offer t p ≠ .any) : (plan.offers t).isSome = true := by
  cases offers : plan.offers t with
  | none =>
    rw [offer, offers] at offered
    exact absurd rfl offered
  | some g => rfl

theorem keeps_of_writing (keeps : (plan.offers t).isSome = true → l.Keeps (plan.offer t p)) :
    l.Keeps (plan.offer t p) := by
  by_cases offered : plan.offer t p = .any
  · rw [offered]
    trivial
  · exact keeps (writing_of_offer offered)

end Plan

/-- The rest of a process keeps to the plan from phase `t` on, and ends with a result that satisfies `Q`. -/
def Ok (plan : Plan ι γ) (heap : Heap ι) (p : ι) (Q : α → Prop) : Proc ι γ α → Nat → Local → Prop
  | .ret a, t, _ => t = plan.script.length ∧ Q a
  | .alloc size k, t, l => (plan.offers t).isSome ∧ l.own = none ∧
      (heap.grant p = true → ∀ own : Own, own.size = size →
        Ok plan heap p Q (k (some own.start)) t { l with own := some own }) ∧
      (heap.grant p = false → Ok plan heap p Q (k none) t l)
  | .store addr byte k, t, l => (plan.offers t).isSome ∧ ∃ own, l.own = some own ∧ own.start ≤ addr ∧
      addr < own.start + own.size ∧ Ok plan heap p Q k t
        { l with own := some { own with content := update own.content (addr - own.start) byte } }
  | .load addr k, t, l => (∀ byte, Ok plan heap p Q (k byte) t l) ∨ ∃ e ∈ l.known, ∃ byte, e.1 ≤ addr ∧
      e.2[addr - e.1]? = some byte ∧ Ok plan heap p Q (k byte) t l
  | .publish ptr k, t, l => (plan.offers t).isSome ∧ Ok plan heap p Q k t { l with pub := some ptr }
  | .lookup who k, t, l => plan.offers t = none ∧ plan.offer (t - 1) who ≠ .any ∧
      (plan.offer (t - 1) who = .null → Ok plan heap p Q (k none) t l) ∧
      ∀ bytes start, plan.offer (t - 1) who = .block bytes →
        Ok plan heap p Q (k (some start)) t { l with known := (start, bytes) :: l.known }
  | .call c k, t, l => plan.script[t]? = some c ∧ ((plan.offers t).isSome → l.Keeps (plan.offer t p)) ∧
      Ok plan heap p Q k (t + 1) (plan.after t l)

section Bytes
variable {plan : Plan ι γ} {heap : Heap ι} {p : ι} {Q : β → Prop} {t : Nat} {l : Local}

theorem ok_storeBytes (writing : (plan.offers t).isSome) (has : l.own = some own) {bytes : List UInt8}
    {i : Nat} (room : i + bytes.length ≤ own.size) {k : Unit → Proc ι γ β}
    (ok : Ok plan heap p Q (k ()) t
      { l with own := some { own with content := ByteMemory.poke own.content (i + ·) bytes } }) :
    Ok plan heap p Q (Proc.storeBytes (own.start + i) bytes >>= k) t l := by
  induction bytes generalizing i own l with
  | nil =>
    obtain ⟨o, pub, known⟩ := l
    obtain rfl : o = some own := has
    exact ok
  | cons b bytes ih =>
    rw [length_cons] at room
    refine ⟨writing, own, has, Nat.le_add_right _ _, by omega, ?_⟩
    have later := ih (l := { l with own := some { own with content := update own.content i b } }) rfl
      (i := i + 1) (by change i + 1 + bytes.length ≤ own.size; omega) ?_
    · rw [show own.start + i - own.start = i by omega]
      exact later
    · have shift : (fun j => i + (j + 1)) = fun j => i + 1 + j := by
        funext j
        omega
      rw [ByteMemory.poke, shift] at ok
      exact ok

theorem ok_loadBytes (member : e ∈ l.known) {off n : Nat}
    (inside : off + n ≤ e.2.length) {k : List UInt8 → Proc ι γ β}
    (ok : Ok plan heap p Q (k ((e.2.drop off).take n)) t l) :
    Ok plan heap p Q (Proc.loadBytes (e.1 + off) n >>= k) t l := by
  induction n generalizing off k with
  | zero => exact ok
  | succ n ih =>
    have here : off < e.2.length := by omega
    refine .inr ⟨e, member, e.2[off], Nat.le_add_right _ _, ?_, ?_⟩
    · rw [Nat.add_sub_cancel_left]
      exact getElem?_eq_getElem here
    · rw [drop_eq_getElem_cons here, take_succ_cons] at ok
      have rest : Ok plan heap p Q (Proc.loadBytes (e.1 + (off + 1)) n >>= fun bs => k (e.2[off] :: bs)) t l :=
        ih (by omega) ok
      change Ok plan heap p Q (((Proc.loadBytes (e.1 + off + 1) n).bind fun bs => .ret (e.2[off] :: bs)).bind k) t l
      rw [Proc.bind_bind]
      exact rest

end Bytes

variable {l' : Local} {loc : ι → Local} {time : ι → Nat}

section System
variable (plan : Plan ι γ) (heap : Heap ι) (Q : ι → α → Prop)

def Serving (w : World ι γ α) (time : ι → Nat) (q : ι) (t : Nat) : Prop :=
  time q = t ∨ time q + 1 = t ∧ w.inside q = true

structure Each (w : World ι γ α) (p : ι) (t : Nat) (l : Local) : Prop where
  ok : Ok plan heap p (Q p) (w.code p) t l
  issued : w.issued p = plan.script.take (t + (w.inside p).toNat)
  bound : t + (w.inside p).toNat ≤ plan.script.length
  waits : w.inside p = true → ∃ c k, w.code p = .call c k
  below : ∀ own ∈ l.own, own.start + own.size ≤ w.top
  holds : ∀ own ∈ l.own, ∀ i, i < own.size → w.mem (own.start + i) = own.content i
  dir : ∀ v, l.pub = some v → w.dir p = v
  keeps : ∀ s, t = s + 1 → plan.offers (s + 1) = none → l.Keeps (plan.offer s p)

structure Inv (w : World ι γ α) (time : ι → Nat) (loc : ι → Local) : Prop where
  each : ∀ p, Each plan heap Q w p (time p) (loc p)
  sync : ∀ p q, time p ≤ time q + (w.inside q).toNat
  apart : ∀ p q, p ≠ q → ∀ own ∈ (loc p).own, ∀ own' ∈ (loc q).own,
    own.start + own.size ≤ own'.start ∨ own'.start + own'.size ≤ own.start
  known : ∀ p, w.inside p = false → ∀ e ∈ (loc p).known, plan.offers (time p) = none ∧
    ∃ q own, plan.offer (time p - 1) q = .block e.2 ∧ Serving w time q (time p) ∧ (loc q).own = some own ∧
      own.start = e.1

variable {plan heap Q} {w : World ι γ α} {time : ι → Nat} {loc : ι → Local} {code : ι → Proc ι γ α}

theorem inv_start (mem : Nat → UInt8) (dir : ι → Option Nat) (top : Nat)
    (ok : ∀ p, Ok plan heap p (Q p) (code p) 0 {}) :
    Inv plan heap Q (start mem dir top code) (fun _ => 0) (fun _ => {}) where
  each := fun p => ⟨ok p, rfl, Nat.zero_le _, nofun, nofun, nofun, nofun, nofun⟩
  sync := fun _ _ => Nat.zero_le _
  apart := fun _ _ _ _ found => by cases found
  known := fun _ _ _ found => by cases found

theorem Each.frame {w' : World ι γ α} {q : ι} {t : Nat} {l : Local} (each : Each plan heap Q w q t l)
    (code : w'.code q = w.code q) (issued : w'.issued q = w.issued q) (inside : w'.inside q = w.inside q)
    (top : w.top ≤ w'.top)
    (mem : ∀ own ∈ l.own, ∀ i, i < own.size → w'.mem (own.start + i) = w.mem (own.start + i))
    (dir : w'.dir q = w.dir q) : Each plan heap Q w' q t l := by
  refine ⟨code ▸ each.ok, ?_, ?_, ?_, ?_, ?_, ?_, each.keeps⟩
  · rw [issued, inside]
    exact each.issued
  · rw [inside]
    exact each.bound
  · rw [inside, code]
    exact each.waits
  · exact fun own has => (each.below own has).trans top
  · exact fun own has i hi => (mem own has i hi).trans (each.holds own has i hi)
  · exact fun v published => dir.trans (each.dir v published)

namespace Inv

variable {q : ι} {t : Nat}

section
variable (inv : Inv plan heap Q w time loc)
include inv

theorem served (reading : plan.offers (t + 1) = none)
    (serving : Serving w time q (t + 1)) : (loc q).Keeps (plan.offer t q) := by
  rcases serving with here | ⟨before, inside⟩
  · exact (inv.each q).keeps t here reading
  · obtain ⟨c, k, code⟩ := (inv.each q).waits inside
    have ok := (inv.each q).ok
    rw [code, Ok, show time q = t by omega] at ok
    exact Plan.keeps_of_writing ok.2.1

/-- While a process reads, the others are in the same phase or about to enter it. -/
theorem serving (outside : w.inside p = false) (q : ι) : Serving w time q (time p) := by
  have ahead := inv.sync q p
  have behind := inv.sync p q
  rw [outside, Bool.toNat_false] at ahead
  cases inside : w.inside q with
  | true =>
    rw [inside, Bool.toNat_true] at behind
    rcases Nat.lt_or_ge (time q) (time p) with less | more
    · exact .inr ⟨by omega, inside⟩
    · exact .inl (by omega)
  | false =>
    rw [inside, Bool.toNat_false] at behind
    exact .inl (by omega)

omit inv in
theorem pred_of_offer (reading : plan.offers t = none) (offered : plan.offer (t - 1) q ≠ .any) : ∃ s, t = s + 1 := by
  cases t with
  | zero =>
    have writing := Plan.writing_of_offer offered
    rw [show (0 : Nat) - 1 = 0 from rfl, reading] at writing
    cases writing
  | succ s => exact ⟨s, rfl⟩

theorem loads (outside : w.inside p = false)
    (member : e ∈ (loc p).known) {addr : Nat} (low : e.1 ≤ addr) {byte : UInt8}
    (found : e.2[addr - e.1]? = some byte) : w.mem addr = byte := by
  obtain ⟨reading, q, own, offer, serving, has, begins⟩ := inv.known p outside e member
  obtain ⟨t, succ⟩ := pred_of_offer reading (q := q) (by rw [offer]; exact fun h => by cases h)
  rw [succ] at reading serving offer
  have keeps := inv.served reading serving
  rw [show t = t + 1 - 1 from rfl, offer] at keeps
  obtain ⟨own', has', -, room, content⟩ := keeps
  obtain rfl : own = own' := Option.some.inj (has.symm.trans has')
  have inside := (List.getElem?_eq_some_iff.mp found).1
  have there := (inv.each q).holds own has (addr - e.1) (by omega)
  rw [begins, show e.1 + (addr - e.1) = addr by omega, content _ _ found] at there
  exact there

theorem looks (outside : w.inside p = false)
    (reading : plan.offers (time p) = none) (offered : plan.offer (time p - 1) q ≠ .any) :
    (loc q).Keeps (plan.offer (time p - 1) q) := by
  obtain ⟨t, succ⟩ := pred_of_offer reading offered
  have serving := inv.serving outside q
  rw [succ] at reading serving
  rw [succ]
  exact inv.served reading serving

end

variable [DecidableEq ι] {w' : World ι γ α} {k : Proc ι γ α} {c : γ}

structure Acts (plan : Plan ι γ) (w w' : World ι γ α) (time : ι → Nat) (loc : ι → Local) (p : ι)
    (l' : Local) : Prop where
  issued : w'.issued = w.issued
  inside : w'.inside = w.inside
  code : ∀ q, q ≠ p → w'.code q = w.code q
  top : w.top ≤ w'.top
  below : ∀ own ∈ l'.own, own.start + own.size ≤ w'.top
  apart : ∀ q, q ≠ p → ∀ own ∈ l'.own, ∀ own' ∈ (loc q).own,
    own.start + own.size ≤ own'.start ∨ own'.start + own'.size ≤ own.start
  holds : ∀ own ∈ l'.own, ∀ i, i < own.size → w'.mem (own.start + i) = own.content i
  others : ∀ q, q ≠ p → ∀ own ∈ (loc q).own, ∀ i, i < own.size → w'.mem (own.start + i) = w.mem (own.start + i)
  dir : ∀ v, l'.pub = some v → w'.dir p = v
  dirOthers : ∀ q, q ≠ p → w'.dir q = w.dir q
  kept : plan.offers (time p) = none → l'.own = (loc p).own ∧ l'.pub = (loc p).pub
  known : ∀ e ∈ l'.known, e ∈ (loc p).known ∨ plan.offers (time p) = none ∧
    ∃ q own, plan.offer (time p - 1) q = .block e.2 ∧ (loc q).own = some own ∧ own.start = e.1

theorem Acts.stays (acts : Acts plan w w' time loc p l')
    (outside : w.inside p = false) (reading : plan.offers t = none)
    (serving : Serving w time q t) (has : (loc q).own = some own) :
    (update loc p l' q).own = some own := by
  by_cases here : q = p
  · subst here
    rcases serving with same | ⟨-, inside⟩
    · rw [update_self, (acts.kept (same ▸ reading)).1, has]
    · rw [outside] at inside
      cases inside
  · rw [update_of_ne here, has]

theorem Acts.apart_update (acts : Acts plan w w' time loc p l')
    (inv : Inv plan heap Q w time loc) {r : ι} (differ : q ≠ r) {own own' : Own}
    (has : (update loc p l' q).own = some own) (has' : (update loc p l' r).own = some own') :
    own.start + own.size ≤ own'.start ∨ own'.start + own'.size ≤ own.start := by
  by_cases here : q = p
  · rw [here, update_self] at has
    rw [update_of_ne (fun h => differ (here.trans h.symm))] at has'
    exact acts.apart r (fun h => differ (here.trans h.symm)) own has own' has'
  · rw [update_of_ne here] at has
    by_cases there : r = p
    · rw [there, update_self] at has'
      exact (acts.apart q here own' has' own has).symm
    · rw [update_of_ne there] at has'
      exact inv.apart q r differ own has own' has'

theorem reached (w : World ι γ α) (p : ι) (k : Proc ι γ α) : (w.goOn p k).code p = k := update_self _ _ _

section
variable (inv : Inv plan heap Q w time loc)
include inv

theorem acts (outside : w.inside p = false)
    (acts : Acts plan w w' time loc p l') (ok : Ok plan heap p (Q p) (w'.code p) (time p) l') :
    Inv plan heap Q w' time (update loc p l') := by
  have each := inv.each p
  refine ⟨(forall_update_iff loc fun q l => Each plan heap Q w' q (time q) l).mpr
    ⟨⟨ok, ?_, ?_, ?_, acts.below, acts.holds, acts.dir, ?_⟩, fun q other => ?_⟩, ?_, ?_, ?_⟩
  · rw [acts.issued, acts.inside]
    exact each.issued
  · rw [acts.inside]
    exact each.bound
  · rw [acts.inside, outside]
    exact nofun
  · intro t later reading
    obtain ⟨own, pub⟩ := acts.kept (later ▸ reading)
    exact (each.keeps t later reading).congr own pub
  · exact (inv.each q).frame (acts.code q other) (by rw [acts.issued]) (by rw [acts.inside]) acts.top
      (acts.others q other) (acts.dirOthers q other)
  · rw [acts.inside]
    exact inv.sync
  · intro q r differ own has own' has'
    exact acts.apart_update inv differ has has'
  · intro q outside' e member
    rw [acts.inside] at outside'
    obtain ⟨reading, r, own, offer, serves, has, begins⟩ : plan.offers (time q) = none ∧
        ∃ r own, plan.offer (time q - 1) r = .block e.2 ∧ Serving w time r (time q) ∧ (loc r).own = some own ∧
          own.start = e.1 := by
      by_cases here : q = p
      · subst here
        rw [update_self] at member
        rcases acts.known e member with old | ⟨reading, r, own, offer, has, begins⟩
        · exact inv.known q outside e old
        · exact ⟨reading, r, own, offer, inv.serving outside r, has, begins⟩
      · rw [update_of_ne here] at member
        exact inv.known q outside' e member
    refine ⟨reading, r, own, offer, ?_, acts.stays outside reading serves has, begins⟩
    rwa [Serving, acts.inside]

theorem acts_quietly (k : Proc ι γ α) (own : l'.own = (loc p).own) (pub : l'.pub = (loc p).pub)
    (known : ∀ e ∈ l'.known, e ∈ (loc p).known ∨ plan.offers (time p) = none ∧
      ∃ q own, plan.offer (time p - 1) q = .block e.2 ∧ (loc q).own = some own ∧ own.start = e.1) :
    Acts plan w (w.goOn p k) time loc p l' where
  issued := rfl
  inside := rfl
  code := fun _ other => update_of_ne other _ _
  top := Nat.le_refl _
  below := fun o has => (inv.each p).below o (own ▸ has)
  apart := fun _ other o has => inv.apart p _ (Ne.symm other) o (own ▸ has)
  holds := fun o has => (inv.each p).holds o (own ▸ has)
  others := fun _ _ _ _ _ _ => rfl
  dir := fun v published => (inv.each p).dir v (pub ▸ published)
  dirOthers := fun _ _ => rfl
  kept := fun _ => ⟨own, pub⟩
  known := known

theorem acts_alloc (k : Proc ι γ α) {size : Nat} (writing : (plan.offers (time p)).isSome) :
    Acts plan w { w.goOn p k with top := w.top + heap.round size } time loc p
      { loc p with own := some ⟨w.top, size, fun i => w.mem (w.top + i)⟩ } where
  issued := rfl
  inside := rfl
  code := fun q other => update_of_ne other _ _
  top := Nat.le_add_right _ _
  below := by
    rintro own ⟨⟩
    exact Nat.add_le_add_left (heap.le_round size) _
  apart := by
    rintro q other own ⟨⟩ own' has'
    exact .inr ((inv.each q).below own' has')
  holds := by
    rintro own ⟨⟩ i hi
    rfl
  others := fun _ _ _ _ _ _ => rfl
  dir := fun v published => (inv.each p).dir v published
  dirOthers := fun _ _ => rfl
  kept := fun reading => by rw [reading] at writing; cases writing
  known := fun _ member => .inl member

theorem acts_store (k : Proc ι γ α) {addr : Nat} (byte : UInt8)
    (writing : (plan.offers (time p)).isSome) (has : (loc p).own = some own) (low : own.start ≤ addr)
    (high : addr < own.start + own.size) :
    Acts plan w { w.goOn p k with mem := update w.mem addr byte } time loc p
      { loc p with own := some { own with content := update own.content (addr - own.start) byte } } where
  issued := rfl
  inside := rfl
  code := fun q other => update_of_ne other _ _
  top := Nat.le_refl _
  below := by
    rintro o ⟨⟩
    exact (inv.each p).below own has
  apart := by
    rintro q other o ⟨⟩ own' has'
    exact inv.apart p q (Ne.symm other) own has own' has'
  holds := by
    rintro o ⟨⟩ i hi
    change update w.mem addr byte (own.start + i) = update own.content (addr - own.start) byte i
    by_cases here : own.start + i = addr
    · rw [here, update_self, show i = addr - own.start by omega, update_self]
    · rw [update_of_ne here, update_of_ne (by omega)]
      exact (inv.each p).holds own has i hi
  others := by
    intro q other own' has' i hi
    refine update_of_ne ?_ _ _
    have apart := inv.apart p q (Ne.symm other) own has own' has'
    omega
  dir := fun v published => (inv.each p).dir v published
  dirOthers := fun _ _ => rfl
  kept := fun reading => by rw [reading] at writing; cases writing
  known := fun _ member => .inl member

theorem acts_publish (k : Proc ι γ α) (ptr : Option Nat) (writing : (plan.offers (time p)).isSome) :
    Acts plan w { w.goOn p k with dir := update w.dir p ptr } time loc p { loc p with pub := some ptr } where
  issued := rfl
  inside := rfl
  code := fun q other => update_of_ne other _ _
  top := Nat.le_refl _
  below := (inv.each p).below
  apart := fun q other => inv.apart p q (Ne.symm other)
  holds := (inv.each p).holds
  others := fun _ _ _ _ _ _ => rfl
  dir := by
    rintro v ⟨⟩
    exact update_self _ _ _
  dirOthers := fun q other => update_of_ne other _ _
  kept := fun reading => by rw [reading] at writing; cases writing
  known := fun _ member => .inl member

theorem goOn (outside : w.inside p = false) (ok : Ok plan heap p (Q p) k (time p) (loc p)) :
    Inv plan heap Q (w.goOn p k) time (update loc p (loc p)) :=
  inv.acts outside (inv.acts_quietly k rfl rfl fun _ member => .inl member) ((reached w p k).symm ▸ ok)

theorem look {who : ι} {k : Option Nat → Proc ι γ α} (outside : w.inside p = false)
    (ok : Ok plan heap p (Q p) (.lookup who k) (time p) (loc p)) :
    ∃ loc', Inv plan heap Q (w.goOn p (k (w.dir who))) time loc' := by
  rw [Ok] at ok
  obtain ⟨reading, offered, null, block⟩ := ok
  have keeps := inv.looks outside reading offered
  cases offer : plan.offer (time p - 1) who with
  | any => exact absurd offer offered
  | null =>
    rw [offer] at keeps
    rw [(inv.each who).dir none keeps]
    exact ⟨_, inv.goOn outside (null offer)⟩
  | block bytes =>
    rw [offer] at keeps
    obtain ⟨own, has, published, -⟩ := keeps
    rw [(inv.each who).dir _ published]
    have told : Acts plan w (w.goOn p (k (some own.start))) time loc p
        { loc p with known := (own.start, bytes) :: (loc p).known } := by
      refine inv.acts_quietly _ rfl rfl ?_
      intro e member
      rcases mem_cons.mp member with rfl | old
      · exact .inr ⟨reading, who, own, offer, has, rfl⟩
      · exact .inl old
    exact ⟨_, inv.acts outside told ((reached w p _).symm ▸ block bytes own.start offer)⟩

theorem issue (outside : w.inside p = false) (code : w.code p = .call c k) :
    Inv plan heap Q { w with
      issued := update w.issued p (w.issued p ++ [c])
      inside := update w.inside p true } time loc := by
  have ok := (inv.each p).ok
  rw [code, Ok] at ok
  have room := (List.getElem?_eq_some_iff.mp ok.1).1
  have more : ∀ q, (w.inside q).toNat ≤ (update w.inside p true q).toNat := by
    intro q
    by_cases here : q = p
    · rw [here, outside]
      exact Nat.zero_le _
    · rw [update_of_ne here]
  have serving : ∀ {q t}, Serving w time q t → time q = t ∨ time q + 1 = t ∧ update w.inside p true q = true := by
    rintro q t (here | ⟨before, inside⟩)
    · exact .inl here
    · refine .inr ⟨before, ?_⟩
      by_cases same : q = p
      · rw [same, update_self]
      · rw [update_of_ne same, inside]
  refine ⟨fun q => ?_, fun q r => ?_, inv.apart, ?_⟩
  · by_cases here : q = p
    · subst here
      have each := inv.each q
      refine ⟨each.ok, ?_, ?_, fun _ => ⟨c, k, code⟩, each.below, each.holds, each.dir, each.keeps⟩ <;> dsimp only
      · rw [update_self, update_self, each.issued, outside, Bool.toNat_false, Bool.toNat_true,
          Nat.add_zero, take_add_one, ok.1]
        rfl
      · rw [update_self, Bool.toNat_true]
        exact room
    · exact (inv.each q).frame rfl (update_of_ne here _ _) (update_of_ne here _ _) (Nat.le_refl _) (fun _ _ _ _ => rfl)
        rfl
  · exact Nat.le_trans (inv.sync q r) (Nat.add_le_add_left (more r) _)
  · intro q outside' e member
    change update w.inside p true q = false at outside'
    have other : q ≠ p := by
      rintro rfl
      rw [update_self] at outside'
      cases outside'
    rw [update_of_ne other] at outside'
    obtain ⟨reading, r, own, offer, serves, rest⟩ := inv.known q outside' e member
    exact ⟨reading, r, own, offer, serving serves, rest⟩

end

theorem own_of_update {p : ι}
    (has : (update loc p (plan.after t (loc p)) q).own = some own) : (loc q).own = some own := by
  by_cases here : q = p
  · subst here
    rw [update_self] at has
    exact Plan.own_of_after has
  · rwa [update_of_ne here] at has

omit [DecidableEq ι] in
theorem come_of_allIn (inv : Inv plan heap Q w time loc) (inside : w.inside p = true)
    (all : w.AllIn p c) (q : ι) : time p < time q + (w.inside q).toNat := by
  have bound := (inv.each p).bound
  rw [inside, Bool.toNat_true] at bound
  have made : (w.issued p).length = time p + 1 := by
    rw [(inv.each p).issued, inside, Bool.toNat_true, length_take]
    omega
  have found := all q
  rw [made, Nat.add_sub_cancel, (inv.each q).issued] at found
  have short := (List.getElem?_eq_some_iff.mp found).1
  rw [length_take] at short
  omega

theorem sync_leave (inv : Inv plan heap Q w time loc) (inside : w.inside p = true)
    (come : ∀ q, time p < time q + (w.inside q).toNat) (q r : ι) :
    update time p (time p + 1) q ≤
      update time p (time p + 1) r + (update w.inside p false r).toNat := by
  have ahead := inv.sync q p
  rw [inside, Bool.toNat_true] at ahead
  by_cases there : r = p
  · rw [there, update_self, update_self, Bool.toNat_false]
    by_cases here : q = p
    · rw [here, update_self]
    · rw [update_of_ne here]
      exact ahead
  · rw [update_of_ne there, update_of_ne there]
    by_cases here : q = p
    · rw [here, update_self]
      exact come r
    · rw [update_of_ne here]
      exact inv.sync q r

theorem known_leave (inv : Inv plan heap Q w time loc) (come : ∀ q, time p < time q + (w.inside q).toNat)
    (k : Proc ι γ α) (other : q ≠ p) (outside : w.inside q = false)
    (member : e ∈ (loc q).known) : plan.offers (time q) = none ∧
      ∃ r own, plan.offer (time q - 1) r = .block e.2 ∧
        Serving { w.goOn p k with inside := update w.inside p false } (update time p (time p + 1)) r
          (time q) ∧
        (update loc p (plan.after (time p) (loc p)) r).own = some own ∧ own.start = e.1 := by
  obtain ⟨reading, r, own, offer, serves, has, begins⟩ := inv.known q outside e member
  by_cases there : r = p
  · subst there
    -- the one who leaves goes to the phase in which its block is read
    have next : time r + 1 = time q := by
      rcases serves with same | ⟨next, -⟩
      · have later := come q
        rw [outside, Bool.toNat_false] at later
        omega
      · exact next
    have writing : (plan.offers (time r)).isSome = true := by
      rw [← next, Nat.add_sub_cancel] at offer
      exact Plan.writing_of_offer (by rw [offer]; exact fun h => by cases h)
    refine ⟨reading, r, own, offer, .inl ?_, ?_, begins⟩
    · rw [update_self, next]
    · rw [update_self, Plan.after, if_pos ⟨writing, next ▸ reading⟩]
      exact has
  · refine ⟨reading, r, own, offer, ?_, ?_, begins⟩
    · rw [Serving, update_of_ne there]
      change _ ∨ _ ∧ update w.inside p false r = true
      rw [update_of_ne there]
      exact serves
    · rw [update_of_ne there, has]

theorem leave (inv : Inv plan heap Q w time loc) (inside : w.inside p = true)
    (code : w.code p = .call c k) (all : w.AllIn p c) :
    Inv plan heap Q { w.goOn p k with inside := update w.inside p false }
      (update time p (time p + 1)) (update loc p (plan.after (time p) (loc p))) := by
  have ok := (inv.each p).ok
  rw [code, Ok] at ok
  have bound := (inv.each p).bound
  rw [inside, Bool.toNat_true] at bound
  have come := inv.come_of_allIn inside all
  refine ⟨fun q => ?_, inv.sync_leave inside come, ?_, ?_⟩
  · by_cases here : q = p
    · subst here
      have each := inv.each q
      rw [update_self, update_self]
      refine ⟨?_, ?_, ?_, ?_, fun own has => each.below own (Plan.own_of_after has),
        fun own has => each.holds own (Plan.own_of_after has), fun v has => each.dir v (Plan.pub_of_after has), ?_⟩
      · dsimp only [World.goOn]
        rw [update_self]
        exact ok.2.2
      · dsimp only [World.goOn]
        rw [update_self, each.issued, inside]
        rfl
      · dsimp only
        rw [update_self]
        exact bound
      · dsimp only
        rw [update_self]
        exact nofun
      · intro t later reading
        obtain rfl : time q = t := Nat.succ.inj later
        refine Plan.keeps_of_writing fun writing => ?_
        rw [Plan.after, if_pos ⟨writing, reading⟩]
        exact (ok.2.1 writing).congr rfl rfl
    · rw [update_of_ne here, update_of_ne here]
      exact (inv.each q).frame (update_of_ne here _ _) rfl (update_of_ne here _ _) (Nat.le_refl _)
        (fun _ _ _ _ => rfl) rfl
  · intro q r differ own has own' has'
    exact inv.apart q r differ own (own_of_update has) own' (own_of_update has')
  · intro q outside e member
    by_cases here : q = p
    · rw [here, update_self, Plan.known_after] at member
      cases member
    · change update w.inside p false q = false at outside
      rw [update_of_ne here] at outside member
      rw [update_of_ne here]
      exact inv.known_leave come k here outside member

variable [Fintype ι] [DecidableEq γ]

theorem step (inv : Inv plan heap Q w time loc) (p : ι) :
    ∃ time' loc', Inv plan heap Q (w.step heap p) time' loc' := by
  have ok := (inv.each p).ok
  have outside {x} (code : w.code p = x) (other : ∀ c k, x ≠ .call c k) : w.inside p = false := by
    by_contra inside
    obtain ⟨c, k, called⟩ := (inv.each p).waits (by simpa using inside)
    exact other c k (code.symm.trans called)
  rw [World.step]
  cases code : w.code p with
  | ret a => exact ⟨time, loc, inv⟩
  | alloc size k =>
    have out := outside code (by simp)
    rw [code, Ok] at ok
    obtain ⟨writing, -, granted, denied⟩ := ok
    dsimp only
    cases grant : heap.grant p with
    | true =>
      rw [if_pos rfl]
      refine ⟨time, _, inv.acts out (inv.acts_alloc _ writing) ?_⟩
      exact (reached w p _).symm ▸ granted grant ⟨w.top, size, fun i => w.mem (w.top + i)⟩ rfl
    | false =>
      rw [if_neg (by decide)]
      exact ⟨time, _, inv.goOn out (denied grant)⟩
  | store addr byte k =>
    have out := outside code (by simp)
    rw [code, Ok] at ok
    obtain ⟨writing, own, has, low, high, ok⟩ := ok
    exact ⟨time, _, inv.acts out (inv.acts_store k byte writing has low high) ((reached w p k).symm ▸ ok)⟩
  | load addr k =>
    have out := outside code (by simp)
    rw [code, Ok] at ok
    refine ⟨time, _, inv.goOn out ?_⟩
    rcases ok with any | ⟨e, member, byte, low, found, ok⟩
    · exact any _
    · rw [inv.loads out member low found]
      exact ok
  | publish ptr k =>
    have out := outside code (by simp)
    rw [code, Ok] at ok
    exact ⟨time, _, inv.acts out (inv.acts_publish k ptr ok.1) ((reached w p k).symm ▸ ok.2)⟩
  | lookup who k =>
    have out := outside code (by simp)
    rw [code] at ok
    exact ⟨time, inv.look out ok⟩
  | call c k =>
    dsimp only
    cases inside : w.inside p with
    | true =>
      rw [if_pos rfl]
      split
      · rename_i all
        exact ⟨_, _, inv.leave inside code all⟩
      · exact ⟨time, loc, inv⟩
    | false => exact ⟨time, loc, inv.issue inside code⟩

end Inv

theorem progress [Fintype ι] (inv : Inv plan heap Q w time loc)
    (unfinished : ∀ a, w.code p ≠ .ret a) : ∃ q, Moves w q := by
  by_contra stuck
  have blocked : ∀ q, (∀ a, w.code q ≠ .ret a) → w.inside q = true ∧ ∃ r, time r + (w.inside r).toNat ≤ time q := by
    intro q unfinished
    have still : ¬ Moves w q := fun moves => stuck ⟨q, moves⟩
    simp only [Moves, not_and, not_forall] at still
    obtain ⟨c, k, code, inside, out⟩ := still unfinished
    refine ⟨inside, ?_⟩
    by_contra all
    simp only [not_exists, Nat.not_le] at all
    refine out fun r => ?_
    have ok := (inv.each q).ok
    rw [code, Ok] at ok
    have bound := (inv.each q).bound
    rw [inside, Bool.toNat_true] at bound
    have made : (w.issued q).length - 1 = time q := by
      rw [(inv.each q).issued, inside, Bool.toNat_true, length_take]
      omega
    rw [made, (inv.each r).issued, getElem?_take_of_lt (all r)]
    exact ok.1
  -- of those that wait, one waits for the first call
  obtain ⟨q, member, least⟩ := Finset.exists_min_image (Finset.univ.filter fun q => w.inside q = true) time
    ⟨p, by simpa using (blocked p unfinished).1⟩
  have inside : w.inside q = true := by simpa using member
  obtain ⟨c, k, code⟩ := (inv.each q).waits inside
  obtain ⟨-, r, late⟩ := blocked q fun a h => by rw [code] at h; cases h
  cases there : w.inside r with
  | true =>
    have order := least r (by simpa using there)
    rw [there, Bool.toNat_true] at late
    omega
  | false =>
    rw [there, Bool.toNat_false] at late
    have finished : ∃ a, w.code r = .ret a := by
      by_contra going
      rw [(blocked r (by simpa using going)).1] at there
      cases there
    obtain ⟨a, ret⟩ := finished
    have ok := (inv.each r).ok
    rw [ret, Ok] at ok
    have bound := (inv.each q).bound
    rw [inside, Bool.toNat_true] at bound
    omega

variable [DecidableEq ι] [Fintype ι] [DecidableEq γ]

theorem inv_run (inv : Inv plan heap Q w time loc) (schedule : List ι) :
    ∃ time' loc', Inv plan heap Q (run heap w schedule) time' loc' :=
  Run.invariant (I := fun w => ∃ time loc, Inv plan heap Q w time loc) (fun _ p ⟨_, _, inv⟩ => inv.step p)
    ⟨time, loc, inv⟩ schedule

/-- Wherever a run has come, it can go on until all processes have returned. -/
theorem run_returns (inv : Inv plan heap Q w time loc) : ∃ more, ∀ p, ∃ a, (run heap w more).code p = .ret a := by
  have order : WellFounded fun v w : World ι γ α =>
      Relation.CutExpand Less (Finset.univ.val.map v.left) (Finset.univ.val.map w.left) :=
    InvImage.wf (fun w : World ι γ α => Finset.univ.val.map w.left) less_wellFounded.cutExpand
  induction w using order.induction generalizing time loc with
  | _ w ih =>
  by_cases all : ∀ p, ∃ a, w.code p = .ret a
  · exact ⟨[], all⟩
  · simp only [not_forall, not_exists] at all
    obtain ⟨p, unfinished⟩ := all
    obtain ⟨q, moves⟩ := progress inv unfinished
    obtain ⟨x, less, left⟩ := step_left moves
    obtain ⟨time', loc', inv'⟩ := inv.step q
    obtain ⟨more, returned⟩ := ih (w.step heap q) (left ▸ cutExpand_update w.left q less) inv'
    exact ⟨q :: more, returned⟩

/-- Processes that keep to the plan each on its own make the calls of its script in every interleaving, return,
and return what they should. -/
theorem run_keeps (mem : Nat → UInt8) (dir : ι → Option Nat) (top : Nat)
    (ok : ∀ p, Ok plan heap p (Q p) (code p) 0 {}) (schedule : List ι) :
    (∀ p, (run heap (start mem dir top code) schedule).issued p <+: plan.script) ∧
    (∀ p a, (run heap (start mem dir top code) schedule).code p = .ret a →
      (run heap (start mem dir top code) schedule).issued p = plan.script ∧ Q p a) ∧
    ∃ more, ∀ p, ∃ a, (run heap (start mem dir top code) (schedule ++ more)).code p = .ret a := by
  obtain ⟨time, loc, inv⟩ := inv_run (inv_start mem dir top ok) schedule
  refine ⟨fun p => ?_, fun p a returned => ?_, ?_⟩
  · rw [(inv.each p).issued]
    exact take_prefix _ _
  · have ok := (inv.each p).ok
    rw [returned, Ok] at ok
    refine ⟨?_, ok.2⟩
    rw [(inv.each p).issued, ok.1]
    exact take_of_length_le (by omega)
  · obtain ⟨more, returned⟩ := run_returns inv
    refine ⟨more, ?_⟩
    simpa only [run, foldl_append] using returned

end System
end Phased
