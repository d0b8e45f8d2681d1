import CxlMemSim.Server.Lsa
import CxlMemSim.Type3.Forward

/-! `set_lsa` and `get_lsa` cut a range into chunks of at most 64 bytes and send one request for each. -/
namespace CxlMemSim.Type3
open ByteMemory List

structure LabelArea where
  size : UInt64
  data : Segment

structure LabelSystem where
  memsim : Memsim
  server : ServerState
  lsa : Option LabelArea

def validateLsaAccess (mr : LabelArea) (size offset : UInt64) : Prop :=
  offset + size ≤ mr.size ∧ offset < offset + size
deriving Decidable

/-- The loop of `set_lsa`; the result says if all requests have succeeded.  The request number `k`
meets the surroundings `env k`. -/
def setLsaChunks (env : Nat → Surroundings) (g : Memsim) (server : ServerState) (curOffset : UInt64)
    (src : List UInt8) : Memsim × ServerState × Bool :=
  if 0 < src.length then
    let chunk := min src.length 64
    match cxlMemsimRequest (env 0) g server ((env 0).call .lsaWrite curOffset chunk (src.take chunk)) with
    | (g, server, some resp) =>
      if resp.status = 0 then
        setLsaChunks (fun k => env (k + 1)) g server (curOffset + UInt64.ofNat chunk) (src.drop chunk)
      else (g, server, false)
    | (g, server, none) => (g, server, false)
  else (g, server, true)
termination_by src.length
decreasing_by
  rw [length_drop]
  omega

def getLsaChunks (env : Nat → Surroundings) (g : Memsim) (server : ServerState) (curOffset : UInt64)
    (remaining : Nat) : Memsim × ServerState × Option (List UInt8) :=
  if 0 < remaining then
    let chunk := min remaining 64
    match cxlMemsimRequest (env 0) g server ((env 0).call .lsaRead curOffset chunk []) with
    | (g, server, some resp) =>
      if resp.status = 0 then
        let (g, server, rest) :=
          getLsaChunks (fun k => env (k + 1)) g server (curOffset + UInt64.ofNat chunk) (remaining - chunk)
        (g, server, rest.map (resp.data.toList.take chunk ++ ·))
      else (g, server, none)
    | (g, server, none) => (g, server, none)
  else (g, server, some [])
termination_by remaining

def LabelSystem.Remote (st : LabelSystem) : Prop :=
  st.memsim.enabled = true ∧ st.memsim.transportMode.Authoritative
deriving Decidable

def setLsa (env : Nat → Surroundings) (st : LabelSystem) (buf : List UInt8) (offset : UInt64) : Option LabelSystem :=
  match st.lsa with
  | none => some st
  | some mr =>
    let fallback (st : LabelSystem) : Option LabelSystem :=
      if validateLsaAccess mr (UInt64.ofNat buf.length) offset then
        some { st with lsa := some { mr with data := poke mr.data (walk offset) buf } }
      else none
    if st.Remote then
      match setLsaChunks env st.memsim st.server offset buf with
      | (memsim, server, true) => some { st with memsim, server }
      | (memsim, server, false) => fallback { st with memsim, server }
    else fallback st

/-- The returned size, what is then in `buf`, which had `buffer`, and the system; `none` when an
assertion fails. -/
def getLsa (env : Nat → Surroundings) (st : LabelSystem) (buffer : List UInt8) (size : Nat) (offset : UInt64) :
    Option (UInt64 × List UInt8 × LabelSystem) :=
  match st.lsa with
  | none => some (0, buffer, st)
  | some mr =>
    let fallback (st : LabelSystem) : Option (UInt64 × List UInt8 × LabelSystem) :=
      if validateLsaAccess mr (UInt64.ofNat size) offset then
        some (UInt64.ofNat size, overlay (peek mr.data (walk offset) size) buffer, st)
      else none
    if st.Remote then
      match getLsaChunks env st.memsim st.server offset size with
      | (memsim, server, some bytes) => some (UInt64.ofNat size, overlay bytes buffer, { st with memsim, server })
      | (memsim, server, none) => fallback { st with memsim, server }
    else fallback st

structure SetLsaCall where
  env : Nat → Surroundings
  buf : List UInt8
  offset : UInt64

def LabelSystem.run (st : LabelSystem) (calls : List SetLsaCall) : Option LabelSystem :=
  calls.foldlM (fun st c => setLsa c.env st c.buf c.offset) st

def overwrite (labels : Nat → Option UInt8) (start : Nat) (bytes : List UInt8) (p : Nat) : Option UInt8 :=
  if start ≤ p ∧ p < start + bytes.length then bytes[p - start]? else labels p

def lastSet (calls : List SetLsaCall) : Nat → Option UInt8 :=
  calls.foldl (fun labels c => overwrite labels c.offset.toNat c.buf) fun _ => none

theorem overwrite_append (labels : Nat → Option UInt8) (start : Nat) (xs ys : List UInt8) :
    overwrite labels start (xs ++ ys) = overwrite (overwrite labels start xs) (start + xs.length) ys := by
  funext p
  simp only [overwrite, length_append]
  by_cases late : start + xs.length ≤ p
  · have right : p - start - xs.length = p - (start + xs.length) := Nat.sub_sub _ _ _
    by_cases inside : p < start + xs.length + ys.length
    · rw [if_pos ⟨by omega, by omega⟩, if_pos ⟨late, inside⟩, getElem?_append_right (by omega), right]
    · rw [if_neg (by omega), if_neg (by omega), if_neg (by omega)]
  · rw [if_neg (show ¬ (start + xs.length ≤ p ∧ _) from fun h => late h.1)]
    by_cases inside : start ≤ p
    · rw [if_pos ⟨inside, by omega⟩, if_pos ⟨inside, by omega⟩, getElem?_append_left (by omega)]
    · rw [if_neg fun h => inside h.1, if_neg fun h => inside h.1]

def Keeps (labels : Nat → Option UInt8) (s : ServerState) : Prop :=
  ∃ history, LsaHolds history s ∧ ∀ p b, labels p = some b → lsaWritten history p = b ∧ p < s.lsaSize.toNat

section
variable {labels : Nat → Option UInt8} {s : ServerState} (env : Surroundings) {opType : OpType} {offset : UInt64}
  {data : List UInt8} {n : Nat}

theorem lsaLength_call (small : n ≤ 64) : (env.call opType offset n data).lsaLength = n := by
  have size : (UInt64.ofNat n).toNat = n := UInt64.toNat_ofNat_of_lt (small.trans_lt (by decide))
  have clamp : UInt64.ofNat n ≤ 64 := by
    rw [UInt64.le_iff_toNat_le, size]
    exact small
  rw [Call.lsaLength, lsaClampSize, Surroundings.call]
  simp only [min, if_pos clamp, size]

theorem lsaPayload_call (small : data.length ≤ 64) : (env.call opType offset data.length data).lsaPayload = data := by
  rw [Call.lsaPayload, lsaLength_call env small]
  exact copyInto_take (Vector.replicate 64 0) small

theorem fits_call (small : n ≤ 64) (fits : offset.toNat + n < 2 ^ 64) : (env.call opType offset n data).LsaFits := by
  rw [Call.LsaFits, lsaLength_call env small]
  exact fits

theorem Keeps.write (keeps : Keeps labels s) (small : data.length ≤ 64) (fits : offset.toNat + data.length < 2 ^ 64) :
    Keeps (overwrite labels offset.toNat data) (step s (env.call .lsaWrite offset data.length data)) := by
  obtain ⟨history, holds, stored⟩ := keeps
  have fit : (env.call .lsaWrite offset data.length data).LsaFits := fits_call env small fits
  refine ⟨history ++ [env.call .lsaWrite offset data.length data], holds.step fun _ => fit, ?_⟩
  have written : lsaWritten (history ++ [env.call .lsaWrite offset data.length data]) =
      poke (lsaWritten history) (offset.toNat + ·) data := by
    have op : (env.call .lsaWrite offset data.length data).req.opType = .lsaWrite := rfl
    rw [lsaWritten_append, if_pos op, lsaPayload_call env small]
    rfl
  have size : (step s (env.call .lsaWrite offset data.length data)).lsaSize.toNat =
      max s.lsaSize.toNat (offset.toNat + data.length) := by
    rw [lsaSize_lsaWrite rfl, lsaEnd_of_fits fit, lsaLength_call env small]
    rfl
  intro p b label
  rw [written, size]
  by_cases inside : offset.toNat ≤ p ∧ p < offset.toNat + data.length
  · rw [overwrite, if_pos inside] at label
    obtain ⟨i, rfl⟩ := Nat.exists_eq_add_of_le inside.1
    have hi : i < data.length := by omega
    rw [Nat.add_sub_cancel_left, getElem?_eq_getElem hi] at label
    refine ⟨?_, inside.2.trans_le (le_max_right _ _)⟩
    rw [poke_at _ _ _ (distinct_add _ _) hi]
    exact Option.some.inj label
  · rw [overwrite, if_neg inside] at label
    obtain ⟨byte, bound⟩ := stored p b label
    refine ⟨?_, bound.trans_le (le_max_left _ _)⟩
    rw [poke_other _ _ _ (by omega), byte]

theorem Keeps.read (keeps : Keeps labels s) (positive : 0 < n) (small : n ≤ 64)
    (known : ∀ i, i < n → (labels (offset.toNat + i)).isSome = true) :
    (respond s (env.call .lsaRead offset n [])).status = 0 ∧
      ∀ i, i < n →
        ((respond s (env.call .lsaRead offset n [])).data.toList.take n)[i]? = labels (offset.toNat + i) := by
  obtain ⟨history, holds, stored⟩ := keeps
  obtain ⟨b, last⟩ := Option.isSome_iff_exists.mp (known (n - 1) (by omega))
  have bound := (stored _ _ last).2
  have size := s.lsaSize.toNat_lt
  have fit : (env.call .lsaRead offset n []).LsaFits := fits_call env small (by omega)
  have inside : offset + lsaClampSize (env.call .lsaRead offset n []).req.size ≤ s.lsaSize := by
    rw [UInt64.le_iff_toNat_le]
    have ends := lsaEnd_of_fits fit
    rw [lsaLength_call env small] at ends
    exact (le_of_eq ends).trans (show offset.toNat + n ≤ _ by omega)
  have served : (respond s (env.call .lsaRead offset n [])).status = 0 := by
    rw [respond_lsaRead rfl]
    exact congrArg ServerResponse.status (if_pos inside)
  refine ⟨served, fun i hi => ?_⟩
  have bytes := (holds.sound fun _ => fit).returns rfl served
  rw [lsaLength_call env small] at bytes
  obtain ⟨b, label⟩ := Option.isSome_iff_exists.mp (known i hi)
  rw [bytes, label, getElem?_eq_getElem (by rwa [peek_length]), peek_getElem]
  exact congrArg some (stored _ _ label).1

theorem Keeps.fits (keeps : Keeps labels s) (known : ∀ i, i < n → (labels (offset.toNat + i)).isSome = true) :
    offset.toNat + n < 2 ^ 64 := by
  obtain ⟨history, holds, stored⟩ := keeps
  cases n with
  | zero => exact offset.toNat_lt
  | succ n =>
    obtain ⟨b, last⟩ := Option.isSome_iff_exists.mp (known n (Nat.lt_succ_self n))
    have bound := (stored _ _ last).2
    have size := s.lsaSize.toNat_lt
    omega

end

section
variable {labels : Nat → Option UInt8} {g : Memsim} {s : ServerState} {offset : UInt64}

theorem cxlMemsimRequest_answered {env : Surroundings} (answered : env.exchange = .answered)
    (tcp : g.transportMode = .tcp) (c : Call) :
    cxlMemsimRequest env g s c = ({ g with connected := true }, step s c, some (respond s c)) := by
  have same : g.afterConnect env = g := by simp [Memsim.afterConnect, tcp]
  simp only [cxlMemsimRequest, same, if_pos tcp, answered]

theorem offset_add {n : Nat} (fits : offset.toNat + n < 2 ^ 64) :
    (offset + UInt64.ofNat n).toNat = offset.toNat + n := by
  have size : (UInt64.ofNat n).toNat = n := UInt64.toNat_ofNat_of_lt (lt_of_le_of_lt (Nat.le_add_left _ _) fits)
  rw [UInt64.toNat_add, size, Nat.mod_eq_of_lt fits]

variable {env : Nat → Surroundings}

theorem setLsaChunks_keeps (answered : ∀ k, (env k).exchange = .answered)
    (tcp : g.transportMode = .tcp) {src : List UInt8} (keeps : Keeps labels s)
    (fits : offset.toNat + src.length < 2 ^ 64) :
    ∃ g' s', setLsaChunks env g s offset src = (g', s', true) ∧ g'.enabled = g.enabled ∧ g'.transportMode = .tcp ∧
      Keeps (overwrite labels offset.toNat src) s' := by
  induction count : src.length using Nat.strong_induction_on generalizing env g s labels offset src with
  | _ m ih =>
    rw [setLsaChunks]
    by_cases more : 0 < src.length
    · obtain ⟨chunk, size⟩ : ∃ chunk, chunk = min src.length 64 := ⟨_, rfl⟩
      have length : (src.take chunk).length = chunk := by
        rw [length_take]
        omega
      have left : (src.drop chunk).length = src.length - chunk := length_drop
      have next : (offset + UInt64.ofNat chunk).toNat = offset.toNat + chunk := offset_add (by omega)
      have start : offset.toNat + (src.take chunk).length < 2 ^ 64 := by omega
      have rest : (offset + UInt64.ofNat chunk).toNat + (src.drop chunk).length < 2 ^ 64 := by omega
      have first := keeps.write (env 0) (by omega) start
      rw [length] at first
      obtain ⟨g', s', done, enabled, mode, kept⟩ := ih _ (by omega) (fun k => answered (k + 1))
        (show ({ g with connected := true } : Memsim).transportMode = .tcp from tcp) first rest rfl
      have status : (respond s ((env 0).call .lsaWrite offset chunk (src.take chunk))).status = 0 :=
        congrArg ServerResponse.status (respond_lsaWrite rfl)
      refine ⟨g', s', ?_, enabled, mode, ?_⟩
      · rw [if_pos more, ← size]
        simp only [cxlMemsimRequest_answered (answered 0) tcp, if_pos status]
        exact done
      · rw [next] at kept
        rwa [← take_append_drop chunk src, overwrite_append, length]
    · rw [if_neg more]
      obtain rfl : src = [] := length_eq_zero_iff.mp (by omega)
      have same : overwrite labels offset.toNat [] = labels := by
        funext p
        exact if_neg (by simp)
      exact ⟨g, s, rfl, rfl, tcp, by rwa [same]⟩

theorem getLsaChunks_keeps (answered : ∀ k, (env k).exchange = .answered)
    (tcp : g.transportMode = .tcp) {n : Nat} (keeps : Keeps labels s) (fits : offset.toNat + n < 2 ^ 64)
    (known : ∀ i, i < n → (labels (offset.toNat + i)).isSome = true) :
    ∃ g' bytes, getLsaChunks env g s offset n = (g', s, some bytes) ∧ bytes.length = n ∧
      ∀ i, i < n → bytes[i]? = labels (offset.toNat + i) := by
  induction n using Nat.strong_induction_on generalizing env g offset with
  | _ n ih =>
    rw [getLsaChunks]
    by_cases more : 0 < n
    · obtain ⟨chunk, size⟩ : ∃ chunk, chunk = min n 64 := ⟨_, rfl⟩
      have next : (offset + UInt64.ofNat chunk).toNat = offset.toNat + chunk := offset_add (by omega)
      have early : ∀ i, i < chunk → (labels (offset.toNat + i)).isSome = true := fun i hi => known i (by omega)
      obtain ⟨status, bytes⟩ := keeps.read (env 0) (by omega) (by omega) early
      have later : ∀ i, i < n - chunk →
          (labels ((offset + UInt64.ofNat chunk).toNat + i)).isSome = true := by
        intro i hi
        rw [next, Nat.add_assoc]
        exact known _ (by omega)
      obtain ⟨g', rest, done, length, others⟩ := ih (n - chunk) (by omega) (fun k => answered (k + 1))
        (show ({ g with connected := true } : Memsim).transportMode = .tcp from tcp) (by omega) later
      have short : ((respond s ((env 0).call .lsaRead offset chunk [])).data.toList.take chunk).length = chunk := by
        rw [length_take, Vector.length_toList]
        omega
      refine ⟨g', (respond s ((env 0).call .lsaRead offset chunk [])).data.toList.take chunk ++ rest, ?_, ?_, ?_⟩
      · rw [if_pos more, ← size]
        have same : step s ((env 0).call .lsaRead offset chunk []) = s := step_lsaRead rfl
        simp only [cxlMemsimRequest_answered (answered 0) tcp, if_pos status, same, done, Option.map_some]
      · rw [length_append, short, length]
        omega
      · intro i hi
        by_cases inside : i < chunk
        · rw [getElem?_append_left (by omega)]
          exact bytes i inside
        · rw [getElem?_append_right (by omega), short, others _ (by omega), next]
          congr 1
          omega
    · rw [if_neg more]
      exact ⟨g, [], rfl, by simp; omega, fun i hi => absurd hi (by omega)⟩

end

structure SetLsaCall.Delivered (c : SetLsaCall) (areaSize : UInt64) : Prop where
  inside : c.offset.toNat + c.buf.length ≤ areaSize.toNat
  answered : ∀ k, (c.env k).exchange = .answered

structure Serves (labels : Nat → Option UInt8) (mr : LabelArea) (st : LabelSystem) : Prop where
  area : st.lsa = some mr
  enabled : st.memsim.enabled = true
  tcp : st.memsim.transportMode = .tcp
  keeps : Keeps labels st.server

section
variable {labels : Nat → Option UInt8} {mr : LabelArea} {st : LabelSystem}

variable (serves : Serves labels mr st)
include serves

theorem Serves.remote : st.Remote := ⟨serves.enabled, .inl serves.tcp⟩

theorem Serves.setLsa {c : SetLsaCall} (delivered : c.Delivered mr.size) :
    ∃ st', setLsa c.env st c.buf c.offset = some st' ∧ Serves (overwrite labels c.offset.toNat c.buf) mr st' := by
  have bound := mr.size.toNat_lt
  obtain ⟨g', s', done, enabled, tcp, keeps⟩ := setLsaChunks_keeps delivered.answered serves.tcp serves.keeps
    (delivered.inside.trans_lt bound)
  refine ⟨{ st with memsim := g', server := s' }, ?_, ⟨serves.area, enabled.trans serves.enabled, tcp, keeps⟩⟩
  rw [Type3.setLsa, serves.area]
  simp only [if_pos serves.remote, done]

theorem Serves.run {calls : List SetLsaCall} (delivered : ∀ c ∈ calls, c.Delivered mr.size) :
    ∃ st', st.run calls = some st' ∧
      Serves (calls.foldl (fun labels c => overwrite labels c.offset.toNat c.buf) labels) mr st' := by
  induction calls generalizing labels st with
  | nil => exact ⟨st, rfl, serves⟩
  | cons c calls ih =>
    obtain ⟨st', first, served⟩ := serves.setLsa (delivered c mem_cons_self)
    obtain ⟨last, done, result⟩ := ih served fun c member => delivered c (mem_cons_of_mem _ member)
    refine ⟨last, ?_, result⟩
    rw [LabelSystem.run, foldlM_cons, first]
    exact done

theorem Serves.getLsa
    (answered : ∀ k, (env k).exchange = .answered) (buffer : List UInt8) {size : Nat} {offset : UInt64}
    (known : ∀ i, i < size → (labels (offset.toNat + i)).isSome = true) :
    ∃ bytes st', getLsa env st buffer size offset = some (UInt64.ofNat size, overlay bytes buffer, st') ∧
      bytes.length = size ∧ ∀ i, i < size → bytes[i]? = labels (offset.toNat + i) := by
  obtain ⟨g', bytes, done, length, last⟩ := getLsaChunks_keeps answered serves.tcp serves.keeps
    (serves.keeps.fits known) known
  refine ⟨bytes, { st with memsim := g' }, ?_, length, last⟩
  rw [Type3.getLsa, serves.area]
  simp only [if_pos serves.remote, done]

end

/-- After any calls of `set_lsa`, a `get_lsa` of bytes that have been set returns what was set last. -/
theorem get_lsa_returns_last_set (mem : Segment) (earlier : List Call) (fits : ∀ c ∈ earlier, c.IsLsa → c.LsaFits)
    (g : Memsim) (enabled : g.enabled = true) (tcp : g.transportMode = .tcp) (mr : LabelArea) (calls : List SetLsaCall)
    (delivered : ∀ c ∈ calls, c.Delivered mr.size) (env : Nat → Surroundings)
    (answered : ∀ k, (env k).exchange = .answered) (buffer : List UInt8) (size : Nat) (offset : UInt64)
    (known : ∀ i, i < size → (lastSet calls (offset.toNat + i)).isSome = true) :
    ∃ st, LabelSystem.run ⟨g, run (.initial mem) earlier, some mr⟩ calls = some st ∧
      ∃ bytes st', getLsa env st buffer size offset = some (UInt64.ofNat size, bytes, st') ∧
        ∀ i, i < size → bytes[i]? = lastSet calls (offset.toNat + i) := by
  have start : Serves (fun _ => none) mr ⟨g, run (.initial mem) earlier, some mr⟩ :=
    ⟨rfl, enabled, tcp, earlier, lsaHolds_run fits, nofun⟩
  obtain ⟨st, done, serves⟩ := start.run delivered
  obtain ⟨bytes, st', got, length, last⟩ := serves.getLsa answered buffer known
  refine ⟨st, done, _, st', got, fun i hi => ?_⟩
  rw [overlay, getElem?_append_left (by omega)]
  exact last i hi

def overlappingCalls : List SetLsaCall :=
  [⟨fun _ => {}, List.replicate 100 1, 30⟩, ⟨fun _ => {}, List.replicate 70 2, 90⟩]

theorem get_lsa_returns_last_set_overlapping :
    ∃ st, LabelSystem.run ⟨{}, .initial fun _ => 0, some ⟨1024, fun _ => 0⟩⟩ overlappingCalls = some st ∧
      ∃ bytes st', getLsa (fun _ => {}) st [] 130 30 = some (130, bytes, st') ∧
        ∀ i, i < 130 → bytes[i]? = some (if i < 60 then 1 else 2) := by
  have delivered : ∀ c ∈ overlappingCalls, c.Delivered 1024 := by
    intro c member
    simp only [overlappingCalls, mem_cons, not_mem_nil, or_false] at member
    rcases member with rfl | rfl
    · exact ⟨by decide, fun _ => rfl⟩
    · exact ⟨by decide, fun _ => rfl⟩
  have labels : ∀ i, i < 130 → lastSet overlappingCalls ((30 : UInt64).toNat + i) = some (if i < 60 then 1 else 2) := by
    decide +kernel
  obtain ⟨st, done, bytes, st', got, last⟩ := get_lsa_returns_last_set (fun _ => 0) [] nofun {} rfl rfl
    ⟨1024, fun _ => 0⟩ overlappingCalls delivered (fun _ => {}) (fun _ => rfl) [] 130 30 fun i hi => by
      rw [labels i hi]
      rfl
  exact ⟨st, done, bytes, st', got, fun i hi => (last i hi).trans (labels i hi)⟩

end CxlMemSim.Type3
