import CxlMemSim.Server.Storage

/-! LSA requests among any other requests, against the bytes that the LSA writes put at offsets in `Nat`; the server
adds offset and length in 64 bits. -/
namespace CxlMemSim
open ByteMemory List UInt64

def Call.IsLsa (c : Call) : Prop := c.req.opType = .lsaRead ∨ c.req.opType = .lsaWrite

def Call.lsaLength (c : Call) : Nat := (lsaClampSize c.req.size).toNat

def Call.lsaPayload (c : Call) : List UInt8 := c.req.data.toList.take c.lsaLength

def lsaWritten (history : List Call) : Nat → UInt8 :=
  history.foldl (fun bytes c =>
    if c.req.opType = .lsaWrite then poke bytes (c.req.addr.toNat + ·) c.lsaPayload else bytes) fun _ => 0

structure LsaSound (history : List Call) (s : ServerState) (c : Call) : Prop where
  within : c.IsLsa → (respond s c).status = 0 →
    ∀ i, i < c.lsaLength → c.req.addr.toNat + i < (step s c).lsaSize.toNat
  returns : c.req.opType = .lsaRead → (respond s c).status = 0 →
    (respond s c).data.toList.take c.lsaLength = peek (lsaWritten history) (c.req.addr.toNat + ·) c.lsaLength
  grows : s.lsaSize ≤ (step s c).lsaSize

def Call.LsaFits (c : Call) : Prop := c.req.addr.toNat + c.lsaLength < 2 ^ 64

section
variable {history : List Call} {s : ServerState} {c : Call}

theorem lsaLength_le (c : Call) : c.lsaLength ≤ 64 := by
  simp only [Call.lsaLength, lsaClampSize, min]
  split
  · rename_i small
    exact le_iff_toNat_le.mp small
  · exact Nat.le_refl 64

theorem lsaPayload_length (c : Call) : c.lsaPayload.length = c.lsaLength := by
  have := lsaLength_le c
  simp [Call.lsaPayload, this]

theorem lsaEnd_toNat (c : Call) :
    (c.req.addr + lsaClampSize c.req.size).toNat = (c.req.addr.toNat + c.lsaLength) % 2 ^ 64 :=
  UInt64.toNat_add _ _

theorem lsaEnd_of_fits (fits : c.LsaFits) :
    (c.req.addr + lsaClampSize c.req.size).toNat = c.req.addr.toNat + c.lsaLength := by
  rw [lsaEnd_toNat, Nat.mod_eq_of_lt fits]

theorem walk_of_fits (fits : c.LsaFits) {i : Nat} (hi : i < c.lsaLength) :
    (walk c.req.addr i).toNat = c.req.addr.toNat + i := by
  rw [walk_toNat, Nat.mod_eq_of_lt (Nat.lt_of_lt_of_le (Nat.add_lt_add_left hi _) fits.le)]

theorem lsaWritten_append (history : List Call) (c : Call) :
    lsaWritten (history ++ [c]) =
      if c.req.opType = .lsaWrite then poke (lsaWritten history) (c.req.addr.toNat + ·) c.lsaPayload
      else lsaWritten history := by
  rw [lsaWritten, foldl_append]
  rfl

theorem applyBackInvalidations_lsa (cachelineAddr : UInt64) (entries : List BackInvalidationEntry)
    (msync : Nat → Bool) (s : ServerState) (had : Bool) :
    (applyBackInvalidations cachelineAddr entries msync s had).1.lsaData = s.lsaData ∧
      (applyBackInvalidations cachelineAddr entries msync s had).1.lsaSize = s.lsaSize := by
  induction entries generalizing msync s had with
  | nil => exact ⟨rfl, rfl⟩
  | cons entry rest ih =>
    simp only [applyBackInvalidations]
    split
    · split
      · exact ih _ _ _
      · exact ih _ _ _
    · exact ih _ _ _

theorem step_lsa_other (other : ¬ c.IsLsa) : (step s c).lsaData = s.lsaData ∧ (step s c).lsaSize = s.lsaSize := by
  have replayed := applyBackInvalidations_lsa (addrToCacheline c.req.addr)
    (s.backInvalidationQueue (addrToCacheline c.req.addr)) c.msync s false
  cases op : c.req.opType with
  | read =>
    simp only [step, handleRequest, op, handleRead, checkAndApplyBackInvalidations, ServerState.setMetadata]
    split
    · split <;> exact replayed
    · exact ⟨rfl, rfl⟩
  | write =>
    simp only [step, handleRequest, op, handleWrite, ServerState.setMetadata, register_iterate]
    split
    · split <;> exact ⟨rfl, rfl⟩
    · exact ⟨rfl, rfl⟩
  | atomicFaa | fence => simp [step, handleRequest, handleAtomicRequest, op, ServerState.setMetadata]
  | atomicCas =>
    simp only [step, handleRequest, handleAtomicRequest, op, ServerState.setMetadata]
    split <;> exact ⟨rfl, rfl⟩
  | lsaRead => exact (other (.inl op)).elim
  | lsaWrite => exact (other (.inr op)).elim

section
variable (op : c.req.opType = .lsaRead)
include op

theorem step_lsaRead : step s c = s := by
  simp only [step, handleRequest, op, handleLsaRead]
  split <;> rfl

theorem respond_lsaRead :
    respond s c = if c.req.addr + lsaClampSize c.req.size ≤ s.lsaSize then
        { data := copyInto (Vector.replicate 64 0) (peek s.lsaData (walk c.req.addr) c.lsaLength) }
      else { status := 1 } := by
  simp only [respond, handleRequest, op, handleLsaRead]
  split <;> rfl

theorem inside_of_served (served : (respond s c).status = 0) : c.req.addr + lsaClampSize c.req.size ≤ s.lsaSize := by
  by_contra outside
  rw [respond_lsaRead op, if_neg outside] at served
  exact absurd served (by decide)

end

theorem respond_lsaWrite (op : c.req.opType = .lsaWrite) : respond s c = {} := by
  simp only [respond, handleRequest, op, handleLsaWrite]

theorem lsaSize_lsaWrite (op : c.req.opType = .lsaWrite) :
    (step s c).lsaSize.toNat = max s.lsaSize.toNat (c.req.addr + lsaClampSize c.req.size).toNat := by
  simp only [step, handleRequest, op, handleLsaWrite]
  split
  · rename_i grows
    exact (max_eq_right (lt_iff_toNat_lt.mp grows).le).symm
  · rename_i fits
    exact (max_eq_left (UInt64.le_iff_toNat_le.mp (UInt64.not_lt.mp fits))).symm

structure LsaHolds (history : List Call) (s : ServerState) : Prop where
  data : s.lsaData = lsaWritten history ∘ UInt64.toNat
  beyond : ∀ offset, s.lsaSize.toNat ≤ offset → lsaWritten history offset = 0
  size : 256 * 1024 ≤ s.lsaSize.toNat

theorem lsaHolds_initial (mem : Segment) : LsaHolds [] (.initial mem) :=
  ⟨rfl, fun _ _ => rfl, Nat.le_refl _⟩

variable (h : LsaHolds history s)
include h

theorem LsaHolds.grown (newSize : UInt64) :
    (fun p => if s.lsaSize ≤ p ∧ p < newSize then 0 else s.lsaData p) = s.lsaData := by
  funext p
  split
  · rename_i added
    rw [h.data, Function.comp_apply, h.beyond _ (le_iff_toNat_le.mp added.1)]
  · rfl

theorem LsaHolds.lsaData_lsaWrite (op : c.req.opType = .lsaWrite) :
    (step s c).lsaData = poke s.lsaData (walk c.req.addr) c.lsaPayload := by
  simp only [step, handleRequest, op, handleLsaWrite]
  split
  · rw [h.grown]
    rfl
  · rfl

theorem LsaHolds.step (fits : c.IsLsa → c.LsaFits) : LsaHolds (history ++ [c]) (step s c) := by
  by_cases op : c.req.opType = .lsaWrite
  · have inside := fits (.inr op)
    have unwrapped : ∀ i, i < c.lsaPayload.length → (UInt64.toNat ∘ walk c.req.addr) i = c.req.addr.toNat + i := by
      intro i hi
      rw [lsaPayload_length] at hi
      exact walk_of_fits inside hi
    have size : (CxlMemSim.step s c).lsaSize.toNat = max s.lsaSize.toNat (c.req.addr.toNat + c.lsaLength) := by
      rw [lsaSize_lsaWrite op, lsaEnd_of_fits inside]
    refine ⟨?_, ?_, ?_⟩
    · rw [h.lsaData_lsaWrite op, h.data, poke_comp (fun _ _ => UInt64.toNat_inj.mp), lsaWritten_append, if_pos op,
        poke_congr _ _ unwrapped]
    · intro offset outside
      rw [size] at outside
      rw [lsaWritten_append, if_pos op, poke_other]
      · exact h.beyond offset (le_trans (le_max_left _ _) outside)
      · intro i hi
        rw [lsaPayload_length] at hi
        have := le_trans (le_max_right _ _) outside
        omega
    · rw [size]
      exact le_trans h.size (le_max_left _ _)
  · have written : lsaWritten (history ++ [c]) = lsaWritten history := by rw [lsaWritten_append, if_neg op]
    have kept : (CxlMemSim.step s c).lsaData = s.lsaData ∧ (CxlMemSim.step s c).lsaSize = s.lsaSize := by
      by_cases read : c.req.opType = .lsaRead
      · rw [step_lsaRead read]
        exact ⟨rfl, rfl⟩
      · exact step_lsa_other fun isLsa => isLsa.elim read op
    refine ⟨?_, ?_, ?_⟩
    · rw [kept.1, written, h.data]
    · rw [kept.2, written]
      exact h.beyond
    · rw [kept.2]
      exact h.size

omit h in
theorem step_lsaSize_le (s : ServerState) (c : Call) : s.lsaSize ≤ (step s c).lsaSize := by
  rw [le_iff_toNat_le]
  by_cases write : c.req.opType = .lsaWrite
  · rw [lsaSize_lsaWrite write]
    exact le_max_left _ _
  · by_cases read : c.req.opType = .lsaRead
    · rw [step_lsaRead read]
    · rw [(step_lsa_other fun isLsa => isLsa.elim read write).2]

theorem LsaHolds.sound (fits : c.IsLsa → c.LsaFits) : LsaSound history s c := by
  refine ⟨?_, ?_, step_lsaSize_le s c⟩
  · intro isLsa served i hi
    have ends := lsaEnd_of_fits (fits isLsa)
    have last : c.req.addr.toNat + c.lsaLength ≤ (CxlMemSim.step s c).lsaSize.toNat := by
      rw [← ends]
      rcases isLsa with op | op
      · rw [step_lsaRead op, ← le_iff_toNat_le]
        exact inside_of_served op served
      · rw [lsaSize_lsaWrite op]
        exact le_max_right _ _
    omega
  · intro op served
    have bytes : peek s.lsaData (walk c.req.addr) c.lsaLength =
        peek (lsaWritten history) (c.req.addr.toNat + ·) c.lsaLength := by
      apply peek_congr
      intro i hi
      rw [h.data, Function.comp_apply, walk_of_fits (fits (.inl op)) hi]
    have short : (peek s.lsaData (walk c.req.addr) c.lsaLength).length = c.lsaLength := peek_length _ _ _
    have copied := copyInto_take (Vector.replicate 64 0) (short.trans_le (lsaLength_le c))
    rw [respond_lsaRead op, if_pos (inside_of_served op served), ← bytes]
    rwa [short] at copied

theorem LsaHolds.not_sound (isLsa : c.IsLsa) (wraps : ¬ c.LsaFits) : ¬ LsaSound history s c := by
  intro sound
  rw [Call.LsaFits, Nat.not_lt] at wraps
  have length := lsaLength_le c
  have addr := c.req.addr.toNat_lt
  have ends : c.req.addr + lsaClampSize c.req.size ≤ s.lsaSize := by
    rw [le_iff_toNat_le, lsaEnd_toNat]
    have := h.size
    omega
  have served : (respond s c).status = 0 := by
    rcases isLsa with op | op
    · rw [respond_lsaRead op, if_pos ends]
    · rw [respond_lsaWrite op]
  have last := sound.within isLsa served (c.lsaLength - 1) (by omega)
  have bound := (CxlMemSim.step s c).lsaSize.toNat_lt
  omega

end

theorem lsaHolds_run {mem : Segment} {calls : List Call} (fits : ∀ c ∈ calls, c.IsLsa → c.LsaFits) :
    LsaHolds calls (run (.initial mem) calls) := by
  induction calls using List.reverseRecOn with
  | nil => exact lsaHolds_initial mem
  | append_singleton before c ih =>
    rw [run, foldl_append]
    exact (ih fun c member => fits c (mem_append_left _ member)).step
      (fits c (mem_append_right _ mem_cons_self))

theorem lsa_sound_iff (mem : Segment) (calls : List Call) :
    (∀ before c, before ++ [c] <+: calls → LsaSound before (run (.initial mem) before) c) ↔
      ∀ c ∈ calls, c.IsLsa → c.LsaFits := by
  constructor
  · intro sound
    induction calls using List.reverseRecOn with
    | nil => exact fun c member => absurd member not_mem_nil
    | append_singleton before last ih =>
      have earlier := ih fun before' c isPrefix => sound before' c (isPrefix.trans (prefix_append _ _))
      intro c member
      rcases mem_append.mp member with old | new
      · exact earlier c old
      · obtain rfl := mem_singleton.mp new
        intro isLsa
        by_contra wraps
        exact (lsaHolds_run earlier).not_sound isLsa wraps (sound before c prefix_rfl)
  · rintro fits before c ⟨after, rfl⟩
    rw [append_assoc] at fits
    exact (lsaHolds_run fun c member => fits c (mem_append_left _ member)).sound
      (fits c (mem_append_right _ mem_cons_self))

def wrappingRead : Call :=
  { threadId := 0, req := { opType := .lsaRead, addr := 0xfffffffffffffff8, size := 8, timestamp := 0 } }

def wrappingWrite : Call :=
  { threadId := 0, req := { opType := .lsaWrite, addr := 0xfffffffffffffff8, size := 8, timestamp := 0 } }

theorem lsa_outside_served :
    (respond (.initial fun _ => 0) wrappingRead).status = 0 ∧ (respond (.initial fun _ => 0) wrappingWrite).status = 0 ∧
      (step (.initial fun _ => 0) wrappingWrite).lsaSize = 262144 ∧
      ¬ LsaSound [] (.initial fun _ => 0) wrappingRead ∧ ¬ LsaSound [] (.initial fun _ => 0) wrappingWrite := by
  refine ⟨by decide, by decide, by decide, fun sound => ?_, fun sound => ?_⟩
  · exact absurd (sound.within (.inl rfl) (by decide) 0 (by decide)) (by decide)
  · exact absurd (sound.within (.inr rfl) (by decide) 0 (by decide)) (by decide)

end CxlMemSim
