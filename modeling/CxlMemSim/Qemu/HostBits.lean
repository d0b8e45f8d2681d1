import CxlMemSim.Lib.Run
import CxlMemSim.Qemu.SimpleServer
import Mathlib.Data.Nat.Bitwise

/-! The standalone servers again, now with `sharers_bitmap` and the connections that requests come from. -/
namespace CxlMemSim.Qemu
open Function

structure SharedEntry extends CXLMemoryEntry where
  sharersBitmap : UInt16 := 0

namespace SharedEntry

/-- `(uint16_t)(1 << id)`; what a shift by 32 and more gives is left to the compiler. -/
def hostBit (beyond : UInt8 → UInt16) (id : UInt8) : UInt16 :=
  if id < 32 then UInt16.ofNat (1 <<< id.toNat) else beyond id

variable (beyond : UInt8 → UInt16) (entry : SharedEntry)

def handleCoherencyTransition (requesterId : UInt8) (isWrite : Bool) : SharedEntry :=
  let bit := hostBit beyond requesterId
  if isWrite then
    match entry.cacheState with
    | .invalid | .shared | .exclusive =>
      { entry with cacheState := .modified, ownerId := requesterId, sharersBitmap := bit }
    | .modified =>
      if entry.ownerId ≠ requesterId then { entry with ownerId := requesterId, sharersBitmap := bit } else entry
  else
    match entry.cacheState with
    | .invalid => { entry with cacheState := .exclusive, ownerId := requesterId, sharersBitmap := bit }
    | .exclusive | .modified =>
      if entry.ownerId ≠ requesterId then
        { entry with cacheState := .shared, sharersBitmap := entry.sharersBitmap ||| bit }
      else entry
    | .shared => { entry with sharersBitmap := entry.sharersBitmap ||| bit }

theorem toCXLMemoryEntry_handleCoherencyTransition (id : UInt8) (isWrite : Bool) :
    (entry.handleCoherencyTransition beyond id isWrite).toCXLMemoryEntry =
      Qemu.handleCoherencyTransition entry.toCXLMemoryEntry id isWrite := by
  rw [handleCoherencyTransition, Qemu.handleCoherencyTransition]
  by_cases own : entry.ownerId = id <;> cases isWrite <;> cases entry.cacheState <;> simp [own]

def handleRead (req : Request) : SharedEntry :=
  handleCoherencyTransition beyond { entry with toCXLMemoryEntry := entry.openForRead req.addr } req.hostId false

def handleWrite (req : Request) : SharedEntry :=
  let opened := { entry with toCXLMemoryEntry := entry.openForWrite req.addr }
  let written := handleCoherencyTransition beyond opened req.hostId true
  { written with data := copyLine written.data req.data req.size }

/-- What the bitmap says of a host; it has no bit for hosts from 16 on. -/
def Contains (host : UInt8) : Prop := entry.sharersBitmap.toNat.testBit host.toNat = true
deriving Decidable

/-- What the bitmap should say, given the hosts that have read the line since it was last written. -/
structure Recorded (readers : List UInt8) : Prop where
  single : entry.cacheState = .exclusive ∨ entry.cacheState = .modified →
    ∀ host, entry.Contains host ↔ host = entry.ownerId
  sharing : entry.cacheState = .shared → entry.Contains entry.ownerId ∧ ∀ host ∈ readers, entry.Contains host

end SharedEntry

structure Connection where
  hostId : UInt8
  isRdma : Bool

/-- The server with its clients, and for each address the hosts that have read it since it was last written, which
is not stored anywhere. -/
structure Hosts where
  storage : UInt64 → SharedEntry := fun _ => {}
  nextHostId : UInt8 := 1
  connected : List Connection := []
  readers : UInt64 → List UInt8 := fun _ => []

/-- A client connects, over TCP or with a number of its own over RDMA; the client at a place in the list leaves; or
it sends a request. -/
inductive HostStep where
  | accept
  | rdmaAccept (hostId : UInt8)
  | disconnect (place : Nat)
  | request (place : Nat) (req : Request)

namespace Hosts
variable (beyond : UInt8 → UInt16) (server : Server) (s : Hosts)

/-- `handle_rdma_client` waits for the next client when the last one has left. -/
def takesRdma : Bool :=
  match server with
  | .rdma true => s.connected.all fun client => !client.isRdma
  | _ => false

/-- The loop of `handle_client` and `handle_tcp_client`, or `handle_rdma_message`, for one request of the host. -/
def handle (req : Request) : Hosts :=
  match req.opType with
  | .read =>
    { s with
      storage := update s.storage req.addr ((s.storage req.addr).handleRead beyond req)
      readers := update s.readers req.addr (req.hostId :: s.readers req.addr) }
  | .write =>
    { s with
      storage := update s.storage req.addr ((s.storage req.addr).handleWrite beyond req)
      readers := update s.readers req.addr [] }
  | .other => s

/-- But for the bitmaps, the storage is as `handleClient` leaves it. -/
theorem storage_handle (req : Request) :
    SharedEntry.toCXLMemoryEntry ∘ (s.handle beyond req).storage =
      (handleClient server (SharedEntry.toCXLMemoryEntry ∘ s.storage) req).1 := by
  rw [handle, handleClient]
  cases req.opType with
  | read =>
    dsimp only [handleRead]
    rw [comp_update, SharedEntry.handleRead, SharedEntry.toCXLMemoryEntry_handleCoherencyTransition]
    rfl
  | write =>
    dsimp only [handleWrite]
    rw [comp_update, SharedEntry.handleWrite]
    dsimp only
    rw [SharedEntry.toCXLMemoryEntry_handleCoherencyTransition]
    rfl
  | other => rfl

def step : HostStep → Hosts
  | .accept => { s with connected := s.connected ++ [⟨s.nextHostId, false⟩], nextHostId := s.nextHostId + 1 }
  | .rdmaAccept hostId => if s.takesRdma server then { s with connected := s.connected ++ [⟨hostId, true⟩] } else s
  | .disconnect place => { s with connected := s.connected.eraseIdx place }
  | .request place req =>
    match s.connected[place]? with
    | some client => s.handle beyond { req with hostId := client.hostId }
    | none => s

def DistinctBits (a b : Connection) : Prop := a.hostId < 16 ∧ b.hostId < 16 ∧ a.hostId ≠ b.hostId
deriving Decidable

structure Sound : Prop where
  recorded : ∀ a, (s.storage a).Recorded (s.readers a)
  distinct : s.connected.Pairwise DistinctBits

/-- A client joins if it and the others have bits of their own; a host that reads or writes has a bit. -/
def Guarded : HostStep → Prop
  | .accept => ∀ client ∈ s.connected, DistinctBits client ⟨s.nextHostId, false⟩
  | .rdmaAccept hostId => s.takesRdma server = true → ∀ client ∈ s.connected, DistinctBits client ⟨hostId, true⟩
  | .disconnect _ => True
  | .request place req => req.opType ≠ .other → ∀ client ∈ s.connected[place]?, client.hostId < 16

end Hosts

variable {req : Request}

namespace SharedEntry
variable {beyond : UInt8 → UInt16} {entry : SharedEntry} {id host : UInt8} {readers : List UInt8} {a : UInt64}

theorem toNat_hostBit (small : id < 16) : (hostBit beyond id).toNat = 2 ^ id.toNat := by
  have below : id.toNat < 16 := UInt8.lt_iff_toNat_lt.mp small
  have defined : id < 32 := UInt8.lt_iff_toNat_lt.mpr (Nat.lt_trans below (by decide))
  have fits : 2 ^ id.toNat < 2 ^ 16 := Nat.pow_lt_pow_right (by decide) below
  rw [hostBit, if_pos defined, Nat.one_shiftLeft, UInt16.toNat_ofNat', Nat.mod_eq_of_lt fits]

theorem testBit_hostBit (small : id < 16) : (hostBit beyond id).toNat.testBit host.toNat = true ↔ host = id := by
  rw [toNat_hostBit small, Nat.testBit_two_pow, decide_eq_true_iff, eq_comm, UInt8.toNat_inj]

theorem Contains.small (contains : entry.Contains host) : host < 16 := by
  by_contra large
  have beyond16 : 16 ≤ host.toNat := Nat.le_of_not_lt fun below => large (UInt8.lt_iff_toNat_lt.mpr below)
  have bound : entry.sharersBitmap.toNat < 2 ^ host.toNat :=
    Nat.lt_of_lt_of_le entry.sharersBitmap.toNat_lt (Nat.pow_le_pow_right (by decide) beyond16)
  rw [Contains, Nat.testBit_lt_two_pow bound] at contains
  cases contains

theorem contains_of_bit (small : id < 16) (bitmap : entry.sharersBitmap = hostBit beyond id) (host : UInt8) :
    entry.Contains host ↔ host = id := by
  rw [Contains, bitmap, testBit_hostBit small]

theorem contains_of_or {before : SharedEntry} (small : id < 16)
    (bitmap : entry.sharersBitmap = before.sharersBitmap ||| hostBit beyond id) (host : UInt8) :
    entry.Contains host ↔ before.Contains host ∨ host = id := by
  rw [Contains, bitmap, UInt16.toNat_or, Nat.testBit_or, Bool.or_eq_true, testBit_hostBit small, Contains]

/-- What a transition can do: the host takes the line for itself, keeps what it owns alone, or joins the sharers. -/
inductive Moves (beyond : UInt8 → UInt16) (entry : SharedEntry) (id : UInt8) (isWrite : Bool) : SharedEntry → Prop
  | take (state : CacheState) (alone : state = .exclusive ∨ state = .modified)
      (new : isWrite = false → entry.cacheState = .invalid) :
      Moves beyond entry id isWrite
        { entry with cacheState := state, ownerId := id, sharersBitmap := hostBit beyond id }
  | keep (alone : entry.cacheState = .exclusive ∨ entry.cacheState = .modified) (own : entry.ownerId = id) :
      Moves beyond entry id isWrite entry
  | join (isRead : isWrite = false) (valid : entry.cacheState ≠ .invalid) :
      Moves beyond entry id isWrite
        { entry with cacheState := .shared, sharersBitmap := entry.sharersBitmap ||| hostBit beyond id }

theorem moves (beyond : UInt8 → UInt16) (entry : SharedEntry) (id : UInt8) (isWrite : Bool) :
    Moves beyond entry id isWrite (entry.handleCoherencyTransition beyond id isWrite) := by
  obtain ⟨⟨data, state, owner, addr⟩, bitmap⟩ := entry
  unfold handleCoherencyTransition
  cases isWrite with
  | true =>
    rw [if_pos rfl]
    cases state with
    | invalid | shared | exclusive => exact .take .modified (.inr rfl) nofun
    | modified =>
      dsimp only
      split
      · exact .take .modified (.inr rfl) nofun
      · rename_i own
        exact .keep (.inr rfl) (not_not.mp own)
  | false =>
    rw [if_neg Bool.false_ne_true]
    cases state with
    | invalid => exact .take .exclusive (.inl rfl) fun _ => rfl
    | shared => exact .join rfl nofun
    | exclusive | modified =>
      dsimp only
      split
      · exact .join rfl nofun
      · rename_i own
        exact .keep (by simp) (not_not.mp own)

section Moved
variable {isWrite : Bool} {after : SharedEntry}

variable (moved : Moves beyond entry id isWrite after)
include moved

theorem Moves.physicalAddr_eq : after.physicalAddr = entry.physicalAddr := by
  cases moved <;> rfl

theorem Moves.valid : after.cacheState ≠ .invalid := by
  cases moved with
  | take state alone _ =>
    rcases alone with rfl | rfl
    · exact CacheState.noConfusion
    · exact CacheState.noConfusion
  | keep alone _ =>
    rcases alone with alone | alone <;> rw [alone] <;> exact CacheState.noConfusion
  | join _ _ => exact CacheState.noConfusion

theorem Moves.contains (small : id < 16) (recorded : entry.Recorded readers) : after.Contains id := by
  cases moved with
  | take state _ _ => exact (contains_of_bit small rfl id).mpr rfl
  | keep alone own => exact (recorded.single alone id).mpr own.symm
  | join _ _ => exact (contains_of_or small rfl id).mpr (.inr rfl)

omit moved in
theorem Moves.contains_of_valid (moved : Moves beyond entry id false after) (small : id < 16)
    (valid : entry.cacheState ≠ .invalid) (before : entry.Contains host) : after.Contains host := by
  cases moved with
  | take _ _ new => exact absurd (new rfl) valid
  | keep _ _ => exact before
  | join _ _ => exact (contains_of_or small rfl host).mpr (.inl before)

omit moved in
theorem Recorded.owner (recorded : entry.Recorded readers) (valid : entry.cacheState ≠ .invalid) :
    entry.Contains entry.ownerId := by
  cases state : entry.cacheState with
  | invalid => exact absurd state valid
  | shared => exact (recorded.sharing state).1
  | exclusive => exact (recorded.single (.inl state) _).mpr rfl
  | modified => exact (recorded.single (.inr state) _).mpr rfl

theorem Moves.recorded (small : id < 16) (recorded : entry.Recorded readers) {readers' : List UInt8}
    (known : entry.cacheState ≠ .invalid → isWrite = false → ∀ host ∈ readers', host = id ∨ entry.Contains host) :
    after.Recorded readers' := by
  cases moved with
  | take state alone _ =>
    refine ⟨fun _ => contains_of_bit small rfl, fun sharing => ?_⟩
    rcases alone with rfl | rfl <;> cases sharing
  | keep alone _ =>
    refine ⟨recorded.single, fun sharing => ?_⟩
    rcases alone with alone | alone <;> rw [alone] at sharing <;> cases sharing
  | join isRead valid =>
    have joined (host : UInt8) : Contains
        { entry with cacheState := .shared, sharersBitmap := entry.sharersBitmap ||| hostBit beyond id } host ↔
          entry.Contains host ∨ host = id := contains_of_or small rfl host
    refine ⟨fun alone => ?_, fun _ => ⟨(joined _).mpr (.inl (recorded.owner valid)), fun host member => ?_⟩⟩
    · rcases alone with alone | alone <;> cases alone
    · exact (joined host).mpr (known valid isRead host member).symm

theorem Moves.small (recorded : after.Recorded readers) (reads : isWrite = false → id ∈ readers) : id < 16 := by
  cases moved with
  | take state alone _ => exact Contains.small ((recorded.single alone id).mpr rfl)
  | keep alone own => exact Contains.small ((recorded.single alone id).mpr own.symm)
  | join isRead _ => exact Contains.small ((recorded.sharing rfl).2 id (reads isRead))

end Moved

/-- The entry at an address, with the hosts that have read it. The one at address 0 is taken for new by every request;
it is never shared. -/
structure Tracked (a : UInt64) (entry : SharedEntry) (readers : List UInt8) : Prop where
  addr : entry.physicalAddr = 0 ∨ entry.physicalAddr = a
  recorded : entry.Recorded readers
  used : entry.physicalAddr ≠ 0 → entry.cacheState ≠ .invalid
  fresh : a ≠ 0 → entry.physicalAddr = 0 → readers = []
  known : a ≠ 0 → ∀ host ∈ readers, entry.Contains host

structure Opened (a : UInt64) (entry : SharedEntry) (readers : List UInt8) : Prop where
  addr : entry.physicalAddr = a
  recorded : entry.Recorded readers
  nonzero : entry.cacheState ≠ .invalid → a ≠ 0
  fresh : a ≠ 0 → entry.cacheState = .invalid → readers = []
  known : a ≠ 0 → ∀ host ∈ readers, entry.Contains host

theorem Tracked.opened (tracked : Tracked a entry readers) {opened : SharedEntry}
    (new : entry.physicalAddr = 0 → opened.physicalAddr = a ∧ opened.cacheState = .invalid)
    (old : entry.physicalAddr ≠ 0 → opened = entry) : Opened a opened readers := by
  by_cases zero : entry.physicalAddr = 0
  · obtain ⟨addr, invalid⟩ := new zero
    refine ⟨addr, ⟨fun alone => ?_, fun sharing => ?_⟩, fun valid => absurd invalid valid,
      fun nonzero _ => tracked.fresh nonzero zero, fun nonzero host member => ?_⟩
    · rcases alone with alone | alone <;> rw [invalid] at alone <;> cases alone
    · rw [invalid] at sharing
      cases sharing
    · rw [tracked.fresh nonzero zero] at member
      cases member
  · rw [old zero]
    have addr := tracked.addr.resolve_left zero
    exact ⟨addr, tracked.recorded, fun _ => addr ▸ zero, fun _ invalid => absurd invalid (tracked.used zero),
      tracked.known⟩

theorem Opened.read (opened : Opened a entry readers) (small : id < 16) :
    Tracked a (entry.handleCoherencyTransition beyond id false) (id :: readers) := by
  have moved := moves beyond entry id false
  have addr := moved.physicalAddr_eq.trans opened.addr
  refine ⟨.inr addr, moved.recorded small opened.recorded fun valid _ host member => ?_, fun _ => moved.valid,
    fun nonzero zero => absurd (addr.symm.trans zero) nonzero, fun nonzero host member => ?_⟩
  · exact (List.mem_cons.mp member).imp_right (opened.known (opened.nonzero valid) host)
  · rcases List.mem_cons.mp member with rfl | member
    · exact moved.contains small opened.recorded
    · by_cases invalid : entry.cacheState = .invalid
      · rw [opened.fresh nonzero invalid] at member
        cases member
      · exact moved.contains_of_valid small invalid (opened.known nonzero host member)

theorem Opened.write (opened : Opened a entry readers) (small : id < 16) (data : Line) :
    Tracked a { entry.handleCoherencyTransition beyond id true with data := data } [] := by
  have moved := moves beyond entry id true
  have recorded : (entry.handleCoherencyTransition beyond id true).Recorded [] :=
    moved.recorded small opened.recorded fun _ _ _ member => by cases member
  have addr := moved.physicalAddr_eq.trans opened.addr
  exact ⟨.inr addr, ⟨recorded.single, recorded.sharing⟩, fun _ => moved.valid, fun _ _ => rfl,
    fun _ _ member => by cases member⟩

theorem Tracked.handleRead (tracked : Tracked req.addr entry readers) (small : req.hostId < 16) :
    Tracked req.addr (entry.handleRead beyond req) (req.hostId :: readers) := by
  refine (tracked.opened (fun zero => ?_) fun nonzero => ?_).read small
  · simp only [CXLMemoryEntry.openForRead, if_pos zero, and_self]
  · simp only [CXLMemoryEntry.openForRead, if_neg nonzero]

theorem Tracked.handleWrite (tracked : Tracked req.addr entry readers) (small : req.hostId < 16) :
    Tracked req.addr (entry.handleWrite beyond req) [] := by
  refine (tracked.opened (fun zero => ?_) fun nonzero => ?_).write small _
  · simp only [CXLMemoryEntry.openForWrite, if_pos zero, and_self]
  · simp only [CXLMemoryEntry.openForWrite, if_neg nonzero]

end SharedEntry

namespace Hosts
variable {beyond : UInt8 → UInt16} {server : Server} {s : Hosts}

structure Inv (s : Hosts) : Prop where
  tracked : ∀ a, SharedEntry.Tracked a (s.storage a) (s.readers a)
  distinct : s.connected.Pairwise DistinctBits

theorem Inv.sound (inv : s.Inv) : s.Sound := ⟨fun a => (inv.tracked a).recorded, inv.distinct⟩

theorem inv_start : Inv {} := by
  refine ⟨fun a => ⟨.inl rfl, ⟨fun alone => ?_, fun sharing => ?_⟩, fun used => absurd rfl used, fun _ _ => rfl,
    fun _ _ member => by cases member⟩, List.Pairwise.nil⟩
  · rcases alone with alone | alone <;> cases alone
  · cases sharing

theorem pairwise_join {connected : List Connection} {client : Connection} :
    (connected ++ [client]).Pairwise DistinctBits ↔
      connected.Pairwise DistinctBits ∧ ∀ other ∈ connected, DistinctBits other client := by
  rw [List.pairwise_append, and_iff_right (List.pairwise_singleton _ _)]
  simp only [List.mem_singleton, forall_eq]

theorem Inv.handle (inv : s.Inv) (small : req.opType ≠ .other → req.hostId < 16) : (s.handle beyond req).Inv := by
  unfold Hosts.handle
  cases kind : req.opType with
  | other => exact inv
  | read =>
    refine ⟨fun a => ?_, inv.distinct⟩
    by_cases same : a = req.addr
    · subst same
      simp only [update_self]
      exact (inv.tracked _).handleRead (small (by rw [kind]; decide))
    · simp only [update_of_ne same]
      exact inv.tracked a
  | write =>
    refine ⟨fun a => ?_, inv.distinct⟩
    by_cases same : a = req.addr
    · subst same
      simp only [update_self]
      exact (inv.tracked _).handleWrite (small (by rw [kind]; decide))
    · simp only [update_of_ne same]
      exact inv.tracked a

theorem small_of_handle (sound : (s.handle beyond req).Sound) (access : req.opType ≠ .other) : req.hostId < 16 := by
  have recorded := sound.recorded req.addr
  unfold Hosts.handle at recorded
  cases kind : req.opType with
  | other => exact absurd kind access
  | read =>
    simp only [kind, update_self] at recorded
    exact (SharedEntry.moves _ _ _ _).small recorded fun _ => List.mem_cons_self
  | write =>
    simp only [kind, update_self] at recorded
    exact (SharedEntry.moves _ _ _ _).small ⟨recorded.single, recorded.sharing⟩ nofun

theorem Inv.step (inv : s.Inv) {i : HostStep} (guarded : s.Guarded server i) : (s.step beyond server i).Inv := by
  cases i with
  | accept => exact ⟨inv.tracked, pairwise_join.mpr ⟨inv.distinct, guarded⟩⟩
  | rdmaAccept hostId =>
    rw [Hosts.step]
    split
    · rename_i takes
      exact ⟨inv.tracked, pairwise_join.mpr ⟨inv.distinct, guarded takes⟩⟩
    · exact inv
  | disconnect place => exact ⟨inv.tracked, inv.distinct.eraseIdx place⟩
  | request place req =>
    rw [Hosts.step]
    split
    · rename_i client found
      exact inv.handle fun access => guarded access client found
    · exact inv

theorem guarded_of_sound {i : HostStep} (sound : (s.step beyond server i).Sound) : s.Guarded server i := by
  cases i with
  | accept => exact (pairwise_join.mp sound.distinct).2
  | rdmaAccept hostId =>
    intro takes
    rw [Hosts.step, if_pos takes] at sound
    exact (pairwise_join.mp sound.distinct).2
  | disconnect place => trivial
  | request place req =>
    intro access client found
    rw [Option.mem_def] at found
    rw [Hosts.step, found] at sound
    exact small_of_handle sound access

/-- The bitmaps are right in all states of a run just if every host that reads or writes has a number below 16 and
clients that are connected together have different such numbers. -/
theorem sound_iff (beyond : UInt8 → UInt16) (server : Server) (steps : List HostStep) :
    (∀ before, before <+: steps → (before.foldl (step beyond server) {}).Sound) ↔
      Run.EveryStep (step beyond server) (Guarded server) {} steps := by
  have holds (s : Hosts) (inv : s.Inv) : s.Sound := inv.sound
  refine Run.forall_prefix_iff_of_invariant holds inv_start ?_ ?_
  · intro s i _ inv guarded
    exact inv.step guarded
  · intro s i _ _ sound
    exact guarded_of_sound sound

def comeAndGo (n : Nat) : List HostStep := (List.replicate n [.accept, .disconnect 0]).flatten

theorem foldl_comeAndGo (beyond : UInt8 → UInt16) (server : Server) (n : Nat) :
    (comeAndGo n).foldl (step beyond server) {} = { nextHostId := UInt8.ofNat (1 + n) } := by
  induction n with
  | zero => rfl
  | succ n ih =>
    rw [comeAndGo, List.replicate_succ', List.flatten_append, List.foldl_append, ← comeAndGo, ih,
      ← Nat.add_assoc, UInt8.ofNat_add (1 + n)]
    rfl

def sixteenthReads : List HostStep :=
  comeAndGo 15 ++ [.accept, .request 0 { opType := .read, addr := 0x40, size := 8 }]

theorem not_sound_of_sixteenth (beyond : UInt8 → UInt16) (server : Server) :
    ¬ (sixteenthReads.foldl (step beyond server) {}).Sound := by
  intro sound
  rw [sixteenthReads, List.foldl_append, foldl_comeAndGo] at sound
  have contains := ((sound.recorded 0x40).single (.inl rfl) 16).mpr rfl
  exact absurd contains.small (by decide)

/-- It owns the line alone and is not in the bitmap, in both servers. -/
theorem not_sound_sixteenthReads :
    ¬ (sixteenthReads.foldl (step (fun _ => 0) .simple) {}).Sound ∧
      ¬ (sixteenthReads.foldl (step (fun _ => 0) (.rdma true)) {}).Sound :=
  ⟨not_sound_of_sixteenth _ _, not_sound_of_sixteenth _ _⟩

end Hosts
end CxlMemSim.Qemu
