import CxlMemSim.Endpoint.Topology
import CxlMemSim.Endpoint.TopoString

/-! `CXLController::construct_topo` builds the tree of switches, which are pointed to by their path in the tree. -/
namespace CxlMemSim.Endpoint
open Function CXLSwitch

namespace CXLSwitch

abbrev Path := List Nat

def pushExpander (r : Ref) : CXLSwitch → CXLSwitch
  | .mk expanders switches => .mk (expanders ++ [r]) switches

def pushSwitch (child : CXLSwitch) : CXLSwitch → CXLSwitch
  | .mk expanders switches => .mk expanders (switches ++ [child])

def modifyAt (f : CXLSwitch → CXLSwitch) : Path → CXLSwitch → CXLSwitch
  | [], sw => f sw
  | i :: path, .mk expanders switches => .mk expanders (switches.modify i (modifyAt f path))

def at? : Path → CXLSwitch → Option CXLSwitch
  | [], sw => some sw
  | i :: path, .mk _ switches => switches[i]?.bind (at? path)

end CXLSwitch

namespace Topo
open CXLSwitch (Path)

structure RemoteExpander where
  ref : Ref
  node : UInt32
  range : RemoteRange

structure Parser where
  tree : CXLSwitch := .mk [] []
  stack : List Path := [[]]
  numSwitches : Nat := 0
  numEndPoints : Nat := 0
  deviceMap : Nat → Option Ref := fun _ => none
  remoteExpanders : List RemoteExpander := []
  nextRef : Ref

def increment (count : Nat) : Except Fault Nat := if count < 2 ^ 31 - 1 then .ok (count + 1) else .error .undefined

namespace Parser
variable (s : Parser)

def top : Except Fault Path :=
  match s.stack with
  | path :: _ => .ok path
  | [] => .error .undefined

def addRemoteEndpoint (node : UInt32) (base capacity : UInt64) : Except Fault (Ref × Parser) := do
  let remoteId := s.numEndPoints
  let numEndPoints ← increment s.numEndPoints
  let remote := s.nextRef
  return (remote, { s with
    tree := s.tree.pushExpander remote
    numEndPoints
    deviceMap := update s.deviceMap remoteId (some remote)
    remoteExpanders := s.remoteExpanders ++ [⟨remote, node, ⟨base, capacity⟩⟩]
    nextRef := s.nextRef + 1 })

def step (curExpanders : List Ref) : Piece → Except Fault Parser
  | .openGroup => do
      let numSwitches ← increment s.numSwitches
      if s.numSwitches = 0 then return { s with numSwitches }
      else
        let path ← s.top
        let place := ((s.tree.at? path).map fun sw => sw.switches.length).getD 0
        return { s with
          tree := s.tree.modifyAt (pushSwitch (.mk [] [])) path
          stack := (path ++ [place]) :: s.stack
          numSwitches }
  | .closeGroup =>
    match s.stack with
    | _ :: rest => return { s with stack := rest }
    | [] => throw (.invalidArgument "Unbalanced number of parentheses")
  | .separator => return s
  | .remote text => do
      let node := (← atoi text)
      let capacity : UInt64 := 1024 * 1024 * 1024
      let remoteNode := UInt32.ofInt node
      let (remote, s) ← s.addRemoteEndpoint remoteNode (remoteNode.toUInt64 * capacity) capacity
      let path ← s.top
      return { s with tree := s.tree.modifyAt (pushExpander remote) path }
  | .leaf token => do
      let path ← s.top
      let number ← atoi token
      -- the index is converted to `size_t`: zero and negative numbers are far out of bounds
      if 1 ≤ number ∧ number ≤ curExpanders.length then
        let expander := curExpanders.getD (number - 1).toNat 0
        let numEndPoints ← increment s.numEndPoints
        return { s with
          tree := s.tree.modifyAt (pushExpander expander) path
          deviceMap := update s.deviceMap s.numEndPoints (some expander)
          numEndPoints }
      else throw .undefined

def run (curExpanders : List Ref) (pieces : List Piece) : Except Fault Parser :=
  pieces.foldlM (fun s piece => s.step curExpanders piece) s

end Parser

def freshRef (refs : List Ref) : Ref := refs.foldr max 0 + 1

/-- `construct_topo` on a new controller into which these end points have been inserted. -/
def constructTopo (curExpanders : List Ref) (newickTree : List Char) : Except Fault Parser :=
  Parser.run { nextRef := freshRef curExpanders } curExpanders (pieces newickTree)

end Topo

variable {path : CXLSwitch.Path} {sw node : CXLSwitch} {lead : List Piece}

namespace CXLSwitch

def attach (refs : List Ref) (children : List CXLSwitch) : CXLSwitch → CXLSwitch
  | .mk expanders switches => .mk (expanders ++ refs) (switches ++ children)

theorem pushExpander_eq (r : Ref) : pushExpander r = attach [r] [] := by
  funext sw
  cases sw with
  | mk expanders switches => rw [pushExpander, attach, List.append_nil]

theorem pushSwitch_eq (child : CXLSwitch) : pushSwitch child = attach [] [child] := by
  funext sw
  cases sw with
  | mk expanders switches => rw [pushSwitch, attach, List.append_nil]

theorem attach_attach (first second : List Ref) (below beside : List CXLSwitch) (sw : CXLSwitch) :
    attach second beside (attach first below sw) = attach (first ++ second) (below ++ beside) sw := by
  cases sw with
  | mk expanders switches => simp only [attach, List.append_assoc]

theorem attach_nil (sw : CXLSwitch) : attach [] [] sw = sw := by
  cases sw with
  | mk expanders switches => simp only [attach, List.append_nil]

theorem modifyAt_modifyAt (f g : CXLSwitch → CXLSwitch) (path : Path) (sw : CXLSwitch) :
    modifyAt g path (modifyAt f path sw) = modifyAt (g ∘ f) path sw := by
  induction path generalizing sw with
  | nil => rfl
  | cons i path ih =>
    cases sw with
    | mk expanders switches =>
      simp only [modifyAt, List.modify_modify_eq]
      congr 2
      exact funext ih

theorem modifyAt_attach_attach (first second : List Ref) (below beside : List CXLSwitch) (path : Path)
    (sw : CXLSwitch) :
    modifyAt (attach second beside) path (modifyAt (attach first below) path sw) =
      modifyAt (attach (first ++ second) (below ++ beside)) path sw := by
  rw [modifyAt_modifyAt]
  congr 1
  exact funext fun sw => attach_attach first second below beside sw

theorem modifyAt_nothing (path : Path) (sw : CXLSwitch) : modifyAt (attach [] []) path sw = sw := by
  induction path generalizing sw with
  | nil => exact attach_nil sw
  | cons i path ih =>
    cases sw with
    | mk expanders switches =>
      have same : modifyAt (attach [] []) path = id := funext ih
      rw [modifyAt, same, List.modify_id]

theorem at?_modifyAt (f : CXLSwitch → CXLSwitch) (path : Path) (sw : CXLSwitch) :
    (modifyAt f path sw).at? path = (sw.at? path).map f := by
  induction path generalizing sw with
  | nil => rfl
  | cons i path ih =>
    cases sw with
    | mk expanders switches =>
      simp only [modifyAt, at?, List.getElem?_modify_eq]
      cases switches[i]? with
      | none => rfl
      | some child => exact ih child

theorem modifyAt_attach (f : CXLSwitch → CXLSwitch) (below : path ≠ []) (refs : List Ref)
    (sw : CXLSwitch) : modifyAt f path (attach refs [] sw) = attach refs [] (modifyAt f path sw) := by
  cases path with
  | nil => exact absurd rfl below
  | cons i path =>
    cases sw with
    | mk expanders switches => simp only [modifyAt, attach, List.append_nil]

theorem modifyAt_child (f : CXLSwitch → CXLSwitch) (found : sw.at? path = some node) (child : CXLSwitch) :
    modifyAt f (path ++ [node.switches.length]) (modifyAt (attach [] [child]) path sw) =
      modifyAt (attach [] [f child]) path sw := by
  induction path generalizing sw with
  | nil =>
    obtain rfl := Option.some.inj found
    cases sw with
    | mk expanders switches => simp [modifyAt, attach, CXLSwitch.switches, List.modify_eq_take_drop]
  | cons i path ih =>
    cases sw with
    | mk expanders switches =>
      rw [at?] at found
      obtain ⟨next, here, found⟩ := Option.bind_eq_some_iff.mp found
      simp only [modifyAt, List.cons_append, List.modify_modify_eq]
      simp only [List.modify_eq_set_getElem?, here, comp_apply, Option.map_eq_map, Option.map_some,
        Option.getD_some, ih found]

theorem at?_child (found : sw.at? path = some node) (child : CXLSwitch) :
    (modifyAt (attach [] [child]) path sw).at? (path ++ [node.switches.length]) = some child := by
  induction path generalizing sw with
  | nil =>
    obtain rfl := Option.some.inj found
    cases sw with
    | mk expanders switches => simp [modifyAt, attach, at?, CXLSwitch.switches]
  | cons i path ih =>
    cases sw with
    | mk expanders switches =>
      rw [at?] at found
      obtain ⟨next, here, found⟩ := Option.bind_eq_some_iff.mp found
      simp only [modifyAt, List.cons_append, at?, List.getElem?_modify_eq, here, Option.map_eq_map,
        Option.map_some, Option.bind_some, ih found]

theorem at?_attach (found : sw.at? path = some node) (refs : List Ref) :
    ∃ node', (attach refs [] sw).at? path = some node' ∧ node'.switches = node.switches := by
  cases sw with
  | mk expanders switches =>
    cases path with
    | nil =>
      cases found
      exact ⟨_, rfl, List.append_nil switches⟩
    | cons i path =>
      refine ⟨node, ?_, rfl⟩
      rw [attach, List.append_nil]
      exact found

theorem attach_modifyAt_child (refs : List Ref) (child : CXLSwitch) (path : Path) (sw : CXLSwitch) :
    attach refs [] (modifyAt (attach [] [child]) path sw) = modifyAt (attach [] [child]) path (attach refs [] sw) := by
  cases path with
  | nil =>
    simp only [modifyAt, attach_attach, List.append_nil, List.nil_append]
  | cons i path => exact (modifyAt_attach _ (List.cons_ne_nil i path) refs sw).symm

end CXLSwitch

namespace Topo.Items
open CXLSwitch (Path)

def remotes : Items → Nat
  | .nil => 0
  | .leaf _ rest => rest.remotes
  | .remote _ _ rest => rest.remotes + 1
  | .group inner rest => inner.remotes + rest.remotes

def ends : Items → Nat
  | .nil => 0
  | .leaf _ rest => rest.ends + 1
  | .remote _ _ rest => rest.ends + 1
  | .group inner rest => inner.ends + rest.ends

def groups : Items → Nat
  | .nil => 0
  | .leaf _ rest => rest.groups
  | .remote _ _ rest => rest.groups
  | .group inner rest => inner.groups + rest.groups + 1

def Valid (n : Nat) : Items → Prop
  | .nil => True
  | .leaf number rest => (1 ≤ number.value ∧ number.value ≤ n) ∧ rest.Valid n
  | .remote _ _ rest => rest.Valid n
  | .group inner rest => inner.Valid n ∧ rest.Valid n

def Ints : Items → Prop
  | .nil => True
  | .leaf number rest => number.value < 2 ^ 31 ∧ rest.Ints
  | .remote node _ rest => node.value < 2 ^ 31 ∧ rest.Ints
  | .group inner rest => inner.Ints ∧ rest.Ints

section Denotes
variable (curExpanders : List Ref)

def leafRef (number : Numeral) : Ref := curExpanders.getD (number.value - 1) 0

/-- The expanders of a group in order; its remote leaves are new ones, counted on from `next`. -/
def expanders : Ref → Items → List Ref
  | _, .nil => []
  | next, .leaf number rest => leafRef curExpanders number :: rest.expanders next
  | next, .remote _ _ rest => next :: rest.expanders (next + 1)
  | next, .group inner rest => rest.expanders (next + inner.remotes)

def switches : Ref → Items → List CXLSwitch
  | _, .nil => []
  | next, .leaf _ rest => rest.switches next
  | next, .remote _ _ rest => rest.switches (next + 1)
  | next, .group inner rest =>
    .mk (inner.expanders curExpanders next) (inner.switches next) :: rest.switches (next + inner.remotes)

def tree (next : Ref) (items : Items) : CXLSwitch :=
  .mk (items.expanders curExpanders next) (items.switches curExpanders next)

/-- The expanders that the controller gets: its remote leaves twice, and those of all groups below. -/
def rootExpanders : Ref → Items → List Ref
  | _, .nil => []
  | next, .leaf number rest => leafRef curExpanders number :: rest.rootExpanders next
  | next, .remote _ _ rest => next :: next :: rest.rootExpanders (next + 1)
  | next, .group inner rest => List.range' next inner.remotes ++ rest.rootExpanders (next + inner.remotes)

def grow (path : Path) : Ref → Items → CXLSwitch → CXLSwitch
  | _, .nil, sw => sw
  | next, .leaf number rest, sw =>
    rest.grow path next (sw.modifyAt (attach [leafRef curExpanders number] []) path)
  | next, .remote _ _ rest, sw =>
    rest.grow path (next + 1) ((sw.attach [next] []).modifyAt (attach [next] []) path)
  | next, .group inner rest, sw =>
    rest.grow path (next + inner.remotes)
      ((sw.attach (List.range' next inner.remotes) []).modifyAt
        (attach [] [inner.tree curExpanders next]) path)

/-- Below the controller each group is built as it is denoted, and the controller gets the remote leaves as well. -/
theorem grow_below (items : Items) (below : path ≠ []) (next : Ref) (sw : CXLSwitch) :
    items.grow curExpanders path next sw =
      (sw.attach (List.range' next items.remotes) []).modifyAt
        (attach (items.expanders curExpanders next) (items.switches curExpanders next)) path := by
  induction items generalizing next sw with
  | nil =>
    rw [grow, expanders, switches, remotes, List.range'_zero, attach_nil, modifyAt_nothing]
  | leaf number rest ih =>
    rw [grow, ih, ← modifyAt_attach _ below, modifyAt_attach_attach]
    rfl
  | remote node id rest ih =>
    rw [grow, ih, ← modifyAt_attach _ below, modifyAt_attach_attach, attach_attach, remotes, List.range'_succ]
    rfl
  | group inner rest _ ih =>
    rw [grow, ih, ← modifyAt_attach _ below, modifyAt_attach_attach, attach_attach,
      List.append_nil, remotes, List.range'_append_1]
    rfl

theorem grow_root (items : Items) (next : Ref) (sw : CXLSwitch) :
    items.grow curExpanders [] next sw =
      sw.attach (items.rootExpanders curExpanders next) (items.switches curExpanders next) := by
  induction items generalizing next sw with
  | nil => exact (attach_nil sw).symm
  | leaf number rest ih =>
    rw [grow, ih, modifyAt, attach_attach]
    rfl
  | remote node id rest ih =>
    rw [grow, ih, modifyAt, attach_attach, attach_attach]
    rfl
  | group inner rest _ ih =>
    rw [grow, ih, modifyAt, attach_attach, attach_attach]
    rfl

end Denotes
end Topo.Items

namespace Topo.Parser
open CXLSwitch (Path)
variable {curExpanders : List Ref} {s : Parser} {path : Path} {stack : List Path} {lead : List Piece}

theorem run_cons (piece : Piece) (pieces : List Piece) :
    s.run curExpanders (piece :: pieces) = (s.step curExpanders piece).bind fun s => s.run curExpanders pieces :=
  List.foldlM_cons

theorem run_append (first second : List Piece) :
    s.run curExpanders (first ++ second) = (s.run curExpanders first).bind fun s => s.run curExpanders second :=
  List.foldlM_append

def withLeaf (s : Parser) (path : Path) (r : Ref) : Parser :=
  { s with
    tree := s.tree.modifyAt (pushExpander r) path
    deviceMap := update s.deviceMap s.numEndPoints (some r)
    numEndPoints := s.numEndPoints + 1 }

theorem step_leaf (top : s.stack = path :: stack) {number : Numeral} (low : 1 ≤ number.value)
    (high : number.value ≤ curExpanders.length) :
    s.step curExpanders (.leaf number.digits) =
      if number.value < 2 ^ 31 ∧ s.numEndPoints < 2 ^ 31 - 1 then
        .ok (s.withLeaf path (Items.leafRef curExpanders number))
      else .error .undefined := by
  have inside : (1 : Int) ≤ number.value ∧ (number.value : Int) ≤ curExpanders.length := by omega
  have index : ((number.value : Int) - 1).toNat = number.value - 1 := by omega
  have isTop : s.top = .ok path := by rw [Parser.top, top]
  rw [step, isTop, atoi_numeral, ite_and]
  split
  · simp only [bind, Except.bind, if_pos inside, increment, index]
    split_ifs <;> rfl
  · rfl

def withRemote (s : Parser) (node : Nat) : Parser :=
  let remoteNode := UInt32.ofInt node
  { s with
    tree := s.tree.pushExpander s.nextRef
    remoteExpanders := s.remoteExpanders ++
      [⟨s.nextRef, remoteNode, remoteNode.toUInt64 * (1024 * 1024 * 1024), 1024 * 1024 * 1024⟩]
    nextRef := s.nextRef + 1 }

theorem step_remote (top : s.stack = path :: stack) (node : Numeral) :
    s.step curExpanders (.remote node.digits) =
      if node.value < 2 ^ 31 ∧ s.numEndPoints < 2 ^ 31 - 1 then
        .ok ((s.withRemote node.value).withLeaf path s.nextRef)
      else .error .undefined := by
  rw [step, atoi_numeral, ite_and]
  split
  · simp only [bind, Except.bind, addRemoteEndpoint, increment, Parser.top]
    split_ifs
    · simp only [pure, Except.pure, top, withLeaf, withRemote]
    · rfl
  · rfl

def withGroup (s : Parser) (path : Path) (place : Nat) : Parser :=
  { s with
    tree := s.tree.modifyAt (pushSwitch (.mk [] [])) path
    stack := (path ++ [place]) :: s.stack
    numSwitches := s.numSwitches + 1 }

variable {node : CXLSwitch}

theorem step_open (top : s.stack = path :: stack) (inside : s.numSwitches ≠ 0) (found : s.tree.at? path = some node) :
    s.step curExpanders .openGroup =
      if s.numSwitches < 2 ^ 31 - 1 then .ok (s.withGroup path node.switches.length) else .error .undefined := by
  rw [step, increment]
  split_ifs
  · simp only [bind, Except.bind, Parser.top, top, found, Option.map_some, Option.getD_some, withGroup]
    rfl
  · rfl

theorem step_close (top : s.stack = path :: stack) :
    s.step curExpanders .closeGroup = .ok { s with stack := stack } := by
  rw [step, top]
  rfl

theorem run_lead (separators : ∀ piece ∈ lead, piece = .separator) (pieces : List Piece) :
    s.run curExpanders (lead ++ pieces) = s.run curExpanders pieces := by
  induction lead with
  | nil => rfl
  | cons piece lead ih =>
    rw [List.cons_append, run_cons, separators piece List.mem_cons_self]
    exact ih fun piece member => separators piece (List.mem_cons_of_mem _ member)

structure Fits (s : Parser) (items : Items) : Prop where
  ends : s.numEndPoints + items.ends < 2 ^ 31
  groups : s.numSwitches + items.groups < 2 ^ 31
  ints : items.Ints

structure Reads (curExpanders : List Ref) (path : Path) (items : Items) (s s' : Parser) : Prop where
  tree : s'.tree = items.grow curExpanders path s.nextRef s.tree
  stack : s'.stack = s.stack
  numSwitches : s'.numSwitches = s.numSwitches + items.groups
  numEndPoints : s'.numEndPoints = s.numEndPoints + items.ends
  remotes : s'.remoteExpanders.map RemoteExpander.ref =
    s.remoteExpanders.map RemoteExpander.ref ++ List.range' s.nextRef items.remotes
  nextRef : s'.nextRef = s.nextRef + items.remotes

structure At (path : Path) (stack : List Path) (s : Parser) : Prop where
  top : s.stack = path :: stack
  found : ∃ node, s.tree.at? path = some node
  inside : s.numSwitches ≠ 0

section Places
variable (here : s.At path stack)
include here

theorem At.leaf (r : Ref) : At path stack (s.withLeaf path r) := by
  obtain ⟨top, ⟨node, found⟩, inside⟩ := here
  refine ⟨top, ⟨node.pushExpander r, ?_⟩, inside⟩
  rw [withLeaf, at?_modifyAt, found, Option.map_some]

theorem At.remote (number : Nat) : At path stack (s.withRemote number) := by
  obtain ⟨top, ⟨node, found⟩, inside⟩ := here
  obtain ⟨node', found', -⟩ := at?_attach found [s.nextRef]
  refine ⟨top, ⟨node', ?_⟩, inside⟩
  rw [withRemote, pushExpander_eq, found']

theorem At.open (found : s.tree.at? path = some node) :
    At (path ++ [node.switches.length]) (path :: stack) (s.withGroup path node.switches.length) := by
  refine ⟨?_, ⟨.mk [] [], ?_⟩, Nat.succ_ne_zero _⟩
  · rw [withGroup, here.top]
  · rw [withGroup, pushSwitch_eq]
    exact at?_child found _

end Places

theorem grow_inner {sw : CXLSwitch} (found : sw.at? path = some node) (inner : Items) (next : Ref) :
    inner.grow curExpanders (path ++ [node.switches.length]) next
        (sw.modifyAt (pushSwitch (.mk [] [])) path) =
      (sw.attach (List.range' next inner.remotes) []).modifyAt
        (attach [] [inner.tree curExpanders next]) path := by
  obtain ⟨node', found', same⟩ := at?_attach found (List.range' next inner.remotes)
  rw [Items.grow_below curExpanders inner (by simp), pushSwitch_eq, attach_modifyAt_child, ← same,
    modifyAt_child _ found']
  rfl

section Group
variable {node : CXLSwitch} {inner : Items} {read : Parser}
  (reads : Reads curExpanders (path ++ [node.switches.length]) inner (s.withGroup path node.switches.length) read)
include reads

theorem Reads.tree_inner (found : s.tree.at? path = some node) :
    read.tree = (s.tree.attach (List.range' s.nextRef inner.remotes) []).modifyAt
      (attach [] [inner.tree curExpanders s.nextRef]) path :=
  reads.tree.trans (grow_inner found inner s.nextRef)

theorem Reads.at_close (stack : List Path) (found : s.tree.at? path = some node) :
    At path stack { read with stack := path :: stack } := by
  obtain ⟨node', found', -⟩ := at?_attach found (List.range' s.nextRef inner.remotes)
  refine ⟨rfl, ⟨node'.attach [] [inner.tree curExpanders s.nextRef], ?_⟩, ?_⟩
  · dsimp only
    rw [reads.tree_inner found, at?_modifyAt, found', Option.map_some]
  · simp only [reads.numSwitches, withGroup]
    omega

theorem Reads.stack_inner (here : s.At path stack) :
    read.stack = (path ++ [node.switches.length]) :: path :: stack := by
  rw [reads.stack, withGroup, here.top]

end Group

section Members
variable {number node id : Numeral} {inner rest : Items} {s' read : Parser}

theorem fits_end_iff {items : Items} {value : Nat} (ends : items.ends = rest.ends + 1)
    (groups : items.groups = rest.groups) (ints : items.Ints ↔ value < 2 ^ 31 ∧ rest.Ints)
    (ends' : s'.numEndPoints = s.numEndPoints + 1) (groups' : s'.numSwitches = s.numSwitches) :
    s.Fits items ↔ (value < 2 ^ 31 ∧ s.numEndPoints < 2 ^ 31 - 1) ∧ s'.Fits rest := by
  constructor
  · rintro ⟨many, nested, numbers⟩
    obtain ⟨int, numbers⟩ := ints.mp numbers
    exact ⟨⟨int, by omega⟩, by omega, by omega, numbers⟩
  · rintro ⟨⟨int, _⟩, many, nested, numbers⟩
    exact ⟨by omega, by omega, ints.mpr ⟨int, numbers⟩⟩

theorem Fits.opened (fits : s.Fits (.group inner rest)) (path : Path) (place : Nat) :
    s.numSwitches < 2 ^ 31 - 1 ∧ (s.withGroup path place).Fits inner := by
  obtain ⟨ends, groups, ints⟩ := fits
  simp only [Items.ends, Items.groups] at ends groups
  refine ⟨by omega, ?_, ?_, ints.1⟩
  · simp only [withGroup]
    omega
  · simp only [withGroup]
    omega

theorem fits_group_iff (stack : List Path) {place : Nat} {inside : Path}
    (reads : Reads curExpanders inside inner (s.withGroup path place) read)
    (innerFits : (s.withGroup path place).Fits inner) :
    s.Fits (.group inner rest) ↔ Fits { read with stack := path :: stack } rest := by
  have ends' := reads.numEndPoints
  have groups' := reads.numSwitches
  simp only [withGroup] at ends' groups'
  constructor
  · rintro ⟨ends, groups, ints⟩
    simp only [Items.ends, Items.groups] at ends groups
    exact ⟨by simp only; omega, by simp only; omega, ints.2⟩
  · rintro ⟨ends, groups, ints⟩
    simp only at ends groups
    refine ⟨?_, ?_, innerFits.ints, ints⟩
    · simp only [Items.ends]
      omega
    · simp only [Items.groups]
      omega

theorem Reads.leaf (reads : Reads curExpanders path rest (s.withLeaf path (Items.leafRef curExpanders number)) s') :
    Reads curExpanders path (.leaf number rest) s s' := by
  refine ⟨?_, reads.stack, reads.numSwitches, ?_, reads.remotes, reads.nextRef⟩
  · rw [reads.tree, withLeaf, Items.grow, pushExpander_eq]
  · simp only [reads.numEndPoints, withLeaf, Items.ends]
    omega

theorem Reads.remote (reads : Reads curExpanders path rest ((s.withRemote node.value).withLeaf path s.nextRef) s') :
    Reads curExpanders path (.remote node id rest) s s' := by
  refine ⟨?_, reads.stack, reads.numSwitches, ?_, ?_, ?_⟩
  · rw [reads.tree, withLeaf, withRemote, Items.grow, pushExpander_eq]
  · simp only [reads.numEndPoints, withLeaf, withRemote, Items.ends]
    omega
  · rw [reads.remotes, withLeaf, withRemote, Items.remotes, List.range'_succ, List.map_append, List.append_assoc]
    rfl
  · exact reads.nextRef.trans (Nat.succ_add_eq_add_succ s.nextRef rest.remotes)

theorem Reads.group (here : s.At path stack) {found : CXLSwitch} (isFound : s.tree.at? path = some found)
    (readsInner : Reads curExpanders (path ++ [found.switches.length]) inner
      (s.withGroup path found.switches.length) read)
    (reads : Reads curExpanders path rest { read with stack := path :: stack } s') :
    Reads curExpanders path (.group inner rest) s s' := by
  have next : read.nextRef = s.nextRef + inner.remotes := readsInner.nextRef
  refine ⟨?_, reads.stack.trans here.top.symm, ?_, ?_, ?_, ?_⟩
  · rw [reads.tree, Items.grow, ← readsInner.tree_inner isFound, ← next]
  · simp only [reads.numSwitches, readsInner.numSwitches, withGroup, Items.groups]
    omega
  · simp only [reads.numEndPoints, readsInner.numEndPoints, withGroup, Items.ends]
    omega
  · rw [reads.remotes, readsInner.remotes, next, withGroup, Items.remotes, List.append_assoc, List.range'_append_1]
  · rw [reads.nextRef, next, Items.remotes, Nat.add_assoc]

end Members

theorem comma_separators : ∀ piece ∈ [Piece.separator], piece = .separator :=
  fun _ member => List.mem_singleton.mp member

theorem no_separators : ∀ piece ∈ ([] : List Piece), piece = .separator := fun _ member => by cases member

theorem run_group (separators : ∀ piece ∈ lead, piece = .separator) (inner rest : Items) :
    s.run curExpanders ((Items.group inner rest).pieces lead) =
      (s.step curExpanders .openGroup).bind fun s => (s.run curExpanders (inner.pieces [])).bind fun s =>
        (s.step curExpanders .closeGroup).bind fun s => s.run curExpanders (rest.pieces [.separator]) := by
  rw [Items.pieces, List.append_assoc, run_lead separators, List.cons_append, run_cons]
  congr 1
  funext s
  rw [run_append]
  rfl

/-- The members of a group are read as they are written, as far as the counters go; where they do not, something is
done that is not defined. -/
theorem run_items (items : Items) (separators : ∀ piece ∈ lead, piece = .separator)
    (valid : items.Valid curExpanders.length) (here : s.At path stack) (ends : s.numEndPoints < 2 ^ 31)
    (groups : s.numSwitches < 2 ^ 31) :
    (s.Fits items ∧ ∃ s', s.run curExpanders (items.pieces lead) = .ok s' ∧ Reads curExpanders path items s s') ∨
      ¬ s.Fits items ∧ s.run curExpanders (items.pieces lead) = .error .undefined := by
  induction items generalizing s path stack lead with
  | nil => exact .inl ⟨⟨ends, groups, trivial⟩, s, rfl, rfl, rfl, rfl, rfl, (List.append_nil _).symm, rfl⟩
  | leaf number rest ih =>
    have fits : s.Fits (.leaf number rest) ↔ (number.value < 2 ^ 31 ∧ s.numEndPoints < 2 ^ 31 - 1) ∧
        (s.withLeaf path (Items.leafRef curExpanders number)).Fits rest := fits_end_iff rfl rfl Iff.rfl rfl rfl
    rw [Items.pieces, run_lead separators, run_cons, step_leaf here.top valid.1.1 valid.1.2, fits]
    split
    · rename_i room
      have later := ih comma_separators valid.2 (here.leaf (Items.leafRef curExpanders number))
        (Nat.add_lt_of_lt_sub room.2) groups
      refine later.imp ?_ ?_
      · rintro ⟨left, s', run, reads⟩
        exact ⟨⟨room, left⟩, s', run, reads.leaf⟩
      · rintro ⟨tooMany, run⟩
        exact ⟨fun fits => tooMany fits.2, run⟩
    · rename_i full
      exact .inr ⟨fun fits => full fits.1, rfl⟩
  | remote node id rest ih =>
    have fits : s.Fits (.remote node id rest) ↔ (node.value < 2 ^ 31 ∧ s.numEndPoints < 2 ^ 31 - 1) ∧
        ((s.withRemote node.value).withLeaf path s.nextRef).Fits rest := fits_end_iff rfl rfl Iff.rfl rfl rfl
    rw [Items.pieces, run_lead separators, run_cons, step_remote here.top, fits]
    split
    · rename_i room
      have later := ih comma_separators valid ((here.remote node.value).leaf s.nextRef)
        (Nat.add_lt_of_lt_sub room.2) groups
      refine later.imp ?_ ?_
      · rintro ⟨left, s', run, reads⟩
        exact ⟨⟨room, left⟩, s', run, reads.remote⟩
      · rintro ⟨tooMany, run⟩
        exact ⟨fun fits => tooMany fits.2, run⟩
    · rename_i full
      exact .inr ⟨fun fits => full fits.1, rfl⟩
  | group inner rest ihInner ih =>
    obtain ⟨node, found⟩ := here.found
    rw [run_group separators, step_open here.top here.inside found]
    split
    · rename_i room
      rw [Except.bind]
      rcases ihInner no_separators valid.1 (here.open found) ends (Nat.add_lt_of_lt_sub room) with
        ⟨innerFits, read, runInner, readsInner⟩ | ⟨tooMany, overflow⟩
      · rw [runInner, Except.bind, step_close (readsInner.stack_inner here),
          fits_group_iff stack readsInner innerFits]
        refine (ih comma_separators valid.2 (readsInner.at_close stack found) ?_ ?_).imp_left ?_
        · exact readsInner.numEndPoints.trans_lt innerFits.ends
        · exact readsInner.numSwitches.trans_lt innerFits.groups
        · rintro ⟨left, s', run, reads⟩
          exact ⟨left, s', run, Reads.group here found readsInner reads⟩
      · rw [overflow]
        exact .inr ⟨fun fits => tooMany (fits.opened path _).2, rfl⟩
    · rename_i full
      exact .inr ⟨fun fits => full (fits.opened path 0).1, rfl⟩

end Topo.Parser
end CxlMemSim.Endpoint
