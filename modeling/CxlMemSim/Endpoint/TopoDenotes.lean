import CxlMemSim.Endpoint.TopoBuilder
import Mathlib.Data.List.Nodup

/-! What `construct_topo` builds from a string of the grammar, compared with the tree that the string denotes. -/
namespace CxlMemSim.Endpoint.Topo
open List
open CXLSwitch (Path)

namespace Items

structure InRange (items : Items) : Prop where
  ends : items.ends < 2 ^ 31
  groups : items.groups + 1 < 2 ^ 31
  ints : items.Ints

end Items

variable {curExpanders : List Ref} {items : Items} {r : Ref}

def opened (curExpanders : List Ref) : Parser := { nextRef := freshRef curExpanders, numSwitches := 1 }

theorem at_opened (curExpanders : List Ref) : (opened curExpanders).At [] [] :=
  ⟨rfl, ⟨.mk [] [], rfl⟩, Nat.one_ne_zero⟩

theorem fits_opened_iff : (opened curExpanders).Fits items ↔ items.InRange := by
  have ends : (opened curExpanders).numEndPoints + items.ends = items.ends := Nat.zero_add _
  have groups : (opened curExpanders).numSwitches + items.groups = items.groups + 1 := Nat.add_comm _ _
  constructor
  · intro fits
    exact ⟨ends ▸ fits.ends, groups ▸ fits.groups, fits.ints⟩
  · intro range
    exact ⟨ends.symm ▸ range.ends, groups.symm ▸ range.groups, range.ints⟩

section
variable (valid : items.Valid curExpanders.length)
include valid

theorem run_opened : (items.InRange ∧ ∃ s, (opened curExpanders).run curExpanders (items.pieces []) = .ok s ∧
      Parser.Reads curExpanders [] items (opened curExpanders) s) ∨
    ¬ items.InRange ∧ (opened curExpanders).run curExpanders (items.pieces []) = .error .undefined := by
  rw [← fits_opened_iff]
  exact Parser.run_items items Parser.no_separators valid (at_opened curExpanders)
    (show 0 < 2 ^ 31 by decide) (show 1 < 2 ^ 31 by decide)

omit valid in
theorem constructTopo_newick (curExpanders : List Ref) (items : Items) (semicolon : Bool) :
    constructTopo curExpanders (items.newick semicolon) =
      ((opened curExpanders).run curExpanders (items.pieces [])).bind fun s =>
        s.run curExpanders (.closeGroup :: if semicolon then [.separator] else []) := by
  rw [constructTopo, Items.pieces_newick, cons_append, Parser.run_cons]
  exact Parser.run_append _ _

theorem constructTopo_of_inRange (range : items.InRange) (semicolon : Bool) :
    ∃ s, constructTopo curExpanders (items.newick semicolon) = .ok { s with stack := [] } ∧
      Parser.Reads curExpanders [] items (opened curExpanders) s := by
  obtain ⟨s, run, reads⟩ := ((run_opened valid).resolve_right fun overflow => overflow.1 range).2
  refine ⟨s, ?_, reads⟩
  rw [constructTopo_newick, run, Except.bind, Parser.run_cons, Parser.step_close (reads.stack.trans rfl)]
  cases semicolon <;> rfl

theorem constructTopo_of_not_inRange (tooMany : ¬ items.InRange)
    (semicolon : Bool) : constructTopo curExpanders (items.newick semicolon) = .error .undefined := by
  obtain ⟨-, overflow⟩ := (run_opened valid).resolve_left fun fits => tooMany fits.1
  rw [constructTopo_newick, overflow]
  rfl

end

theorem tree_of_reads {s : Parser} (reads : Parser.Reads curExpanders [] items (opened curExpanders) s) :
    s.tree = .mk (items.rootExpanders curExpanders (freshRef curExpanders))
      (items.switches curExpanders (freshRef curExpanders)) :=
  reads.tree.trans (items.grow_root curExpanders _ _)

theorem Items.rootExpanders_of_local (noRemotes : items.remotes = 0) (next : Ref) :
    items.rootExpanders curExpanders next = items.expanders curExpanders next := by
  induction items generalizing next with
  | nil => rfl
  | leaf number rest ih => rw [rootExpanders, expanders, ih noRemotes]
  | remote node id rest _ => exact absurd noRemotes (Nat.succ_ne_zero _)
  | group inner rest _ ih =>
    obtain ⟨innerNone, restNone⟩ := Nat.add_eq_zero_iff.mp noRemotes
    rw [rootExpanders, expanders, ih restNone, innerNone]
    rfl

/-- The string is read as it is meant: the outer group is the controller. -/
def Builds (curExpanders : List Ref) (items : Items) (semicolon : Bool) : Prop :=
  ∃ c, constructTopo curExpanders (items.newick semicolon) = .ok c ∧
    c.tree = items.tree curExpanders (freshRef curExpanders) ∧
    c.numSwitches = items.groups + 1 ∧ c.numEndPoints = items.ends

theorem builds_of_inRange (noRemotes : items.remotes = 0) (valid : items.Valid curExpanders.length)
    (range : items.InRange) (semicolon : Bool) : Builds curExpanders items semicolon := by
  obtain ⟨s, built, reads⟩ := constructTopo_of_inRange valid range semicolon
  refine ⟨_, built, ?_, ?_, ?_⟩
  · exact (tree_of_reads reads).trans (by rw [Items.rootExpanders_of_local noRemotes, Items.tree])
  · exact reads.numSwitches.trans (Nat.add_comm _ _)
  · exact reads.numEndPoints.trans (Nat.zero_add _)

theorem not_builds_of_not_inRange (valid : items.Valid curExpanders.length) (tooMany : ¬ items.InRange)
    (semicolon : Bool) : ¬ Builds curExpanders items semicolon := by
  rintro ⟨c, built, -⟩
  rw [constructTopo_of_not_inRange valid tooMany semicolon] at built
  cases built

/-- A string without remote leaves whose leaves are numbers of end points is read as it is meant just if its groups,
its leaves and its numbers are in the range of `int`. -/
theorem builds_iff (curExpanders : List Ref) (items : Items) (semicolon : Bool) (noRemotes : items.remotes = 0)
    (valid : items.Valid curExpanders.length) : Builds curExpanders items semicolon ↔ items.InRange := by
  constructor
  · intro builds
    by_contra tooMany
    exact not_builds_of_not_inRange valid tooMany semicolon builds
  · intro range
    exact builds_of_inRange noRemotes valid range semicolon

def Numeral.one : Numeral := ⟨['1'], by decide, forall_mem_singleton.mpr rfl⟩

def Numeral.two : Numeral := ⟨['2'], by decide, forall_mem_singleton.mpr rfl⟩

def nested : Items := .leaf .one (.group (.leaf .two .nil) (.leaf .one .nil))

theorem builds_nested :
    nested.newick true = "(1,(2),1);".toList ∧ nested.remotes = 0 ∧ nested.Valid 2 ∧ Builds [7, 8] nested true := by
  have valid : nested.Valid 2 := by simp only [nested, Items.Valid]; decide
  have range : nested.InRange := ⟨by decide, by decide, by simp only [nested, Items.Ints]; decide⟩
  exact ⟨rfl, rfl, valid, (builds_iff [7, 8] nested true rfl valid).mpr range⟩

def ones (n : Nat) : Items := (Items.leaf .one)^[n] .nil

theorem ends_ones (n : Nat) : (ones n).ends = n := by
  induction n with
  | zero => rfl
  | succ n ih => rw [ones, Function.iterate_succ_apply', ← ones, Items.ends, ih]

theorem remotes_ones (n : Nat) : (ones n).remotes = 0 := by
  induction n with
  | zero => rfl
  | succ n ih => rw [ones, Function.iterate_succ_apply', ← ones, Items.remotes, ih]

theorem valid_ones (n : Nat) : (ones n).Valid 1 := by
  induction n with
  | zero => trivial
  | succ n ih =>
    rw [ones, Function.iterate_succ_apply', ← ones, Items.Valid]
    exact ⟨by decide, ih⟩

theorem not_builds_of_many {n : Nat} (many : 2 ^ 31 ≤ n) : ¬ Builds [0] (ones n) false := by
  have valid : (ones n).Valid ([0] : List Ref).length := valid_ones n
  refine not_builds_of_not_inRange valid (fun range => ?_) false
  have ends := range.ends
  rw [ends_ones] at ends
  exact Nat.not_lt.mpr many ends

/-- One end point that is named 2^31 times: the counter of end points is an `int`. -/
theorem not_builds_ones :
    (ones (2 ^ 31)).remotes = 0 ∧ (ones (2 ^ 31)).Valid 1 ∧ ¬ Builds [0] (ones (2 ^ 31)) false := by
  have many : ∀ n, 2 ^ 31 ≤ n → (ones n).remotes = 0 ∧ (ones n).Valid 1 ∧ ¬ Builds [0] (ones n) false :=
    fun n many => ⟨remotes_ones n, valid_ones n, not_builds_of_many many⟩
  exact many _ (Nat.le_refl _)

namespace Items

def leafRefs (curExpanders : List Ref) : Items → List Ref
  | .nil => []
  | .leaf number rest => leafRef curExpanders number :: rest.leafRefs curExpanders
  | .remote _ _ rest => rest.leafRefs curExpanders
  | .group inner rest => inner.leafRefs curExpanders ++ rest.leafRefs curExpanders

theorem count_range (r next : Ref) (first second : Nat) :
    (List.range' next (first + second)).count r =
      (List.range' next first).count r + (List.range' (next + first) second).count r := by
  rw [← List.range'_append_1, count_append]

theorem count_rootExpanders (curExpanders : List Ref) (items : Items) (r next : Ref) :
    (items.rootExpanders curExpanders next).count r =
      (items.expanders curExpanders next).count r + (List.range' next items.remotes).count r := by
  induction items generalizing next with
  | nil => rfl
  | leaf number rest ih =>
    simp only [rootExpanders, expanders, remotes, count_cons, ih]
    omega
  | remote node id rest ih =>
    simp only [rootExpanders, expanders, remotes, List.range'_succ, count_cons, ih]
    omega
  | group inner rest _ ih =>
    simp only [rootExpanders, expanders, remotes, count_range, count_append, ih]
    omega

theorem count_tree (curExpanders : List Ref) (items : Items) (r next : Ref) :
    (items.tree curExpanders next).refs.count r =
      (items.leafRefs curExpanders).count r + (List.range' next items.remotes).count r := by
  induction items generalizing next with
  | nil => rfl
  | leaf number rest ih =>
    have later := ih next
    simp only [tree, CXLSwitch.refs, expanders, switches, leafRefs, remotes, count_append, count_cons] at later ⊢
    omega
  | remote node id rest ih =>
    have later := ih (next + 1)
    simp only [tree, CXLSwitch.refs, expanders, switches, leafRefs, remotes, List.range'_succ, count_append,
      count_cons] at later ⊢
    omega
  | group inner rest ihInner ih =>
    have inside := ihInner next
    have later := ih (next + inner.remotes)
    simp only [tree, CXLSwitch.refs, expanders, switches, switchesRefs, leafRefs, remotes, count_range,
      count_append] at inside later ⊢
    omega

theorem mem_of_leafRefs (valid : items.Valid curExpanders.length)
    (member : r ∈ items.leafRefs curExpanders) : r ∈ curExpanders := by
  induction items with
  | nil => cases member
  | leaf number rest ih =>
    rcases mem_cons.mp member with rfl | member
    · have inside : number.value - 1 < curExpanders.length := by
        have bounds := valid.1
        omega
      rw [leafRef, getD_eq_getElem?_getD, getElem?_eq_getElem inside, Option.getD_some]
      exact getElem_mem inside
    · exact ih valid.2 member
  | remote node id rest ih => exact ih valid member
  | group inner rest ihInner ih =>
    rcases mem_append.mp member with member | member
    · exact ihInner valid.1 member
    · exact ih valid.2 member

end Items

theorem lt_freshRef {refs : List Ref} (member : r ∈ refs) : r < freshRef refs := by
  refine Nat.lt_succ_of_le ?_
  induction refs with
  | nil => cases member
  | cons first rest ih =>
    rcases mem_cons.mp member with rfl | member
    · exact Nat.le_max_left _ _
    · exact (ih member).trans (Nat.le_max_right _ _)

theorem count_remote (valid : items.Valid curExpanders.length) {s : Parser}
    (reads : Parser.Reads curExpanders [] items (opened curExpanders) s)
    (isRemote : r ∈ List.range' (freshRef curExpanders) items.remotes) : s.tree.refs.count r = 2 := by
  have once : (List.range' (freshRef curExpanders) items.remotes).count r = 1 :=
    count_eq_one_of_mem nodup_range' isRemote
  have noLeaf : (items.leafRefs curExpanders).count r = 0 := by
    refine count_eq_zero.mpr fun leaf => ?_
    exact Nat.not_lt.mpr (mem_range'_1.mp isRemote).1 (lt_freshRef (Items.mem_of_leafRefs valid leaf))
  have root := items.count_rootExpanders curExpanders r (freshRef curExpanders)
  have meant := items.count_tree curExpanders r (freshRef curExpanders)
  rw [Items.tree, CXLSwitch.refs, count_append] at meant
  rw [tree_of_reads reads, CXLSwitch.refs, count_append]
  omega

/-- Each remote leaf has an expander, once in the tree and under the group in which it is written, and so a pass over
the tree visits it once. -/
def AttachedOnce (curExpanders : List Ref) (items : Items) (semicolon : Bool) : Prop :=
  ∃ c, constructTopo curExpanders (items.newick semicolon) = .ok c ∧
    c.remoteExpanders.map RemoteExpander.ref = List.range' (freshRef curExpanders) items.remotes ∧
    c.tree = items.tree curExpanders (freshRef curExpanders) ∧
    ∀ remote ∈ c.remoteExpanders, c.tree.refs.count remote.ref = 1 ∧ ∀ timing elem store,
      ((c.tree.calculateLatency timing elem store).1.map Prod.fst).count remote.ref = 1

theorem attachedOnce_iff (curExpanders : List Ref) (items : Items) (semicolon : Bool)
    (valid : items.Valid curExpanders.length) :
    AttachedOnce curExpanders items semicolon ↔ items.remotes = 0 ∧ items.InRange := by
  constructor
  · rintro ⟨c, built, refs, -, once⟩
    have range : items.InRange := by
      by_contra tooMany
      rw [constructTopo_of_not_inRange valid tooMany] at built
      cases built
    refine ⟨?_, range⟩
    obtain ⟨s, built', reads⟩ := constructTopo_of_inRange valid range semicolon
    obtain rfl := Except.ok.inj (built.symm.trans built')
    by_contra some_remote
    have first : freshRef curExpanders ∈ List.range' (freshRef curExpanders) items.remotes :=
      mem_range'_1.mpr ⟨Nat.le_refl _, Nat.lt_add_of_pos_right (Nat.pos_of_ne_zero some_remote)⟩
    obtain ⟨remote, member, isFirst⟩ := mem_map.mp (refs ▸ first)
    have twice := count_remote valid reads first
    have one := (once remote member).1
    rw [isFirst] at one
    exact absurd (one.symm.trans twice) (by decide)
  · rintro ⟨noRemotes, range⟩
    obtain ⟨s, built, reads⟩ := constructTopo_of_inRange valid range semicolon
    have none : s.remoteExpanders.map RemoteExpander.ref = List.range' (freshRef curExpanders) items.remotes :=
      reads.remotes
    refine ⟨_, built, none, ?_, fun remote member => ?_⟩
    · exact (tree_of_reads reads).trans (by rw [Items.rootExpanders_of_local noRemotes, Items.tree])
    · rw [noRemotes, List.range'_zero, map_eq_nil_iff] at none
      rw [none] at member
      cases member

theorem attachedOnce_nested : AttachedOnce [7, 8] nested true := by
  have valid : nested.Valid 2 := by simp only [nested, Items.Valid]; decide
  have range : nested.InRange := ⟨by decide, by decide, by simp only [nested, Items.Ints]; decide⟩
  exact (attachedOnce_iff [7, 8] nested true valid).mpr ⟨rfl, range⟩

def remoteBelow : Items := .group (.remote .one .two .nil) .nil

theorem not_attachedOnce_remoteBelow :
    remoteBelow.newick true = "((R:1:2));".toList ∧ remoteBelow.Valid 1 ∧ ¬ AttachedOnce [0] remoteBelow true := by
  refine ⟨rfl, by simp only [remoteBelow, Items.Valid, and_self], ?_⟩
  rintro ⟨c, built, -, -, once⟩
  have twice : (constructTopo [0] (remoteBelow.newick true)).map
      (fun c => (c.tree.refs, c.remoteExpanders.map RemoteExpander.ref)) = .ok ([1, 1], [1]) := by decide +kernel
  rw [built] at twice
  obtain ⟨refs, remotes⟩ := Prod.mk.inj (Except.ok.inj twice)
  obtain ⟨remote, member, isRemote⟩ := mem_map.mp (remotes ▸ mem_singleton_self 1)
  have one := (once remote member).1
  rw [refs, isRemote] at one
  exact absurd one (by decide)

end CxlMemSim.Endpoint.Topo
