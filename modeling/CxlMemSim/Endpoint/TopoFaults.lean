import CxlMemSim.Endpoint.TopoBuilder

/-! Whether a round of the loop in `construct_topo` is defined, and whether it throws, depends on three counts only. -/
namespace CxlMemSim.Endpoint.Topo

structure Tally where
  depth : Nat := 1
  switches : Nat := 0
  ends : Nat := 0

namespace Tally

def after (t : Tally) : Piece → Option Tally
  | .openGroup =>
    some (if t.switches = 0 then { t with switches := 1 }
      else { t with depth := t.depth + 1, switches := t.switches + 1 })
  | .closeGroup => if t.depth = 0 then none else some { t with depth := t.depth - 1 }
  | .separator => some t
  | .remote _ => some { t with ends := t.ends + 1 }
  | .leaf _ => some { t with ends := t.ends + 1 }

/-- The round is defined: the stack has a top where it is used, a leaf is the number of one of `n` end points, and
no `int` overflows. -/
def Defined (n : Nat) (t : Tally) : Piece → Prop
  | .openGroup => t.switches = 0 ∨ 0 < t.depth ∧ t.switches < 2 ^ 31 - 1
  | .closeGroup => True
  | .separator => True
  | .remote node => 0 < t.depth ∧ t.ends < 2 ^ 31 - 1 ∧ InInt (atoiValue node)
  | .leaf token => 0 < t.depth ∧ t.ends < 2 ^ 31 - 1 ∧ InInt (atoiValue token) ∧
      1 ≤ atoiValue token ∧ atoiValue token ≤ n

def step (t : Option Tally) (piece : Piece) : Option Tally := t.bind fun t => t.after piece

end Tally

namespace Parser
variable {curExpanders : List Ref} (s : Parser)

def tally : Tally := ⟨s.stack.length, s.numSwitches, s.numEndPoints⟩

inductive Outcome (n : Nat) (t : Tally) (piece : Piece) : Except Fault Parser → Prop
  | undefined (bad : ¬ t.Defined n piece) : Outcome n t piece (.error .undefined)
  | throws (good : t.Defined n piece) (unbalanced : t.after piece = none) :
      Outcome n t piece (.error (.invalidArgument "Unbalanced number of parentheses"))
  | goesOn (good : t.Defined n piece) (s' : Parser) (counts : t.after piece = some s'.tally) :
      Outcome n t piece (.ok s')

variable {s}

theorem top_eq_of_pos (some_top : 0 < s.stack.length) : ∃ path rest, s.stack = path :: rest ∧ s.top = .ok path := by
  cases top : s.stack with
  | nil =>
    rw [top] at some_top
    exact absurd some_top (Nat.not_lt_zero 0)
  | cons path rest => exact ⟨path, rest, rfl, by rw [Parser.top, top]⟩

theorem top_eq_of_not_pos (no_top : ¬ 0 < s.stack.length) : s.top = .error .undefined := by
  have empty : s.stack = [] := List.eq_nil_of_length_eq_zero (Nat.eq_zero_of_not_pos no_top)
  rw [Parser.top, empty]

theorem outcome_open : Outcome curExpanders.length s.tally .openGroup (s.step curExpanders .openGroup) := by
  by_cases first : s.numSwitches = 0
  · have opened : s.step curExpanders .openGroup = .ok { s with numSwitches := 1 } := by
      rw [step, increment, first]
      rfl
    rw [opened]
    refine .goesOn ?_ _ ?_
    · exact .inl first
    · rw [Tally.after, if_pos (show s.tally.switches = 0 from first)]
      rfl
  · have inner : ¬ s.tally.switches = 0 := first
    by_cases room : s.numSwitches < 2 ^ 31 - 1
    · by_cases some_top : 0 < s.stack.length
      · obtain ⟨path, rest, top, isTop⟩ := top_eq_of_pos some_top
        simp only [step, increment, if_pos room, bind, Except.bind, if_neg first, isTop]
        refine .goesOn ?_ _ ?_
        · exact .inr ⟨some_top, room⟩
        · rw [Tally.after, if_neg inner]
          rfl
      · simp only [step, increment, if_pos room, bind, Except.bind, if_neg first, top_eq_of_not_pos some_top]
        exact .undefined fun good => some_top (good.resolve_left first).1
    · simp only [step, increment, if_neg room, bind, Except.bind]
      exact .undefined fun good => room (good.resolve_left first).2

theorem outcome_close : Outcome curExpanders.length s.tally .closeGroup (s.step curExpanders .closeGroup) := by
  rw [step]
  cases top : s.stack with
  | nil =>
    refine .throws trivial ?_
    rw [Tally.after, tally, top]
    rfl
  | cons path rest =>
    refine .goesOn ?_ _ ?_
    · trivial
    · rw [Tally.after, tally, top]
      rfl

theorem outcome_remote (node : Token) :
    Outcome curExpanders.length s.tally (.remote node) (s.step curExpanders (.remote node)) := by
  by_cases int : InInt (atoiValue node)
  · by_cases room : s.numEndPoints < 2 ^ 31 - 1
    · by_cases some_top : 0 < s.stack.length
      · obtain ⟨path, rest, top, isTop⟩ := top_eq_of_pos some_top
        simp only [step, atoi, if_pos int, addRemoteEndpoint, increment, if_pos room, bind, Except.bind, pure,
          Except.pure, Parser.top, top]
        refine .goesOn ?_ _ ?_
        · exact ⟨some_top, room, int⟩
        · rw [Tally.after, tally, tally, top]
      · have empty : s.stack = [] := List.eq_nil_of_length_eq_zero (Nat.eq_zero_of_not_pos some_top)
        simp only [step, atoi, if_pos int, addRemoteEndpoint, increment, if_pos room, bind, Except.bind, pure,
          Except.pure, Parser.top, empty]
        exact .undefined fun good => some_top good.1
    · simp only [step, atoi, if_pos int, addRemoteEndpoint, increment, if_neg room, bind, Except.bind]
      exact .undefined fun good => room good.2.1
  · simp only [step, atoi, if_neg int, bind, Except.bind]
    exact .undefined fun good => int good.2.2

theorem outcome_leaf (token : Token) :
    Outcome curExpanders.length s.tally (.leaf token) (s.step curExpanders (.leaf token)) := by
  by_cases some_top : 0 < s.stack.length
  · obtain ⟨path, rest, top, isTop⟩ := top_eq_of_pos some_top
    by_cases int : InInt (atoiValue token)
    · by_cases inside : 1 ≤ atoiValue token ∧ atoiValue token ≤ curExpanders.length
      · by_cases room : s.numEndPoints < 2 ^ 31 - 1
        · simp only [step, isTop, atoi, if_pos int, bind, Except.bind, if_pos inside, increment, if_pos room]
          refine .goesOn ?_ _ rfl
          exact ⟨some_top, room, int, inside⟩
        · simp only [step, isTop, atoi, if_pos int, bind, Except.bind, if_pos inside, increment, if_neg room]
          exact .undefined fun good => room good.2.1
      · simp only [step, isTop, atoi, if_pos int, bind, Except.bind, if_neg inside]
        exact .undefined fun good => inside good.2.2.2
    · simp only [step, isTop, atoi, if_neg int, bind, Except.bind]
      exact .undefined fun good => int good.2.2.1
  · simp only [step, top_eq_of_not_pos some_top, bind, Except.bind]
    exact .undefined fun good => some_top good.1

theorem step_outcome (curExpanders : List Ref) (s : Parser) (piece : Piece) :
    Outcome curExpanders.length s.tally piece (s.step curExpanders piece) := by
  cases piece with
  | openGroup => exact outcome_open
  | closeGroup => exact outcome_close
  | separator =>
    refine .goesOn ?_ s rfl
    trivial
  | remote node => exact outcome_remote node
  | leaf token => exact outcome_leaf token

end Parser

namespace Tally

theorem foldl_step_none (pieces : List Piece) : pieces.foldl step none = none := by
  induction pieces with
  | nil => rfl
  | cons piece pieces ih => exact ih

theorem everyStep_none (n : Nat) (pieces : List Piece) : Run.EveryStep step (Run.Before (Defined n)) none pieces := by
  induction pieces with
  | nil => trivial
  | cons piece pieces ih => exact ⟨nofun, ih⟩

def AllDefined (n : Nat) (t : Tally) (pieces : List Piece) : Prop :=
  Run.EveryStep step (Run.Before (Defined n)) (some t) pieces

theorem allDefined_cons_iff {n : Nat} {t : Tally} {piece : Piece} {pieces : List Piece} :
    AllDefined n t (piece :: pieces) ↔ t.Defined n piece ∧ ∀ t' ∈ t.after piece, AllDefined n t' pieces := by
  have first : Run.Before (Defined n) (some t) piece ↔ t.Defined n piece := by
    simp only [Run.Before, Option.mem_def, Option.some.injEq, forall_eq']
  rw [AllDefined, Run.everyStep_cons, first, step, Option.bind_some]
  refine and_congr_right fun _ => ?_
  cases t.after piece with
  | none => exact iff_of_true (everyStep_none n pieces) nofun
  | some t' => simp only [Option.mem_def, Option.some.injEq, forall_eq', AllDefined]

def Throws (t : Tally) (pieces : List Piece) : Prop := pieces.foldl step (some t) = none
deriving Decidable

theorem throws_cons_iff {t : Tally} {piece : Piece} {pieces : List Piece} :
    t.Throws (piece :: pieces) ↔ ∀ t' ∈ t.after piece, t'.Throws pieces := by
  rw [Throws, List.foldl_cons, step, Option.bind_some]
  cases t.after piece with
  | none => exact iff_of_true (foldl_step_none pieces) nofun
  | some t' => simp only [Option.mem_def, Option.some.injEq, forall_eq', Throws]

end Tally

namespace Parser
variable {curExpanders : List Ref} {s : Parser}

theorem run_undefined_iff (pieces : List Piece) :
    s.run curExpanders pieces = .error .undefined ↔ ¬ s.tally.AllDefined curExpanders.length pieces := by
  induction pieces generalizing s with
  | nil => exact iff_of_false nofun (not_not.mpr trivial)
  | cons piece pieces ih =>
    rw [run_cons, Tally.allDefined_cons_iff]
    have outcome := step_outcome curExpanders s piece
    generalize s.step curExpanders piece = result at outcome
    cases outcome with
    | undefined bad => exact iff_of_true rfl fun all => bad all.1
    | throws good unbalanced =>
      rw [unbalanced]
      exact iff_of_false nofun (not_not.mpr ⟨good, nofun⟩)
    | goesOn good s' counts =>
      rw [counts, and_iff_right good, Except.bind]
      simpa only [Option.mem_def, Option.some.injEq, forall_eq'] using ih

theorem run_throws_iff {pieces : List Piece} (all : s.tally.AllDefined curExpanders.length pieces) :
    (∃ message, s.run curExpanders pieces = .error (.invalidArgument message)) ↔ s.tally.Throws pieces := by
  induction pieces generalizing s with
  | nil => exact iff_of_false nofun nofun
  | cons piece pieces ih =>
    rw [run_cons, Tally.throws_cons_iff]
    rw [Tally.allDefined_cons_iff] at all
    have outcome := step_outcome curExpanders s piece
    generalize s.step curExpanders piece = result at outcome
    cases outcome with
    | undefined bad => exact absurd all.1 bad
    | throws good unbalanced =>
      rw [unbalanced]
      exact iff_of_true ⟨_, rfl⟩ nofun
    | goesOn good s' counts =>
      rw [counts, Except.bind]
      simpa only [Option.mem_def, Option.some.injEq, forall_eq'] using ih (all.2 _ counts)

end Parser

def Balanced (s : List Char) : Prop :=
  (∀ before, before <+: s → before.count ')' ≤ before.count '(') ∧ s.count ')' = s.count '('

/-- A tree or an exception, and an exception if the parentheses are not balanced. -/
def Graceful (curExpanders : List Ref) (newickTree : List Char) : Prop :=
  constructTopo curExpanders newickTree ≠ .error .undefined ∧
    (¬ Balanced newickTree → ∃ message, constructTopo curExpanders newickTree = .error (.invalidArgument message))

theorem graceful_iff (curExpanders : List Ref) (newickTree : List Char) :
    Graceful curExpanders newickTree ↔
      Tally.AllDefined curExpanders.length {} (pieces newickTree) ∧
        (Balanced newickTree ∨ Tally.Throws {} (pieces newickTree)) := by
  have undefined : constructTopo curExpanders newickTree = .error .undefined ↔
      ¬ Tally.AllDefined curExpanders.length {} (pieces newickTree) := Parser.run_undefined_iff _
  rw [Graceful, Ne, undefined, not_not]
  refine and_congr_right fun all => ?_
  have throws : (∃ message, constructTopo curExpanders newickTree = .error (.invalidArgument message)) ↔
      Tally.Throws {} (pieces newickTree) := Parser.run_throws_iff all
  rw [throws, or_iff_not_imp_left]

/-- A newline after the semicolon, a number without an end point, a label, and a parenthesis that is not closed. -/
theorem not_graceful :
    ¬ Graceful [0] "(1);\n".toList ∧ ¬ Graceful [0] "(2);".toList ∧ ¬ Graceful [0] "(CPU:0,1);".toList ∧
      ¬ Graceful [0] "(1".toList := by
  refine ⟨fun graceful => graceful.1 rfl, fun graceful => graceful.1 rfl, fun graceful => graceful.1 rfl, ?_⟩
  intro graceful
  obtain ⟨message, thrown⟩ := graceful.2 fun balanced => absurd balanced.2 (by decide)
  cases thrown

end CxlMemSim.Endpoint.Topo
