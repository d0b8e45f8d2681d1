import Mathlib.Algebra.Ring.Int.Defs
import Mathlib.Algebra.Ring.Nat
import Mathlib.Data.List.Basic
import Mathlib.Data.List.TakeWhile

/-! `CXLController::tokenize`, what `construct_topo` reads at each round of its loop, and the strings of the grammar:
groups in parentheses of decimal leaves, remote leaves and groups. -/
namespace CxlMemSim.Endpoint.Topo
open List

abbrev Token := List Char

/-- What goes wrong in `construct_topo`: an exception, or an operation that C++ does not define. -/
inductive Fault where
  | invalidArgument (message : String)
  | undefined
deriving DecidableEq

def isSpecial (c : Char) : Bool := c = '(' || c = ')' || c = ':' || c = ','

def flush (tmp : Token) : List Token := if tmp.isEmpty then [] else [tmp]

def tokenizeFrom (tmp : Token) : List Char → List Token
  | [] => flush tmp
  | c :: rest => if isSpecial c then flush tmp ++ [c] :: tokenizeFrom [] rest else tokenizeFrom (tmp ++ [c]) rest

def tokenize (s : List Char) : List Token := tokenizeFrom [] s

inductive Piece where
  | openGroup
  | closeGroup
  | separator
  | remote (node : Token)
  | leaf (token : Token)
deriving DecidableEq

/-- `R:node_id:exp_id` at the beginning, with its node; the last of the five tokens may be any. -/
def remoteNode : List Token → Option Token
  | label :: colon :: node :: colon' :: _ :: _ =>
    if label = ['R'] ∧ colon = [':'] ∧ colon' = [':'] then some node else none
  | _ => none

/-- The rounds of the loop; `skip` tokens are passed over, as `t += 4` does. -/
def piecesFrom : Nat → List Token → List Piece
  | _, [] => []
  | skip + 1, _ :: rest => piecesFrom skip rest
  | 0, token :: rest =>
    if token = ['('] then .openGroup :: piecesFrom 0 rest
    else if token = [')'] then .closeGroup :: piecesFrom 0 rest
    else if token = [','] ∨ token = [';'] then .separator :: piecesFrom 0 rest
    else match remoteNode (token :: rest) with
      | some node => .remote node :: piecesFrom 4 rest
      | none => .leaf token :: piecesFrom 0 rest

def pieces (s : List Char) : List Piece := piecesFrom 0 (tokenize s)

def isSpace (c : Char) : Bool := c = ' ' || ('\t' ≤ c && c ≤ '\r')

def decimal (digits : List Char) : Nat := digits.foldl (fun value c => 10 * value + (c.toNat - '0'.toNat)) 0

def atoiValue (text : Token) : Int :=
  match text.dropWhile isSpace with
  | '-' :: rest => -decimal (rest.takeWhile Char.isDigit)
  | '+' :: rest => decimal (rest.takeWhile Char.isDigit)
  | rest => decimal (rest.takeWhile Char.isDigit)

def InInt (value : Int) : Prop := -2 ^ 31 ≤ value ∧ value < 2 ^ 31
deriving Decidable

/-- `atoi`, which is not defined for a number that is no `int`. -/
def atoi (text : Token) : Except Fault Int :=
  if InInt (atoiValue text) then .ok (atoiValue text) else .error .undefined

structure Numeral where
  digits : List Char
  nonempty : digits ≠ []
  decimal : ∀ c ∈ digits, c.isDigit = true

def Numeral.value (number : Numeral) : Nat := Topo.decimal number.digits

inductive Items where
  | nil
  | leaf (number : Numeral) (rest : Items)
  | remote (node id : Numeral) (rest : Items)
  | group (inner rest : Items)

namespace Items

def chars : List Char → Items → List Char
  | _, .nil => []
  | lead, .leaf number rest => lead ++ number.digits ++ rest.chars [',']
  | lead, .remote node id rest => lead ++ ['R', ':'] ++ node.digits ++ ':' :: id.digits ++ rest.chars [',']
  | lead, .group inner rest => lead ++ '(' :: inner.chars [] ++ ')' :: rest.chars [',']

def pieces : List Piece → Items → List Piece
  | _, .nil => []
  | lead, .leaf number rest => lead ++ .leaf number.digits :: rest.pieces [.separator]
  | lead, .remote node _ rest => lead ++ .remote node.digits :: rest.pieces [.separator]
  | lead, .group inner rest => lead ++ .openGroup :: inner.pieces [] ++ .closeGroup :: rest.pieces [.separator]

def newick (items : Items) (semicolon : Bool) : List Char :=
  '(' :: items.chars [] ++ ')' :: if semicolon then [';'] else []

end Items

variable {c : Char}

theorem isSpecial_of_isDigit (digit : c.isDigit = true) : isSpecial c = false := by
  by_contra special
  simp only [isSpecial, Bool.not_eq_false, Bool.or_eq_true, decide_eq_true_iff, or_assoc] at special
  rcases special with rfl | rfl | rfl | rfl <;> cases digit

theorem tokenizeFrom_special (special : isSpecial c = true) (tmp : Token) (rest : List Char) :
    tokenizeFrom tmp (c :: rest) = flush tmp ++ [c] :: tokenizeFrom [] rest := by
  rw [tokenizeFrom, if_pos special]

theorem tokenizeFrom_word {word : List Char} (plain : ∀ c ∈ word, isSpecial c = false) (tmp : Token)
    (rest : List Char) : tokenizeFrom tmp (word ++ rest) = tokenizeFrom (tmp ++ word) rest := by
  induction word generalizing tmp with
  | nil => rw [nil_append, append_nil]
  | cons c word ih =>
    have notSpecial : ¬isSpecial c = true := by
      rw [plain c mem_cons_self]
      exact Bool.false_ne_true
    rw [cons_append, tokenizeFrom, if_neg notSpecial, ih fun d member => plain d (mem_cons_of_mem c member),
      append_assoc, singleton_append]

def StartsSpecial (text : List Char) : Prop := ∃ c rest, text = c :: rest ∧ isSpecial c = true

variable {text : List Char}

theorem tokenize_numeral (number : Numeral) (ends : StartsSpecial text) :
    tokenize (number.digits ++ text) = number.digits :: tokenize text := by
  obtain ⟨c, rest, rfl, special⟩ := ends
  have plain := fun c member => isSpecial_of_isDigit (number.decimal c member)
  have full : number.digits.isEmpty = false := isEmpty_eq_false_iff.mpr number.nonempty
  rw [tokenize, tokenizeFrom_word plain, nil_append, tokenizeFrom_special special, tokenize,
    tokenizeFrom_special special, flush, full]
  rfl

theorem tokenize_special (special : isSpecial c = true) (rest : List Char) :
    tokenize (c :: rest) = [c] :: tokenize rest := tokenizeFrom_special special [] rest

theorem Numeral.digits_ne (number : Numeral) (other : c.isDigit = false) : number.digits ≠ [c] := by
  intro same
  have digit := number.decimal c (by rw [same]; exact mem_singleton_self c)
  rw [other] at digit
  cases digit

theorem piecesFrom_numeral (number : Numeral) (rest : List Token) :
    piecesFrom 0 (number.digits :: rest) = .leaf number.digits :: piecesFrom 0 rest := by
  have noRemote : remoteNode (number.digits :: rest) = none := by
    rw [remoteNode.eq_def]
    split
    · rename_i same
      rw [if_neg]
      rintro ⟨isR, -⟩
      exact number.digits_ne (c := 'R') rfl ((List.cons.inj same).1.trans isR)
    · rfl
  rw [piecesFrom, if_neg (number.digits_ne rfl), if_neg (number.digits_ne rfl), if_neg, noRemote]
  exact not_or.mpr ⟨number.digits_ne rfl, number.digits_ne rfl⟩

def ReadAs (text : List Char) (read : List Piece) : Prop := ∀ rest, pieces (text ++ rest) = read ++ pieces rest

theorem pieces_open (rest : List Char) : pieces ('(' :: rest) = .openGroup :: pieces rest := rfl

theorem pieces_close (rest : List Char) : pieces (')' :: rest) = .closeGroup :: pieces rest := rfl

theorem pieces_remote (node id : Numeral) (ends : StartsSpecial text) :
    pieces ('R' :: ':' :: (node.digits ++ ':' :: (id.digits ++ text))) = .remote node.digits :: pieces text := by
  have label (rest : List Char) : tokenize ('R' :: ':' :: rest) = ['R'] :: [':'] :: tokenize rest := rfl
  rw [pieces, label, tokenize_numeral node ⟨':', _, rfl, rfl⟩, tokenize_special rfl, tokenize_numeral id ends]
  rfl

theorem readAs_nil : ReadAs [] [] := fun _ => rfl

theorem readAs_comma : ReadAs [','] [.separator] := fun _ => rfl

namespace Items

theorem startsSpecial_chars (items : Items) (ends : StartsSpecial text) :
    StartsSpecial (items.chars [','] ++ text) := by
  cases items with
  | nil => exact ends
  | leaf | remote | group => exact ⟨',', _, rfl, rfl⟩

theorem pieces_chars (items : Items) {lead : List Char} {read : List Piece} (leads : ReadAs lead read)
    (ends : StartsSpecial text) :
    Topo.pieces (items.chars lead ++ text) = items.pieces read ++ Topo.pieces text := by
  induction items generalizing lead read text with
  | nil => rfl
  | leaf number rest ih =>
    have later := ih readAs_comma ends
    rw [chars, append_assoc, append_assoc, leads, Topo.pieces,
      tokenize_numeral number (rest.startsSpecial_chars ends), piecesFrom_numeral, ← Topo.pieces, later, pieces]
    simp only [append_assoc, cons_append]
  | remote node id rest ih =>
    have later := ih readAs_comma ends
    have here := pieces_remote node id (rest.startsSpecial_chars ends)
    simp only [chars, append_assoc, cons_append, nil_append]
    rw [leads, here, later, pieces]
    simp only [append_assoc, cons_append]
  | group inner rest ihInner ih =>
    have later := ih readAs_comma ends
    have closing : StartsSpecial (')' :: (rest.chars [','] ++ text)) := ⟨')', _, rfl, rfl⟩
    have inside := ihInner readAs_nil closing
    simp only [chars, append_assoc, cons_append]
    rw [leads, pieces_open, inside, pieces_close, later, pieces]
    simp only [append_assoc, cons_append]

theorem pieces_newick (items : Items) (semicolon : Bool) :
    Topo.pieces (items.newick semicolon) =
      .openGroup :: items.pieces [] ++ .closeGroup :: if semicolon then [.separator] else [] := by
  have closing : StartsSpecial (')' :: if semicolon then [';'] else []) := ⟨')', _, rfl, rfl⟩
  have inside := items.pieces_chars readAs_nil closing
  rw [newick, cons_append, pieces_open, inside, pieces_close, cons_append]
  cases semicolon <;> rfl

end Items

theorem isSpace_of_isDigit (digit : c.isDigit = true) : isSpace c = false := by
  by_contra space
  simp only [isSpace, Bool.not_eq_false, Bool.or_eq_true, Bool.and_eq_true, decide_eq_true_iff] at space
  rcases space with rfl | ⟨-, low⟩
  · cases digit
  · simp only [Char.isDigit, Bool.and_eq_true, decide_eq_true_iff] at digit
    have most : c.val ≤ 13 := low
    exact absurd (UInt32.le_trans digit.1 most) (by decide)

theorem atoiValue_numeral (number : Numeral) : atoiValue number.digits = number.value := by
  obtain ⟨digits, nonempty, decimal⟩ := number
  have whole : digits.takeWhile Char.isDigit = digits := takeWhile_eq_self_iff.mpr decimal
  cases digits with
  | nil => exact absurd rfl nonempty
  | cons c rest =>
    have first := decimal c mem_cons_self
    have blank : ¬isSpace c = true := by
      rw [isSpace_of_isDigit first]
      exact Bool.false_ne_true
    have noBlank : (c :: rest).dropWhile isSpace = c :: rest := dropWhile_cons_of_neg blank
    rw [atoiValue, noBlank]
    split
    · rename_i same
      rw [(List.cons.inj same).1] at first
      cases first
    · rename_i same
      rw [(List.cons.inj same).1] at first
      cases first
    · rw [Numeral.value, whole]

theorem atoi_numeral (number : Numeral) :
    atoi number.digits = if number.value < 2 ^ 31 then .ok (number.value : Int) else .error .undefined := by
  have bound : InInt number.value ↔ number.value < 2 ^ 31 := by
    unfold InInt
    omega
  rw [atoi, atoiValue_numeral]
  exact ite_congr (propext bound) (fun _ => rfl) fun _ => rfl

end CxlMemSim.Endpoint.Topo
