import EvoHarness.Library.PyText

/-! Shell patterns: what `fnmatch.fnmatch` accepts. -/
namespace EvoHarness.Fnmatch
open PyText

inductive Piece where
  | star
  | any
  | literal (c : Char)
  | set (negated : Bool) (items : List (Char × Char))
deriving DecidableEq

/-- What stands before the `]` that closes a set, and what stands behind it. A `]` that comes first is a member. -/
def closeSet (t : Text) : Option (Text × Text) :=
  let negation := t.takeWhile (· = '!') |>.take 1
  let first := (t.drop negation.length).takeWhile (· = ']') |>.take 1
  (cut [']'] (t.drop (negation ++ first).length)).map fun p => (negation ++ first ++ p.1, p.2)

def itemsOf : Text → List (Char × Char)
  | [] => []
  | [c] => [(c, c)]
  | [c, d] => [(c, c), (d, d)]
  | c :: d :: e :: t => if d = '-' then (c, e) :: itemsOf t else (c, c) :: itemsOf (d :: e :: t)

def setOf (body : Text) : Piece :=
  if body.head? = some '!' then .set true (itemsOf body.tail) else .set false (itemsOf body)

def piecesFrom : ℕ → Text → List Piece
  | 0, _ => []
  | _, [] => []
  | n + 1, c :: t =>
    if c = '*' then .star :: piecesFrom n t
    else if c = '?' then .any :: piecesFrom n t
    else if c = '[' then
      match closeSet t with
      | some (body, rest) => setOf body :: piecesFrom n rest
      | none => .literal c :: piecesFrom n t
    else .literal c :: piecesFrom n t

def pieces (pattern : Text) : List Piece := piecesFrom pattern.length pattern

def Piece.accepts (c : Char) : Piece → Bool
  | .star => false
  | .any => true
  | .literal d => c = d
  | .set negated items => items.any (fun i => i.1 ≤ c && c ≤ i.2) != negated

def accepts : List Piece → Text → Bool
  | [], t => t.isEmpty
  | .star :: ps, t => t.tails.any (accepts ps)
  | p :: ps, t =>
    match t with
    | [] => false
    | c :: t => p.accepts c && accepts ps t

/-- `fnmatch.fnmatch(name, pattern)`, where names are told apart by case. -/
def fnmatch (name pattern : Text) : Bool := accepts (pieces pattern) name

theorem fnmatch_star (name : Text) : fnmatch name ['*'] = true := by
  rw [fnmatch, show pieces ['*'] = [.star] from rfl, accepts, List.any_eq_true]
  exact ⟨[], (List.mem_tails _ _).mpr List.nil_suffix, rfl⟩

example : fnmatch "my_holdout_set".toList "*holdout*".toList = true := by decide

example : fnmatch "a-b.py".toList "[!c-e]?[]ab].??".toList = true := by decide

end EvoHarness.Fnmatch
