import EvoHarness.Graph

/-! A decomposition as a Lean file: its parts, and the one renderer that lays out
both the sketch to validate and the assembled proof. -/
namespace EvoHarness.Proof
open PyText

structure Validation where
  ok : Bool
  reason : Text := []
  deriving DecidableEq

structure SubgoalSpec where
  name : Text
  identity : Text
  signature : Text
  deriving DecidableEq

structure Sketch where
  parentName : Text
  parentSignature : Text
  parentBody : Text
  subgoals : List SubgoalSpec
  preamble : Text := []
  deriving DecidableEq

abbrev Dict (α : Type) := List (Text × α)

def Dict.get {α : Type} (d : Dict α) (k : Text) : Option α := (d.find? (·.1 = k)).map Prod.snd
def Dict.set {α : Type} (d : Dict α) (k : Text) (v : α) : Dict α := (k, v) :: d.filter (·.1 ≠ k)

structure RenderedSketch where
  text : Text
  declarationLines : Dict ℕ

structure Layout where
  lines : List Text := []
  declarationLines : Dict ℕ := []

/-- The lines of one declaration: a body of several lines starts on a line of its own. -/
def declarationText (signature body : Text) : List Text :=
  (if '\n' ∈ body then (signature ++ " :=".toList) :: splitlines body
   else [signature ++ " := ".toList ++ body]) ++ [[]]

def emit (l : Layout) (name signature body : Text) : Layout :=
  { lines := l.lines ++ declarationText signature body
    declarationLines := l.declarationLines.set name (l.lines.length + 1) }

def renderSubgoals (bodies : Dict Text) (omitted : List Text) : Layout → List SubgoalSpec → Layout
  | l, [] => l
  | l, spec :: specs =>
    if spec.name ∈ omitted then renderSubgoals bodies omitted l specs
    else renderSubgoals bodies omitted
      (emit l spec.name spec.signature ((bodies.get spec.name).getD "sorry".toList)) specs

def render (sketch : Sketch) (bodies : Dict Text := []) (preamble : Bool := true)
    (omitted : List Text := []) : RenderedSketch :=
  let start : Layout :=
    if preamble = true ∧ sketch.preamble ≠ [] then { lines := splitlines sketch.preamble ++ [[]] }
    else {}
  let body := renderSubgoals bodies omitted start sketch.subgoals
  let all := emit body sketch.parentName sketch.parentSignature sketch.parentBody
  { text := rstrip (join ['\n'] all.lines) ++ ['\n']
    declarationLines := all.declarationLines }

@[simp] theorem Dict.get_set_self {α : Type} (d : Dict α) (k : Text) (v : α) :
    (d.set k v).get k = some v := by
  simp [Dict.get, Dict.set]

theorem Dict.get_set_of_ne {α : Type} (d : Dict α) {k j : Text} (v : α) (h : j ≠ k) :
    (d.set k v).get j = d.get j := by
  have hne : k ≠ j := h.symm
  simp only [Dict.get, Dict.set, List.find?_cons, hne, decide_false, List.find?_filter]
  congr 2
  funext x
  by_cases hx : x.1 = j <;> simp [hx, h]

end EvoHarness.Proof
