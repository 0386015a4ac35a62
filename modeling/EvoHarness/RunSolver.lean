import EvoHarness.Solver
import EvoHarness.Identity

/-! One run of the search per subgoal: the seed file it starts from, and the proof body
read back out of its best candidate. -/
namespace EvoHarness.Proof
open PyText

def regionBegin : Text := "EDIT-REGION-BEGIN".toList
def regionEnd : Text := "EDIT-REGION-END".toList

def declarationName (signature : Text) : Text :=
  let body := dropKeyword (strip signature)
  if body = [] then "unknown".toList else firstWord body

/-- A COMPILING skeleton: the lemma with a `sorry` body. -/
def seedText (goal : Goal) (preamble : Text := []) : Text :=
  (if preamble = [] then [] else preamble ++ "\n\n".toList) ++
    "-- EDIT-REGION-BEGIN\n".toList ++
    goal.statement ++ " := by\n  sorry\n".toList ++
    "-- EDIT-REGION-END\n\n".toList ++
    "#print axioms ".toList ++ declarationName goal.statement ++ ['\n']

/-- What stands before and after the first `:=` outside brackets. -/
def cutDefinition : ℤ → Text → Option (Text × Text)
  | _, [] => none
  | depth, c :: t =>
    let keep := Option.map fun p : Text × Text => (c :: p.1, p.2)
    if c ∈ openBrackets then keep (cutDefinition (depth + 1) t)
    else if c ∈ closeBrackets then keep (cutDefinition (depth - 1) t)
    else if c = ':' ∧ t.head? = some '=' ∧ depth = 0 then some ([], t.tail)
    else keep (cutDefinition depth t)

def afterBegin (t : Text) : Text := ((cut regionBegin t).map Prod.snd).getD t
def beforeEnd (t : Text) : Text := ((cut regionEnd t).map Prod.fst).getD t

def editRegion (candidate : Text) : Text :=
  if contains regionBegin candidate && contains regionEnd candidate then beforeEnd (afterBegin candidate)
  else candidate

def danglingMarks : List Text :=
  ["--".toList, "//".toList, "#".toList, "/-".toList, "(*".toList]

def trimDanglingComment (body : Text) : Text :=
  let lines := splitlines (rstrip (stripChar '\n' body))
  rstrip (join ['\n'] (lines.reverse.dropWhile fun line => strip line ∈ danglingMarks).reverse)

def proofBody (candidate : Text) : Option Text :=
  match cutDefinition 0 (editRegion candidate) with
  | none => none
  | some (_, after) =>
    let body := trimDanglingComment after
    if body = [] then none else some body

def openedSignature (candidate : Text) : Option Text :=
  (cutDefinition 0 (editRegion candidate)).map fun p => strip p.1

end EvoHarness.Proof
