import EvoHarness.Grade
import EvoHarness.Library.Finditer
import EvoHarness.Library.Spacing

/-! Lean's axiom report, as the final check reads it out of the compiler's output. -/
namespace EvoHarness.Proof
open PyText

/-- `'(\S+)'` before white space: the quote, and the run behind it that ends in a quote. -/
def quotedAt : Text → Option (Text × Text)
  | '\'' :: t =>
    let run := t.takeWhile (!isSpace ·)
    if run.getLast? = some '\'' ∧ run.dropLast ≠ [] then
      some (run.dropLast, t.dropWhile (!isSpace ·))
    else none
  | _ => none

def noAxiomsTail : Text := " does not depend on any axioms".toList
def axiomsTail : Text := " depends on axioms: [".toList

def noAxiomsAt : Matcher Text := fun t =>
  (quotedAt t).bind fun p =>
    if noAxiomsTail.isPrefixOf p.2 then some (p.1, p.2.drop noAxiomsTail.length) else none

/-- `_AXIOMS_RE`: the name, and what stands in the brackets. -/
def axiomsAt : Matcher (Text × Text) := fun t =>
  (quotedAt t).bind fun p =>
    if axiomsTail.isPrefixOf p.2 then
      (cut [']'] (p.2.drop axiomsTail.length)).map fun q => ((p.1, q.1), q.2)
    else none

/-- `_axioms`: a report of no axioms goes first, then the first report with a list. -/
def reportedAxioms (output name : Text) : Option (Finset Text) :=
  if name ∈ finditer noAxiomsAt output then some ∅
  else ((finditer axiomsAt output).find? (·.1 = name)).map fun p => axiomItems p.2

end EvoHarness.Proof
