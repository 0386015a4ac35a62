import EvoHarness.Library.Spacing
import EvoHarness.Policy

/-! What a graph was built under: the scope recorded in it, the scope a command asks
for, and the preamble both of them hash. -/
namespace EvoHarness.Proof
open PyText

inductive HasherName where
  | exactText | leanExpr
  deriving DecidableEq

def HasherName.value : HasherName → Text
  | .exactText => "exact-text".toList
  | .leanExpr => "lean-expr".toList

/-- `preamble_sha256`: every reader strips the preamble. -/
def preambleSha256 (sha256 : Text → Text) (text : Text) : Text := sha256 (strip text)

/-- `policy` is `minimum_trust`, which only builds a scope when it is a floor. -/
structure GraphScope where
  environment : Text
  policy : AxiomPolicy := {}
  identityHasher : HasherName := .exactText
  preambleSha256 : Text
  baseId : Text := []
  axiomPolicyVersion : ℕ := 1
  envelopeSchemaVersion : ℕ := 1
  goalkeySchemaVersion : ℕ := 1
  scopeVersion : ℕ := 1

namespace GraphScope

/-- The names of the compared fields that differ: `base_id` is for people only. -/
def diff (a b : GraphScope) : List Text :=
  [("environment".toList, decide (a.environment = b.environment)),
   ("minimum_trust".toList, decide (a.policy.minimumTrust = b.policy.minimumTrust)),
   ("identity_hasher".toList, decide (a.identityHasher = b.identityHasher)),
   ("preamble_sha256".toList, decide (a.preambleSha256 = b.preambleSha256)),
   ("axiom_policy_version".toList, decide (a.axiomPolicyVersion = b.axiomPolicyVersion)),
   ("envelope_schema_version".toList, decide (a.envelopeSchemaVersion = b.envelopeSchemaVersion)),
   ("goalkey_schema_version".toList, decide (a.goalkeySchemaVersion = b.goalkeySchemaVersion)),
   ("scope_version".toList, decide (a.scopeVersion = b.scopeVersion))].filterMap
    fun field => if field.2 then none else some field.1

/-- What is used is always compared; a setting left unsaid is inherited. The versions
are always this code's. -/
def resolve (stored : Option GraphScope) (environment preambleSha256 : Text)
    (identityHasher : Option HasherName) (minimumTrust : Option AxiomPolicy)
    (baseId : Text := []) : GraphScope where
  environment := environment
  policy := minimumTrust.getD ((stored.map (·.policy)).getD {})
  identityHasher := identityHasher.getD ((stored.map (·.identityHasher)).getD .exactText)
  preambleSha256 := preambleSha256
  baseId := if baseId = [] then (stored.map (·.baseId)).getD [] else baseId

variable {a b : GraphScope}

theorem diff_eq_nil_iff : a.diff b = [] ↔
    a.environment = b.environment ∧ a.policy.minimumTrust = b.policy.minimumTrust ∧
    a.identityHasher = b.identityHasher ∧ a.preambleSha256 = b.preambleSha256 ∧
    a.axiomPolicyVersion = b.axiomPolicyVersion ∧
    a.envelopeSchemaVersion = b.envelopeSchemaVersion ∧
    a.goalkeySchemaVersion = b.goalkeySchemaVersion ∧ a.scopeVersion = b.scopeVersion := by
  simp [diff, List.filterMap_eq_nil_iff]

structure Current (a : GraphScope) : Prop where
  axiomPolicy : a.axiomPolicyVersion = 1
  envelope : a.envelopeSchemaVersion = 1
  goalkey : a.goalkeySchemaVersion = 1
  scope : a.scopeVersion = 1

theorem current_resolve (stored : Option GraphScope) (environment sha : Text)
    (hasher : Option HasherName) (trust : Option AxiomPolicy) :
    (resolve stored environment sha hasher trust).Current :=
  ⟨rfl, rfl, rfl, rfl⟩

theorem diff_resolve_unstated (ha : a.Current) (sha : Text) :
    a.diff (resolve (some a) a.environment sha none none) = [] ↔ a.preambleSha256 = sha := by
  rw [diff_eq_nil_iff]
  simp [resolve, ha.axiomPolicy, ha.envelope, ha.goalkey, ha.scope]

end GraphScope

structure PreambleContext where
  imports : List Text
  /-- `ctx.raw`, absent when nothing follows the imports. -/
  raw : Option Text

def isComment (line : Text) : Bool := "--".toList.isPrefixOf line

/-- The imports at the top, and the first line that is neither an import nor blank nor a
comment with all that follow it. -/
def splitImports : List Text → List Text × List Text
  | [] => ([], [])
  | line :: lines =>
    if "import ".toList.isPrefixOf (strip line) then
      let later := splitImports lines
      (strip line :: later.1, later.2)
    else if strip line ≠ [] ∧ isComment (strip line) = false then ([], line :: lines)
    else splitImports lines

def danglingIn (line : Text) : Bool :=
  line = "in".toList ||
    match line.reverse with
    | 'n' :: 'i' :: c :: _ => isSpace c
    | _ => false

def preambleContext (preamble : Text) : Except Text PreambleContext :=
  let parts := splitImports (splitlines (strip preamble))
  let rest := strip (join ['\n'] parts.2)
  let lines := (splitlines rest).reverse.map strip
  let last := (lines.find? fun line => line ≠ [] && !isComment line).getD []
  if danglingIn last then
    .error ("the preamble ends with `".toList ++ last ++
      ("`, which scopes only the next command; after the split there is none. Put the `open` " ++
       "in the preamble without `in`, or inside the edit region").toList)
  else .ok { imports := parts.1, raw := if rest = [] then none else some rest }

def writtenPreamble (text : Text) : Text := strip text ++ ['\n']

/-- What `_read_preamble` makes of the file when the command states no preamble. -/
def storedPreamble : Option Text → Text
  | some file => strip (universalNewlines file)
  | none => []

theorem storedPreamble_written {text : Text} (h : '\r' ∉ strip text) :
    storedPreamble (some (writtenPreamble text)) = strip text := by
  have hfile : '\r' ∉ writtenPreamble text := by
    simpa [writtenPreamble] using h
  rw [storedPreamble, universalNewlines_of_no_return hfile, writtenPreamble,
    strip_append_blank (by decide)]
  exact strip_of_trimmed (trimmed_strip text)

end EvoHarness.Proof
