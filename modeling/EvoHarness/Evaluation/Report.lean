import EvoHarness.Evaluation.Evidence

/-! What a grader may return, its strict reading, and the envelope made from it. -/
namespace EvoHarness.Evaluation
open PyText Json Hoare
open Research (Coverage ScoreNamespace)

/-- A string. `none` is one with a lone surrogate, which UTF-8 cannot encode. -/
abbrev PyStr := Option Text

inductive PyFloat where
  | finite (n : Numeral)
  | nan
  | infinite (positive : Bool)

inductive PyValue where
  | none
  | bool (b : Bool)
  | int (z : ℤ)
  | float (x : PyFloat)
  | str (s : PyStr)
  | list (xs : List PyValue)
  | tuple (xs : List PyValue)
  | dict (items : List (PyValue × PyValue))
  | other (typeName : Text)

def truthy : PyValue → Bool
  | .none => false
  | .bool b => b
  | .int z => z ≠ 0
  | .float (.finite n) => n.text ≠ "0.0".toList ∧ n.text ≠ "-0.0".toList
  | .float _ => true
  | .str s => s ≠ some []
  | .list xs => !xs.isEmpty
  | .tuple xs => !xs.isEmpty
  | .dict items => !items.isEmpty
  | .other _ => true

def isString (t : Text) : PyValue → Bool
  | .str (some s) => s = t
  | _ => false

def equalsOne : PyValue → Bool
  | .bool b => b
  | .int z => z = 1
  | .float (.finite n) => n.text = "1.0".toList
  | _ => false

def member (d : List (PyValue × PyValue)) (key : Text) : PyValue :=
  ((d.find? fun item => isString key item.1).map (·.2)).getD .none

def hasMember (d : List (PyValue × PyValue)) (key : Text) : Bool := d.any fun item => isString key item.1

def memberOr (d : List (PyValue × PyValue)) (key : Text) (default : PyValue) : PyValue :=
  if hasMember d key then member d key else default

mutual

def PyValue.encodable : PyValue → Bool
  | .str s => s.isSome
  | .list xs => encodableItems xs
  | .tuple xs => encodableItems xs
  | .dict items => encodablePairs items
  | _ => true

def encodableItems : List PyValue → Bool
  | [] => true
  | x :: xs => x.encodable && encodableItems xs

def encodablePairs : List (PyValue × PyValue) → Bool
  | [] => true
  | (k, x) :: items => k.encodable && x.encodable && encodablePairs items

end

def PyFloat.negative : PyFloat → Bool
  | .finite n => Evaluation.negative n
  | .nan => false
  | .infinite positive => !positive

def exact (z : ℤ) : Bool := 2 ^ (Nat.size z.natAbs - 53) ∣ z.natAbs

structure EvalReport where
  fitness : PyValue
  passed : PyValue
  fault : PyValue := .none
  visibleMetrics : PyValue := .dict []
  hiddenMetrics : PyValue := .dict []
  notes : PyValue := .str (some [])
  structuredFeedback : PyValue := .none
  artifactsRef : PyValue := .none
  stdoutLog : PyValue := .str (some [])
  stderrLog : PyValue := .str (some [])
  stageReached : PyValue := .int 3
  executionTime : PyValue := .float (.finite zero)
  evalCostUsd : PyValue := .float (.finite zero)
  nUnits : PyValue := .int 0
  trustworthyUnits : PyValue := .none
  sem : PyValue := .float (.finite zero)
  faultKind : PyValue := .none

structure WireReport where
  fitness : PyFloat
  passed : Bool
  fault : Option PyStr
  visibleMetrics : List (PyValue × PyValue) := []
  hiddenMetrics : List (PyValue × PyValue) := []
  notes : PyStr := some []
  structuredFeedback : Option (List (PyValue × PyValue)) := none
  artifactsRef : Option PyStr := none
  stdoutLog : PyStr := some []
  stderrLog : PyStr := some []
  stageReached : ℤ := 3
  executionTime : PyFloat := .finite zero
  evalCostUsd : PyFloat := .finite zero
  nUnits : ℤ := 0
  trustworthyUnits : Option ℤ := none
  sem : PyFloat := .finite zero
  faultKind : Option PyStr := none

def wireFault (name message : String) {α : Type} : Except EvidenceFault α :=
  mistyped ("EvalReport ".toList ++ name.toList ++ message.toList)

def wireNegative (name : String) {α : Type} : Except EvidenceFault α :=
  mismatched ("EvalReport ".toList ++ name.toList ++ " must be non-negative".toList)

def signed (name : String) (nonNegative : Bool) (x : PyFloat) : Except EvidenceFault PyFloat :=
  if nonNegative && x.negative then wireNegative name else .ok x

def wireNumber (fm : EvidenceFormats) (name : String) (nonNegative : Bool) : PyValue → Except EvidenceFault PyFloat
  | .int z =>
    match fm.float (.ofInt z) with
    | some n => signed name nonNegative (.finite n)
    | none => .error .overflowError
  | .float x => signed name nonNegative x
  | _ => wireFault name " must be numeric"

def wireInt (name : String) : PyValue → Except EvidenceFault ℤ
  | .int z => if z < 0 then wireNegative name else .ok z
  | _ => wireFault name " must be an integer"

def wireMapping (name : String) : PyValue → Except EvidenceFault (List (PyValue × PyValue))
  | .dict items => .ok items
  | _ => wireFault name " must be a JSON object"

def wireString (name : String) : PyValue → Except EvidenceFault PyStr
  | .str s => .ok s
  | _ => wireFault name " must be a string"

def wireOptional {α : Type} (read : PyValue → Except EvidenceFault α) : PyValue → Except EvidenceFault (Option α)
  | .none => .ok none
  | x => (read x).map some

def wireOptionalString (name : String) : PyValue → Except EvidenceFault (Option PyStr)
  | .none => .ok none
  | .str s => .ok (some s)
  | _ => wireFault name " must be a string or None"

def wirePassed : PyValue → Except EvidenceFault Bool
  | .bool b => .ok b
  | _ => wireFault "passed" " must be bool"

def PyStr.blank (s : PyStr) : Bool := s.any fun t => strip t = []

def wireFaultKind : PyValue → Except EvidenceFault (Option PyStr)
  | .none => .ok none
  | .str s => if PyStr.blank s then wireFault "fault_kind" " must be a string or None" else .ok (some s)
  | _ => wireFault "fault_kind" " must be a string or None"

def wireFinite (fm : EvidenceFormats) (r : EvalReport) (passed : Bool) (fitness : PyFloat)
    (faultKind : Option PyStr) : Except EvidenceFault WireReport := do
  let visibleMetrics ← wireMapping "visible_metrics" r.visibleMetrics
  let hiddenMetrics ← wireMapping "hidden_metrics" r.hiddenMetrics
  let structuredFeedback ← wireOptional (wireMapping "structured_feedback") r.structuredFeedback
  let trustworthyUnits ← wireOptional (wireInt "trustworthy_units") r.trustworthyUnits
  let fault ← wireOptionalString "fault" r.fault
  let notes ← wireString "notes" r.notes
  let artifactsRef ← wireOptionalString "artifacts_ref" r.artifactsRef
  let stdoutLog ← wireString "stdout_log" r.stdoutLog
  let stderrLog ← wireString "stderr_log" r.stderrLog
  let stageReached ← wireInt "stage_reached" r.stageReached
  let executionTime ← wireNumber fm "execution_time" true r.executionTime
  let evalCostUsd ← wireNumber fm "eval_cost_usd" true r.evalCostUsd
  let nUnits ← wireInt "n_units" r.nUnits
  let sem ← wireNumber fm "sem" true r.sem
  return {
    fitness, passed, fault, visibleMetrics, hiddenMetrics, notes, structuredFeedback, artifactsRef, stdoutLog,
    stderrLog, stageReached, executionTime, evalCostUsd, nUnits, trustworthyUnits, sem, faultKind }

def wireFitness (fm : EvidenceFormats) (r : EvalReport) (passed : Bool) (faultKind : Option PyStr) :
    PyFloat → Except EvidenceFault WireReport
  | .finite n => wireFinite fm r passed (.finite n) faultKind
  | .nan => .ok { fitness := .finite zero, passed := false, fault := some (some "non-finite fitness: nan".toList) }
  | .infinite true =>
    .ok { fitness := .finite zero, passed := false, fault := some (some "non-finite fitness: inf".toList) }
  | .infinite false =>
    .ok { fitness := .finite zero, passed := false, fault := some (some "non-finite fitness: -inf".toList) }

def EvalReport.fromJson (fm : EvidenceFormats) (r : EvalReport) : Except EvidenceFault WireReport := do
  let passed ← wirePassed r.passed
  let fitness ← wireNumber fm "fitness" false r.fitness
  let faultKind ← wireFaultKind r.faultKind
  if passed && faultKind.isSome then mismatched "passed report cannot carry fault_kind".toList
  else wireFitness fm r passed faultKind fitness

/-- A number that is not the one the report has: an integer that was rounded, or what replaces a
fitness that is not finite. -/
def PyValue.differs : PyValue → PyFloat → Bool
  | .int z, _ => !exact z
  | .float (.finite _), _ => false
  | .float _, .finite _ => true
  | _, _ => false

/-- `normalized_report.to_json() != report.to_json()`: everything but the numbers is the same object. -/
def EvalReport.differs (r : EvalReport) (w : WireReport) : Bool :=
  r.fitness.differs w.fitness || r.executionTime.differs w.executionTime || r.evalCostUsd.differs w.evalCostUsd ||
    r.sem.differs w.sem

def normalizedReport (fm : EvidenceFormats) (r : EvalReport) : Except EvidenceFault WireReport :=
  match r.fromJson fm with
  | .error (.typeError m) | .error (.valueError m) | .error (.protocolError _ m) =>
    .error (.protocolError .protocolError ("invalid EvalReport: ".toList ++ m))
  | .error f => .error f
  | .ok w =>
    if r.differs w then
      .error (.protocolError .protocolError "EvalReport changed during strict wire validation".toList)
    else .ok w

def classifyFault (passed : Bool) (faultKind : Option PyStr) : Option FaultKind :=
  match passed, faultKind with
  | true, none => none
  | true, some _ => some .protocolError
  | false, none => some .taskFailure
  | false, some s => some ((s.bind FaultKind.ofValue).getD .unknown)

/-- `json.dumps` of a report, and how deep `freeze_json` can go. -/
structure Interpreter where
  dumps : WireReport → Except EvidenceFault Text
  recursionLimit : ℕ

def WireReport.encodable (w : WireReport) : Bool :=
  w.fault.all (·.isSome) && encodablePairs w.visibleMetrics && encodablePairs w.hiddenMetrics && w.notes.isSome &&
    w.structuredFeedback.all encodablePairs && w.artifactsRef.all (·.isSome) && w.stdoutLog.isSome &&
    w.stderrLog.isSome && w.faultKind.all (·.isSome)

def reportText (py : Interpreter) (w : WireReport) : Except EvidenceFault Text :=
  match py.dumps w with
  | .error f => .error f
  | .ok text =>
    if w.encodable then .ok text
    else .error (.valueError "'utf-8' codec can't encode: surrogates not allowed".toList)

def freezeKey (path : Text) : PyValue → Except EvidenceFault Text
  | .str (some k) => .ok k
  | .str none => mismatched "surrogates not allowed".toList
  | _ => mistyped (path ++ " keys must be strings".toList)

def freezeJson : ℕ → Text → PyValue → Except EvidenceFault Value
  | 0, _, _ => .error .recursionError
  | _ + 1, _, .none => .ok .null
  | _ + 1, _, .bool b => .ok (.bool b)
  | _ + 1, _, .int z => .ok (.number (.ofInt z))
  | _ + 1, _, .float (.finite n) => .ok (.number n)
  | _ + 1, path, .float _ => mismatched (path ++ " contains a non-finite float".toList)
  | _ + 1, _, .str (some t) => .ok (.string t)
  | _ + 1, _, .str none => mismatched "surrogates not allowed".toList
  | n + 1, path, .dict items => do
    let frozen ← items.mapM fun item => do
      let key ← freezeKey path item.1
      let value ← freezeJson n (path ++ '.' :: key) item.2
      return (key, value)
    return .object frozen
  | n + 1, path, .list xs | n + 1, path, .tuple xs => do
    let frozen ← xs.zipIdx.mapM fun x => freezeJson n (path ++ '[' :: Nat.toDigits 10 x.2 ++ [']']) x.1
    return .array frozen
  | _ + 1, path, .other typeName => mistyped (path ++ " contains non-JSON value ".toList ++ typeName)

def pyString (t : String) : PyValue := .str (some t.toList)

def optionalStr : Option PyStr → PyValue
  | none => .none
  | some s => .str s

def optionalInt : Option ℤ → PyValue
  | none => .none
  | some z => .int z

def reportProvenance (fm : EvidenceFormats) (w : WireReport) (text : Text) : PyValue :=
  .dict [(pyString "stage_reached", .int w.stageReached), (pyString "execution_time", .float w.executionTime),
    (pyString "sem", .float w.sem), (pyString "n_units", .int w.nUnits),
    (pyString "trustworthy_units", optionalInt w.trustworthyUnits), (pyString "fault", optionalStr w.fault),
    (pyString "raw_report_hash", .str (some (fm.hash text)))]

def finiteOr (message : Text) : PyFloat → Except EvidenceFault Numeral
  | .finite n => .ok n
  | _ => mismatched message

def encoded : PyStr → Except EvidenceFault Text
  | some t => .ok t
  | none => mismatched "'utf-8' codec can't encode: surrogates not allowed".toList

def encodedOptional : Option PyStr → Except EvidenceFault (Option Text)
  | none => .ok none
  | some s => (encoded s).map some

def refuse (blank : Bool) (message : String) : Except EvidenceFault Unit :=
  if blank then mismatched message.toList else .ok ()

def trustworthyOf (planned : ℤ) (fault : Option FaultKind) (w : WireReport) : Except EvidenceFault ℤ :=
  match w.trustworthyUnits with
  | some z => .ok z
  | none =>
    if 0 < planned ∧ fault = none then
      .error (.protocolError .protocolError
        "successful declared measurement must report trustworthy_units".toList)
    else .ok (if planned = 0 then w.nUnits else 0)

structure GraderSetup (fm : EvidenceFormats) where
  py : Interpreter
  scoreNamespace : ScoreNamespace
  plannedUnits : ℤ

variable {fm : EvidenceFormats}

def GraderSetup.verdict (g : GraderSetup fm) (candidateId : PyStr) (w : WireReport) (fault : Option FaultKind) :
    Except EvidenceFault (EvidenceEnvelope fm) := do
  let trustworthy ← trustworthyOf g.plannedUnits fault w
  let coverage ← coverageOf g.plannedUnits w.nUnits trustworthy
  let text ← reportText g.py w
  refuse (PyStr.blank candidateId) "candidate_id must be non-empty"
  let fitness ← finiteOr "fitness must be a finite number or None".toList w.fitness
  let budgetUsedUsd ← finiteOr "budget_used_usd must be non-negative and finite".toList w.evalCostUsd
  refuse (w.artifactsRef.any PyStr.blank) "artifacts_ref must be non-empty when present"
  let observations ← freezeJson g.py.recursionLimit "observations".toList
    (.dict [(pyString "visible_metrics", .dict w.visibleMetrics), (pyString "hidden_metrics", .dict w.hiddenMetrics)])
  let provenance ← freezeJson g.py.recursionLimit "provenance".toList (reportProvenance fm w text)
  let id ← encoded candidateId
  let artifactsRef ← encodedOptional w.artifactsRef
  EvidenceEnvelope.make fm {
    candidateId := id
    scoreNamespace := g.scoreNamespace
    evaluationValid := true
    admissible := some (decide (fault ≠ some .invalidCandidate))
    fitness := some fitness
    faultKind := fault
    coverage, observations, budgetUsedUsd, provenance, artifactsRef }

/-- `envelope_from_report`. `none` is a value that is no `EvalReport`. -/
def GraderSetup.envelopeFromReport (g : GraderSetup fm) (candidateId : PyStr) :
    Option EvalReport → Except EvidenceFault (EvidenceEnvelope fm)
  | none => .error (.protocolError .protocolError "grader must return EvalReport".toList)
  | some r => do
    let w ← normalizedReport fm r
    let fault := classifyFault w.passed w.faultKind
    match fault.filter (·.noVerdict) with
    | some k => .error (.protocolError k (k.value ++ " cannot be returned as a verdict report".toList))
    | none => g.verdict candidateId w fault

def GraderSetup.noVerdictEnvelope (g : GraderSetup fm) (candidateId : PyStr) (kind : FaultKind) (reason : PyStr) :
    Except EvidenceFault (EvidenceEnvelope fm) := do
  let coverage ← coverageOf g.plannedUnits 0 0
  let id ← encoded candidateId
  let reason ← encoded reason
  EvidenceEnvelope.make fm {
    candidateId := id
    scoreNamespace := g.scoreNamespace
    evaluationValid := false
    admissible := none
    fitness := none
    faultKind := some kind
    coverage
    missingReasons := [if strip reason = [] then kind.value else strip reason]
    budgetUsedUsd := zero }

structure SearchUseDecision where
  recordable : Bool
  selectable : Bool
  archiveEligible : Bool
  repairable : Bool
  rankable : Bool
  projectedFitness : Option Numeral
  reason : Text

def SearchUseDecision.quarantine (d : SearchUseDecision) : Bool := d.recordable && !d.selectable && !d.repairable

def decideSearchUse (e : EvidenceBody) : SearchUseDecision :=
  if e.evaluationValid = false then ⟨false, false, false, false, false, none, "no-verdict".toList⟩
  else if e.admissible ≠ some true then ⟨true, false, false, false, false, e.fitness, "invalid-candidate".toList⟩
  else if e.faultKind = some .taskFailure ∨ e.faultKind = some .timeout then
    ⟨true, false, false, true, false, e.fitness, ((e.faultKind.map (·.value)).getD [])⟩
  else if e.faultKind ≠ none then ⟨false, false, false, false, false, none, "unsupported-fault".toList⟩
  else if e.coverage.complete then ⟨true, true, true, false, true, e.fitness, "complete-verdict".toList⟩
  else if e.coverage.plannedUnits = 0 then
    ⟨true, true, true, false, false, e.fitness, "legacy-coverage-undeclared".toList⟩
  else ⟨true, false, false, false, false, e.fitness, "partial-coverage".toList⟩

end EvoHarness.Evaluation
