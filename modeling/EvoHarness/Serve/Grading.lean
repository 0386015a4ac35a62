import EvoHarness.Evaluation.Report

/-! What a `grade_fn` may return, and the report that is made of it. -/
namespace EvoHarness.Serve
open PyText Json Evaluation

/-- Python, as far as the service uses it on values of any kind: `float` of an integer, `str`, `repr`, the text of a set,
`==` of two values that are keys, and `in` of two strings. -/
structure Builtins where
  formats : EvidenceFormats
  str : PyValue → Text
  repr : PyValue → Text
  reprSet : List PyValue → Text
  same : PyValue → PyValue → Bool
  within : PyStr → Text → Bool
  same_symm : ∀ x y, same x y = true → same y x = true
  same_trans : ∀ x y z, same x y = true → same y z = true → same x z = true

inductive GradeFault where
  | typeError (message : Text)
  | valueError (message : Text)
  | overflowError

abbrev Grade := Evaluation.EvalReport

inductive GradeValue where
  | grade (g : Grade)
  | value (x : PyValue)

def gradeFields : List Text :=
  ["fitness".toList, "passed".toList, "fault".toList, "visible_metrics".toList, "hidden_metrics".toList,
    "notes".toList, "structured_feedback".toList, "artifacts_ref".toList, "stdout_log".toList, "stderr_log".toList,
    "stage_reached".toList, "execution_time".toList, "eval_cost_usd".toList, "n_units".toList,
    "trustworthy_units".toList, "sem".toList, "fault_kind".toList]

def gradeOf (raw : List (PyValue × PyValue)) : Grade where
  fitness := member raw "fitness".toList
  passed := memberOr raw "passed".toList (.bool true)
  fault := member raw "fault".toList
  visibleMetrics := memberOr raw "visible_metrics".toList (.dict [])
  hiddenMetrics := memberOr raw "hidden_metrics".toList (.dict [])
  notes := memberOr raw "notes".toList (.str (some []))
  structuredFeedback := member raw "structured_feedback".toList
  artifactsRef := member raw "artifacts_ref".toList
  stdoutLog := memberOr raw "stdout_log".toList (.str (some []))
  stderrLog := memberOr raw "stderr_log".toList (.str (some []))
  stageReached := memberOr raw "stage_reached".toList (.int 3)
  executionTime := memberOr raw "execution_time".toList (.float (.finite zero))
  evalCostUsd := memberOr raw "eval_cost_usd".toList (.float (.finite zero))
  nUnits := memberOr raw "n_units".toList (.int 0)
  trustworthyUnits := member raw "trustworthy_units".toList
  sem := memberOr raw "sem".toList (.float (.finite zero))
  faultKind := member raw "fault_kind".toList

def typeError {α : Type} (message : String) : Except GradeFault α := .error (.typeError message.toList)

def valueError {α : Type} (message : String) : Except GradeFault α := .error (.valueError message.toList)

def typeName : PyValue → Text
  | .none => "NoneType".toList
  | .bool _ => "bool".toList
  | .int _ => "int".toList
  | .float _ => "float".toList
  | .str _ => "str".toList
  | .list _ => "list".toList
  | .tuple _ => "tuple".toList
  | .dict _ => "dict".toList
  | .other typeName => typeName

def mapping (name : String) : PyValue → Except GradeFault (List (PyValue × PyValue))
  | .dict items => .ok items
  | _ => typeError (name ++ " must be a dict")

def optionalMapping (name : String) : PyValue → Except GradeFault (Option (List (PyValue × PyValue)))
  | .none => .ok none
  | .dict items => .ok (some items)
  | _ => typeError (name ++ " must be a dict or None")

def string (name : String) : PyValue → Except GradeFault PyStr
  | .str s => .ok s
  | _ => typeError (name ++ " must be a string")

def optionalString (name : String) : PyValue → Except GradeFault (Option PyStr)
  | .none => .ok none
  | .str s => .ok (some s)
  | _ => typeError (name ++ " must be a string or None")

def natural (name : String) : PyValue → Except GradeFault ℤ
  | .int z => if z < 0 then valueError (name ++ " must be a non-negative integer") else .ok z
  | _ => valueError (name ++ " must be a non-negative integer")

def trusted (nUnits : ℤ) : PyValue → Except GradeFault (Option ℤ)
  | .none => .ok none
  | .int z =>
    if z < 0 ∨ nUnits < z then valueError "trustworthy_units must be None or an integer in [0, n_units]" else .ok (some z)
  | _ => valueError "trustworthy_units must be None or an integer in [0, n_units]"

def checkFaultKind : PyValue → Except GradeFault (Option PyStr)
  | .none => .ok none
  | .str s => if PyStr.blank s then typeError "fault_kind must be a non-empty string or None" else .ok (some s)
  | _ => typeError "fault_kind must be a non-empty string or None"

def checkPassed : PyValue → Except GradeFault Bool
  | .bool b => .ok b
  | _ => typeError "passed must be bool"

variable (py : Builtins)

/-- `float(x)`, which is too large for some integers, or what is raised for what is no number. -/
def asFloat (other : GradeFault) : PyValue → Except GradeFault PyFloat
  | .int z =>
    match py.formats.float (.ofInt z) with
    | some n => .ok (.finite n)
    | none => .error .overflowError
  | .float x => .ok x
  | _ => .error other

def isFinite : PyFloat → Bool
  | .finite _ => true
  | _ => false

def nonNegative (name : String) (x : PyValue) : Except GradeFault PyFloat := do
  let f ← asFloat py (.valueError (name ++ " must be non-negative and finite").toList) x
  if isFinite f = false || f.negative then valueError (name ++ " must be non-negative and finite") else return f

/-- The first part of `coerce_grade`; a `Grade` of its own passed. -/
def asGrade : GradeValue → Except GradeFault Grade
  | .grade g => .ok g
  | .value (.bool _) => typeError "grade_fn returned bool; return float or dict"
  | .value (.int z) => do
    let f ← asFloat py .overflowError (.int z)
    return { fitness := .float f, passed := .bool true }
  | .value (.float f) => .ok { fitness := .float f, passed := .bool true }
  | .value (.dict raw) =>
    let unknown := (raw.map (·.1)).filter fun key => !gradeFields.any fun name => isString name key
    if unknown ≠ [] then .error (.valueError ("Unknown fields in grade dict: ".toList ++ py.reprSet unknown))
    else if hasMember raw "fitness".toList = false then
      .error (.valueError ("Missing required field 'fitness' in grade dict: ".toList ++ py.repr (.dict raw)))
    else .ok (gradeOf raw)
  | .value x => .error (.typeError ("Invalid grade value: ".toList ++ typeName x))

def checkFitness (x : PyValue) : Except GradeFault PyFloat := do
  let f ← asFloat py (.typeError "fitness must be numeric".toList) x
  if isFinite f = false then .error (.valueError ("fitness must be finite, got ".toList ++ py.repr x)) else return f

/-- The checks of `coerce_grade`, in the order of the source, and what it returns. -/
def checkGrade (grade : Grade) : Except GradeFault WireReport := do
  let fitness ← checkFitness py grade.fitness
  let passed ← checkPassed grade.passed
  let faultKind ← checkFaultKind grade.faultKind
  if passed && faultKind.isSome then valueError "passed grade cannot carry fault_kind"
  else
    let visibleMetrics ← mapping "visible_metrics" grade.visibleMetrics
    let hiddenMetrics ← mapping "hidden_metrics" grade.hiddenMetrics
    let structuredFeedback ← optionalMapping "structured_feedback" grade.structuredFeedback
    let fault ← optionalString "fault" grade.fault
    let artifactsRef ← optionalString "artifacts_ref" grade.artifactsRef
    let notes ← string "notes" grade.notes
    let stdoutLog ← string "stdout_log" grade.stdoutLog
    let stderrLog ← string "stderr_log" grade.stderrLog
    let stageReached ← natural "stage_reached" grade.stageReached
    let nUnits ← natural "n_units" grade.nUnits
    let trustworthyUnits ← trusted nUnits grade.trustworthyUnits
    let sem ← nonNegative py "sem" grade.sem
    let executionTime ← nonNegative py "execution_time" grade.executionTime
    let evalCostUsd ← nonNegative py "eval_cost_usd" grade.evalCostUsd
    return {
      fitness, passed, fault, visibleMetrics, hiddenMetrics, notes, structuredFeedback, artifactsRef, stdoutLog,
      stderrLog, stageReached, executionTime, evalCostUsd, nUnits, trustworthyUnits, sem, faultKind }

def coerceGrade (raw : GradeValue) : Except GradeFault WireReport := do
  let grade ← asGrade py raw
  checkGrade py grade

end EvoHarness.Serve
