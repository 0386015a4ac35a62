import EvoHarness.Research.Assessment

/-! Decision requests, and the ledger they are submitted to. -/
namespace EvoHarness.Research
open PyText

structure DecisionPolicy where
  allowedActions : List Text
  defaultAction : Text
  approvalRequired : Bool := true
deriving DecidableEq

def decisionPolicies : List (Text × DecisionPolicy) :=
  [("protocol-change".toList,
      ⟨["approve-protocol-change".toList, "request-more-evidence".toList, "veto".toList], "veto".toList, true⟩),
    ("breakthrough".toList, ⟨["approve".toList, "request-more-evidence".toList, "veto".toList], "veto".toList, true⟩),
    ("budget-expansion".toList, ⟨["approve".toList, "revise".toList, "veto".toList], "veto".toList, true⟩),
    ("ranking-flip".toList, ⟨["approve".toList, "request-more-evidence".toList, "veto".toList], "veto".toList, true⟩),
    ("generic".toList, ⟨["approve".toList, "branch".toList, "veto".toList, "revise".toList,
      "request-more-evidence".toList], "veto".toList, true⟩)]

def policyOf (kind : Text) : Option DecisionPolicy := (decisionPolicies.find? (·.1 = kind)).map (·.2)

/-- What a request says. Its allowed actions, default and approval follow from its kind. -/
structure RequestBody where
  kind : Text
  experimentId : Text
  question : Text
  alternatives : List Text
  recommendedAction : Text
  evidenceRefs : List Text := []
  uncertainty : Text := []
  consequenceOfWaiting : Text := []
  estimatedCosts : List (Text × ℚ) := []
  subjectHash : Text := []
  payload : Text
deriving DecidableEq

/-- `spec_hash` of a request without its time, the canonical JSON of a payload that is an
object, and how `repr` shows texts. -/
structure Encoders where
  requestHash : RequestBody → Text
  canonicalObject : Text → Except Fault Text
  repr : Text → Text
  reprs : List Text → Text

variable (enc : Encoders)

def checkCosts (policy : DecisionPolicy) : List Text → List (Text × ℚ) → Except Fault Unit
  | _, [] => .ok ()
  | seen, (action, cost) :: rest =>
    if action ∉ policy.allowedActions then
      .error (.valueError ("cost supplied for disallowed action ".toList ++ enc.repr action))
    else if action ∈ seen then
      .error (.valueError ("duplicate estimated cost for action ".toList ++ enc.repr action))
    else if cost < 0 then .error (.valueError "estimated costs must be non-negative and finite".toList)
    else checkCosts policy (action :: seen) rest

def RequestBody.check (b : RequestBody) : Except Fault Unit :=
  match [("kind".toList, b.kind), ("experiment_id".toList, b.experimentId), ("question".toList, b.question)].find?
      (fun p => strip p.2 = []) with
  | some (name, _) => .error (.valueError (name ++ " must be a non-empty string".toList))
  | none =>
    match policyOf b.kind with
    | none => .error (.valueError ("unknown decision kind ".toList ++ enc.repr b.kind ++
        "; expected one of ".toList ++ enc.reprs ((decisionPolicies.map (·.1)).mergeSort fun a b => decide (a ≤ b))))
    | some policy =>
      if b.recommendedAction ∉ policy.allowedActions then
        .error (.valueError "recommended_action must be allowed by the decision-kind policy".toList)
      else if b.alternatives = [] then .error (.valueError "alternatives must be non-empty".toList)
      else if b.kind ≠ "generic".toList ∧ strip b.subjectHash = [] then
        .error (.valueError (b.kind ++ " requests require a subject_hash".toList))
      else if b.evidenceRefs.any (fun ref => strip ref = []) then
        .error (.valueError "evidence_refs must contain non-empty strings".toList)
      else checkCosts enc policy [] b.estimatedCosts

structure DecisionRequest extends RequestBody where
  createdAt : ℚ
  checked : toRequestBody.check enc = .ok ()
deriving DecidableEq

def DecisionRequest.requestId (r : DecisionRequest enc) : Text := enc.requestHash r.toRequestBody

def DecisionRequest.make (b : RequestBody) (createdAt : ℚ) : Except Fault (DecisionRequest enc) :=
  match enc.canonicalObject b.payload with
  | .error e => .error e
  | .ok payload =>
    match h : ({ b with payload } : RequestBody).check enc with
    | .ok () => .ok ⟨{ b with payload }, createdAt, h⟩
    | .error e => .error e

structure ResearchDecision where
  experimentId : Text
  action : Text
  reason : Text
  actor : Text
  createdAt : ℚ
  requestId : Text
  source : Text
deriving DecidableEq

end EvoHarness.Research
