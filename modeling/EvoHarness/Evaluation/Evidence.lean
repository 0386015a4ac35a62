import EvoHarness.Library.JsonMembers
import EvoHarness.Library.Hoare
import EvoHarness.Research.Assessment

/-! Evidence envelopes with everything they record, the line that stores one, and reading it
back. -/
namespace EvoHarness.Evaluation
open PyText Json Hoare
open Research (Coverage ScoreNamespace)

inductive FaultKind where
  | missing
  | infraError
  | protocolError
  | taskFailure
  | timeout
  | invalidCandidate
  | unknown
deriving DecidableEq

namespace FaultKind

def value : FaultKind → Text
  | .missing => "missing".toList
  | .infraError => "infra_error".toList
  | .protocolError => "protocol_error".toList
  | .taskFailure => "task_failure".toList
  | .timeout => "timeout".toList
  | .invalidCandidate => "invalid_candidate".toList
  | .unknown => "unknown".toList

def all : List FaultKind :=
  [.missing, .infraError, .protocolError, .taskFailure, .timeout, .invalidCandidate, .unknown]

def ofValue (t : Text) : Option FaultKind := all.find? (·.value = t)

def noVerdict : FaultKind → Bool
  | .missing | .infraError | .protocolError | .unknown => true
  | _ => false

theorem ofValue_value (k : FaultKind) : ofValue k.value = some k := by
  cases k <;> decide

end FaultKind

inductive EvidenceFault where
  | protocolError (kind : FaultKind) (message : Text)
  | typeError (message : Text)
  | valueError (message : Text)
  | overflowError
  | recursionError
deriving DecidableEq

theorem zero_isNumeral : isNumeral "0.0".toList = true := by decide

def zero : Numeral := ⟨"0.0".toList, zero_isNumeral⟩

/-- `float` of a number, as `repr` writes it, and SHA-256 of a text. `none` is for what is not
finite. -/
structure EvidenceFormats where
  float : Numeral → Option Numeral
  hash : Text → Text
  float_float : ∀ n m, float n = some m → float m = some m
  hash_real : ∀ t, hash t ≠ [] ∧ hash t ≠ "auto".toList
  float_zero : float zero = some zero

theorem float_some (n m : Numeral) (_ : some n = some m) : some m = some m := rfl

theorem some_zero : some zero = some zero := rfl

theorem marked_real (t : Text) : 'h' :: t ≠ [] ∧ 'h' :: t ≠ "auto".toList :=
  ⟨List.cons_ne_nil _ _, fun h => absurd (List.cons.inj h).1 (by decide)⟩

def negative (n : Numeral) : Bool :=
  n.text.head? = some '-' &&
    (n.text.takeWhile fun c => c ≠ 'e' ∧ c ≠ 'E').any fun c => '1' ≤ c && c ≤ '9'

structure EvidenceBody where
  candidateId : Text
  scoreNamespace : ScoreNamespace
  evaluationValid : Bool
  admissible : Option Bool
  fitness : Option Numeral
  faultKind : Option FaultKind
  coverage : Coverage
  objectiveMet : Option Bool := none
  objectiveVerifierHash : Option Text := none
  observations : Value := .object []
  missingReasons : List Text := []
  budgetUsedUsd : Numeral
  provenance : Value := .object []
  artifactsRef : Option Text := none

def protocol (message : Text) : Except EvidenceFault Unit := .error (.protocolError .protocolError message)

def EvidenceBody.checkVerdict (b : EvidenceBody) : Except EvidenceFault Unit :=
  if b.evaluationValid then
    if b.admissible = none ∨ b.fitness = none then
      protocol "valid evidence requires admissibility and fitness".toList
    else if b.faultKind.any (·.noVerdict) then protocol "no-verdict fault cannot mark evidence valid".toList
    else if b.admissible ≠ some (decide (b.faultKind ≠ some .invalidCandidate)) then
      protocol "admissibility contradicts fault_kind".toList
    else if b.missingReasons ≠ [] then protocol "valid evidence cannot carry missing reasons".toList
    else .ok ()
  else
    if b.admissible ≠ none ∨ b.fitness ≠ none then
      protocol "no-verdict evidence cannot carry admissibility or fitness".toList
    else if b.faultKind.any (·.noVerdict) = false then
      protocol "invalid evaluation requires a no-verdict fault".toList
    else if b.missingReasons = [] then protocol "no-verdict evidence requires a reason".toList
    else if b.objectiveMet ≠ none then protocol "no-verdict evidence cannot assess the objective".toList
    else .ok ()

def EvidenceBody.checkObjective (b : EvidenceBody) : Except EvidenceFault Unit :=
  if b.objectiveMet ≠ none ∧ strip (b.objectiveVerifierHash.getD []) = [] then
    protocol "objective assessment requires verifier identity".toList
  else if b.objectiveMet = none ∧ b.objectiveVerifierHash ≠ none then
    protocol "verifier identity requires an objective assessment".toList
  else if b.objectiveMet = some true ∧ (b.evaluationValid = false ∨ b.admissible ≠ some true ∨ b.faultKind ≠ none ∨
      b.coverage.complete = false) then
    protocol "objective_met=True requires complete admissible evidence".toList
  else .ok ()

/-- `normalize_and_validate_evidence`, on what has the right types. -/
def EvidenceBody.check (b : EvidenceBody) : Except EvidenceFault Unit :=
  if strip b.candidateId = [] then .error (.valueError "candidate_id must be non-empty".toList)
  else if negative b.budgetUsedUsd then
    .error (.valueError "budget_used_usd must be non-negative and finite".toList)
  else if b.artifactsRef.any fun ref => strip ref = [] then
    .error (.valueError "artifacts_ref must be non-empty when present".toList)
  else if b.missingReasons.any fun reason => strip reason = [] then
    .error (.valueError "missing_reasons must contain non-empty strings".toList)
  else
    match b.checkVerdict with
    | .error e => .error e
    | .ok () => b.checkObjective

/-- A body that passed its checks. Its numbers are floats, and its dictionaries list their keys
in order, each once. -/
structure EvidenceEnvelope (fm : EvidenceFormats) extends EvidenceBody where
  checked : toEvidenceBody.check = .ok ()
  fitness_float : fitness.map fm.float = fitness.map some
  budget_float : fm.float budgetUsedUsd = some budgetUsedUsd
  observations_sorted : sorted observations = observations
  provenance_sorted : sorted provenance = provenance
  observations_distinct : Distinct observations
  provenance_distinct : Distinct provenance

variable {fm : EvidenceFormats}

def optional {α : Type} (f : α → Value) (a : Option α) : Value := (a.map f).getD .null

def namespaceJson (n : ScoreNamespace) : Value :=
  .object [("criterion_hash".toList, .string n.criterionHash), ("measurement_hash".toList, .string n.measurementHash),
    ("evaluator_hash".toList, .string n.evaluatorHash), ("universe_hash".toList, .string n.universeHash)]

def coverageJson (c : Coverage) : Value :=
  .object [("planned_units".toList, .number (.ofNat c.plannedUnits)),
    ("executed_units".toList, .number (.ofNat c.executedUnits)),
    ("trustworthy_units".toList, .number (.ofNat c.trustworthyUnits))]

def EvidenceBody.content (b : EvidenceBody) : List (Text × Value) :=
  [("schema_version".toList, .number (.ofNat 1)), ("candidate_id".toList, .string b.candidateId),
    ("namespace".toList, namespaceJson b.scoreNamespace), ("evaluation_valid".toList, .bool b.evaluationValid),
    ("admissible".toList, optional .bool b.admissible), ("fitness".toList, optional .number b.fitness),
    ("fault_kind".toList, optional (fun k => .string k.value) b.faultKind),
    ("coverage".toList, coverageJson b.coverage), ("objective_met".toList, optional .bool b.objectiveMet),
    ("objective_verifier_hash".toList, optional .string b.objectiveVerifierHash),
    ("observations".toList, b.observations), ("missing_reasons".toList, .array (b.missingReasons.map .string)),
    ("budget_used_usd".toList, .number b.budgetUsedUsd), ("provenance".toList, b.provenance),
    ("artifacts_ref".toList, optional .string b.artifactsRef)]

def EvidenceBody.evidenceId (fm : EvidenceFormats) (b : EvidenceBody) : Text :=
  fm.hash (dumpsCompact (.object b.content))

def EvidenceEnvelope.toJson (e : EvidenceEnvelope fm) : List (Text × Value) :=
  ("evidence_id".toList, .string (e.evidenceId fm)) :: e.content

def EvidenceEnvelope.line (e : EvidenceEnvelope fm) : Text := dumpsCompact (.object e.toJson)

def keysAre (ps : List (Text × Value)) (names : List Text) : Bool :=
  ps.all (fun p => p.1 ∈ names) && names.all fun name => (get ps name).isSome

def mismatched (message : Text) {α : Type} : Except EvidenceFault α := .error (.valueError message)

def mistyped (message : Text) {α : Type} : Except EvidenceFault α := .error (.typeError message)

def namespaceFromJson : Option Value → Except EvidenceFault ScoreNamespace
  | some (.object ps) =>
    if keysAre ps ["criterion_hash".toList, "measurement_hash".toList, "evaluator_hash".toList,
        "universe_hash".toList] = false then mismatched "score namespace fields mismatch".toList
    else
      match get ps "criterion_hash".toList, get ps "measurement_hash".toList, get ps "evaluator_hash".toList,
          get ps "universe_hash".toList with
      | some (.string a), some (.string b), some (.string c), some (.string d) =>
        if h : ∀ t ∈ [a, b, c, d], strip t ≠ [] then .ok ⟨a, b, c, d, h⟩
        else mismatched "namespace fields must be non-empty".toList
      | _, _, _, _ => mismatched "namespace fields must be non-empty".toList
  | _ => mistyped "score namespace must be a JSON object".toList

def strictInt (name : Text) : Option Value → Except EvidenceFault ℤ
  | some (.number n) =>
    match n.toInt? with
    | some z => .ok z
    | none => mistyped (name ++ " must be an integer".toList)
  | _ => mistyped (name ++ " must be an integer".toList)

def coverageOf (planned executed trustworthy : ℤ) : Except EvidenceFault Coverage :=
  if planned < 0 then mismatched "planned_units must be non-negative".toList
  else if executed < 0 then mismatched "executed_units must be non-negative".toList
  else if trustworthy < 0 then mismatched "trustworthy_units must be non-negative".toList
  else if htrust : trustworthy.toNat ≤ executed.toNat then
    if hplan : 0 < planned.toNat → executed.toNat ≤ planned.toNat then
      .ok ⟨planned.toNat, executed.toNat, trustworthy.toNat, htrust, hplan⟩
    else mismatched "executed_units cannot exceed planned_units".toList
  else mismatched "trustworthy_units cannot exceed executed_units".toList

def decodeCoverage : Option Value → Except EvidenceFault Coverage
  | some (.object ps) =>
    if keysAre ps ["planned_units".toList, "executed_units".toList, "trustworthy_units".toList] = false then
      mismatched "coverage fields mismatch".toList
    else do
      let planned ← strictInt "planned_units".toList (get ps "planned_units".toList)
      let executed ← strictInt "executed_units".toList (get ps "executed_units".toList)
      let trustworthy ← strictInt "trustworthy_units".toList (get ps "trustworthy_units".toList)
      coverageOf planned executed trustworthy
  | _ => mistyped "coverage must be a JSON object".toList

def optionalBool (name : Text) : Option Value → Except EvidenceFault (Option Bool)
  | some .null => .ok none
  | some (.bool b) => .ok (some b)
  | _ => mistyped (name ++ " must be bool".toList)

/-- An integer that is too large for a float raises where it is tested for being finite. -/
def optionalFiniteFloat (fm : EvidenceFormats) (name : Text) : Option Value → Except EvidenceFault (Option Numeral)
  | some .null => .ok none
  | some (.number n) =>
    match fm.float n with
    | some m => .ok (some m)
    | none =>
      if n.isInteger then .error .overflowError else mistyped (name ++ " must be a finite number or None".toList)
  | _ => mistyped (name ++ " must be a finite number or None".toList)

def optionalText (message : Text) : Option Value → Except EvidenceFault (Option Text)
  | some .null => .ok none
  | some (.string t) => .ok (some t)
  | _ => mismatched message

def texts (message : Text) : List Value → Except EvidenceFault (List Text)
  | [] => .ok []
  | .string t :: rest => do
    let ts ← texts message rest
    return t :: ts
  | _ => mismatched message

/-- The callers hand over floats, and what `json.loads` or `freeze_json` gave. -/
def EvidenceEnvelope.make (fm : EvidenceFormats) (b : EvidenceBody) : Except EvidenceFault (EvidenceEnvelope fm) :=
  let b' := { b with observations := sorted b.observations, provenance := sorted b.provenance }
  if h : b.fitness.map fm.float = b.fitness.map some ∧ fm.float b.budgetUsedUsd = some b.budgetUsedUsd ∧
      Distinct b.observations ∧ Distinct b.provenance then
    match hchecked : b'.check with
    | .error e => .error e
    | .ok () => .ok {
        b' with
        checked := hchecked
        fitness_float := h.1
        budget_float := h.2.1
        observations_sorted := sorted_sorted b.observations
        provenance_sorted := sorted_sorted b.provenance
        observations_distinct := distinct_sorted b.observations h.2.2.1
        provenance_distinct := distinct_sorted b.provenance h.2.2.2 }
  else mistyped "fitness must be a finite number or None".toList

def EvidenceEnvelope.identified (id : Text) (e : EvidenceEnvelope fm) : Except EvidenceFault (EvidenceEnvelope fm) :=
  if id = "auto".toList then .ok e
  else if id ≠ e.evidenceId fm then
    .error (.protocolError .protocolError "evidence_id does not match content hash".toList)
  else .ok e

def requiredNames : List Text :=
  ["evidence_id".toList, "candidate_id".toList, "namespace".toList, "evaluation_valid".toList, "admissible".toList,
    "fitness".toList, "fault_kind".toList, "coverage".toList, "objective_met".toList,
    "objective_verifier_hash".toList, "observations".toList, "missing_reasons".toList, "budget_used_usd".toList,
    "provenance".toList, "artifacts_ref".toList, "schema_version".toList]

def faultText : Option Value → Except EvidenceFault (Option Text)
  | some .null => .ok none
  | some (.string t) => .ok (some t)
  | _ => mistyped "fault_kind must be a string or None".toList

def faultOf : Option Text → Except EvidenceFault (Option FaultKind)
  | none => .ok none
  | some t =>
    match FaultKind.ofValue t with
    | some k => .ok (some k)
    | none => mismatched "not a valid FaultKind".toList

def reasonsOf : Option Value → Except EvidenceFault (List Value)
  | some (.array xs) => .ok xs
  | _ => mistyped "missing_reasons must be a list".toList

def strictBool (name : Text) : Option Value → Except EvidenceFault Bool
  | some (.bool b) => .ok b
  | _ => mistyped (name ++ " must be bool".toList)

def identifier : Option Value → Except EvidenceFault Text
  | some (.string t) =>
    if t = [] then mistyped "evidence_id must be a non-empty string".toList else .ok t
  | _ => mistyped "evidence_id must be a non-empty string".toList

def candidateText : Option Value → Except EvidenceFault Text
  | some (.string t) => .ok t
  | _ => mismatched "candidate_id must be non-empty".toList

def budgetOf : Option Numeral → Except EvidenceFault Numeral
  | some n => .ok n
  | none => mismatched "budget_used_usd must be non-negative and finite".toList

def decodeMembers (fm : EvidenceFormats) (ps : List (Text × Value)) :
    Except EvidenceFault (EvidenceEnvelope fm) := do
  let id ← identifier (get ps "evidence_id".toList)
  let faultRaw ← faultText (get ps "fault_kind".toList)
  let reasons ← reasonsOf (get ps "missing_reasons".toList)
  let scoreNamespace ← namespaceFromJson (get ps "namespace".toList)
  let evaluationValid ← strictBool "evaluation_valid".toList (get ps "evaluation_valid".toList)
  let admissible ← optionalBool "admissible".toList (get ps "admissible".toList)
  let fitness ← optionalFiniteFloat fm "fitness".toList (get ps "fitness".toList)
  let faultKind ← faultOf faultRaw
  let coverage ← decodeCoverage (get ps "coverage".toList)
  let objectiveMet ← optionalBool "objective_met".toList (get ps "objective_met".toList)
  let budget ← optionalFiniteFloat fm "budget_used_usd".toList (get ps "budget_used_usd".toList)
  let candidateId ← candidateText (get ps "candidate_id".toList)
  let budgetUsedUsd ← budgetOf budget
  let artifactsRef ← optionalText "artifacts_ref must be non-empty when present".toList (get ps "artifacts_ref".toList)
  let missingReasons ← texts "missing_reasons must contain non-empty strings".toList reasons
  let objectiveVerifierHash ← optionalText "objective assessment requires verifier identity".toList
    (get ps "objective_verifier_hash".toList)
  let envelope ← EvidenceEnvelope.make fm {
    candidateId, scoreNamespace, evaluationValid, admissible, fitness, faultKind, coverage, objectiveMet,
    objectiveVerifierHash, missingReasons, budgetUsedUsd, artifactsRef
    observations := (get ps "observations".toList).getD .null
    provenance := (get ps "provenance".toList).getD .null }
  envelope.identified id

def decodeEvidence (fm : EvidenceFormats) : Value → Except EvidenceFault (EvidenceEnvelope fm)
  | .object ps =>
    if isOne (get ps "schema_version".toList) = false then mismatched "unsupported evidence schema".toList
    else if keysAre ps requiredNames = false then mismatched "evidence envelope fields mismatch".toList
    else decodeMembers fm ps
  | _ => mistyped "evidence envelope must be a JSON object".toList

theorem envelope_ext {e e' : EvidenceEnvelope fm} (h : e.toEvidenceBody = e'.toEvidenceBody) : e = e' := by
  cases e
  cases e'
  cases h
  rfl

theorem make_ok_iff {b : EvidenceBody} {e : EvidenceEnvelope fm} : EvidenceEnvelope.make fm b = .ok e ↔
    (b.fitness.map fm.float = b.fitness.map some ∧ fm.float b.budgetUsedUsd = some b.budgetUsedUsd ∧
      Distinct b.observations ∧ Distinct b.provenance) ∧
        e.toEvidenceBody = { b with observations := sorted b.observations, provenance := sorted b.provenance } := by
  constructor
  · intro h
    unfold EvidenceEnvelope.make at h
    dsimp only at h
    split at h
    · next hnumbers =>
      split at h
      · cases h
      · cases h
        exact ⟨hnumbers, rfl⟩
    · cases h
  · rintro ⟨hnumbers, hbody⟩
    unfold EvidenceEnvelope.make
    rw [dif_pos hnumbers]
    have hchecked := e.checked
    rw [hbody] at hchecked
    split
    · next hcheck =>
      rw [hchecked] at hcheck
      cases hcheck
    · exact congrArg Except.ok (envelope_ext hbody.symm)

end EvoHarness.Evaluation
