import EvoHarness.Research.Reference

/-! Evidence envelopes, and what the assessment guard concludes from them. -/
namespace EvoHarness.Research
open PyText

structure Coverage where
  plannedUnits : ℕ
  executedUnits : ℕ
  trustworthyUnits : ℕ
  trustworthy_le : trustworthyUnits ≤ executedUnits
  executed_le : 0 < plannedUnits → executedUnits ≤ plannedUnits

def Coverage.complete (c : Coverage) : Bool :=
  0 < c.plannedUnits && c.executedUnits = c.plannedUnits && c.trustworthyUnits = c.plannedUnits

/-- `unitResults` are the observed unit results, if they are a mapping. `sem` is what
`float(provenance["sem"])` gives, if it gives anything. -/
structure EvidenceEnvelope where
  evidenceId : Text
  candidateId : Text
  scoreNamespace : ScoreNamespace
  evaluationValid : Bool
  admissible : Option Bool
  fitness : Option ℚ
  coverage : Coverage
  objectiveMet : Option Bool := none
  unitResults : Option (List (Text × Bool)) := none
  sem : Option ℚ := none
  candidate_nonempty : strip candidateId ≠ []
  valid_admissible : admissible.isSome = evaluationValid
  valid_fitness : fitness.isSome = evaluationValid
  judged_valid : objectiveMet ≠ none → evaluationValid = true
  met_complete : objectiveMet = some true → admissible = some true ∧ coverage.complete = true

inductive ClaimKind where
  | candidateValid
  | objectiveMet
  | hasAnyGain
  | betterThanReference
  | noRegression
deriving DecidableEq

def ClaimKind.value : ClaimKind → Text
  | .candidateValid => "candidate_valid".toList
  | .objectiveMet => "objective_met".toList
  | .hasAnyGain => "has_any_gain".toList
  | .betterThanReference => "better_than_reference".toList
  | .noRegression => "no_regression".toList

def ClaimKind.comparative : ClaimKind → Bool
  | .hasAnyGain | .betterThanReference | .noRegression => true
  | _ => false

structure Claim where
  kind : ClaimKind
  subjectId : Text
  referenceId : Text := []
  margin : ℚ := 0
  subject_nonempty : strip subjectId ≠ []
  reference_nonempty : kind.comparative = true → strip referenceId ≠ []
  margin_nonneg : 0 ≤ margin

def Claim.make (kind : ClaimKind) (subjectId referenceId : Text) (margin : ℚ) : Except Fault Claim :=
  if hs : strip subjectId = [] then .error (.valueError "subject_id must be non-empty".toList)
  else if hr : kind.comparative = true ∧ strip referenceId = [] then
    .error (.valueError (kind.value ++ " requires reference_id".toList))
  else if hm : margin < 0 then .error (.valueError "margin must be non-negative".toList)
  else .ok {
    kind, subjectId, referenceId, margin
    subject_nonempty := hs
    reference_nonempty := fun hk he => hr ⟨hk, he⟩
    margin_nonneg := not_lt.mp hm }

inductive Verdict where
  | supported
  | contradicted
  | unknown
deriving DecidableEq

structure ClaimAssessment where
  claimHash : Text
  claimKind : ClaimKind
  status : Verdict
  assessorHash : Text
  evidenceRefs : List Text
  reasons : List Text
deriving DecidableEq

inductive Direction where
  | maximize
  | minimize
deriving DecidableEq

structure AssessmentGuard where
  direction : Direction := .maximize
  z : ℚ := 1
  assessorHash : Text
  z_nonneg : 0 ≤ z

/-- What the guard uses of Python: the square root of floats, `spec_hash` of a claim, and
how `.4g`, `str` and the `repr` of a list show their value. -/
structure Formats where
  sqrt : ℚ → ℚ
  sqrt_nonneg : ∀ x, 0 ≤ sqrt x
  claimHash : Claim → Text
  g4 : ℚ → Text
  str : ℚ → Text
  reprs : List Text → Text

def trustworthy (e : EvidenceEnvelope) : Bool :=
  e.evaluationValid && e.admissible ≠ some false && e.fitness.isSome

namespace AssessmentGuard
variable (fm : Formats) (g : AssessmentGuard)

def advantage (subject reference : ℚ) : ℚ :=
  match g.direction with
  | .maximize => subject - reference
  | .minimize => reference - subject

def noiseFloor (subject reference : EvidenceEnvelope) : ℚ :=
  g.z * fm.sqrt (subject.sem.getD 0 ^ 2 + reference.sem.getD 0 ^ 2)

/-- `self._advantage(subject.fitness, reference.fitness)`, called on trustworthy evidence only. -/
def advantageOf (subject reference : EvidenceEnvelope) : ℚ :=
  g.advantage (subject.fitness.getD 0) (reference.fitness.getD 0)

def candidateValid (subject : EvidenceEnvelope) : Verdict × List Text :=
  if subject.evaluationValid && subject.admissible = some true then
    (.supported, ["verdict evidence, admissible".toList])
  else if subject.admissible = some false then (.contradicted, ["adjudicated inadmissible".toList])
  else (.unknown, ["no admissibility verdict".toList])

def objectiveMet (subject : EvidenceEnvelope) : Verdict × List Text :=
  if subject.objectiveMet = some false then (.contradicted, ["verifier rejected the objective".toList])
  else if subject.objectiveMet ≠ some true then
    (.unknown, ["no independent verifier verdict — passed never sets the objective".toList])
  else if !subject.coverage.complete then (.unknown, ["coverage incomplete".toList])
  else if subject.admissible ≠ some true then (.unknown, ["admissibility not established".toList])
  else (.supported, ["verifier verdict on complete coverage".toList])

def hasAnyGain (subject reference : EvidenceEnvelope) : Verdict × List Text :=
  if !(trustworthy subject && trustworthy reference) then
    (.unknown, ["needs trustworthy verdicts on both".toList])
  else
    let floor := g.noiseFloor fm subject reference
    let advantage := g.advantageOf subject reference
    if advantage > floor then
      (.supported, ["one trustworthy improving witness observed".toList] ++
        (if floor ≠ 0 then
          ["beyond noise floor ±".toList ++ fm.g4 floor ++ " (z=".toList ++ fm.str g.z ++ ")".toList]
        else []) ++
        (if !subject.coverage.complete then ["subject coverage partial — existence only".toList] else []))
    else if advantage > 0 then
      (.unknown, ["advantage ".toList ++ fm.g4 advantage ++ " within noise floor ±".toList ++ fm.g4 floor ++
        " — underpowered, add units or seeds".toList])
    else (.unknown, ["no gain in this sample; a finite sample cannot refute existence".toList])

def betterThanReference (claim : Claim) (subject reference : EvidenceEnvelope) : Verdict × List Text :=
  if !(trustworthy subject && trustworthy reference) then
    (.unknown, ["needs trustworthy verdicts on both".toList])
  else if !(subject.coverage.complete && reference.coverage.complete) then
    (.unknown, ["aggregate comparison requires complete coverage on both".toList])
  else
    let floor := g.noiseFloor fm subject reference
    let advantage := g.advantageOf subject reference
    let reasons := if floor ≠ 0 then
      ["noise floor ±".toList ++ fm.g4 floor ++ " (z=".toList ++ fm.str g.z ++ ")".toList] else []
    if advantage > claim.margin + floor then
      (.supported, reasons ++ ["complete-coverage margin met beyond noise floor".toList])
    else if advantage ≤ claim.margin - floor then
      (.contradicted, reasons ++ ["complete coverage shows no aggregate advantage".toList])
    else (.unknown, reasons ++ ["advantage ".toList ++ fm.g4 advantage ++
      " statistically indistinguishable from margin — underpowered, add units or seeds".toList])

def resultOf (units : List (Text × Bool)) (unit : Text) : Option Bool :=
  (units.find? (·.1 = unit)).map (·.2)

def showNat (n : ℕ) : Text := (Nat.repr n).toList

def noRegression (subject reference : EvidenceEnvelope) : Verdict × List Text :=
  match subject.unitResults, reference.unitResults with
  | some subjectUnits, some referenceUnits =>
    let referencePassed := ((referenceUnits.filter (·.2)).map (·.1)).dedup
    let unexecuted := referencePassed.filter fun unit => (resultOf subjectUnits unit).isNone
    if unexecuted ≠ [] then
      (.unknown, [showNat unexecuted.length ++ " reference-passed units not re-executed".toList])
    else
      let flips := (referencePassed.filter fun unit => resultOf subjectUnits unit = some false).mergeSort
        fun a b => decide (a ≤ b)
      if flips ≠ [] then
        (.contradicted, [showNat flips.length ++ " reference-passed units regressed (e.g. ".toList ++
          fm.reprs (flips.take 3) ++ ")".toList])
      else (.supported, ["all ".toList ++ showNat referencePassed.length ++
        " reference-passed units held".toList])
  | _, _ => (.unknown, [("unit-level results unavailable; aggregate scores never " ++
      "support a universal claim").toList])

def result (claim : Claim) (subject : EvidenceEnvelope) (reference : Option EvidenceEnvelope)
    (verdict : Verdict × List Text) : ClaimAssessment where
  claimHash := fm.claimHash claim
  claimKind := claim.kind
  status := verdict.1
  assessorHash := g.assessorHash
  evidenceRefs := subject.evidenceId :: (reference.map (·.evidenceId)).toList
  reasons := verdict.2

def differentCandidate (role got wanted : Text) : Fault :=
  .valueError (role ++ " evidence is about a different candidate (".toList ++ got ++ " != ".toList ++
    wanted ++ ")".toList)

def rule (claim : Claim) (subject reference : EvidenceEnvelope) : Verdict × List Text :=
  match claim.kind with
  | .candidateValid => candidateValid subject
  | .objectiveMet => objectiveMet subject
  | .hasAnyGain => g.hasAnyGain fm subject reference
  | .betterThanReference => g.betterThanReference fm claim subject reference
  | .noRegression => noRegression fm subject reference

def assess (claim : Claim) (subject : EvidenceEnvelope) (reference : Option EvidenceEnvelope := none) :
    Except Fault ClaimAssessment :=
  if subject.candidateId ≠ claim.subjectId then
    .error (differentCandidate "subject".toList subject.candidateId claim.subjectId)
  else if claim.kind.comparative = true then
    match reference with
    | none => .ok (g.result fm claim subject none (.unknown, ["reference evidence missing".toList]))
    | some e =>
      if e.candidateId ≠ claim.referenceId then
        .error (differentCandidate "reference".toList e.candidateId claim.referenceId)
      else
        match subject.scoreNamespace.requireComparable e.scoreNamespace with
        | .error fault => .error fault
        | .ok () => .ok (g.result fm claim subject reference (g.rule fm claim subject e))
  -- the other rules do not look at the reference
  else .ok (g.result fm claim subject reference (g.rule fm claim subject (reference.getD subject)))

end AssessmentGuard
end EvoHarness.Research
