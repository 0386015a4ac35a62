import EvoHarness.Research.Gate
import EvoHarness.Research.AssessmentLog
import EvoHarness.Library.Hoare

/-! The router: every event of a run, an assessment or a promotion becomes a card, a
notification, or an action the gate allows, and leaves a row in the audit trail. -/
namespace EvoHarness.Research
open PyText Hoare

inductive RouteFault where
  | fault (e : Fault)
  | storeError (message : Text)
  | inboxError (message : Text)
  | routingError (message : Text)
  | denied (message : Text)
  /-- `assessments.jsonl` has a line that is not read. -/
  | unreadable
  /-- The process dies. -/
  | died

inductive Disposition where
  | auto
  | card
  | notification
deriving DecidableEq

structure RoutedEvent where
  eventKind : Text
  experimentId : Text
  disposition : Disposition
  detail : Text := []
  requestId : Text := []
  runId : Text := []
  refs : List Text := []
  createdAt : ℚ := 0
deriving DecidableEq

structure BudgetSubject where
  experimentId : Text
  currentBudgetUsd : ℚ
  requestedBudgetUsd : ℚ
  justification : Text

structure FlipSubject where
  experimentId : Text
  previousCandidateId : Text
  previousEvidenceId : Text
  previousFitness : Option ℚ
  promotedCandidateId : Text
  promotedEvidenceId : Text
  promotedFitness : Option ℚ
  scoreNamespace : ScoreNamespace
  policyHash : Text
  assessorHash : Text

/-- The JSON of the payloads, `spec_hash` of the subjects, and how `.2f`, `.4f` and `str` show
a number. `budget` is what the gate's ledger says. -/
structure Router where
  enc : Encoders
  fm : Formats
  gateFormats : GateFormats
  f2 : ℚ → Text
  f4 : ℚ → Text
  showFitness : Option ℚ → Text
  assessmentJson : ClaimAssessment → Text
  budgetJson : BudgetSubject → Text
  budgetHash : BudgetSubject → Text
  flipJson : FlipSubject → Text
  flipHash : FlipSubject → Text
  budget : Text → BudgetLedger

def showInt (n : ℤ) : Text := (toString n).toList

variable (o : Router)

def breakthroughRequest (a : ClaimAssessment) (experimentId candidateId : Text)
    (estimatedCosts : List (Text × ℚ)) : Except Fault RequestBody :=
  if a.claimKind ≠ .objectiveMet then
    .error (.valueError "breakthrough card requires an objective_met claim".toList)
  else if a.status ≠ .supported then
    .error (.valueError ("breakthrough card requires a SUPPORTED assessment — " ++
      "an unsupported claim has nothing to announce").toList)
  else .ok {
    kind := "breakthrough".toList
    experimentId
    question := "候选 ".toList ++ candidateId ++
      " 的 objective_met 获独立 Verifier 支持。是否确认为 Breakthrough?".toList
    alternatives := ["approve:确认突破,进入对外披露流程".toList,
      "request-more-evidence:要求复现/更大验证".toList, "veto:不认定".toList]
    recommendedAction := "request-more-evidence".toList
    evidenceRefs := a.evidenceRefs
    uncertainty := join "; ".toList a.reasons
    consequenceOfWaiting := "不对外宣布;候选保持 reference 候选资格".toList
    estimatedCosts
    subjectHash := a.claimHash
    payload := o.assessmentJson a }

def budgetExpansionRequest (experimentId : Text) (current requested : ℚ) (justification : Text) :
    Except Fault RequestBody :=
  if strip justification = [] then
    .error (.valueError "budget expansion requires a justification".toList)
  else if current < 0 ∨ requested ≤ current then
    .error (.valueError "expansion must request more than current budget".toList)
  else
    let subject : BudgetSubject := ⟨experimentId, current, requested, justification⟩
    .ok {
      kind := "budget-expansion".toList
      experimentId
      question := "实验 ".toList ++ experimentId ++ " 申请预算 ".toList ++ o.f2 current ++ " → ".toList ++
        o.f2 requested ++ " USD:".toList ++ justification
      alternatives := ["approve:批准扩容".toList, "revise:改预算另议".toList, "veto:维持原预算".toList]
      recommendedAction := "veto".toList
      consequenceOfWaiting := "实验在原预算内继续,耗尽即停".toList
      estimatedCosts := [("approve".toList, requested - current)]
      subjectHash := o.budgetHash subject
      payload := o.budgetJson subject }

def rankingFlipRequest (experimentId : Text) (previous promoted : ReferenceRecord) (reasons : List Text) :
    Except Fault RequestBody :=
  if previous.candidateId = promoted.candidateId then
    .error (.valueError "a ranking flip requires the champion to change".toList)
  else
    match previous.scoreNamespace.requireComparable promoted.scoreNamespace with
    | .error e => .error e
    | .ok () =>
      let subject : FlipSubject := {
        experimentId
        previousCandidateId := previous.candidateId
        previousEvidenceId := previous.evidenceId
        previousFitness := previous.fitness
        promotedCandidateId := promoted.candidateId
        promotedEvidenceId := promoted.evidenceId
        promotedFitness := promoted.fitness
        scoreNamespace := promoted.scoreNamespace
        policyHash := promoted.policyHash
        assessorHash := promoted.assessorHash }
      .ok {
        kind := "ranking-flip".toList
        experimentId
        question := "参照物已换人:".toList ++ previous.candidateId ++ " → ".toList ++ promoted.candidateId ++
          "(fitness ".toList ++ o.showFitness previous.fitness ++ " → ".toList ++ o.showFitness promoted.fitness ++
          ")。新冠军是否留任?".toList
        alternatives := ["approve:接受新冠军".toList, "request-more-evidence:先复现再定".toList,
          "veto:回滚到旧冠军".toList]
        recommendedAction := "request-more-evidence".toList
        evidenceRefs := [previous.evidenceId, promoted.evidenceId].dedup
        uncertainty := join "; ".toList (if reasons = [] then promoted.reasons else reasons)
        consequenceOfWaiting := "新冠军已经是现任参照物,后续候选都与它比较;不决定等于默许".toList
        subjectHash := o.flipHash subject
        payload := o.flipJson subject }

def budgetExpansionCardFor (outcome : ExperimentOutcome) (budgetUsd : Option ℚ) :
    Except Fault (Option RequestBody) :=
  match budgetUsd with
  | none => .ok none
  | some budget =>
    let remaining := outcome.generationsPlanned - outcome.generationsCompleted
    if budget ≤ 0 ∨ outcome.stoppedReason ≠ "budget".toList ∨ remaining ≤ 0 then .ok none
    else
      let completed := outcome.generationsCompleted
      let extra := if completed ≠ 0 then outcome.evalCostUsd / completed * remaining else 0
      let basis :=
        if extra ≤ 0 then
          "预算在完成第一代前耗尽(已花 ".toList ++ o.f4 outcome.evalCostUsd ++
            " USD),无速率可外推,按当前预算翻倍申请".toList
        else "已完成 ".toList ++ showInt completed ++ " 代花费 ".toList ++ o.f4 outcome.evalCostUsd ++
          " USD,按同样速率跑完剩余 ".toList ++ showInt remaining ++ " 代需追加 ".toList ++ o.f4 extra ++ " USD".toList
      (budgetExpansionRequest o outcome.experimentId budget (budget + (if extra ≤ 0 then budget else extra))
        ("run ".toList ++ outcome.runId ++ " 因预算停在 ".toList ++ showInt outcome.generationsCompleted ++
          "/".toList ++ showInt outcome.generationsPlanned ++ " 代;".toList ++ basis)).map some

/-- `cardClock` and `eventClock` are what `now()` gives for the cards and the events of a call,
one after the other. `lifetime` counts the writes before the process dies, if it does, and `cut` is how many
bytes of the next one still reach a file. The router never reads the rows of `routed`. -/
structure World where
  experiments : Text → Option (Except Text ExperimentSpec)
  requests : List (DecisionRequest o.enc) := []
  assessments : Text → AssessmentLog := fun _ => .empty
  routed : List RoutedEvent := []
  cardClock : ℕ → ℚ := fun _ => 0
  eventClock : ℕ → ℚ := fun _ => 0
  cardTicks : ℕ := 0
  eventTicks : ℕ := 0
  lifetime : Option ℕ := none
  cut : ℕ := 0
  unique : (requests.map (·.requestId)).Nodup

abbrev Routes (α : Type) := Prog (World o) RouteFault α

variable {o}

/-- A write, and what is left of it if the process dies there. -/
def effect (f : World o → World o) (torn : World o → World o := id) : Routes o Unit := fun w =>
  match w.lifetime with
  | none => (.ok (), f w)
  | some 0 => (.error .died, torn w)
  | some (n + 1) => (.ok (), f { w with lifetime := some n })

def ofExcept {α : Type} : Except Fault α → Routes o α
  | .ok a => pure a
  | .error e => Prog.raise (.fault e)

def nowForCard : Routes o ℚ := Prog.call fun w => (w.cardClock w.cardTicks, { w with cardTicks := w.cardTicks + 1 })

def nowForEvent : Routes o ℚ :=
  Prog.call fun w => (w.eventClock w.eventTicks, { w with eventTicks := w.eventTicks + 1 })

def notFound (experimentId : Text) : Text := "experiment ".toList ++ experimentId ++ " not found".toList

def loadExperiment (experimentId : Text) : Routes o ExperimentSpec := do
  match (← Prog.get).experiments experimentId with
  | none => Prog.raise (.storeError (notFound experimentId))
  | some (.error e) => Prog.raise (.fault (.valueError e))
  | some (.ok spec) => pure spec

def requireExperiment (experimentId : Text) : Routes o Unit := do
  if ((← Prog.get).experiments experimentId).isNone then
    Prog.raise (.storeError ("experiment ".toList ++ experimentId ++
      (" has no frozen spec; " ++ "records may only attach to a frozen experiment").toList))

def World.withLog (w : World o) (experimentId : Text) (log : AssessmentLog) : World o :=
  { w with assessments := Function.update w.assessments experimentId log }

theorem World.withLog_self (w : World o) (experimentId : Text) (log : AssessmentLog) :
    (w.withLog experimentId log).assessments experimentId = log := Function.update_self ..

def appendAssessment (experimentId : Text) (a : ClaimAssessment) : Routes o Unit := do
  requireExperiment experimentId
  effect (fun w => w.withLog experimentId ((w.assessments experimentId).append a)) fun w =>
    w.withLog experimentId ((w.assessments experimentId).tear a w.cut)

def appendRoutedEvent (e : RoutedEvent) : Routes o Unit := do
  requireExperiment e.experimentId
  effect fun w => { w with routed := w.routed ++ [e] }

def World.insert (w : World o) (r : DecisionRequest o.enc) (hr : r.requestId ∉ w.requests.map (·.requestId)) : World o :=
  { w with
    requests := w.requests ++ [r]
    unique := by
      rw [List.map_append, List.nodup_append]
      refine ⟨w.unique, by simp, ?_⟩
      intro a ha b hb hab
      rw [List.map_singleton, List.mem_singleton] at hb
      exact hr (hb ▸ hab ▸ ha) }

def store (r : DecisionRequest o.enc) (w : World o) : World o :=
  if hr : r.requestId ∈ w.requests.map (·.requestId) then w else w.insert r hr

def submit (r : DecisionRequest o.enc) : Routes o Unit := do
  let _ ← loadExperiment r.experimentId
  match (← Prog.get).requests.find? (·.requestId = r.requestId) with
  | none => effect (store r)
  | some stored =>
    if stored ≠ r then Prog.raise (.inboxError "request_id collision with different content".toList)

def eventCardKind : List (Text × Text) :=
  [("announce-breakthrough".toList, "breakthrough".toList), ("expand-budget".toList, "budget-expansion".toList),
    ("change-measurement-protocol".toList, "protocol-change".toList),
    ("accept-ranking-flip".toList, "ranking-flip".toList)]

def cardKindOf (eventKind : Text) : Text :=
  ((eventCardKind.find? (·.1 = eventKind)).map (·.2)).getD "generic".toList

def gateCheck (eventKind experimentId : Text) (projected : ℚ) : Routes o GateDecision := do
  let loaded := match (← Prog.get).experiments experimentId with
    | none => .error (notFound experimentId)
    | some loaded => loaded
  match precheck o.gateFormats eventKind experimentId projected loaded with
  | some d => pure d
  | none => pure (judge o.gateFormats eventKind experimentId projected (o.budget experimentId))

def routeAuto (eventKind experimentId detail runId : Text) (projected : ℚ) : Routes o Unit := do
  let gated ← gateCheck eventKind experimentId projected
  if gated.allowed = false then
    Prog.raise (.denied (eventKind ++ " cannot run unattended on ".toList ++ experimentId ++ ": ".toList ++
      join "; ".toList gated.reasons))
  else
    let createdAt ← nowForEvent
    appendRoutedEvent {
      eventKind, experimentId, disposition := .auto, runId, createdAt
      detail := if detail = [] then join "; ".toList gated.reasons else detail }

def routeCard (eventKind experimentId : Text) (card : DecisionRequest o.enc) (detail runId : Text) :
    Routes o Unit := do
  if card.kind ≠ cardKindOf eventKind then
    Prog.raise (.routingError (eventKind ++ " must carry a ".toList ++ o.enc.repr (cardKindOf eventKind) ++
      " card, got ".toList ++ o.enc.repr card.kind))
  else if card.experimentId ≠ experimentId then
    Prog.raise (.routingError "card belongs to a different experiment".toList)
  else
    submit card
    let createdAt ← nowForEvent
    appendRoutedEvent {
      eventKind, experimentId, disposition := .card, runId, createdAt
      detail := if detail = [] then card.question else detail
      requestId := card.requestId
      refs := card.evidenceRefs }

def route (eventKind experimentId : Text) (card : Option (DecisionRequest o.enc)) (detail runId : Text)
    (projected : ℚ) : Routes o Unit :=
  match requiresHuman eventKind, card with
  | false, none => routeAuto eventKind experimentId detail runId projected
  | false, some _ => Prog.raise (.routingError (eventKind ++
      (" is auto-executable — a card would imply " ++ "an approval that nobody is going to give").toList))
  | true, none => Prog.raise (.routingError (eventKind ++ " needs a human decision but no card was built".toList))
  | true, some card => routeCard eventKind experimentId card detail runId

def conflicts (a b : ClaimAssessment) : Bool :=
  a.claimHash = b.claimHash &&
    ((a.status = .supported && b.status = .contradicted) || (a.status = .contradicted && b.status = .supported))

def notifyConflict (experimentId runId : Text) (old a : ClaimAssessment) : Routes o Unit := do
  let noticed ← nowForEvent
  let createdAt ← if noticed = 0 then nowForEvent else pure noticed
  appendRoutedEvent {
    eventKind := "conflicting-evidence".toList, experimentId, disposition := .notification, runId, createdAt
    detail := "claim ".toList ++ old.claimKind.value ++ " has both supported and contradicted assessments (assessors ".toList ++
      old.assessorHash ++ " / ".toList ++ a.assessorHash ++ ")".toList
    refs := old.evidenceRefs ++ a.evidenceRefs }

def sameVerdict (old a : ClaimAssessment) : Bool :=
  old.claimHash = a.claimHash && old.assessorHash = a.assessorHash && old.status = a.status

def priorAssessments (experimentId : Text) : Routes o (List ClaimAssessment) := do
  match ((← Prog.get).assessments experimentId).assessments with
  | some prior => pure prior
  | none => Prog.raise .unreadable

def noticeConflict (prior : List ClaimAssessment) (a : ClaimAssessment) (experimentId runId : Text) : Routes o Unit :=
  match prior.find? (conflicts · a) with
  | some old => notifyConflict experimentId runId old a
  | none => pure ()

/-- The first half of `route_assessment`: a notification and a record. -/
def recordAssessment (a : ClaimAssessment) (experimentId runId : Text) : Routes o Unit := do
  let prior ← priorAssessments experimentId
  noticeConflict prior a experimentId runId
  if !prior.any (sameVerdict · a) then appendAssessment experimentId a

def routeAssessment (a : ClaimAssessment) (experimentId candidateId runId : Text)
    (estimatedCosts : List (Text × ℚ)) : Routes o Unit := do
  recordAssessment a experimentId runId
  if a.claimKind = .objectiveMet ∧ a.status = .supported then
    let createdAt ← nowForCard
    let body ← ofExcept (breakthroughRequest o a experimentId candidateId estimatedCosts)
    let card ← ofExcept (DecisionRequest.make o.enc body createdAt)
    route "announce-breakthrough".toList experimentId (some card) [] runId 0

def routePromotion (experimentId : Text) (previous : Option ReferenceRecord) (promoted : ReferenceRecord)
    (reasons : List Text) : Routes o Unit :=
  match previous with
  | none => pure ()
  | some previous =>
    if previous.candidateId = promoted.candidateId then pure ()
    else do
      let createdAt ← nowForCard
      let body ← ofExcept (rankingFlipRequest o experimentId previous promoted reasons)
      let card ← ofExcept (DecisionRequest.make o.enc body createdAt)
      route "accept-ranking-flip".toList experimentId (some card) [] [] 0

def runDetail (outcome : ExperimentOutcome) : Text :=
  "run ".toList ++ outcome.runId ++ " stopped_reason=".toList ++ outcome.stoppedReason ++ " generations=".toList ++
    showInt outcome.generationsCompleted ++ "/".toList ++ showInt outcome.generationsPlanned ++ " eval_cost=".toList ++
    o.f4 outcome.evalCostUsd ++ " USD".toList

def routeEnvelope (outcome : ExperimentOutcome) (guard : AssessmentGuard) (e : EvidenceEnvelope) : Routes o Unit :=
  if e.objectiveMet = none then pure ()
  else do
    let claim ← ofExcept (Claim.make .objectiveMet e.candidateId [] 0)
    let a ← ofExcept (guard.assess o.fm claim e)
    routeAssessment a outcome.experimentId e.candidateId outcome.runId []

/-- `evidence` is what `read_run_evidence` gives for the run directory. -/
def routeRun (outcome : ExperimentOutcome) (evidence : Except Fault (List EvidenceEnvelope)) (budgetUsd : Option ℚ)
    (guard : AssessmentGuard) : Routes o Unit := do
  route "record-outcome".toList outcome.experimentId none (runDetail (o := o) outcome) outcome.runId 0
  let body ← ofExcept (budgetExpansionCardFor o outcome budgetUsd)
  match body with
  | none => pure ()
  | some body =>
    let card ← ofExcept (DecisionRequest.make o.enc body outcome.createdAt)
    route "expand-budget".toList outcome.experimentId (some card) [] outcome.runId 0
  let envelopes ← ofExcept evidence
  Prog.forEach envelopes (routeEnvelope outcome guard)

end EvoHarness.Research
