import EvoHarness.Sketch

/-! The seam between the graph and a solver: how one attempt ended, and the single
place where that is derived from a run's report. -/
namespace EvoHarness.Proof
open PyText

/-- How one solver run ended. A PROVED result carries proof text, no other one does. -/
structure AttemptResult where
  outcome : Outcome
  proofText : Option Text := none
  runDir : Option Text := none
  evidenceRef : Option Text := none
  cost : ℚ := 0
  note : Text := []
  proved_text : outcome = .proved → proofText.getD [] ≠ [] := by decide
  other_text : outcome ≠ .proved → proofText.getD [] = [] := by decide

def AttemptResult.toAttempt (r : AttemptResult) (goalId : GoalId) : Attempt where
  id := 0
  goalId := goalId
  outcome := r.outcome
  proofText := r.proofText
  runDir := r.runDir
  evidenceRef := r.evidenceRef
  cost := r.cost
  note := r.note

def AttemptResult.interrupted (runDir : Option Text) (note : Text) : AttemptResult where
  outcome := .interrupted
  runDir := runDir
  note := if note = [] then "run did not return; manifest not finalized".toList else note
  proved_text := by simp
  other_text := by simp

def infraReasons : List Text := ["eval_infra".toList, "proposer_dead".toList]
def budgetReasons : List Text := ["budget".toList, "llm_billing".toList]

/-- What `api.run` reports, as far as an attempt reads it. -/
structure RunReport where
  stoppedReason : Text := []
  bestFitness : Option ℚ := none
  totalLlmCost : ℚ := 0
  /-- `f"{best_fitness}"`, which only the note carries. -/
  bestFitnessText : Text := []

/-- Whether the goal was PROVED is asked first: that stays true however the run ended. -/
def AttemptResult.fromRunReport (report : RunReport) (runDir : Option Text) (solvedAt : ℚ)
    (proofText : Option Text) (evidenceRef : Option Text := none) : Except Fault AttemptResult :=
  let note := "stopped_reason=".toList ++ report.stoppedReason
  if report.bestFitness.any (solvedAt ≤ ·) then
    if h : proofText.getD [] = [] then
      .error (.solverError ("run reached the solved threshold but no proof text was " ++
        "extracted from its best candidate").toList)
    else .ok
      { outcome := .proved, proofText, runDir, evidenceRef, cost := report.totalLlmCost, note
        proved_text := fun _ => h
        other_text := by simp }
  else if report.stoppedReason ∈ infraReasons then
    .ok { outcome := .infraFailed, runDir, cost := report.totalLlmCost, note
          proved_text := by simp, other_text := by simp }
  else if report.stoppedReason ∈ budgetReasons then
    .ok { outcome := .budgetExhausted, runDir, cost := report.totalLlmCost, note
          proved_text := by simp, other_text := by simp }
  else
    .ok { outcome := .taskFailed, runDir, cost := report.totalLlmCost
          note := note ++ " best_fitness=".toList ++ report.bestFitnessText
          proved_text := by simp, other_text := by simp }

end EvoHarness.Proof
