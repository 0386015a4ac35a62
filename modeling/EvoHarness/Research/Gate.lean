import EvoHarness.Research.Inbox

/-! The auto-execution gate: what an experiment was approved to spend, what its runs have
spent, and whether an action may go on without a human. -/
namespace EvoHarness.Research
open PyText

def autoExecutable : List Text :=
  ["re-evaluate-within-approved-budget".toList, "repair-within-approved-experiment".toList,
    "quarantine-hard-regression".toList, "record-outcome".toList, "record-low-risk-finding".toList]

def spendsBudget : List Text :=
  ["re-evaluate-within-approved-budget".toList, "repair-within-approved-experiment".toList]

def requiresHuman (eventKind : Text) : Bool := eventKind ∉ autoExecutable

structure ExperimentSpec where
  experimentId : Text
  estimatedCostUsd : Option ℚ := none
  approvedBy : Option Text := none

structure ExperimentOutcome where
  experimentId : Text
  runId : Text
  stoppedReason : Text
  generationsPlanned : ℤ
  generationsCompleted : ℤ
  evalCostUsd : ℚ
  createdAt : ℚ

structure BudgetLedger where
  approvedUsd : ℚ
  spentUsd : ℚ
  trusted : Bool
  reasons : List Text := []

structure GateDecision where
  eventKind : Text
  experimentId : Text
  allowed : Bool
  reasons : List Text := []
  ledger : Option BudgetLedger := none

abbrev Answered (enc : Encoders) := DecisionRequest enc × ResearchDecision

/-- `float(json.loads(payload)["requested_budget_usd"])`, and how `.4f` and `str` show a number. -/
structure GateFormats where
  requestedBudget : Text → Option ℚ
  f4 : ℚ → Text
  str : ℚ → Text

section
variable {enc : Encoders} (fm : GateFormats)

/-- `_approved_expansions` of the answered cards of the experiment. -/
def approvedExpansions (experimentId : Text) (answered : List (Answered enc)) : List (Answered enc) :=
  answered.filter fun p => p.1.experimentId = experimentId && p.1.kind = "budget-expansion".toList &&
    p.2.action = "approve".toList

def specApproval (spec : ExperimentSpec) : Option ℚ :=
  if strip (spec.approvedBy.getD []) ≠ [] then spec.estimatedCostUsd.filter (· ≠ 0) else none

def addExpansion (acc : ℚ × List Text) (p : Answered enc) : ℚ × List Text :=
  match fm.requestedBudget p.1.payload with
  | some requested => (max acc.1 requested, acc.2)
  | none => (acc.1, acc.2 ++ ["approved expansion ".toList ++ p.1.requestId ++
      " has no readable requested amount".toList])

def approvedUsd (spec : ExperimentSpec) (answered : List (Answered enc)) : ℚ × List Text :=
  (approvedExpansions spec.experimentId answered).foldl (addExpansion fm)
    (match specApproval spec with
    | some approved => (approved, [])
    | none => (0, ["frozen spec carries no approved cost estimate".toList]))

structure Spent where
  spent : ℚ := 0
  trusted : Bool := true
  reasons : List Text := []

def spentStart (hasRunsRoot : Bool) (outcomes : List ExperimentOutcome) : Spent :=
  if hasRunsRoot = false ∧ outcomes ≠ [] then
    { trusted := false, reasons := ["gate has no runs_root — metered totals cannot be located".toList] }
  else {}

def meteredTotal (hasRunsRoot : Bool) (budget : Option ℚ) : Option ℚ :=
  if hasRunsRoot = false then none else budget.filter (0 ≤ ·)

def addOutcome (hasRunsRoot : Bool) (acc : Spent) (outcome : ExperimentOutcome) (budget : Option ℚ) : Spent :=
  match meteredTotal hasRunsRoot budget with
  | some metered => { acc with spent := acc.spent + metered }
  | none =>
    { spent := acc.spent + max 0 outcome.evalCostUsd
      trusted := false
      reasons := acc.reasons ++ (if hasRunsRoot then ["run ".toList ++ outcome.runId ++
        " has no metered total; only its evaluation cost is recorded".toList] else []) }

def ledgerOf (approved : ℚ × List Text) (spent : Spent) : BudgetLedger where
  approvedUsd := approved.1
  spentUsd := spent.spent
  trusted := spent.trusted
  reasons := approved.2 ++ spent.reasons

def judge (eventKind experimentId : Text) (projected : ℚ) (ledger : BudgetLedger) : GateDecision :=
  let reasons := (if ledger.trusted then [] else ledger.reasons) ++
    (if ledger.approvedUsd ≤ 0 then
      [("no pre-approved budget: freeze an approved cost estimate or " ++
        "get a budget-expansion card approved").toList]
    else if ledger.spentUsd + projected > ledger.approvedUsd then
      ["would spend ".toList ++ fm.f4 (ledger.spentUsd + projected) ++ " USD against an approved ".toList ++
        fm.f4 ledger.approvedUsd ++ " USD".toList]
    else [])
  { eventKind, experimentId, allowed := reasons = [], reasons, ledger := some ledger }

/-- The part of `check` before it reads the ledger: a decision, unless the action spends. -/
def precheck (eventKind experimentId : Text) (projected : ℚ) (loaded : Except Text ExperimentSpec) :
    Option GateDecision :=
  if requiresHuman eventKind then
    some { eventKind, experimentId, allowed := false, reasons := ["outside the auto-executable whitelist".toList] }
  else
    match loaded with
    | .error e => some {
        eventKind, experimentId, allowed := false, reasons := ["protocol is not frozen: ".toList ++ e] }
    | .ok _ =>
      if eventKind ∉ spendsBudget then
        if projected ≠ 0 then
          some { eventKind, experimentId, allowed := false
                 reasons := [eventKind ++ " is classified as spending nothing but projects ".toList ++
                   fm.str projected ++ " USD — the whitelist entry is wrong, not the caller".toList] }
        else some { eventKind, experimentId, allowed := true }
      else if projected < 0 then
        some { eventKind, experimentId, allowed := false
               reasons := ["projected cost must be a non-negative finite number".toList] }
      else none

end

end EvoHarness.Research
