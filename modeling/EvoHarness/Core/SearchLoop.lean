import EvoHarness.Core.Proposer

/-! The search loop: planning, proposals one by one or at once, absorption, grading, and the stops of
a run. What the selectors, the store, the graders and the rest answer is read from a sequence of
replies. -/
namespace EvoHarness.Core
open PyText Hoare Agent

structure EvalReport where
  passed : Bool
  fitness : ℚ
  evalCostUsd : ℚ≥0

structure Candidate where
  id : Text
  generation : ℕ
  parentId : Option Text
  islandIdx : ℕ
  operator : Text
  changeTitle : Text
  changeSummary : Text := []
  modelName : Text := []
  workspace : Workspace

inductive Proposer where
  | singleShot (p : SingleShotProposer)
  | session (p : AgentSessionProposer)

structure ProposalLane where
  name : Text
  proposer : Proposer

structure Merge where
  title : Text
  summary : Text

structure ProposalPlan where
  lane : ProposalLane
  island : ℕ
  parent : Candidate
  operator : Text
  system : Text
  user : Text
  merge : Option Merge := none

inductive HistoryRow where
  | proposalFailed (generation : ℕ) (parentId operator : Text) (proposalMode failureReason tracePath : Option Text)
      (attempts : ℕ) (llmCost : ℚ≥0)
  | preflightFailed (generation : ℕ) (parentId operator failureReason : Text) (failedStage : Option Text)
      (issues : List PreflightIssue)
  | skipped (generation : ℕ)
  | infraError (generation : ℕ) (candidateId error : Text)
  | graded (generation : ℕ) (passed : Bool) (candidateId operator : Text) (fitness : ℚ) (parentId : Option Text)
  | islandRevived (generation islandIdx donorIsland : ℕ) (donorId injectedId : Text) (islandBest globalBest : ℚ)
      (stalledFor : ℕ)

structure RunReport where
  generationsCompleted : ℕ := 0
  evaluations : ℕ := 0
  proposalsFailed : ℕ := 0
  noveltyRejections : ℕ := 0
  bestId : Option Text := none
  bestFitness : Option ℚ := none
  totalLlmCost : ℚ≥0 := 0
  totalEvalCost : ℚ≥0 := 0
  stoppedReason : Text := "completed".toList
  history : List HistoryRow := []

def RunReport.withBest (rep : RunReport) : Option (Text × ℚ) → RunReport
  | some best => { rep with bestId := some best.1, bestFitness := some best.2 }
  | none => rep

def RunReport.completed (rep : RunReport) : RunReport :=
  if rep.stoppedReason = "running".toList then { rep with stoppedReason := "completed".toList } else rep

structure SearchConfig where
  numGenerations : ℕ
  evalBatchSize : ℕ := 1
  proposalConcurrency : ℕ := 1
  maxNoveltyAttempts : ℕ := 3
  maxConsecutiveInfraFailures : ℕ := 5
  numIslands : ℕ := 1

/-- A loop and what it was built with. `seeds` are the initial program and the extra seeds. -/
structure SearchLoop where
  cfg : SearchConfig
  reading : Reading
  hasSelector : Bool := false
  hasPreflight : Bool := false
  hasNoveltyGate : Bool := false
  keepPopulation : Bool := false
  seeds : List Workspace

structure Outside where
  attempts : ℕ → AttemptReply
  session : SessionOutside
  mergeError : Option Text := none

inductive GradeAnswer where
  | report (r : EvalReport)
  | infra (error : Text)
  | raised (described : Text)

structure Refusal where
  failedStage : Option Text
  issues : List PreflightIssue

/-- One answer of the outside, with a value for every question it may be asked. `outside` and `grades`
go by slot. -/
structure LoopReply where
  raised : Option RunFault := none
  overBudget : Bool := false
  plan : Option ProposalPlan := none
  outside : ℕ → Outside
  refusal : Option Refusal := none
  novel : Bool := true
  freshId : Text := []
  grades : ℕ → GradeAnswer := fun _ => .infra []
  revived : List HistoryRow := []
  best : Option (Text × ℚ) := none
  targetReached : Bool := false
  checkpoint : Option (RunReport × ℕ) := none
  population : ℕ := 0

structure Call where
  isSingleShot : Bool
  proposed : Proposed

/-- What a run did. `called` are the calls of one plan or of several at once, in the order of the
plans, with the report as it stood. `graded` is a report that the grader returned, `saved` what a checkpoint
holds. -/
inductive Event where
  | began (generation : ℕ)
  | called (report : RunReport) (calls : List Call)
  | charged (usd : ℚ≥0)
  | graded (usd : ℚ≥0)
  | saved (report : RunReport) (generation : ℕ)

/-- `log` is what the run has done, the latest first. The loop does not read it. -/
structure LoopWorld where
  asked : ℕ := 0
  report : RunReport := {}
  log : List Event := []

namespace SearchLoop

def consult (env : ℕ → LoopReply) : Prog LoopWorld RunFault LoopReply :=
  Prog.call fun w => (env w.asked, { w with asked := w.asked + 1 })

def raiseIf : Option RunFault → Prog LoopWorld RunFault Unit
  | some e => Prog.raise e
  | none => pure ()

def component (env : ℕ → LoopReply) : Prog LoopWorld RunFault LoopReply := do
  let r ← consult env
  raiseIf r.raised
  pure r

def happen (e : Event) : Prog LoopWorld RunFault Unit := Prog.modify fun w => { w with log := e :: w.log }

def changeReport (f : RunReport → RunReport) : Prog LoopWorld RunFault Unit :=
  Prog.modify fun w => { w with report := f w.report }

def record (row : HistoryRow) : Prog LoopWorld RunFault Unit :=
  changeReport fun r => { r with history := r.history ++ [row] }

def ofExcept {α : Type} : Except RunFault α → Prog LoopWorld RunFault α
  | .ok a => pure a
  | .error e => Prog.raise e

section
variable (s : SearchLoop) (env : ℕ → LoopReply)

/-- `self.budget.charge`, which a strict budget ends with an exception. -/
def charge (usd : ℚ≥0) : Prog LoopWorld RunFault Unit := do
  happen (.charged usd)
  let _ ← component env

def saveCheckpoint (generation : ℕ) : Prog LoopWorld RunFault Unit := do
  let _ ← component env
  let w ← Prog.get
  happen (.saved w.report generation)

def planProposal : Prog LoopWorld RunFault (Option ProposalPlan) := do
  let r ← component env
  pure r.plan

theorem merged_reason (proposal : Proposal) :
    (none : Option Text).isSome = (some proposal).isNone := rfl

def executePlan (plan : ProposalPlan) (out : Outside) : Proposed :=
  match plan.merge with
  | none =>
    match plan.lane.proposer with
    | .singleShot p => p.propose s.reading out.attempts plan.operator plan.parent.workspace
    | .session p => p.propose s.reading out.session plan.operator plan.system plan.user plan.parent.id
  | some m =>
    match out.mergeError with
    | some described => ⟨.error (.other described), []⟩
    | none =>
      -- the source forgets to call `main_text` here, and no code reads what it hands on
      ⟨.ok ⟨some ⟨s.reading.mainText plan.parent.workspace, m.title, m.summary, "(state-merge)".toList,
        some plan.parent.workspace⟩, 0, 1, none, none, merged_reason _⟩, []⟩

def callOf (plan : ProposalPlan) (out : Outside) : Call :=
  ⟨match plan.merge, plan.lane.proposer with
    | none, .singleShot _ => true
    | _, _ => false, s.executePlan plan out⟩

def callOne (plan : ProposalPlan) : Prog LoopWorld RunFault ProposeResult := do
  let r ← consult env
  let call := s.callOf plan (r.outside 0)
  Prog.modify fun w => { w with log := .called w.report [call] :: w.log }
  ofExcept call.proposed.result

/-- All plans at once. Every call ends before the first exception, in the order of the plans, is raised. -/
def callAll (plans : List ProposalPlan) : Prog LoopWorld RunFault (List ProposeResult) := do
  let r ← consult env
  let calls := plans.mapIdx fun slot plan => s.callOf plan (r.outside slot)
  Prog.modify fun w => { w with log := .called w.report calls :: w.log }
  ofExcept (calls.mapM (·.proposed.result))

def notifyRejected : Prog LoopWorld RunFault Unit := do
  let _ ← component env

def proposalFailed (generation : ℕ) (plan : ProposalPlan) (result : ProposeResult) :
    Prog LoopWorld RunFault (Option Candidate × Bool) := do
  changeReport fun r => { r with proposalsFailed := r.proposalsFailed + 1 }
  record (.proposalFailed generation plan.parent.id plan.operator
    (if s.hasSelector = true then some plan.lane.name else none) result.failureReason result.tracePath result.attempts
    result.llmCost)
  notifyRejected env
  pure (none, false)

def refusalReason (issues : List PreflightIssue) : Text :=
  match issues.head? with
  | none => "preflight-failed".toList
  | some issue => issue.validator ++ ":".toList ++ issue.code ++ ": ".toList ++ issue.message

def preflightFailed (generation : ℕ) (plan : ProposalPlan) (refusal : Refusal) :
    Prog LoopWorld RunFault (Option Candidate × Bool) := do
  changeReport fun r => { r with proposalsFailed := r.proposalsFailed + 1 }
  record (.preflightFailed generation plan.parent.id plan.operator (refusalReason refusal.issues) refusal.failedStage
    refusal.issues)
  notifyRejected env
  pure (none, true)

def noveltyRejected : Prog LoopWorld RunFault (Option Candidate × Bool) := do
  changeReport fun r => { r with noveltyRejections := r.noveltyRejections + 1 }
  notifyRejected env
  pure (none, true)

def childOf (generation : ℕ) (plan : ProposalPlan) (proposal : Proposal) (id : Text) (workspace : Workspace) : Candidate :=
  ⟨id, generation, some plan.parent.id, plan.parent.islandIdx, plan.operator, proposal.title, proposal.summary,
    proposal.model, workspace⟩

/-- The genome of the child: the one that came with the proposal, or the parent's with a new main text. -/
def childWorkspace (plan : ProposalPlan) (proposal : Proposal) : Workspace :=
  proposal.workspace.getD ⟨plan.parent.workspace.kind, proposal.code⟩

def admitted (generation : ℕ) (plan : ProposalPlan) (proposal : Proposal) :
    Prog LoopWorld RunFault (Option Candidate × Bool) := do
  if s.hasNoveltyGate = true ∧ plan.merge.isNone = true then do
    let r ← component env
    if r.novel = true then pure (some (childOf generation plan proposal r.freshId (childWorkspace plan proposal)), false)
    else noveltyRejected env
  else do
    let r ← consult env
    pure (some (childOf generation plan proposal r.freshId (childWorkspace plan proposal)), false)

def absorbProposed (generation : ℕ) (plan : ProposalPlan) (proposal : Proposal) :
    Prog LoopWorld RunFault (Option Candidate × Bool) := do
  let r ← consult env
  match s.hasPreflight, r.refusal with
  | true, some refusal => preflightFailed env generation plan refusal
  | _, _ => s.admitted env generation plan proposal

/-- `_absorb_proposal`: the candidate, and whether to plan again. -/
def absorbProposal (generation : ℕ) (plan : ProposalPlan) (result : ProposeResult) :
    Prog LoopWorld RunFault (Option Candidate × Bool) := do
  charge env result.llmCost
  changeReport fun r => { r with totalLlmCost := r.totalLlmCost + result.llmCost }
  match result.proposal with
  | none => s.proposalFailed env generation plan result
  | some proposal => s.absorbProposed env generation plan proposal

def propose (generation : ℕ) : ℕ → Prog LoopWorld RunFault (Option Candidate)
  | 0 => pure none
  | left + 1 => do
    let plan ← planProposal env
    match plan with
    | none => pure none
    | some plan => do
      let result ← s.callOne env plan
      let absorbed ← s.absorbProposal env generation plan result
      match absorbed with
      | (some cand, _) => pure (some cand)
      | (none, false) => pure none
      | (none, true) => propose generation left

def proposeOne (generation : ℕ) : Prog LoopWorld RunFault (Option Candidate) :=
  s.propose env generation s.cfg.maxNoveltyAttempts

def proposeEach (generation : ℕ) : ℕ → Prog LoopWorld RunFault (List Candidate)
  | 0 => pure []
  | count + 1 => do
    let cand ← s.proposeOne env generation
    let rest ← proposeEach generation count
    pure (cand.toList ++ rest)

def planAll : ℕ → Prog LoopWorld RunFault (List ProposalPlan)
  | 0 => pure []
  | count + 1 => do
    let plan ← planProposal env
    match plan with
    | none => pure []
    | some plan => do
      let rest ← planAll count
      pure (plan :: rest)

def absorbOrRetry (generation : ℕ) (plan : ProposalPlan) (result : ProposeResult) :
    Prog LoopWorld RunFault (List Candidate) := do
  let absorbed ← s.absorbProposal env generation plan result
  match absorbed with
  | (some cand, _) => pure [cand]
  | (none, false) => pure []
  | (none, true) => Option.toList <$> s.proposeOne env generation

def absorbAll (generation : ℕ) : List (ProposalPlan × ProposeResult) → Prog LoopWorld RunFault (List Candidate)
  | [] => pure []
  | (plan, result) :: rest => do
    let cands ← s.absorbOrRetry env generation plan result
    let more ← absorbAll generation rest
    pure (cands ++ more)

def callAndAbsorb (generation : ℕ) (plans : List ProposalPlan) : Prog LoopWorld RunFault (List Candidate) := do
  let results ← s.callAll env plans
  s.absorbAll env generation (plans.zip results)

def proposeMany (generation count : ℕ) : Prog LoopWorld RunFault (List Candidate) :=
  if max 1 (min s.cfg.proposalConcurrency count) = 1 then s.proposeEach env generation count
  else do
    let plans ← planAll env count
    if plans.isEmpty = true then pure [] else s.callAndAbsorb env generation plans

def takeReport (r : EvalReport) : Prog LoopWorld RunFault Unit := do
  charge env r.evalCostUsd
  changeReport fun rep =>
    { rep with totalEvalCost := rep.totalEvalCost + r.evalCostUsd, evaluations := rep.evaluations + 1 }

def returned : GradeAnswer → Prog LoopWorld RunFault Unit
  | .report r => happen (.graded r.evalCostUsd)
  | _ => pure ()

def GradeAnswer.report? : GradeAnswer → Except RunFault EvalReport
  | .report r => .ok r
  | .infra error => .error (.evalInfra error)
  | .raised described => .error (.other described)

def grade : Prog LoopWorld RunFault EvalReport := do
  let r ← component env
  returned (r.grades 0)
  let rep ← ofExcept (GradeAnswer.report? (r.grades 0))
  takeReport env rep
  pure rep

def outcome : GradeAnswer → Except RunFault (Except Text EvalReport)
  | .report r => .ok (.ok r)
  | .infra error => .ok (.error error)
  | .raised described => .error (.other described)

def gradeAll (cands : List Candidate) : Prog LoopWorld RunFault (List (Candidate × Except Text EvalReport)) := do
  let r ← component env
  let answers := cands.mapIdx fun slot cand => (cand, r.grades slot)
  Prog.forEach answers fun a => returned a.2
  ofExcept (answers.mapM fun a => (outcome a.2).map fun o => (a.1, o))

def gradedRow (generation : ℕ) (cand : Candidate) (r : EvalReport) : HistoryRow :=
  .graded generation r.passed cand.id cand.operator r.fitness cand.parentId

def absorbOutcome (generation infraStreak : ℕ) (cand : Candidate) :
    Except Text EvalReport → Prog LoopWorld RunFault ℕ
  | .error error => do
    record (.infraError generation cand.id error)
    pure (infraStreak + 1)
  | .ok r => do
    takeReport env r
    let _ ← component env
    record (gradedRow generation cand r)
    pure 0

def absorbOutcomes (generation : ℕ) : List (Candidate × Except Text EvalReport) → ℕ → Prog LoopWorld RunFault ℕ
  | [], infraStreak => pure infraStreak
  | (cand, o) :: rest, infraStreak => do
    let streak ← absorbOutcome env generation infraStreak cand o
    absorbOutcomes generation rest streak

def housekeeping : Prog LoopWorld RunFault Unit := do
  let r ← component env
  changeReport fun rep => { rep with history := rep.history ++ r.revived }

def noteBest : Prog LoopWorld RunFault Unit := do
  let r ← consult env
  changeReport (RunReport.withBest · r.best)

/-- `_run_batch_generation`: the new streak, and whether there was any candidate. -/
def runBatchGeneration (generation infraStreak : ℕ) : Prog LoopWorld RunFault (ℕ × Bool) := do
  let cands ← s.proposeMany env generation s.cfg.evalBatchSize
  if cands.isEmpty = true then do
    record (.skipped generation)
    pure (infraStreak, false)
  else do
    let outcomes ← gradeAll env cands
    let streak ← absorbOutcomes env generation outcomes infraStreak
    housekeeping env
    noteBest env
    pure (streak, true)

def stop (reason : String) : Prog LoopWorld RunFault (Option (ℕ × ℕ)) := do
  changeReport fun r => { r with stoppedReason := reason.toList }
  pure none

/-- `except LLMBillingError`, around the proposals of a generation; `none` when it was raised. -/
def unlessBilling {α : Type} (m : Prog LoopWorld RunFault α) : Prog LoopWorld RunFault (Option α) :=
  Prog.rescue (some <$> m) fun
    | .billing _ => some (pure none)
    | _ => none

def stopOnBilling {α : Type} (m : Prog LoopWorld RunFault α) (next : α → Prog LoopWorld RunFault (Option (ℕ × ℕ))) :
    Prog LoopWorld RunFault (Option (ℕ × ℕ)) := do
  let r ← unlessBilling m
  match r with
  | none => stop "llm_billing"
  | some a => next a

def complete (generation : ℕ) : Prog LoopWorld RunFault Unit := do
  changeReport fun r => { r with generationsCompleted := generation }
  saveCheckpoint env generation

def unlessTarget (streaks : ℕ × ℕ) : Prog LoopWorld RunFault (Option (ℕ × ℕ)) := do
  let r ← component env
  if r.targetReached = true then stop "target_reached" else pure (some streaks)

def endBatch (generation infraStreak proposeStreak : ℕ) : Prog LoopWorld RunFault (Option (ℕ × ℕ)) := do
  complete env generation
  if s.cfg.maxConsecutiveInfraFailures ≤ infraStreak then stop "eval_infra"
  else if s.cfg.maxConsecutiveInfraFailures ≤ proposeStreak then stop "proposer_dead"
  else unlessTarget env (infraStreak, proposeStreak)

def afterBatch (generation proposeStreak : ℕ) (ended : ℕ × Bool) : Prog LoopWorld RunFault (Option (ℕ × ℕ)) :=
  s.endBatch env generation ended.1 (if ended.2 = true then 0 else proposeStreak + 1)

def batch (generation infraStreak proposeStreak : ℕ) : Prog LoopWorld RunFault (Option (ℕ × ℕ)) :=
  stopOnBilling (s.runBatchGeneration env generation infraStreak) (s.afterBatch env generation proposeStreak)

def dropped (generation infraStreak : ℕ) (cand : Candidate) (error : Text) :
    Prog LoopWorld RunFault (Option (ℕ × ℕ)) := do
  record (.infraError generation cand.id error)
  complete env generation
  if s.cfg.maxConsecutiveInfraFailures ≤ infraStreak + 1 then stop "eval_infra" else pure (some (infraStreak + 1, 0))

def keepGraded (generation : ℕ) (cand : Candidate) (r : EvalReport) : Prog LoopWorld RunFault (Option (ℕ × ℕ)) := do
  housekeeping env
  noteBest env
  record (gradedRow generation cand r)
  complete env generation
  unlessTarget env (0, 0)

/-- The grade of one candidate, or the text of an `EvalInfraError`. -/
def tryGrade : Prog LoopWorld RunFault (Except Text EvalReport) :=
  Prog.rescue (Except.ok <$> grade env) fun
    | .evalInfra error => some (pure (.error error))
    | _ => none

def gradeOne (generation infraStreak : ℕ) (cand : Candidate) : Prog LoopWorld RunFault (Option (ℕ × ℕ)) := do
  let graded ← tryGrade env
  match graded with
  | .error error => s.dropped env generation infraStreak cand error
  | .ok r => keepGraded env generation cand r

def afterPropose (generation infraStreak proposeStreak : ℕ) :
    Option Candidate → Prog LoopWorld RunFault (Option (ℕ × ℕ))
  | none => do
    record (.skipped generation)
    complete env generation
    if s.cfg.maxConsecutiveInfraFailures ≤ proposeStreak + 1 then stop "proposer_dead"
    else pure (some (infraStreak, proposeStreak + 1))
  | some cand => s.gradeOne env generation infraStreak cand

def serial (generation infraStreak proposeStreak : ℕ) : Prog LoopWorld RunFault (Option (ℕ × ℕ)) :=
  stopOnBilling (s.proposeOne env generation) (s.afterPropose env generation infraStreak proposeStreak)

def runGeneration (generation infraStreak proposeStreak : ℕ) : Prog LoopWorld RunFault (Option (ℕ × ℕ)) := do
  happen (.began generation)
  if 1 < s.cfg.evalBatchSize then s.batch env generation infraStreak proposeStreak
  else s.serial env generation infraStreak proposeStreak

/-- `for generation in range(…)`, with the generations that are left. -/
def generations : ℕ → ℕ → ℕ → ℕ → Prog LoopWorld RunFault Unit
  | 0, _, _, _ => pure ()
  | left + 1, generation, infraStreak, proposeStreak => do
    let r ← component env
    if r.overBudget = true then changeReport fun rep => { rep with stoppedReason := "budget".toList }
    else do
      let streaks ← s.runGeneration env generation infraStreak proposeStreak
      match streaks with
      | none => pure ()
      | some streaks => generations left (generation + 1) streaks.1 streaks.2

/-- `_grade_seed`, with the attempts that are left after this one. -/
def gradeSeed : ℕ → Prog LoopWorld RunFault EvalReport
  | 0 => grade env
  | left + 1 => Prog.rescue (grade env) fun
      | .evalInfra _ => some (gradeSeed left)
      | _ => none

def seedAll : List Workspace → Prog LoopWorld RunFault Unit
  | [] => pure ()
  | _ :: rest => do
    let _ ← gradeSeed env (s.cfg.maxConsecutiveInfraFailures - 1)
    let _ ← component env
    seedAll rest

def seed : Prog LoopWorld RunFault Unit := do
  changeReport fun r => { r with stoppedReason := "running".toList }
  s.seedAll env s.seeds
  let _ ← component env
  saveCheckpoint env 0

def resumed (saved : RunReport × ℕ) : RunReport :=
  if saved.1.stoppedReason = "completed".toList ∧ saved.2 + 1 ≤ s.cfg.numGenerations then
    { saved.1 with stoppedReason := "running".toList }
  else saved.1

/-- The checkpoint and the population a run starts from; what comes back is its first generation. -/
def start : Prog LoopWorld RunFault ℕ := do
  let r ← component env
  match r.checkpoint with
  | some saved =>
    if r.population = 0 then Prog.raise (.other "ValueError".toList)
    else do
      changeReport fun _ => s.resumed saved
      pure (saved.2 + 1)
  | none =>
    if r.population = 0 then do
      s.seed env
      pure 1
    else if s.keepPopulation = true then pure 1
    else Prog.raise (.other "RuntimeError".toList)

def finish : Prog LoopWorld RunFault RunReport := do
  changeReport RunReport.completed
  noteBest env
  let w ← Prog.get
  pure w.report

def run : Prog LoopWorld RunFault RunReport := do
  let first ← s.start env
  s.generations env (s.cfg.numGenerations + 1 - first) first 0 0
  finish env

end
end SearchLoop
end EvoHarness.Core
